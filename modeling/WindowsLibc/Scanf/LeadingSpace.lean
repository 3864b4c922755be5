import Mathlib.Data.List.GetD
import WindowsLibc.Scanf.Matching

/-!
# White space in front of the input

The white space that a directive skips is part of the count that says whether the directive has matched
anything. So a first directive that matches nothing ends the scan, but not if there is white space in front
of the input.

* Behind the first directive the two runs are the same, one of them further on in memory
  (`scanfLoop_onto`). What they store differs in `%n` only, which is to say that the count starts
  elsewhere (`scanfFrom`).
* `spaceIrrelevant_iff`: for which inputs white space in front makes no difference.
-/

namespace WindowsLibc.Scanf

open WindowsLibc.Printf

variable {b b' : Buffer} {c : UInt32}

/-! ## White space in front -/

/-- The count of a loop starts anywhere. -/
theorem readFrom_count {α : Type} (body : α → UInt8 → Option α) (fuel : Nat) (value : α) (n c : UInt32)
    (b : Buffer) :
    readFrom body fuel value (n + c) b =
      ⟨(readFrom body fuel value c b).value, n + (readFrom body fuel value c b).count,
        (readFrom body fuel value c b).buffer⟩ := by
  induction fuel generalizing value c b with
  | zero => rfl
  | succ fuel ih =>
    rw [readFrom, readFrom]
    split
    · rfl
    · split
      · rfl
      · rw [UInt32.add_assoc]
        exact ih _ _ _

/-- White space at the front is taken, and the loop goes on behind it. -/
theorem readFrom_spaces {k : Nat} (h : ∀ i < k, isSpace (b.peekbyte i) = true) (fuel : Nat) (c : UInt32) :
    readFrom (fun (_ : Unit) byte => if isSpace byte then some () else none) (k + fuel) () c b =
      readFrom (fun _ byte => if isSpace byte then some () else none) fuel () (c + UInt32.ofNat k)
        (skip b k) := by
  induction k generalizing b c with
  | zero => rw [Nat.zero_add, show c + UInt32.ofNat 0 = c from UInt32.add_zero c]; rfl
  | succ k ih =>
    have hfirst := h 0 (Nat.succ_pos k)
    have hpeek : b.peekbyte 0 ≠ 0 := by
      intro hzero
      rw [hzero, isSpace_zero] at hfirst
      cases hfirst
    have hrest : ∀ i < k, isSpace (b.next.peekbyte i) = true := by
      intro i hi
      rw [next_of_peekbyte hpeek, peekbyte_skip, Nat.add_comm]
      exact h (i + 1) (Nat.succ_lt_succ hi)
    rw [Nat.add_right_comm, readFrom, if_neg hpeek, if_pos hfirst]
    dsimp only
    rw [ih hrest, next_of_peekbyte hpeek, UInt32.add_assoc, Nat.add_comm k 1, UInt32.ofNat_add]
    simp only [skip, Nat.add_assoc]
    rfl

/-- The input `t`, with what stands behind it in memory. -/
def input (t rest : List UInt8) : Buffer := .fixed (t ++ 0 :: rest) t.length

variable {w t : List UInt8}

theorem carries_input (w t rest : List UInt8) (i : Nat) :
    (w ++ (t ++ 0 :: rest)).getD (i + w.length) 0 = (t ++ 0 :: rest).getD i 0 := by
  rw [List.getD_append_right _ _ _ _ (Nat.le_add_left _ _), Nat.add_sub_cancel]

theorem consumeWhitespaces_append (hw : ∀ c ∈ w, isSpace c = true) (t rest : List UInt8) :
    consumeWhitespaces (input (w ++ t) rest) =
      ⟨(), UInt32.ofNat w.length + (consumeWhitespaces (input t rest)).count,
        onto (w ++ (t ++ 0 :: rest)) w.length (consumeWhitespaces (input t rest)).buffer⟩ := by
  have hpeek : ∀ i < w.length, isSpace ((input (w ++ t) rest).peekbyte i) = true := by
    intro i hi
    have hbyte : (input (w ++ t) rest).peekbyte i = w[i] := by
      unfold Buffer.peekbyte input Buffer.fixed
      dsimp only
      rw [if_neg Bool.false_ne_true, if_neg (by rw [List.length_append]; omega), Nat.zero_add,
        List.append_assoc, List.getD_append _ _ _ _ hi, List.getD_eq_getElem _ _ hi]
    rw [hbyte]
    exact hw _ (List.getElem_mem hi)
  have hskip : skip (input (w ++ t) rest) w.length =
      onto (w ++ (t ++ 0 :: rest)) w.length (input t rest) := by
    simp only [skip, input, Buffer.fixed, onto, List.append_assoc, List.length_append,
      Nat.add_comm w.length]
  have hcarries : Carries (w ++ (t ++ 0 :: rest)) w.length (input t rest) :=
    fun i _ => carries_input w t rest i
  have hroom : (input (w ++ t) rest).size - (input (w ++ t) rest).pos = w.length + t.length :=
    List.length_append
  unfold consumeWhitespaces readWhile
  rw [hroom, readFrom_spaces hpeek, hskip, readFrom_onto hcarries, UInt32.zero_add,
    ← UInt32.add_zero (UInt32.ofNat w.length), readFrom_count]
  simp only [UInt32.add_zero]
  rfl

theorem field_append (hw : ∀ c ∈ w, isSpace c = true) (t rest : List UInt8) {config : ScanConfig}
    (hspace : config.type.keepsSpace = false) :
    config.field (input (w ++ t) rest) =
      onto (w ++ (t ++ 0 :: rest)) w.length (config.field (input t rest)) := by
  simp only [ScanConfig.field, ScanConfig.spaces, hspace, Bool.false_eq_true, if_false,
    consumeWhitespaces_append hw]
  split
  · simp only [onto, Nat.add_right_comm]
  · rfl

theorem field_sees (hlength : w.length + t.length ≤ 65536) (rest : List UInt8) (config : ScanConfig) :
    Sees (w ++ (t ++ 0 :: rest)) w.length (config.field (input t rest)) := by
  obtain ⟨j, size, hsolid, -, -, hfield, hsize, -⟩ := field_eq config (input t rest)
  have hj := hsolid.le_size
  change j ≤ t.length at hj
  change size ≤ max t.length (0 + j + 2 ^ 32) at hsize
  rw [hfield]
  refine ⟨fun i _ => carries_input w t rest i, ?_, .inr fun i => carries_input w t rest i⟩
  change max (0 + j) size + w.length ≤ 2 ^ 64
  omega

/-- `config->result` is for `%n`. -/
theorem doScan_result {config : ScanConfig} (htype : config.type ≠ .result) (env : ScanEnv)
    (result : UInt64) (b : Buffer) (st : Store) :
    doScan env { config with result := result } b st = doScan env config b st := by
  unfold doScan
  cases hty : config.type
  case result => exact absurd hty htype
  all_goals rfl

theorem scanArg_result {config : ScanConfig} (htype : config.type ≠ .result) (env : ScanEnv)
    (result : UInt64) (b : Buffer) (st : Store) :
    scanArg env { config with result := result } b st = scanArg env config b st := by
  rw [scanArg_eq, scanArg_eq, ← doScan_result htype env result]
  rfl

/-- **The white space is counted, and everything else stands further on.** -/
theorem scanArg_append (hw : ∀ c ∈ w, isSpace c = true) (hlength : w.length + t.length ≤ 65536)
    (rest : List UInt8) {config : ScanConfig} (hspace : config.type.keepsSpace = false) (env : ScanEnv)
    (st : Store) :
    scanArg env config (input (w ++ t) rest) st = (scanArg env config (input t rest) st).map
      fun (count, b, st) =>
        (UInt32.ofNat w.length + count, onto (w ++ (t ++ 0 :: rest)) w.length b, st) := by
  rw [scanArg_eq, scanArg_eq, field_append hw t rest hspace, doScan_onto (field_sees hlength rest config),
    Option.map_map, Option.map_map]
  congr 1
  funext ⟨count, b', st'⟩
  simp only [Function.comp, Scanned.onto, ScanConfig.spaces, hspace, Bool.false_eq_true, if_false,
    consumeWhitespaces_append hw, UInt32.add_assoc]
  split <;> rfl

/-! ## The loop, further on in memory -/

variable {D : List UInt8} {d : Nat} {env : ScanEnv} {l l' : ScanLoop}

/-- Where a turn may leave the position. -/
theorem scanfIteration_pos (hsize : l.buffer.size ≤ 65536) (hpos : l.buffer.pos ≤ 2 ^ 63)
    (h : scanfIteration env l = some (.next l')) :
    ∃ p, l'.buffer = { l.buffer with pos := p } ∧ p ≤ l.buffer.pos + 2 ^ 33 := by
  have hwithin {b : Buffer} (hb : Within l.buffer b) :
      ∃ p, b = { l.buffer with pos := p } ∧ p ≤ l.buffer.pos + 2 ^ 33 := by
    obtain ⟨p, rfl, hp⟩ := hb
    exact ⟨p, rfl, by omega⟩
  rcases scanfIteration_next h with ⟨front, byte, format, -, -, rfl⟩ | ⟨byte, format, -, rfl⟩ |
    ⟨spec, config, format, args, count, buffer, store, result, hformat, hparse, hscan, -, rfl⟩
  · exact hwithin (within_next _)
  · exact hwithin (consumeWhitespaces_moves _).within
  · obtain ⟨j, size, hsolid, -, -, hfield, hwidth, -⟩ := field_eq config l.buffer
    have hj := hsolid.le_size
    have hfieldsize : (config.field l.buffer).size = size := by rw [hfield]
    obtain ⟨p, rfl, hp⟩ := @scanArg_within _ _ _ _ { config with result := l.processed.toUInt64 } _ _
      (by change (config.field l.buffer).size ≤ 2 ^ 64; omega) hscan
    change p ≤ max l.buffer.pos (max l.buffer.size (config.field l.buffer).size) at hp
    exact ⟨p, rfl, by omega⟩

/-- `D` has all the bytes that the loop can come to, `d` bytes further on. -/
structure Copied (D : List UInt8) (d fuel : Nat) (l : ScanLoop) : Prop where
  same : ∀ i, D.getD (i + d) 0 = l.buffer.data.getD i 0
  size : l.buffer.size ≤ 65536
  offset : d ≤ 65536
  bound : l.buffer.pos + 2 ^ 33 * fuel ≤ 2 ^ 63

theorem Copied.sees {fuel : Nat} (h : Copied D d fuel l) :
    Carries D d l.buffer ∧ l.Sees D d := by
  refine ⟨fun i _ => h.same i, ?_⟩
  intro spec config format args _ _
  obtain ⟨j, size, hsolid, -, -, hfield, hwidth, -⟩ := field_eq config l.buffer
  have hj := hsolid.le_size
  have hsize := h.size
  have hoffset := h.offset
  have hbound := h.bound
  rw [hfield]
  refine ⟨fun i _ => h.same i, ?_, .inr h.same⟩
  change max (l.buffer.pos + j) size + d ≤ 2 ^ 64
  omega

theorem Copied.next {fuel : Nat} (h : Copied D d (fuel + 1) l)
    (hturn : scanfIteration env l = some (.next l')) : Copied D d fuel l' := by
  have hbound := h.bound
  obtain ⟨p, hbuffer, hp⟩ := scanfIteration_pos h.size (by omega) hturn
  refine ⟨?_, ?_, h.offset, ?_⟩
  · rw [hbuffer]
    exact h.same
  · rw [hbuffer]
    exact h.size
  · rw [hbuffer]
    change p + 2 ^ 33 * fuel ≤ 2 ^ 63
    omega

/-- **The loop does the same further on in memory.** -/
theorem scanfLoop_onto {fuel : Nat} (h : Copied D d fuel l) :
    scanfLoop env fuel (l.onto D d) = scanfLoop env fuel l := by
  induction fuel generalizing l with
  | zero => rfl
  | succ fuel ih =>
    obtain ⟨hcarries, hsees⟩ := h.sees
    rw [scanfLoop, scanfLoop, scanfIteration_onto hcarries hsees]
    cases hturn : scanfIteration env l with
    | none => rfl
    | some turn =>
      cases turn with
      | next l' => exact ih (h.next hturn)
      | done l' => rfl
      | failed l' => rfl

/-! ## What the count is for -/

/-- What a conversion has read. -/
def Scanned.read (s : Scanned) : UInt32 × Buffer := (s.1, s.2.1)

/-- What a conversion reads does not depend on what has been stored before. -/
theorem doScan_read (env : ScanEnv) (config : ScanConfig) (result result' : UInt64) (b : Buffer)
    (st st' : Store) :
    (doScan env { config with result := result } b st).map Scanned.read =
      (doScan env { config with result := result' } b st').map Scanned.read := by
  have hfloat (taken : Taken UInt64) (config' : ScanConfig) (st : Store) :
      (storeFloat env config' st taken).read = (taken.count, taken.buffer) := by
    unfold storeFloat
    split <;> rfl
  unfold doScan
  cases config.type
  case string =>
    dsimp only
    unfold scanString
    split
    · rfl
    · rw [Option.map_map, Option.map_map]
      rfl
  case char =>
    simp only [scanChar, Option.map_some]
    split
    · rfl
    · split
      · split_ifs <;> rfl
      · split_ifs <;> rfl
      · rfl
  case set =>
    simp only [scanSet, Option.map_some]
    split <;> rfl
  all_goals simp only [Option.map_some, hfloat]
  all_goals rfl

theorem scanArg_read (env : ScanEnv) (config : ScanConfig) (result result' : UInt64) (b : Buffer)
    (st st' : Store) :
    (scanArg env { config with result := result } b st).map Scanned.read =
      (scanArg env { config with result := result' } b st').map Scanned.read := by
  have hread := congrArg (Option.map fun r : UInt32 × Buffer => ((config.spaces b).count + r.1,
    if config.width > 0 then { r.2 with size := (config.spaces b).buffer.size } else r.2))
    (doScan_read env config result result' (config.field b) st st')
  rw [Option.map_map, Option.map_map] at hread
  rw [scanArg_eq, scanArg_eq, Option.map_map, Option.map_map]
  exact hread

/-- The state without the count and what has been stored. -/
def ScanLoop.bare (l : ScanLoop) : ScanLoop :=
  { l with
    store := ⟨fun _ => 0, []⟩
    processed := 0 }

/-- The end of a turn, without the count and what has been stored. -/
def ScanTurn.bare : ScanTurn → ScanTurn
  | .next l => .next l.bare
  | .done l => .done l.bare
  | .failed l => .failed l.bare

theorem scanDirective_bare (env : ScanEnv) (l : ScanLoop) (processed : UInt32) (store : Store)
    (format : List UInt8) :
    (scanDirective env { l with store := store, processed := processed } format).map ScanTurn.bare =
      (scanDirective env l format).map ScanTurn.bare := by
  unfold scanDirective
  change ((parseScanSpecifier format l.args).bind _).map _ =
    ((parseScanSpecifier format l.args).bind _).map _
  cases parseScanSpecifier format l.args with
  | none => rfl
  | some parsed =>
    obtain ⟨config, format, args⟩ := parsed
    simp only [Option.bind_some]
    split
    · rfl
    · have hread := scanArg_read env config processed.toUInt64 l.processed.toUInt64 l.buffer store l.store
      change ((scanArg env { config with result := processed.toUInt64 } l.buffer store).bind _).map _ =
        ((scanArg env { config with result := l.processed.toUInt64 } l.buffer l.store).bind _).map _
      generalize scanArg env { config with result := processed.toUInt64 } l.buffer store = x at hread ⊢
      generalize scanArg env { config with result := l.processed.toUInt64 } l.buffer l.store = y at hread ⊢
      cases x with
      | none =>
        cases y with
        | none => rfl
        | some _ => cases hread
      | some s =>
        cases y with
        | none => cases hread
        | some s' =>
          obtain ⟨count, buffer, st⟩ := s
          obtain ⟨count', buffer', st'⟩ := s'
          cases hread
          simp only [Option.bind_some]
          split
          · rfl
          · split
            · split <;> rfl
            · rfl

theorem scanfIteration_bare (env : ScanEnv) (l : ScanLoop) (processed : UInt32) (store : Store) :
    (scanfIteration env { l with store := store, processed := processed }).map ScanTurn.bare =
      (scanfIteration env l).map ScanTurn.bare := by
  unfold scanfIteration
  dsimp only
  split
  · rfl
  · rfl
  · split <;> rfl
  · exact scanDirective_bare env l processed store _
  · split
    · rfl
    · split <;> rfl

theorem ScanLoop.eq_of_bare (h : l'.bare = l.bare) :
    l' = { l with store := l'.store, processed := l'.processed } := by
  obtain ⟨format, args, buffer, store, processed, result⟩ := l
  obtain ⟨format', args', buffer', store', processed', result'⟩ := l'
  cases h
  rfl

/-- **The value returned does not depend on the count**, nor on what has been stored. -/
theorem scanfLoop_bare (fuel : Nat) (l : ScanLoop) (processed : UInt32) (store : Store) :
    (scanfLoop env fuel { l with store := store, processed := processed }).map Prod.fst =
      (scanfLoop env fuel l).map Prod.fst := by
  induction fuel generalizing l processed store with
  | zero => rfl
  | succ fuel ih =>
    have hbare := scanfIteration_bare env l processed store
    rw [scanfLoop, scanfLoop]
    generalize scanfIteration env { l with store := store, processed := processed } = x at hbare ⊢
    generalize scanfIteration env l = y at hbare ⊢
    cases x with
    | none =>
      cases y with
      | none => rfl
      | some _ => cases hbare
    | some turn' =>
      cases y with
      | none => cases hbare
      | some turn =>
        have hturn : turn'.bare = turn.bare := Option.some.inj hbare
        cases turn' <;> cases turn <;> simp only [ScanTurn.bare, ScanTurn.next.injEq,
          ScanTurn.done.injEq, ScanTurn.failed.injEq, reduceCtorEq] at hturn
        case next.next l₁ l₂ =>
          simp only [Option.bind_some]
          rw [ScanLoop.eq_of_bare hturn]
          exact ih _ _ _
        case done.done l₁ l₂ =>
          have hresult : l₁.bare.result = l₂.bare.result := by rw [hturn]
          change l₁.result = l₂.result at hresult
          simp only [Option.bind_some, Option.map_some, hresult]
        case failed.failed l₁ l₂ => rfl

/-! ## Behind the first directive -/

/-- A turn changes the result by one at most. -/
theorem scanfIteration_results {turn : ScanTurn} (h : scanfIteration env l = some turn) :
    match turn with
    | .next l' => l'.result = l.result ∨ l'.result = l.result + 1
    | .done l' => l'.result = l.result
    | .failed _ => True := by
  unfold scanfIteration at h
  split at h
  · cases h
    rfl
  · cases h
    rfl
  · split at h
    · cases h
      rfl
    · cases h
      exact .inl rfl
  · unfold scanDirective at h
    obtain ⟨⟨config, format, args⟩, -, h⟩ := Option.bind_eq_some_iff.mp h
    dsimp only at h
    split at h
    · cases h
      trivial
    · obtain ⟨⟨count, buffer, store⟩, -, h⟩ := Option.bind_eq_some_iff.mp h
      dsimp only at h
      split at h
      · cases h
        trivial
      · split at h
        · split at h
          · cases h
            rfl
          · cases h
            exact .inr rfl
        · cases h
          exact .inl rfl
  · split at h
    · cases h
      exact .inl rfl
    · split at h
      · cases h
        rfl
      · cases h
        exact .inl rfl

/-- Once something has been stored, the value returned is not 0. -/
theorem scanfLoop_ne_zero {fuel : Nat} (hresult : 0 < l.result.toNat)
    (hroom : l.result.toNat + fuel < 2 ^ 31) {r : Int32} {st : Store}
    (h : scanfLoop env fuel l = some (r, st)) : r ≠ 0 := by
  have hne {x : UInt32} (hx : 0 < x.toNat) : x.toInt32 ≠ 0 := by
    intro hzero
    have hx' : x = 0 := by
      rw [← UInt32.toUInt32_toInt32 x, hzero]
      rfl
    rw [hx'] at hx
    exact absurd hx (Nat.lt_irrefl 0)
  induction fuel generalizing l with
  | zero =>
    cases h
    exact hne hresult
  | succ fuel ih =>
    rw [scanfLoop] at h
    obtain ⟨turn, hturn, h⟩ := Option.bind_eq_some_iff.mp h
    have hresults := scanfIteration_results hturn
    cases turn with
    | next l' =>
      dsimp only at hresults h
      rcases hresults with heq | heq
      · refine ih ?_ ?_ h
        · rwa [heq]
        · rw [heq]
          omega
      · have hnat : l'.result.toNat = l.result.toNat + 1 := by
          rw [heq, UInt32.toNat_add]
          change (l.result.toNat + 1) % 2 ^ 32 = _
          omega
        exact ih (by omega) (by omega) h
    | done l' =>
      cases h
      rw [hresults]
      exact hne hresult
    | failed l' =>
      cases h
      decide

theorem input_peekbyte (t rest : List UInt8) : (input t rest).peekbyte 0 = t.headD 0 := by
  cases t <;> rfl

/-- Behind `t` there is a zero. -/
theorem field_solid {rest : List UInt8} {j size k : Nat} (hj : j ≤ t.length)
    (h : Solid { skip (input t rest) j with size := size } k) : j + k ≤ t.length := by
  by_contra hlt
  apply h (t.length - j) (by omega)
  unfold Buffer.peekbyte
  split
  · rfl
  · split
    · rfl
    · change (t ++ 0 :: rest).getD (0 + j + (t.length - j)) 0 = 0
      rw [show 0 + j + (t.length - j) = t.length by omega,
        List.getD_append_right _ _ _ _ (Nat.le_refl _), Nat.sub_self]
      rfl

theorem Matches.accounted {config : ScanConfig} (h : Matches config b) :
    config.type ≠ .char ∧ Accounted config b := by
  unfold Matches at h
  unfold Accounted
  cases hty : config.type <;> rw [hty] at h
  case char => exact h.elim
  case pointer => exact ⟨by decide, fun _ => h.2⟩
  case doubleHex => exact ⟨by decide, h.imp_right .inl⟩
  all_goals exact ⟨by decide, trivial⟩

/-- **What the first directive counts**: it is not 0 if there is white space, or if it matches. -/
theorem scanArg_count {config : ScanConfig} {rest : List UInt8} {st st' : Store}
    (hlength : t.length ≤ 65536) (hspace : config.type.keepsSpace = false)
    (h : scanArg env config (input t rest) st = some (c, b', st')) :
    ∃ k ≤ t.length, c = UInt32.ofNat k ∧
      (k ≠ 0 ↔ isSpace (t.headD 0) = true ∨ Matches config (config.field (input t rest))) := by
  obtain ⟨j, size, hsolid, hcount, hbuffer, hfield, hwidth, -⟩ := field_eq config (input t rest)
  have hj : j ≤ t.length := hsolid.le_size
  have hspaces : config.spaces (input t rest) = consumeWhitespaces (input t rest) := by
    rw [ScanConfig.spaces, hspace, if_neg Bool.false_ne_true]
  rw [hspaces] at hcount
  -- white space is skipped exactly if there is some
  have hfirst : j ≠ 0 ↔ isSpace (t.headD 0) = true := by
    constructor
    · intro hne
      by_contra hnone
      have hzero := consumeWhitespaces_count (b := input t rest) (by rwa [input_peekbyte])
      rw [hcount] at hzero
      have hnat := congrArg UInt32.toNat hzero
      rw [UInt32.toNat_ofNat'] at hnat
      change j % 2 ^ 32 = 0 at hnat
      omega
    · intro hhead hzero
      have hpeek : (input t rest).peekbyte 0 ≠ 0 := by
        rw [input_peekbyte]
        intro hz
        rw [hz, isSpace_zero] at hhead
        cases hhead
      have hgains := @readWhile_gains (input t rest) Unit
        (fun _ byte => if isSpace byte then some () else none) () hpeek
        (by rw [input_peekbyte, hhead]; exact Option.some_ne_none _) 0
      rw [← consumeWhitespaces, ← hspaces, hbuffer, hzero] at hgains
      exact absurd hgains (Nat.lt_irrefl _)
  rw [scanArg_eq, hspaces] at h
  obtain ⟨⟨c₁, b₁, st₁⟩, hscan, hresult⟩ := Option.map_eq_some_iff.mp h
  cases hresult
  have hsize : (config.field (input t rest)).size ≤ 2 ^ 64 := by
    rw [hfield]
    change size ≤ max t.length (0 + j + 2 ^ 32) at hwidth
    change size ≤ 2 ^ 64
    omega
  by_cases hmatch : Matches config (config.field (input t rest))
  · obtain ⟨k, hk, hcount₁, hbuffer₁⟩ :=
      doScan_moves hmatch.accounted.1 hsize hmatch.accounted.2 hscan
    have hgains := doScan_gains hsize hmatch hscan
    rw [hbuffer₁] at hgains
    have hpos : 0 < k := Nat.lt_add_right_iff_pos.mp hgains
    rw [hfield] at hk
    refine ⟨j + k, field_solid hj hk, ?_, ?_⟩
    · rw [hcount, hcount₁, UInt32.zero_add, UInt32.ofNat_add]
    · exact ⟨fun _ => .inr hmatch, fun _ => by omega⟩
  · obtain ⟨b₂, st₂, hzero⟩ := @doScan_unmatched _ env _ hspace hmatch st
    rw [hzero] at hscan
    cases hscan
    refine ⟨j, hj, ?_, ?_⟩
    · rw [hcount, UInt32.add_zero]
    · rw [hfirst]
      exact ⟨.inl, fun h => h.resolve_right hmatch⟩

/-- The turn at a directive that skips white space. -/
theorem scanDirective_first {spec format : List UInt8} {config : ScanConfig} {args : VariadicArgs}
    {count : UInt32} {buffer : Buffer} {store : Store}
    (hparse : parseScanSpecifier spec l.args = some (config, format, args))
    (hspace : config.type.keepsSpace = false) (hknown : config.type ≠ .unknown)
    (hscan : scanArg env config l.buffer l.store = some (count, buffer, store))
    (herror : buffer.error = false) :
    scanDirective env l spec = some (
      if config.flags.suppressInput = false ∧ count = 0 then
        .done { l with format := format, args := args, buffer := buffer, store := store }
      else .next ⟨format, args, buffer, store, l.processed + count,
        if config.flags.suppressInput then l.result else l.result + 1⟩) := by
  have hresult : config.type ≠ .result := by
    intro h
    rw [h] at hspace
    cases hspace
  have hset : config.type ≠ .set := by
    intro h
    rw [h] at hspace
    cases hspace
  rw [← scanArg_result hresult env l.processed.toUInt64] at hscan
  unfold scanDirective
  simp only [hparse, Option.bind_eq_bind, Option.bind_some, hknown, if_false, hscan, herror,
    Bool.false_eq_true, hresult, hset, ne_eq, not_false_eq_true, true_and, true_or, and_true]
  cases config.flags.suppressInput
  · simp only [Bool.false_eq_true, not_false_eq_true, if_true, true_and, if_false]
    split <;> rfl
  · simp only [not_true_eq_false, if_false, Bool.true_eq_false, false_and, if_true]
    rfl

/-- `wlibc_scanf_internal`, with the count of bytes starting at `processed`. -/
def scanfFrom (env : ScanEnv) (processed : UInt32) (buffer : Buffer) (format : List UInt8)
    (list : Nat → UInt64) (st : Store) : Option (Int32 × Store) :=
  let format := (format.takeWhile (· ≠ 0)).take 65536
  scanfLoop env (format.length + 1) ⟨format, .init list, buffer, st, processed, 0⟩

/-- The white space `w` in front of `t` makes no difference: the value returned is the same, and what is
stored is the same up to `%n`, which counts from the length of `w` on. -/
def SpaceIrrelevant (env : ScanEnv) (w t rest format : List UInt8) (list : Nat → UInt64) (st : Store) :
    Prop :=
  (vsscanf env (some (w ++ (t ++ 0 :: rest))) (some format) list st).map Prod.fst =
      (vsscanf env (some (t ++ 0 :: rest)) (some format) list st).map Prod.fst ∧
    vsscanf env (some (w ++ (t ++ 0 :: rest))) (some format) list st =
      scanfFrom env (UInt32.ofNat w.length) (.fixed (t ++ 0 :: rest) t.length) format list st

theorem vsscanf_input {t : List UInt8} (ht : ∀ c ∈ t, c ≠ 0) (hlength : t.length ≤ 65536)
    (env : ScanEnv) (rest format : List UInt8) (list : Nat → UInt64) (st : Store) :
    vsscanf env (some (t ++ 0 :: rest)) (some format) list st =
      scanfFrom env 0 (input t rest) format list st := by
  have htext : (t ++ 0 :: rest).takeWhile (· ≠ 0) = t := by
    rw [List.takeWhile_append_of_pos (by simpa using ht), List.takeWhile_cons_of_neg (by decide),
      List.append_nil]
  rw [vsscanf, htext, List.take_of_length_le hlength]
  rfl

section FirstDirective

variable {spec format rest' : List UInt8} {config : ScanConfig} {args : VariadicArgs}
  {list : Nat → UInt64}

theorem scanfFrom_fault (hformat : (format.takeWhile (· ≠ 0)).take 65536 = 37 :: spec)
    (hparse : parseScanSpecifier spec (.init list) = some (config, rest', args))
    (hspace : config.type.keepsSpace = false) (hknown : config.type ≠ .unknown) {st : Store}
    (hscan : scanArg env config b st = none) (processed : UInt32) :
    scanfFrom env processed b format list st = none := by
  have hresult : config.type ≠ .result := by
    intro h
    rw [h] at hspace
    cases hspace
  rw [← scanArg_result hresult env processed.toUInt64] at hscan
  rw [scanfFrom, hformat, List.length_cons, scanfLoop,
    scanfIteration_known (l := ⟨37 :: spec, .init list, b, st, processed, 0⟩) env rfl hparse hknown]
  simp only [scanDirective, hparse, Option.bind_eq_bind, Option.bind_some, hknown, if_false, hscan]
  rfl

/-- The first turn, and what comes behind it. -/
theorem scanfFrom_first (hformat : (format.takeWhile (· ≠ 0)).take 65536 = 37 :: spec)
    (hparse : parseScanSpecifier spec (.init list) = some (config, rest', args))
    (hspace : config.type.keepsSpace = false) (hknown : config.type ≠ .unknown) {st store : Store}
    (hscan : scanArg env config b st = some (c, b', store)) (herror : b'.error = false)
    (processed : UInt32) :
    scanfFrom env processed b format list st =
      if config.flags.suppressInput = false ∧ c = 0 then some (0, store)
      else scanfLoop env (spec.length + 1) ⟨rest', args, b', store, processed + c,
        if config.flags.suppressInput then 0 else 1⟩ := by
  rw [scanfFrom, hformat, List.length_cons, scanfLoop,
    scanfIteration_known (l := ⟨37 :: spec, .init list, b, st, processed, 0⟩) env rfl hparse hknown,
    scanDirective_first (l := ⟨37 :: spec, .init list, b, st, processed, 0⟩) hparse hspace hknown hscan
      herror]
  by_cases hdone : config.flags.suppressInput = false ∧ c = 0
  · rw [if_pos hdone, if_pos hdone]
    rfl
  · rw [if_neg hdone, if_neg hdone]
    rfl

end FirstDirective

theorem ofNat_eq_zero {n : Nat} (hn : n ≤ 65536) : UInt32.ofNat n = 0 ↔ n = 0 := by
  constructor
  · intro h
    have hnat := congrArg UInt32.toNat h
    rw [UInt32.toNat_ofNat'] at hnat
    change n % 2 ^ 32 = 0 at hnat
    omega
  · rintro rfl
    rfl

/-- A directive leaves the input within reach. -/
theorem scanArg_input {config : ScanConfig} {rest : List UInt8} {st st' : Store}
    (hlength : t.length ≤ 65536)
    (h : scanArg env config (input t rest) st = some (c, b', st')) :
    ∃ p ≤ 2 ^ 33, b' = { input t rest with pos := p } := by
  obtain ⟨j, size, hsolid, -, -, hfield, hwidth, -⟩ := field_eq config (input t rest)
  have hj : j ≤ t.length := hsolid.le_size
  have hfieldsize : (config.field (input t rest)).size = size := by rw [hfield]
  change size ≤ max t.length (0 + j + 2 ^ 32) at hwidth
  obtain ⟨p, hbuffer, hp⟩ := scanArg_within (by omega) h
  change p ≤ max 0 (max t.length (config.field (input t rest)).size) at hp
  exact ⟨p, by omega, hbuffer⟩

/-- **Leading white space is irrelevant** to a first directive exactly if there is none, the directive
stores nothing, there is white space anyway, or the input matches. -/
theorem spaceIrrelevant_iff (env : ScanEnv) {w t : List UInt8} (hw : ∀ c ∈ w, isSpace c = true)
    (ht : ∀ c ∈ t, c ≠ 0) (hlength : w.length + t.length ≤ 65536) (rest : List UInt8)
    {format spec rest' : List UInt8} {list : Nat → UInt64} {config : ScanConfig} {args : VariadicArgs}
    (hformat : (format.takeWhile (· ≠ 0)).take 65536 = 37 :: spec)
    (hparse : parseScanSpecifier spec (.init list) = some (config, rest', args))
    (hspace : config.type.keepsSpace = false) (hknown : config.type ≠ .unknown) (st : Store) :
    SpaceIrrelevant env w t rest format list st ↔
      w = [] ∨ config.flags.suppressInput = true ∨ isSpace (t.headD 0) = true ∨
        Matches config (config.field (.fixed (t ++ 0 :: rest) t.length)) := by
  have hnul : ∀ c ∈ w ++ t, c ≠ 0 := by
    intro c hc
    rcases List.mem_append.mp hc with hc | hc
    · rintro rfl
      have hzero := hw 0 hc
      rw [isSpace_zero] at hzero
      cases hzero
    · exact ht c hc
  have hA := vsscanf_input ht (by omega) env rest format list st
  have hB := vsscanf_input hnul (by rw [List.length_append]; exact hlength) env rest format list st
  rw [List.append_assoc] at hB
  -- the value returned does not depend on where the count starts
  have hfst : (scanfFrom env (UInt32.ofNat w.length) (input t rest) format list st).map Prod.fst =
      (scanfFrom env 0 (input t rest) format list st).map Prod.fst :=
    scanfLoop_bare _ ⟨_, .init list, input t rest, st, 0, 0⟩ _ st
  unfold SpaceIrrelevant
  rw [hA, hB]
  change _ ∧ _ = scanfFrom env (UInt32.ofNat w.length) (input t rest) format list st ↔
    _ ∨ _ ∨ _ ∨ Matches config (config.field (input t rest))
  have happend := scanArg_append hw hlength rest hspace env st
  cases hscan : scanArg env config (input t rest) st with
  | none =>
    rw [hscan] at happend
    have hmatch : Matches config (config.field (input t rest)) := by
      by_contra hmatch
      obtain ⟨b', st', hsome⟩ := @doScan_unmatched _ env _ hspace hmatch st
      rw [scanArg_eq, hsome] at hscan
      cases hscan
    rw [scanfFrom_fault hformat hparse hspace hknown hscan,
      scanfFrom_fault hformat hparse hspace hknown hscan,
      scanfFrom_fault hformat hparse hspace hknown happend]
    exact ⟨fun _ => .inr (.inr (.inr hmatch)), fun _ => ⟨rfl, rfl⟩⟩
  | some scanned =>
    obtain ⟨count, buffer, store⟩ := scanned
    rw [hscan] at happend
    obtain ⟨k, hk, rfl, hkey⟩ := scanArg_count (by omega) hspace hscan
    obtain ⟨p, hp, rfl⟩ := scanArg_input (by omega) hscan
    have hfirstA := scanfFrom_first hformat hparse hspace hknown hscan rfl
    have hfirstB := scanfFrom_first hformat hparse hspace hknown happend rfl 0
    have hcountA : UInt32.ofNat k = 0 ↔ k = 0 := ofNat_eq_zero (by omega)
    have hcountB : UInt32.ofNat w.length + UInt32.ofNat k = 0 ↔ w.length + k = 0 := by
      rw [← UInt32.ofNat_add]
      exact ofNat_eq_zero (by omega)
    have hspec : spec.length ≤ 65536 := by
      have htake := List.length_take_le 65536 (format.takeWhile (· ≠ 0))
      rw [hformat, List.length_cons] at htake
      omega
    by_cases hends : config.flags.suppressInput = false ∧ k = 0 ∧ w ≠ []
    · -- the directive ends the run, but not behind white space
      obtain ⟨hstores, hzero, hne⟩ := hends
      have hwpos := List.length_pos_iff.mpr hne
      constructor
      · rintro ⟨hvalue, -⟩
        rw [hfirstA, if_pos ⟨hstores, hcountA.mpr hzero⟩, hfirstB,
          if_neg (fun h => by have := hcountB.mp h.2; omega), hstores] at hvalue
        obtain ⟨⟨r, st'⟩, hloop, hr⟩ := Option.map_eq_some_iff.mp hvalue
        refine absurd hr (scanfLoop_ne_zero ?_ ?_ hloop)
        · exact Nat.zero_lt_one
        · change 1 + (spec.length + 1) < 2 ^ 31
          omega
      · rintro (h | h | h)
        · exact absurd h hne
        · rw [hstores] at h
          cases h
        · exact absurd hzero (hkey.mpr h)
    · -- both runs do the same
      have hrun : scanfFrom env 0 (input (w ++ t) rest) format list st =
          scanfFrom env (UInt32.ofNat w.length) (input t rest) format list st := by
        rw [hfirstA, hfirstB, UInt32.zero_add]
        by_cases hdone : config.flags.suppressInput = false ∧ UInt32.ofNat k = 0
        · have hnil : w.length = 0 := by
            by_contra hne
            exact hends ⟨hdone.1, hcountA.mp hdone.2, fun h => hne (by rw [h]; rfl)⟩
          rw [if_pos hdone, if_pos ⟨hdone.1, hcountB.mpr (by have := hcountA.mp hdone.2; omega)⟩]
        · rw [if_neg hdone, if_neg fun h => hdone
            ⟨h.1, hcountA.mpr (by have := hcountB.mp h.2; omega)⟩]
          refine scanfLoop_onto (l := ⟨rest', args, { input t rest with pos := p }, store, _, _⟩)
            ⟨fun i => carries_input w t rest i, ?_, by omega, ?_⟩
          · change t.length ≤ 65536
            omega
          · change p + 2 ^ 33 * (spec.length + 1) ≤ 2 ^ 63
            omega
      refine ⟨fun _ => ?_, fun _ => ⟨by rw [hrun, hfst], hrun⟩⟩
      by_contra hnot
      obtain ⟨hne, hstores, hnone⟩ := not_or.mp hnot |>.imp_right not_or.mp
      exact hends ⟨Bool.eq_false_iff.mpr hstores, not_not.mp (fun hk => hnone (hkey.mp hk)), hne⟩

/-- `%d` of ` 7`, and of `7`. -/
theorem spaceIrrelevant_seven :
    SpaceIrrelevant plainEnv [32] [55] [] [37, 100] (fun _ => 0) ⟨fun _ => 0, []⟩ := by
  refine (spaceIrrelevant_iff plainEnv (List.forall_mem_singleton.mpr rfl)
    (List.forall_mem_singleton.mpr (by decide)) (by decide) [] rfl rfl rfl (by decide) _).mpr ?_
  exact .inr (.inr (.inr (Or.inr (Or.inr (Or.inl rfl)))))

/-- `%d` of `x` is 0, but `%d` of ` x` is 1. -/
theorem not_spaceIrrelevant :
    ¬ SpaceIrrelevant plainEnv [32] [120] [] [37, 100] (fun _ => 0) ⟨fun _ => 0, []⟩ := by
  rintro ⟨hvalue, -⟩
  exact absurd hvalue (by decide +kernel)

end WindowsLibc.Scanf
