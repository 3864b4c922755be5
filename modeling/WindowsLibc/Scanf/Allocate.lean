import WindowsLibc.Scanf.WideString

/-!
# Strings into allocated memory (`%ms` and `%m[`)

The same loops write into the caller's memory or into a buffer that grows. `Mirrors` relates the two: the
buffer has the same bytes, and no memory as long as there are none.

* `stringLoop_mirrors` and `readFrom_mirrors` are the loops, of strings and of sets.
* `%mls` stores its units at the current position without asking for room (`stringLoop_wide`). There is
  none: the first unit is stored outside (`StoresUnit`).
* `agree_iff` says that this is the only difference.
-/

namespace WindowsLibc.Scanf

open WindowsLibc.Printf WindowsLibc.Lib

/-- The directive with an `m`. -/
def ScanConfig.allocating (config : ScanConfig) : ScanConfig :=
  { config with flags := { config.flags with allocateString := true } }

/-- What an allocating directive leaves for `bytes`: NULL for none, and else a block that begins with
them. -/
def Allocated (env : ScanEnv) (address : UInt64) (bytes : List UInt8) (st st' : Store) : Prop :=
  if bytes = [] then st' = st.put (some address) 8 0
  else ∃ slack, st' = { st.put (some address) 8 (env.block st.blocks.length).toNat with
    blocks := st.blocks ++ [bytes ++ slack] }

/-- **The two forms agree**: they consume the same input and return the same count, and what the one
writes is what the other allocates. -/
def Agree (env : ScanEnv) (config : ScanConfig) (b : Buffer) (st : Store) : Prop :=
  match config.data with
  | none => ∃ count b', scanArg env config b st = some (count, b', st) ∧
      scanArg env config.allocating b st = some (count, b', st)
  | some address => ∃ count b' bytes st',
      scanArg env config b st = some (count, b', st.write address bytes) ∧
        scanArg env config.allocating b st = some (count, b', st') ∧
        Allocated env address bytes st st'

/-! ## The two buffers -/

/-- A growing buffer with the bytes `xs`. -/
structure Mirrors (xs : List UInt8) (out : Buffer) : Prop where
  grows : Grows out
  sound : out.Sound
  contents : out.contents = xs
  none : xs = [] → out.data = []

theorem mirrors_growing {alloc : Nat → Bool} (halloc : ∀ n, alloc n = true) :
    Mirrors [] (.growing alloc) :=
  ⟨grows_growing alloc, sound_growing halloc, rfl, fun _ => rfl⟩

variable {xs ys : List UInt8} {out : Buffer}

theorem Mirrors.writen (h : Mirrors xs out) (hne : ys ≠ []) :
    Mirrors (xs ++ ys) (out.writen ys) := by
  obtain ⟨hgrows, hcontents, -⟩ := contents_writen h.grows h.sound ys
  refine ⟨hgrows, sound_writen h.sound ys, ?_, ?_⟩
  · rw [hcontents, h.contents]
  · intro hnil
    exact absurd (List.append_eq_nil_iff.mp hnil).2 hne

theorem Mirrors.writebytes (h : Mirrors xs out) (ys : List UInt8) :
    Mirrors (xs ++ ys) (ys.foldl Buffer.writebyte out) := by
  induction ys generalizing xs out with
  | nil => rwa [List.append_nil]
  | cons y ys ih =>
    have hstep := ih (h.writen (List.cons_ne_nil y []))
    rwa [List.append_assoc] at hstep

/-- What is kept of the two buffers. -/
theorem Mirrors.keep (h : Mirrors xs out) (env : ScanEnv) {config : ScanConfig} {address : UInt64}
    (hdata : config.data = some address) (st : Store) :
    Allocated env address xs st (st.keep env config.allocating out) := by
  have hlen : out.data.length = out.size := h.grows.length
  have hcontents : out.data.take out.pos = xs := h.contents
  have hkeep : st.keep env config.allocating out =
      if out.data = [] then st.put (some address) 8 0
      else { st.put (some address) 8 (env.block st.blocks.length).toNat with
        blocks := st.blocks ++ [out.data] } := by
    simp only [Store.keep, ScanConfig.allocating, hdata, if_true]
  rw [Allocated, hkeep]
  by_cases hnil : xs = []
  · rw [if_pos hnil, if_pos (h.none hnil)]
  · have hdata : out.data ≠ [] := by
      intro hdata
      rw [hdata, List.take_nil] at hcontents
      exact hnil hcontents.symm
    rw [if_neg hnil, if_neg hdata, ← hcontents]
    exact ⟨out.data.drop out.pos, by rw [List.take_append_drop]⟩

/-! ## The loops -/

/-- The loop of a set. -/
theorem readFrom_mirrors (member : UInt8 → Prop) [DecidablePred member]
    {char : UInt8 → List UInt8} (hchar : ∀ c, (char c).length ≤ 4) {fuel : Nat}
    (h : Mirrors xs out) (hroom : xs.length + 4 * fuel < 2 ^ 64) (count : UInt32) (b : Buffer) :
    let body := fun out byte =>
      if member byte then some ((char byte).foldl Buffer.writebyte out) else none
    ∃ ys out' count' b', readFrom body fuel (filled xs) count b = ⟨filled ys, count', b'⟩ ∧
      readFrom body fuel out count b = ⟨out', count', b'⟩ ∧ Mirrors ys out' ∧
      ys.length ≤ xs.length + 4 * fuel := by
  intro body
  induction fuel generalizing xs out count b with
  | zero => exact ⟨xs, out, count, b, rfl, rfl, h, Nat.le_refl _⟩
  | succ fuel ih =>
    have hstop : ∃ ys out' count' b', (⟨filled xs, count, b⟩ : Taken Buffer) = ⟨filled ys, count', b'⟩ ∧
        (⟨out, count, b⟩ : Taken Buffer) = ⟨out', count', b'⟩ ∧ Mirrors ys out' ∧
        ys.length ≤ xs.length + 4 * (fuel + 1) :=
      ⟨xs, out, count, b, rfl, rfl, h, Nat.le_add_right _ _⟩
    rw [readFrom, readFrom]
    by_cases hzero : b.peekbyte 0 = 0
    · rw [if_pos hzero, if_pos hzero]
      exact hstop
    · rw [if_neg hzero, if_neg hzero]
      by_cases hmember : member (b.peekbyte 0)
      · have hlen := hchar (b.peekbyte 0)
        simp only [body, if_pos hmember]
        rw [writebytes_filled (by omega)]
        obtain ⟨ys, out', count', b', h₁, h₂, hmirrors, hle⟩ := ih (h.writebytes (char (b.peekbyte 0)))
          (by rw [List.length_append]; omega) (count + 1) b.next
        refine ⟨ys, out', count', b', h₁, h₂, hmirrors, hle.trans ?_⟩
        rw [List.length_append]
        omega
      · simp only [body, if_neg hmember]
        exact hstop

/-- A turn upon a byte that is stored as it is. -/
theorem stringLoop_byte {modifier : Modifier} (hlong : modifier ≠ .long)
    (hlonger : modifier ≠ .longLong) {b : Buffer}
    (hgo : ¬ (b.peekbyte 0 = 0 ∨ isSpace (b.peekbyte 0) = true)) (fuel : Nat) (result : UInt32)
    (out : Buffer) :
    stringLoop modifier (fuel + 1) result b out =
      stringLoop modifier fuel (result + 1) b.next (out.writen [b.peekbyte 0]) := by
  cases modifier with
  | long => exact absurd rfl hlong
  | longLong => exact absurd rfl hlonger
  | _ => simp only [stringLoop, hgo, if_false, Buffer.writebyte]

/-- The loop of a string, in bytes or in UTF-32. -/
theorem stringLoop_mirrors {modifier : Modifier} (hlong : modifier ≠ .long) {fuel : Nat}
    (h : Mirrors xs out) (hroom : xs.length + 4 * fuel < 2 ^ 64) (result : UInt32) (b : Buffer) :
    ∃ finished result' b' ys out',
      stringLoop modifier fuel result b (filled xs) = some (finished, result', b', filled ys) ∧
        stringLoop modifier fuel result b out = some (finished, result', b', out') ∧
        Mirrors ys out' ∧ ys.length ≤ xs.length + 4 * fuel := by
  induction fuel generalizing xs out result b with
  | zero => exact ⟨true, result, b, xs, out, rfl, rfl, h, Nat.le_refl _⟩
  | succ fuel ih =>
    -- what is left to do behind a turn that writes `bytes` into both
    have hturn (bytes : List UInt8) (hne : bytes ≠ []) (hlen : bytes.length ≤ 4) (result : UInt32)
        (b : Buffer) : ∃ finished result' b' ys out',
          stringLoop modifier fuel result b ((filled xs).writen bytes) =
            some (finished, result', b', filled ys) ∧
          stringLoop modifier fuel result b (out.writen bytes) =
            some (finished, result', b', out') ∧
          Mirrors ys out' ∧ ys.length ≤ xs.length + 4 * (fuel + 1) := by
      rw [writen_filled (by omega)]
      obtain ⟨finished, result', b', ys, out', h₁, h₂, hmirrors, hle⟩ := ih (h.writen hne)
        (by rw [List.length_append]; omega) result b
      refine ⟨finished, result', b', ys, out', h₁, h₂, hmirrors, hle.trans ?_⟩
      rw [List.length_append]
      omega
    by_cases hstop : b.peekbyte 0 = 0 ∨ isSpace (b.peekbyte 0) = true
    · refine ⟨true, result, b, xs, out, ?_, ?_, h, Nat.le_add_right _ _⟩
      · simp only [stringLoop, hstop, if_true]
      · simp only [stringLoop, hstop, if_true]
    · by_cases hlonger : modifier = .longLong
      · subst hlonger
        by_cases hcount : (decodeHere b).1 = 0
        · refine ⟨false, result, b, xs, out, ?_, ?_, h, Nat.le_add_right _ _⟩
          · simp only [stringLoop, hstop, if_false, hcount, if_true]
          · simp only [stringLoop, hstop, if_false, hcount, if_true]
        · simp only [stringLoop, hstop, if_false, hcount]
          apply hturn
          · exact List.cons_ne_nil _ _
          · exact Nat.le_refl 4
      · rw [stringLoop_byte hlong hlonger hstop, stringLoop_byte hlong hlonger hstop]
        apply hturn
        · exact List.cons_ne_nil _ _
        · exact Nat.succ_le_succ (Nat.zero_le 3)

/-! ### In UTF-16 -/

/-- Some unit is stored: the text has a character, within the given number of them, that is decoded and
encoded again. -/
def StoresUnit : Nat → Buffer → Prop
  | 0, _ => False
  | fuel + 1, b =>
    ¬ (b.peekbyte 0 = 0 ∨ isSpace (b.peekbyte 0) = true) ∧ (decodeHere b).1 ≠ 0 ∧
      ((decodeHere b).2 ≤ 0x10FFFF ∨ StoresUnit fuel (b.advance (decodeHere b).1))

/-- Until then both buffers stay empty, and then the growing one has no room. -/
theorem stringLoop_wide (alloc : Nat → Bool) (fuel : Nat) (result : UInt32) (b : Buffer) :
    (StoresUnit fuel b → stringLoop .long fuel result b (.growing alloc) = none) ∧
      (¬ StoresUnit fuel b → ∃ finished result' b',
        stringLoop .long fuel result b (filled []) = some (finished, result', b', filled []) ∧
        stringLoop .long fuel result b (.growing alloc) =
          some (finished, result', b', .growing alloc)) := by
  induction fuel generalizing result b with
  | zero => exact ⟨fun h => h.elim, fun _ => ⟨true, result, b, rfl, rfl⟩⟩
  | succ fuel ih =>
    by_cases hstop : b.peekbyte 0 = 0 ∨ isSpace (b.peekbyte 0) = true
    · refine ⟨fun h => absurd hstop h.1, fun _ => ⟨true, result, b, ?_, ?_⟩⟩
      · simp only [stringLoop, hstop, if_true]
      · simp only [stringLoop, hstop, if_true]
    · by_cases hcount : (decodeHere b).1 = 0
      · refine ⟨fun h => absurd hcount h.2.1, fun _ => ⟨false, result, b, ?_, ?_⟩⟩
        · simp only [stringLoop, hstop, if_false, hcount, if_true]
        · simp only [stringLoop, hstop, if_false, hcount, if_true]
      · by_cases hlegal : (decodeHere b).2 ≤ 0x10FFFF
        · refine ⟨fun _ => ?_, fun h => absurd ⟨hstop, hcount, .inl hlegal⟩ h⟩
          have hne := (Convert.utf16Encode_ne_nil_iff _).mpr hlegal
          have hroom : ¬ (Buffer.growing alloc).pos + (utf16Encode (decodeHere b).2).length ≤
              (Buffer.growing alloc).size := by
            have hpos := List.length_pos_iff.mpr hne
            simp only [Buffer.growing]
            omega
          simp only [stringLoop, hstop, if_false, hcount, storeAt, hroom, Option.bind_none]
        · -- nothing is stored for a codepoint that is too large
          have hnil : utf16Encode (decodeHere b).2 = [] :=
            not_not.mp (mt (Convert.utf16Encode_ne_nil_iff _).mp hlegal)
          obtain ⟨ihfault, ihsame⟩ := ih (result + UInt32.ofNat (decodeHere b).1)
            (b.advance (decodeHere b).1)
          have hloop (out : Buffer) (hout : storeAt out [] = some out) :
              stringLoop .long (fuel + 1) result b out = stringLoop .long fuel
                (result + UInt32.ofNat (decodeHere b).1) (b.advance (decodeHere b).1) out := by
            simp only [stringLoop, hstop, if_false, hcount, hnil, hout, Option.bind_some]
          rw [hloop _ rfl, hloop _ rfl]
          constructor
          · rintro ⟨-, -, hlegal' | hrest⟩
            · exact absurd hlegal' hlegal
            · exact ihfault hrest
          · intro h
            exact ihsame fun hrest => h ⟨hstop, hcount, .inr hrest⟩

/-! ## The directives -/

/-- `scan_arg` around `do_scan`, with any flags. -/
theorem scanArg_field (env : ScanEnv) (config : ScanConfig) (b : Buffer) :
    ∃ (skipped : UInt32) (restore : Buffer → Buffer), ∀ flags st,
      scanArg env { config with flags := flags } b st =
        (doScan env { config with flags := flags } (config.field b) st).map
          fun (count, b', st) => (skipped + count, restore b', st) :=
  ⟨(config.spaces b).count, fun b' =>
    if config.width > 0 then { b' with size := (config.spaces b).buffer.size } else b',
    fun flags st => scanArg_eq env { config with flags := flags } b st⟩

theorem field_size_le (config : ScanConfig) {b : Buffer} (hsize : b.size ≤ 65536) :
    (config.field b).size - (config.field b).pos < 2 ^ 33 := by
  obtain ⟨j, size, -, -, -, hfield, hle, -⟩ := field_eq config b
  rw [hfield]
  simp only [skip]
  omega

/-- A string in UTF-16 that stores something. -/
def WideUnits (config : ScanConfig) (b : Buffer) : Prop :=
  config.type = .string ∧ config.modifier = .long ∧ config.flags.suppressInput = false ∧
    StoresUnit (b.size - b.pos) b

theorem length_terminator (modifier : Modifier) : (terminator modifier).length ≤ 4 := by
  cases modifier <;> decide

theorem length_setChar (byte : UInt8) (modifier : Modifier) : (setChar byte modifier).length ≤ 4 := by
  cases modifier <;> exact Nat.le_of_ble_eq_true rfl

/-- What is kept of the caller's memory is what was written. -/
theorem keep_filled (env : ScanEnv) {config : ScanConfig} {address : UInt64}
    (hdata : config.data = some address) (hplain : config.flags.allocateString = false) (st : Store)
    (bytes : List UInt8) : st.keep env config (filled bytes) = st.write address bytes := by
  simp only [Store.keep, hdata, hplain, Bool.false_eq_true, if_false, filled, Buffer.contents,
    List.take_length]

section

variable (env : ScanEnv) (halloc : ∀ n, env.alloc n = true) {config : ScanConfig} {address : UInt64}
  (hplain : config.flags.allocateString = false) (hstores : config.flags.suppressInput = false)
  (hdata : config.data = some address) {b : Buffer} (hsize : b.size - b.pos < 2 ^ 33) (st : Store)

include halloc hplain hstores hdata hsize

theorem scanSet_allocating : ∃ count b' bytes st',
    scanSet env config b st = (count, b', st.write address bytes) ∧
      scanSet env config.allocating b st = (count, b', st') ∧
      Allocated env address bytes st st' := by
  have hend := length_terminator config.modifier
  obtain ⟨ys, out', count, b', h₁, h₂, hmirrors, hle⟩ := readFrom_mirrors
    (fun byte => byte ≤ 127 ∧ getBit config.set byte) (fun c => length_setChar c config.modifier)
    (mirrors_growing halloc) (show [].length + 4 * (b.size - b.pos) < 2 ^ 64 by rw [List.length_nil]; omega)
    0 b
  rw [List.length_nil] at hle
  have hout : outBuffer env config = filled [] := by
    rw [outBuffer, hplain]
    rfl
  have hout' : outBuffer env config.allocating = .growing env.alloc := rfl
  refine ⟨count, b', ys ++ terminator config.modifier,
    st.keep env config.allocating ((terminator config.modifier).foldl Buffer.writebyte out'),
    ?_, ?_, (hmirrors.writebytes _).keep env hdata st⟩
  · rw [scanSet, hstores, hout]
    simp only [readWhile, h₁, Bool.false_eq_true, if_false]
    rw [writebytes_filled (by omega), keep_filled env hdata hplain]
  · rw [scanSet, hout']
    simp only [ScanConfig.allocating, hstores, readWhile, Bool.false_eq_true, if_false, h₂]

theorem scanString_allocating :
    (config.modifier = .long ∧ StoresUnit (b.size - b.pos) b →
      scanString env config.allocating b st = none) ∧
    (¬ (config.modifier = .long ∧ StoresUnit (b.size - b.pos) b) → ∃ count b' bytes st',
      scanString env config b st = some (count, b', st.write address bytes) ∧
        scanString env config.allocating b st = some (count, b', st') ∧
        Allocated env address bytes st st') := by
  have hend := length_terminator config.modifier
  have hout : outBuffer env config = filled [] := by
    rw [outBuffer, hplain]
    rfl
  have hscan : scanString env config b st =
      (stringLoop config.modifier (b.size - b.pos) 0 b (filled [])).map
        fun r => (r.2.1, r.2.2.1, st.keep env config
          (if r.1 then (terminator config.modifier).foldl Buffer.writebyte r.2.2.2 else r.2.2.2)) := by
    rw [scanString, hstores, hout]
    rfl
  have hscan' : scanString env config.allocating b st =
      (stringLoop config.modifier (b.size - b.pos) 0 b (.growing env.alloc)).map
        fun r => (r.2.1, r.2.2.1, st.keep env config.allocating
          (if r.1 then (terminator config.modifier).foldl Buffer.writebyte r.2.2.2 else r.2.2.2)) := by
    simp only [scanString, ScanConfig.allocating, hstores]
    rfl
  -- behind loops that end alike
  have hfinish {finished : Bool} {result : UInt32} {b' : Buffer} {ys : List UInt8} {out : Buffer}
      (h₁ : stringLoop config.modifier (b.size - b.pos) 0 b (filled []) =
        some (finished, result, b', filled ys))
      (h₂ : stringLoop config.modifier (b.size - b.pos) 0 b (.growing env.alloc) =
        some (finished, result, b', out))
      (hmirrors : Mirrors ys out) (hle : ys.length ≤ 4 * (b.size - b.pos)) : ∃ count b' bytes st',
        scanString env config b st = some (count, b', st.write address bytes) ∧
          scanString env config.allocating b st = some (count, b', st') ∧
          Allocated env address bytes st st' := by
    rw [hscan, hscan', h₁, h₂, Option.map_some, Option.map_some]
    cases finished with
    | false => exact ⟨result, b', ys, _, by rw [← keep_filled env hdata hplain]; rfl, rfl,
        hmirrors.keep env hdata st⟩
    | true =>
      refine ⟨result, b', ys ++ terminator config.modifier, _, ?_, rfl,
        (hmirrors.writebytes _).keep env hdata st⟩
      rw [← keep_filled env hdata hplain, ← writebytes_filled (by omega)]
      rfl
  by_cases hlong : config.modifier = .long
  · obtain ⟨hfault, hsame⟩ := stringLoop_wide env.alloc (b.size - b.pos) 0 b
    constructor
    · rintro ⟨-, hunit⟩
      rw [hscan', hlong, hfault hunit, Option.map_none]
    · intro hunit
      obtain ⟨finished, result, b', h₁, h₂⟩ := hsame fun h => hunit ⟨hlong, h⟩
      rw [← hlong] at h₁ h₂
      exact hfinish h₁ h₂ (mirrors_growing halloc) (Nat.zero_le _)
  · refine ⟨fun h => absurd h.1 hlong, fun _ => ?_⟩
    obtain ⟨finished, result, b', ys, out, h₁, h₂, hmirrors, hle⟩ := stringLoop_mirrors hlong
      (mirrors_growing halloc)
      (show [].length + 4 * (b.size - b.pos) < 2 ^ 64 by rw [List.length_nil]; omega) 0 b
    rw [List.length_nil, Nat.zero_add] at hle
    exact hfinish h₁ h₂ hmirrors hle

end

/-- **The two forms agree unless a unit is stored for `%mls`**, which is a fault: that is the one loop that
does not ask its buffer for room. -/
theorem agree_iff (env : ScanEnv) (halloc : ∀ n, env.alloc n = true) (config : ScanConfig)
    (htype : config.type = .string ∨ config.type = .set)
    (hplain : config.flags.allocateString = false)
    (hdata : config.data = none ↔ config.flags.suppressInput = true) (b : Buffer)
    (hsize : b.size ≤ 65536) (st : Store) :
    Agree env config b st ↔ ¬ WideUnits config (config.field b) := by
  obtain ⟨skipped, restore, hscan⟩ := scanArg_field env config b
  have hroom := field_size_le config hsize
  have hplainScan : scanArg env config b st = (doScan env config (config.field b) st).map
      fun (count, b', st) => (skipped + count, restore b', st) := hscan config.flags st
  have hallocScan : scanArg env config.allocating b st =
      (doScan env config.allocating (config.field b) st).map
        fun (count, b', st) => (skipped + count, restore b', st) :=
    hscan { config.flags with allocateString := true } st
  unfold Agree
  rw [hplainScan, hallocScan]
  cases haddress : config.data with
  | none =>
    -- nothing is stored
    have hsuppress := hdata.mp haddress
    have hnot : ¬ WideUnits config (config.field b) := by
      rintro ⟨-, -, hstores, -⟩
      rw [hsuppress] at hstores
      cases hstores
    simp only [hnot, not_false_iff, iff_true]
    rcases htype with htype | htype
    · simp only [doScan, htype, scanString, ScanConfig.allocating, hsuppress, if_true, Option.map_some]
      exact ⟨_, _, rfl, rfl⟩
    · simp only [doScan, htype, scanSet, ScanConfig.allocating, hsuppress, if_true, Option.map_some]
      exact ⟨_, _, rfl, rfl⟩
  | some address =>
    have hstores : config.flags.suppressInput = false := by
      rw [← Bool.not_eq_true]
      intro hsuppress
      rw [hdata.mpr hsuppress] at haddress
      cases haddress
    dsimp only
    rcases htype with htype | htype
    · have hdo : doScan env config (config.field b) st =
          scanString env config (config.field b) st := by
        simp only [doScan, htype]
      have hdo' : doScan env config.allocating (config.field b) st =
          scanString env config.allocating (config.field b) st := by
        simp only [doScan, ScanConfig.allocating, htype]
      obtain ⟨hfault, hsame⟩ := scanString_allocating env halloc hplain hstores haddress hroom st
      rw [hdo, hdo']
      constructor
      · rintro ⟨count, b', bytes, st', -, hallocating, -⟩ ⟨-, hlong, -, hunit⟩
        rw [hfault ⟨hlong, hunit⟩] at hallocating
        cases hallocating
      · intro hwide
        obtain ⟨count, b', bytes, st', h₁, h₂, hallocated⟩ :=
          hsame fun h => hwide ⟨htype, h.1, hstores, h.2⟩
        rw [h₁, h₂]
        exact ⟨skipped + count, restore b', bytes, st', rfl, rfl, hallocated⟩
    · have hnot : ¬ WideUnits config (config.field b) := by
        rintro ⟨hstring, -⟩
        rw [htype] at hstring
        cases hstring
      obtain ⟨count, b', bytes, st', h₁, h₂, hallocated⟩ :=
        scanSet_allocating env halloc hplain hstores haddress hroom st
      have hdo : doScan env config (config.field b) st =
          some (scanSet env config (config.field b) st) := by
        simp only [doScan, htype]
      have hdo' : doScan env config.allocating (config.field b) st =
          some (scanSet env config.allocating (config.field b) st) := by
        simp only [doScan, ScanConfig.allocating, htype]
      rw [hdo, hdo', h₁, h₂]
      simp only [hnot, not_false_iff, iff_true]
      exact ⟨skipped + count, restore b', bytes, st', rfl, rfl, hallocated⟩

/-- `%[a-z]` of `ab`. -/
theorem agree_set : Agree plainEnv
    ⟨.set, .none, {}, 0, 0, some 4096, (2 ^ 26 - 1) <<< 97⟩ (.fixed [97, 98] 2)
      ⟨fun _ => 0, []⟩ := by
  apply (agree_iff plainEnv (fun _ => rfl) _ (.inr rfl) rfl (by decide) _ (by decide) _).mpr
  rintro ⟨hstring, -⟩
  cases hstring

/-- `%mls` of `a`. -/
theorem disagree_wide : ¬ Agree plainEnv wideConfig (.fixed [97] 1) ⟨fun _ => 0, []⟩ := by
  rintro ⟨count, b', bytes, st', -, hallocating, -⟩
  have hfault : (scanArg plainEnv wideConfig.allocating (.fixed [97] 1) ⟨fun _ => 0, []⟩).isNone = true := by
    decide
  rw [hallocating] at hfault
  cases hfault

end WindowsLibc.Scanf
