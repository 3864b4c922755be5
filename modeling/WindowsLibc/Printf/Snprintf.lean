import WindowsLibc.Printf.Loop

/-!
# Printing into a caller's buffer (`wlibc_vsnprintf`)

`wlibc_vsnprintf` prints into a fixed buffer and puts a terminator behind the output if the output is
shorter than the size. Output that is too long is not cut: a byte string that does not fit is left out
whole, later ones may still fit, and there is no terminator.

* `vsnprintf_spec` is what the function leaves, for everything the format writes.
* `vsnprintf_cuts_iff` says when that is the first bytes of the output and a terminator: if the output
  and the terminator fit, by the signed comparison of the source, or else by accident.
-/

namespace WindowsLibc.Printf

open WindowsLibc.Lib

/-- `(int)size`. -/
def intSize (size : UInt64) : Int := size.toUInt32.toInt32.toInt

/-- `wlibc_vsnprintf`: the value it returns, the buffer and the memory it leaves. A store before the
buffer is a fault. -/
def vsnprintf (buffer : Option (List UInt8)) (size : UInt64) (format : Option (List UInt8))
    (list : Nat → UInt64) (mem : Memory) : Option (Int32 × List UInt8 × Memory) :=
  match format with
  | none => some (-1, buffer.getD [], mem)
  | some format =>
    if buffer.isSome ∧ size = 0 then some (-1, buffer.getD [], mem)
    else
      match printfInternal format list mem (.fixed (buffer.getD []) size.toNat) with
      | none => none
      | some ((result, mem), out) =>
        if result.toInt < intSize size then
          if result.toInt < 0 then none
          else some (result, out.data.set result.toInt.toNat 0, mem)
        else some (result, out.data, mem)

/-! ## What is left in the buffer -/

/-- The byte strings that a format writes, whatever the buffer. -/
def Writes (format : List UInt8) (list : Nat → UInt64) (mem : Memory) (ws : List (List UInt8)) :
    Prop :=
  ∃ mem', sink.Emits (printfInternal format list mem) ws ((count ws).toInt32, mem')

/-- What a format prints into memory that grows. -/
def Prints (format : List UInt8) (list : Nat → UInt64) (mem : Memory) (out : List UInt8) : Prop :=
  ∃ result mem' b,
    printfInternal format list mem (.growing fun _ => true) = some ((result, mem'), b) ∧
    b.contents = out

variable {format : List UInt8} {list : Nat → UInt64} {mem : Memory} {ws : List (List UInt8)}

theorem prints_iff (h : Writes format list mem ws) {out : List UInt8} :
    Prints format list mem out ↔ out = ws.flatten := by
  obtain ⟨mem', hws⟩ := h
  have hsound := @sound_growing (fun _ => true) (fun _ => rfl)
  have hcontents := (contents_puts (grows_growing fun _ => true) hsound ws).1
  have hrun := hws _ hsound
  constructor
  · rintro ⟨result, mem'', b, hb, rfl⟩
    obtain ⟨-, rfl⟩ := hws.run hsound hb
    exact hcontents
  · rintro rfl
    exact ⟨_, mem', _, hrun, hcontents⟩

/-- A format that prints to one sound buffer writes the same to all of them. -/
theorem exists_writes {b : Buffer} (hb : b.Sound) (h : (printfInternal format list mem b).isSome) :
    ∃ ws, Writes format list mem ws := by
  have hfuel := Nat.lt_succ_self (Loop.start format list mem).format.length
  obtain ⟨ws, mem', hws⟩ := printfLoop_emits hfuel hb ((stagedRun_iff hfuel hb).mpr h)
  refine ⟨ws, mem', ?_⟩
  rw [← UInt32.zero_add (count ws)]
  exact hws

/-- **What `wlibc_vsnprintf` leaves**: what fits of the output, and perhaps a terminator. -/
theorem vsnprintf_spec (h : Writes format list mem ws) (hlen : ws.flatten.length < 2 ^ 31)
    {size : UInt64} (hsize : size ≠ 0) {data : List UInt8} (hdata : size.toNat ≤ data.length) :
    ∃ (result : Int32) (mem' : Memory), result.toInt = ws.flatten.length ∧
      vsnprintf (some data) size (some format) list mem =
        some (result,
          if (ws.flatten.length : Int) < intSize size then
            (overwrite data 0 (keep size.toNat ws)).set ws.flatten.length 0
          else overwrite data 0 (keep size.toNat ws),
          mem') := by
  obtain ⟨mem', hws⟩ := h
  have hresult := toInt_count hlen
  have hrun := hws _ (sound_fixed data size.toNat)
  rw [puts_fixed rfl rfl (Nat.zero_le _) hdata] at hrun
  refine ⟨_, mem', hresult, ?_⟩
  have hnull : ¬ ((some data).isSome = true ∧ size = 0) := fun h => hsize h.2
  rw [vsnprintf, if_neg hnull, Option.getD_some, hrun]
  dsimp only
  rw [hresult]
  split
  · -- The terminator is stored only here, at the length of the whole output.
    rw [if_neg (by omega), Int.toNat_natCast]
    rfl
  · rfl

/-- The call is what is asked of it: it returns the length of the whole output, and leaves the first
bytes of it and a terminator in the buffer, whatever that held before, and nothing behind it. -/
def Cuts (format : List UInt8) (list : Nat → UInt64) (mem : Memory) (size : UInt64) : Prop :=
  ∃ out, Prints format list mem out ∧
    ∀ data : List UInt8, size.toNat ≤ data.length → ∃ result data' mem',
      vsnprintf (some data) size (some format) list mem = some (result, data', mem') ∧
      result.toInt = out.length ∧
      data'.take (min out.length (size.toNat - 1) + 1) = out.take (size.toNat - 1) ++ [0] ∧
      data'.drop size.toNat = data.drop size.toNat

theorem intSize_le (size : UInt64) : intSize size ≤ size.toNat := by
  have hbits : intSize size = size.toUInt32.toBitVec.toInt := rfl
  have hlow : size.toUInt32.toBitVec.toNat ≤ size.toNat := by
    change size.toUInt32.toNat ≤ size.toNat
    rw [UInt64.toNat_toUInt32]
    exact Nat.mod_le _ _
  rw [hbits, BitVec.toInt_eq_toNat_cond]
  split
  · omega
  · have hlt := size.toUInt32.toBitVec.isLt
    omega

theorem overwrite_keep (size : Nat) (data : List UInt8) :
    overwrite data 0 (keep size ws) = keep size ws ++ data.drop (keep size ws).length := by
  rw [overwrite_of_le (Nat.zero_le _), List.take_zero, List.nil_append, Nat.zero_add]

theorem drop_overwrite_keep (size : Nat) (data : List UInt8) :
    (overwrite data 0 (keep size ws)).drop size = data.drop size := by
  have hkeep := length_keep_le size ws
  rw [overwrite_keep, List.drop_append, List.drop_eq_nil_of_le hkeep, List.nil_append,
    List.drop_drop, Nat.add_sub_cancel' hkeep]

/-- Output that fits is kept, with a terminator. -/
theorem take_set_terminator {size : Nat} {data : List UInt8} (h : size ≤ data.length)
    (hlen : ws.flatten.length < size) :
    ((overwrite data 0 (keep size ws)).set ws.flatten.length 0).take (ws.flatten.length + 1) =
      ws.flatten ++ [0] := by
  rw [overwrite_keep, keep_of_le (Nat.le_of_lt hlen)]
  cases hrest : data.drop ws.flatten.length with
  | nil =>
    rw [List.drop_eq_nil_iff] at hrest
    omega
  | cons byte rest =>
    rw [List.set_append_right _ _ (Nat.le_refl _), Nat.sub_self, List.set_cons_zero,
      List.take_length_add_append]
    rfl

/-- What a buffer full of ones holds afterwards shows whether the output was cut. -/
theorem keep_eq_of_take_eq {size : Nat}
    (h : (overwrite (List.replicate size 1) 0 (keep size ws)).take
        (min ws.flatten.length (size - 1) + 1) = ws.flatten.take (size - 1) ++ [0])
    (hsize : 0 < size) :
    size ≤ ws.flatten.length ∧ keep size ws = ws.flatten.take (size - 1) ++ [0] := by
  have hones : ∀ {xs ys : List UInt8}, xs ++ [1] = ys ++ [0] → False := by
    intro xs ys heq
    have hlast := (List.append_inj' heq rfl).2
    cases hlast
  have hkeep := length_keep_le size ws
  rw [overwrite_keep, List.drop_replicate] at h
  by_cases hfit : ws.flatten.length < size
  · -- everything fits, so the byte behind it is an old one
    exfalso
    obtain ⟨n, hn⟩ : ∃ n, size - ws.flatten.length = n + 1 := ⟨_, (Nat.succ_pred (by omega)).symm⟩
    rw [keep_of_le (Nat.le_of_lt hfit), Nat.min_eq_left (by omega), List.take_length_add_append, hn,
      List.take_of_length_le (i := size - 1) (by omega)] at h
    exact hones h
  · have hsize' : min ws.flatten.length (size - 1) + 1 = size := by omega
    have hlength : (keep size ws ++ List.replicate (size - (keep size ws).length) (1 : UInt8)).length ≤
        size := by
      rw [List.length_append, List.length_replicate]
      omega
    rw [hsize', List.take_of_length_le hlength] at h
    refine ⟨Nat.not_lt.mp hfit, ?_⟩
    cases hroom : size - (keep size ws).length with
    | zero =>
      rw [hroom, List.replicate_zero, List.append_nil] at h
      exact h
    | succ n =>
      rw [hroom, List.replicate_succ', ← List.append_assoc] at h
      exact (hones h).elim

theorem writes_of_cuts {size : UInt64} (h : Cuts format list mem size) :
    ∃ ws, Writes format list mem ws := by
  obtain ⟨_, ⟨_, _, _, hrun, -⟩, -⟩ := h
  exact exists_writes (sound_growing fun _ => rfl) (by rw [hrun]; rfl)

/-- When what a format writes is cut as it should be. -/
theorem cuts_iff (hws : Writes format list mem ws) (hlen : ws.flatten.length < 2 ^ 31)
    {size : UInt64} (hsize : size ≠ 0) :
    Cuts format list mem size ↔
      (ws.flatten.length : Int) < intSize size ∨
        (size.toNat ≤ ws.flatten.length ∧
          keep size.toNat ws = ws.flatten.take (size.toNat - 1) ++ [0]) := by
  have hpos : 0 < size.toNat := Nat.pos_of_ne_zero (fun h => hsize (UInt64.toNat_inj.mp h))
  constructor
  · rintro ⟨out, hprints, hcuts⟩
    cases (prints_iff hws).mp hprints
    by_cases hfit : (ws.flatten.length : Int) < intSize size
    · exact .inl hfit
    · right
      -- A buffer full of ones tells the terminator from what was there before.
      have hdata : size.toNat ≤ (List.replicate size.toNat (1 : UInt8)).length := by
        rw [List.length_replicate]
      obtain ⟨_, _, -, hspec⟩ := vsnprintf_spec hws hlen hsize hdata
      obtain ⟨_, _, _, hrun, -, htake, -⟩ := hcuts _ hdata
      rw [hspec, if_neg hfit] at hrun
      cases hrun
      exact keep_eq_of_take_eq htake hpos
  · intro hcond
    refine ⟨ws.flatten, (prints_iff hws).mpr rfl, ?_⟩
    intro data hdata
    obtain ⟨result, mem', hresult, hspec⟩ := vsnprintf_spec hws hlen hsize hdata
    refine ⟨result, _, mem', hspec, hresult, ?_, ?_⟩
    · by_cases hfit : (ws.flatten.length : Int) < intSize size
      · have hlt := lt_of_lt_of_le hfit (intSize_le size)
        rw [if_pos hfit, Nat.min_eq_left (by omega), List.take_of_length_le (i := size.toNat - 1)
          (by omega)]
        exact take_set_terminator hdata (by omega)
      · obtain ⟨hle, hkeep⟩ := hcond.resolve_left hfit
        have hlength : (keep size.toNat ws).length =
            min ws.flatten.length (size.toNat - 1) + 1 := by
          rw [hkeep, List.length_append, List.length_take, List.length_singleton, Nat.min_comm]
        rw [if_neg hfit, overwrite_keep, ← hlength, List.take_left, hkeep]
    · split
      · next hfit =>
        have hlt := lt_of_lt_of_le hfit (intSize_le size)
        rw [List.drop_set_of_lt (by omega), drop_overwrite_keep]
      · exact drop_overwrite_keep size.toNat data

/-- Output without a NUL is right only if it is not cut at all. -/
theorem cuts_iff_of_no_nul (hws : Writes format list mem ws) (hlen : ws.flatten.length < 2 ^ 31)
    (hnul : 0 ∉ ws.flatten) {size : UInt64} (hsize : size ≠ 0) :
    Cuts format list mem size ↔ (ws.flatten.length : Int) < intSize size := by
  rw [cuts_iff hws hlen hsize, or_iff_left]
  rintro ⟨-, hkeep⟩
  apply hnul
  apply mem_flatten_of_mem_keep
  rw [hkeep]
  exact List.mem_append_right _ List.mem_cons_self

/-- **When `wlibc_vsnprintf` cuts its output as it should**: the format's conversions can be staged,
and the output is shorter than `(int)size`, or else what happens to fit is the first bytes of it and
a NUL. -/
theorem vsnprintf_cuts_iff (format : List UInt8) (list : Nat → UInt64) (mem : Memory)
    (size : UInt64) (hsize : size ≠ 0)
    (hlen : ∀ out, Prints format list mem out → out.length < 2 ^ 31) :
    Cuts format list mem size ↔
      ∃ ws, Writes format list mem ws ∧
        ((ws.flatten.length : Int) < intSize size ∨
          (size.toNat ≤ ws.flatten.length ∧
            keep size.toNat ws = ws.flatten.take (size.toNat - 1) ++ [0])) := by
  constructor
  · intro h
    obtain ⟨ws, hws⟩ := writes_of_cuts h
    exact ⟨ws, hws, (cuts_iff hws (hlen _ ((prints_iff hws).mpr rfl)) hsize).mp h⟩
  · rintro ⟨ws, hws, hcond⟩
    exact (cuts_iff hws (hlen _ ((prints_iff hws).mpr rfl)) hsize).mpr hcond

/-- `snprintf(buffer, 8, "ab%d", 1234)` is right. -/
theorem vsnprintf_cuts_eight :
    Cuts [97, 98, 37, 100] (fun _ => 1234) (fun _ => 0) 8 := by
  obtain ⟨ws, hws⟩ := @exists_writes [97, 98, 37, 100] (fun _ => 1234) (fun _ => 0)
    (.growing fun _ => true) (sound_growing fun _ => rfl) (by decide +kernel)
  have hout : ∀ out, Prints [97, 98, 37, 100] (fun _ => 1234) (fun _ => 0) out →
      out = [97, 98, 49, 50, 51, 52] := by
    rintro out ⟨_, _, b, hrun, rfl⟩
    have h : (printfInternal [97, 98, 37, 100] (fun _ => 1234) (fun _ => 0)
        (.growing fun _ => true)).map (fun p => p.2.contents) = some [97, 98, 49, 50, 51, 52] := by
      decide +kernel
    rw [hrun] at h
    exact Option.some.inj h
  apply (vsnprintf_cuts_iff _ _ _ 8 (by decide) (fun out h => by rw [hout out h]; decide)).mpr
  refine ⟨ws, hws, .inl ?_⟩
  rw [hout _ ((prints_iff hws).mpr rfl)]
  decide

/-- `snprintf(buffer, 5, "ab%d", 1234)` leaves `ab`, without digits and without a terminator. -/
theorem vsnprintf_five :
    (vsnprintf (some [1, 1, 1, 1, 1]) 5 (some [97, 98, 37, 100]) (fun _ => 1234) (fun _ => 0)).map
        (fun r => (r.1, r.2.1)) = some (6, [97, 98, 1, 1, 1]) ∧
      ¬ Cuts [97, 98, 37, 100] (fun _ => 1234) (fun _ => 0) 5 := by
  have hrun : (vsnprintf (some [1, 1, 1, 1, 1]) 5 (some [97, 98, 37, 100]) (fun _ => 1234)
      (fun _ => 0)).map (fun r => (r.1, r.2.1)) = some (6, [97, 98, 1, 1, 1]) := by decide +kernel
  refine ⟨hrun, ?_⟩
  rintro ⟨out, -, hcuts⟩
  obtain ⟨result, data', mem', heq, hresult, htake, -⟩ := hcuts [1, 1, 1, 1, 1] (by decide)
  rw [heq] at hrun
  cases hrun
  have hlen : out.length = 6 := by
    have hsix : (6 : Int32).toInt = 6 := by decide
    have hlen := hsix.symm.trans hresult
    omega
  have hlast := congrArg List.getLast? htake
  rw [hlen, List.getLast?_concat] at hlast
  exact absurd hlast (by decide)

end WindowsLibc.Printf
