import WindowsLibc.Stdio.Fgets

/-!
# Lines of any length

`common_getdelim` stores the bytes in a buffer that it doubles when it is full, until a byte is the
delimiter, and returns -1 where the file ends before that.

It looks at the room behind the delimiter's test, so that the NUL of a line which fills the buffer goes
behind it. What it compares with the delimiter is a signed `char`, as in `common_fgets`.

* `getdelimLoop_found` and `getdelimLoop_ended` are about its loop, with a buffer that is never full.
* `getdelim_line` is about any stream that can be reached, and any buffer of the caller's.
  `getdelimPlain_iff` is its condition where nothing fails.
-/

namespace WindowsLibc.Stdio

open WindowsLibc.Lib

variable {s : Stream}

/-! ## `getdelim.c` -/

/-- The loop of `common_getdelim`, and the NUL behind it: the result, `*buffer`, which has `*size` bytes, and
the stream. `none`: it has not ended within `fuel` calls. A store outside `*buffer` is a fault. -/
def getdelimLoop (junk : Nat → Byte) (heap : Option (Nat → Byte)) (delimiter : Int) :
    Nat → Nat → List Byte → Stream → Option (Int × List Byte × Stream)
  | 0, _, _, _ => none
  | fuel + 1, result, buffer, s =>
    match commonFgetc (junk result) s with
    | (c, s) =>
      let ch := byteOf c
      if intOfChar ch = eof then some (-1, buffer, s)
      else
        let s := s.check (result < buffer.length)
        let buffer := buffer.set result ch
        let result := result + 1
        if intOfChar ch = delimiter then
          some (result, buffer.set result 0, s.check (result < buffer.length))
        else if result = buffer.length then
          match heap with
          | none => some (-1, buffer, s)
          | some g => getdelimLoop junk heap delimiter fuel result (buffer ++ block buffer.length g) s
        else getdelimLoop junk heap delimiter fuel result buffer s

/-- `common_getdelim`. The caller's `*buffer` is `none` for `NULL`. -/
def commonGetdelim (junk : Nat → Byte) (heap : Option (Nat → Byte)) (delimiter : Int)
    (buffer : Option (List Byte)) (fuel : Nat) (s : Stream) : Option (Int × List Byte × Stream) :=
  match buffer, heap with
  | some bytes, _ => getdelimLoop junk heap delimiter fuel 0 bytes s
  | none, some g => getdelimLoop junk heap delimiter fuel 0 (block 512 g) s
  | none, none => some (-1, [], s)

/-! ## The loop -/

/-- The buffer when `result` bytes are in it: doubled if that is all it holds. -/
def grown (g : Nat → Byte) (buffer : List Byte) (result : Nat) : List Byte :=
  if result = buffer.length then buffer ++ block buffer.length g else buffer

theorem length_grown (g : Nat → Byte) (buffer : List Byte) (result : Nat) :
    (grown g buffer result).length = if result = buffer.length then buffer.length * 2 else buffer.length := by
  rw [grown]
  split
  · rw [List.length_append, length_block, Nat.mul_two]
  · rfl

theorem take_grown (g : Nat → Byte) (buffer : List Byte) {result : Nat} (h : result ≤ buffer.length) :
    (grown g buffer result).take result = buffer.take result := by
  rw [grown]
  split
  · exact List.take_append_of_le_length h
  · rfl

theorem take_set_succ {buffer : List Byte} {i : Nat} (h : i < buffer.length) (b : Byte) :
    (buffer.set i b).take (i + 1) = buffer.take i ++ [b] := by
  rw [List.take_add_one, List.take_set_of_le (Nat.le_refl i), List.getElem?_set_self h, Option.toList_some]

/-- A `char` that is equal to the value of a byte is that byte. -/
theorem eq_of_intOfChar_eq {b d : Byte} (h : intOfChar b = d.toNat) : b = d := by
  rw [intOfChar] at h
  split at h
  · exact UInt8.toNat_inj.mp (Int.ofNat_inj.mp h)
  · have hlt := b.toNat_lt
    omega

/-- A byte that is not the delimiter. -/
theorem getdelimLoop_more (h : Held s) {junk : Nat → Byte} {g : Nat → Byte} {d b : Byte} {s₁ : Stream}
    (hread : readByte s = (.byte b, s₁)) (hff : b ≠ 0xff) (hd : b ≠ d) {result : Nat} {buffer : List Byte}
    (hroom : result < buffer.length) (fuel : Nat) :
    getdelimLoop junk (some g) d.toNat (fuel + 1) result buffer s =
      getdelimLoop junk (some g) d.toNat fuel (result + 1) (grown g (buffer.set result b) (result + 1)) s₁ := by
  have hfault : (readByte s).2.fault = false :=
    readByte_no_fault (by rw [hread]; exact fun hf => by contradiction)
  have hget := commonFgetc_eq h (junk result) hfault
  rw [hread] at hget
  have hchar : ¬ intOfChar b = d.toNat := fun heq => hd (eq_of_intOfChar_eq heq)
  rw [getdelimLoop, hget]
  simp only [Outcome.code, byteOf_intOfChar, intOfChar_eq_eof_iff, if_neg hff, decide_eq_true hroom,
    Stream.check_true, if_neg hchar]
  rw [grown]
  split
  · rfl
  · rfl

/-- **A line that ends with the delimiter.** The loop stores it and the NUL, in a buffer that the line never
fills. -/
theorem getdelimLoop_found {junk : Nat → Byte} {g : Nat → Byte} {d : Byte} (hd : d < 128) {room : Nat} :
    ∀ {s s' : Stream} {line : List Byte} {result : Nat} {buffer : List Byte}, Held s →
      readLine (· == d) room s = (line, .stopped, s') → 0xff ∉ line → result < buffer.length →
      (∀ j, result + line.length ≠ buffer.length * 2 ^ j) →
      ∃ text, getdelimLoop junk (some g) d.toNat room result buffer s =
          some (((result + line.length : Nat) : Int), text, s') ∧ s'.fault = false ∧
        text.take (result + line.length + 1) = buffer.take result ++ line ++ [0] := by
  induction room with
  | zero =>
    intro s s' line result buffer _ hline
    rw [readLine] at hline
    cases hline
  | succ room ih =>
    intro s s' line result buffer h hline hplain hroom hfits
    rw [readLine] at hline
    have hkeep := readByte_held h
    have hno_fault := readByte_no_fault (s := s)
    rcases hread : readByte s with ⟨b | _ | _, s₁⟩
    · rw [hread] at hline hkeep hno_fault
      have hfault : s₁.fault = false := hno_fault (fun hf => by contradiction)
      dsimp only at hline
      by_cases hstop : b = d
      · subst hstop
        rw [if_pos (beq_self_eq_true b)] at hline
        cases hline
        have hff : b ≠ 0xff := fun hff => hplain (by rw [hff]; exact List.mem_singleton_self _)
        have hget := commonFgetc_eq h (junk result) (by rw [hread]; exact hfault)
        rw [hread] at hget
        have hone := hfits 0
        rw [List.length_singleton, Nat.pow_zero, Nat.mul_one] at hone
        have hin : result + 1 < (buffer.set result b).length := by
          rw [List.length_set]
          omega
        refine ⟨(buffer.set result b).set (result + 1) 0, ?_, hfault, ?_⟩
        · rw [getdelimLoop, hget]
          simp only [Outcome.code, byteOf_intOfChar, intOfChar_eq_eof_iff, if_neg hff, decide_eq_true hroom,
            Stream.check_true]
          rw [if_pos ((intOfChar_eq_iff b).mpr hd), decide_eq_true hin, Stream.check_true]
          rfl
        · rw [List.length_singleton, take_set_succ hin, take_set_succ hroom]
      · rw [if_neg (by rw [beq_iff_eq]; exact hstop)] at hline
        rcases hrest : readLine (· == d) room s₁ with ⟨rest, last, s₂⟩
        rw [hrest] at hline
        dsimp only at hline
        cases hline
        have hff : b ≠ 0xff := fun hff => hplain (by rw [hff]; exact List.mem_cons_self)
        have hset : (buffer.set result b).length = buffer.length := List.length_set
        have hroom' : result + 1 < (grown g (buffer.set result b) (result + 1)).length := by
          rw [length_grown, hset]
          split <;> omega
        -- doubling the buffer leaves the same lengths out
        have hfits' : ∀ j,
            result + 1 + rest.length ≠ (grown g (buffer.set result b) (result + 1)).length * 2 ^ j := by
          intro j
          rw [length_grown, hset]
          have hj := hfits j
          have hj' := hfits (j + 1)
          rw [List.length_cons] at hj hj'
          rw [Nat.pow_succ] at hj'
          split
          · rw [Nat.mul_assoc, Nat.mul_comm 2]
            omega
          · omega
        obtain ⟨text, hloop, hfault', htext⟩ :=
          ih (hkeep hfault) hrest (fun hmem => hplain (List.mem_cons_of_mem b hmem)) hroom' hfits'
        refine ⟨text, ?_, hfault', ?_⟩
        · rw [getdelimLoop_more h hread hff hstop hroom, hloop, List.length_cons,
            show result + 1 + rest.length = result + (rest.length + 1) by omega]
        · rw [take_grown _ _ (by rw [hset]; omega), take_set_succ hroom] at htext
          rw [List.length_cons, show result + (rest.length + 1) + 1 = result + 1 + rest.length + 1 by omega,
            htext]
          simp only [List.append_assoc, List.cons_append, List.nil_append]
    · rw [hread] at hline
      cases hline
    · rw [hread] at hline
      cases hline

/-- **A line that the end of the file ends.** -/
theorem getdelimLoop_ended {junk : Nat → Byte} {g : Nat → Byte} {d : Byte} {room : Nat} :
    ∀ {s s' : Stream} {line : List Byte} {result : Nat} {buffer : List Byte}, Held s →
      readLine (· == d) room s = (line, .ended, s') → 0xff ∉ line → result < buffer.length →
      ∃ text, getdelimLoop junk (some g) d.toNat room result buffer s = some (-1, text, s') ∧
        s'.fault = false := by
  induction room with
  | zero =>
    intro s s' line result buffer _ hline
    rw [readLine] at hline
    cases hline
  | succ room ih =>
    intro s s' line result buffer h hline hplain hroom
    rw [readLine] at hline
    have hkeep := readByte_held h
    have hno_fault := readByte_no_fault (s := s)
    rcases hread : readByte s with ⟨b | _ | _, s₁⟩
    · rw [hread] at hline hkeep hno_fault
      have hfault : s₁.fault = false := hno_fault (fun hf => by contradiction)
      dsimp only at hline
      by_cases hstop : b = d
      · rw [if_pos (by rw [beq_iff_eq]; exact hstop)] at hline
        cases hline
      · rw [if_neg (by rw [beq_iff_eq]; exact hstop)] at hline
        rcases hrest : readLine (· == d) room s₁ with ⟨rest, last, s₂⟩
        rw [hrest] at hline
        dsimp only at hline
        cases hline
        have hff : b ≠ 0xff := fun hff => hplain (by rw [hff]; exact List.mem_cons_self)
        rw [getdelimLoop_more h hread hff hstop hroom]
        refine ih (hkeep hfault) hrest (fun hmem => hplain (List.mem_cons_of_mem b hmem)) ?_
        rw [length_grown, List.length_set]
        split <;> omega
    · rw [hread] at hline hno_fault
      have hfault : s₁.fault = false := hno_fault (fun hf => by contradiction)
      have hget := commonFgetc_eq h (junk result) (by rw [hread]; exact hfault)
      rw [hread] at hget
      cases hline
      refine ⟨buffer, ?_, hfault⟩
      rw [getdelimLoop, hget]
      simp only [Outcome.code, byteOf_eof]
      rw [if_pos (by decide)]
    · rw [hread] at hline
      cases hline

/-! ## The call -/

/-- What the caller may pass for `*buffer`: NULL, or a buffer that has a byte at least. -/
def GivenBuffer (buffer : Option (List Byte)) : Prop := ∀ bytes, buffer = some bytes → bytes ≠ []

/-- `*size` when the loop begins. -/
def givenSize : Option (List Byte) → Nat
  | none => 512
  | some bytes => bytes.length

/-- The call ends, and stores nothing outside the buffer. If it finds the delimiter, the result is the number
of bytes up to it, and these and NUL are in the buffer. If the file ends first, the result is -1. -/
def GetdelimRight (s : Stream) (d : Byte) (buffer : Option (List Byte)) : Prop :=
  ∀ junk g, ∃ fuel text,
    commonGetdelim junk (some g) d.toNat buffer fuel s =
        some (if (wholeLine (· == d) s).2.1 = .stopped then ((wholeLine (· == d) s).1.length : Int) else -1,
          text, (wholeLine (· == d) s).2.2) ∧
      (wholeLine (· == d) s).2.2.fault = false ∧
      ((wholeLine (· == d) s).2.1 = .stopped →
        text.take ((wholeLine (· == d) s).1.length + 1) = (wholeLine (· == d) s).1 ++ [0])

/-- The line is one that the loop can tell: nothing fails, no byte of it is 0xff, and if it ends with the
delimiter, that is below 128, and the line does not fill the buffer, doubled or not. -/
structure GetdelimPlain (s : Stream) (d : Byte) (buffer : Option (List Byte)) : Prop where
  ok : (wholeLine (· == d) s).2.1 = .stopped ∨ (wholeLine (· == d) s).2.1 = .ended
  plain : 0xff ∉ (wholeLine (· == d) s).1
  found : (wholeLine (· == d) s).2.1 = .stopped →
    d < 128 ∧ ∀ j, (wholeLine (· == d) s).1.length ≠ givenSize buffer * 2 ^ j

theorem commonGetdelim_eq (junk g : Nat → Byte) (delimiter : Int) {buffer : Option (List Byte)}
    (hbuffer : GivenBuffer buffer) :
    ∃ bytes, bytes.length = givenSize buffer ∧ 0 < bytes.length ∧ ∀ fuel s,
      commonGetdelim junk (some g) delimiter buffer fuel s =
        getdelimLoop junk (some g) delimiter fuel 0 bytes s := by
  cases buffer with
  | none =>
    refine ⟨block 512 g, length_block _ _, ?_, fun fuel s => rfl⟩
    rw [length_block]
    omega
  | some bytes => exact ⟨bytes, rfl, List.length_pos_iff.mpr (hbuffer bytes rfl), fun fuel s => rfl⟩

/-- **`getdelim`.** On every stream that can be reached, with every delimiter and buffer of the caller's, a
call returns the length of the line that ends with the delimiter, and the line, or -1 at the end of the file. -/
theorem getdelim_line (h : Reached s) {d : Byte} {buffer : Option (List Byte)} (hbuffer : GivenBuffer buffer)
    (hplain : GetdelimPlain s d buffer) : GetdelimRight s d buffer := by
  intro junk g
  obtain ⟨bytes, hsize, hpos, heq⟩ := commonGetdelim_eq junk g d.toNat hbuffer
  obtain ⟨hok, hff, hfound⟩ := hplain
  rcases hline : wholeLine (· == d) s with ⟨line, last, s'⟩
  rw [hline] at hok hff hfound
  simp only [heq]
  refine ⟨(unread s).length + 1, ?_⟩
  rcases hok with hlast | hlast
  · dsimp only at hlast
    subst hlast
    obtain ⟨hd, hfits⟩ := hfound rfl
    obtain ⟨text, hloop, hfault, htext⟩ := getdelimLoop_found hd h.held hline hff hpos
      (fun j => by rw [hsize, Nat.zero_add]; exact hfits j)
    rw [Nat.zero_add] at hloop htext
    rw [List.take_zero, List.nil_append] at htext
    exact ⟨text, hloop, hfault, fun _ => htext⟩
  · dsimp only at hlast
    subst hlast
    obtain ⟨text, hloop, hfault⟩ := getdelimLoop_ended h.held hline hff hpos
    exact ⟨text, hloop, hfault, fun hstopped => by contradiction⟩

/-- A file with two lines, of which the second has no newline. -/
def twoLines : Stream :=
  createStream ⟨[97, 10, 98], 0, false, []⟩ (getBufMode .rdonly) 2 (some fun _ => 0)

theorem reached_twoLines : Reached twoLines :=
  Reached.of_fopened ⟨⟨[97, 10, 98], 0, false, []⟩, .rdonly, 2, some fun _ => 0, by decide, rfl⟩

theorem getdelim_line_first : GetdelimRight twoLines 10 none := by
  refine getdelim_line reached_twoLines (fun bytes hb => by contradiction) ⟨Or.inl (by decide), by decide, ?_⟩
  intro _
  refine ⟨by decide, fun j hj => ?_⟩
  have hlen : (wholeLine (· == 10) twoLines).1.length = 2 := by decide
  have hpow := Nat.one_le_two_pow (n := j)
  rw [hlen, givenSize] at hj
  omega

/-- A line that the end of the file ends is not counted: with the "b" that is left the result is -1. -/
theorem not_getdelim :
    ¬ ∀ s, Reached s → ∀ d buffer, GivenBuffer buffer → ∀ junk g, ∃ fuel text s',
      commonGetdelim junk (some g) (UInt8.toNat d) buffer fuel s =
        some (if (wholeLine (· == d) s).1 = [] then -1 else ((wholeLine (· == d) s).1.length : Int),
          text, s') := by
  intro h
  obtain ⟨fuel, text, s', hget⟩ := h (lone 98) (reached_lone 98) 10 (some [0, 0])
    (fun bytes hb => by cases hb; exact List.cons_ne_nil _ _) (fun _ => 0) (fun _ => 0)
  have hline : (wholeLine (· == 10) (lone 98)).1 = [98] := by decide
  rw [hline] at hget
  match fuel, hget with
  | 0, hget => contradiction
  | 1, hget =>
    have hnone : commonGetdelim (fun _ => 0) (some fun _ => 0) 10 (some [0, 0]) 1 (lone 98) = none := by rfl
    exact absurd (hnone.symm.trans hget) (by simp)
  | fuel + 2, hget =>
    have hresult : (commonGetdelim (fun _ => 0) (some fun _ => 0) 10 (some [0, 0]) (fuel + 2) (lone 98)).map
        (fun r => r.1) = some (-1) := by rfl
    rw [show ((UInt8.toNat 10 : Nat) : Int) = 10 from rfl] at hget
    rw [hget] at hresult
    have hone : (if ([98] : List Byte) = [] then (-1 : Int) else ([98] : List Byte).length) ≠ -1 := by decide
    exact hone (Option.some.inj hresult)

/-- The condition, in terms of what there is to read. -/
theorem getdelimPlain_iff (h : Flowing s) {d : Byte} {buffer : Option (List Byte)} :
    GetdelimPlain s d buffer ↔
      0xff ∉ takeLine (· == d) (unread s).length (unread s) ∧
        (d ∈ unread s → d < 128 ∧ ∀ j,
          (takeLine (· == d) (unread s).length (unread s)).length ≠ givenSize buffer * 2 ^ j) := by
  obtain ⟨hline, hlast⟩ := @wholeLine_unread s (· == d) h
  have hmem : (unread s).any (· == d) = true ↔ d ∈ unread s := by
    rw [List.any_eq_true]
    simp
  rw [← hline]
  constructor
  · rintro ⟨-, hplain, hfound⟩
    refine ⟨hplain, fun hd => hfound ?_⟩
    rw [hlast, if_pos (hmem.mpr hd)]
  · rintro ⟨hplain, hfound⟩
    refine ⟨?_, hplain, fun hstopped => hfound ?_⟩
    · rw [hlast]
      split
      · exact Or.inl rfl
      · exact Or.inr rfl
    · by_contra hd
      rw [hlast, if_neg (fun hany => hd (hmem.mp hany))] at hstopped
      contradiction

end WindowsLibc.Stdio
