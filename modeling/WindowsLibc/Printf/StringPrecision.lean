import WindowsLibc.Convert.Unicode
import WindowsLibc.Printf.Counted

/-!
# Strings with a precision

How far the `PRINT_STRING` branch of `print_arg` reads, and what it prints, for the three sizes of
elements.

* `stringReads` has every element that the branch reads, in order. `printString_congr`: there is nothing
  else in memory that the output depends on.
* `Utf8Form` is the text that elements stand for, if they stand for one.
* `printString_right_iff`: the length scan tests an element before it looks at the precision. So it stays
  within the array only if it comes to a zero there.
-/

namespace WindowsLibc.Printf

open WindowsLibc.Lib WindowsLibc.Convert

/-! ## What is read -/

/-- The elements that `while (*ch++ != 0 && count < config->precision)` reads. -/
def countReads (isNul : Nat → Bool) (precision : Nat) : Nat → Nat → List Nat
  | 0, count => [count]
  | fuel + 1, count =>
    count ::
      if !isNul count ∧ count < precision then countReads isNul precision fuel (count + 1) else []

/-- The units that `utf16_decode` reads when it starts at `high`. -/
def utf16Reads (high : UInt16) (i : Nat) : List Nat :=
  if 0xD800 ≤ high ∧ high ≤ 0xDBFF then [i, i + 1] else [i]

/-- The units that the loop of `%ls` reads. -/
def writeUtf16Reads (mem : Memory) (data : UInt64) (count : Nat) : Nat → Nat → Nat → List Nat
  | 0, _, _ => []
  | fuel + 1, i, pos =>
    if i < count then
      let (size, codepoint) := utf16Decode (stringUnit mem data pos) (stringUnit mem data (pos + 2))
      utf16Reads (stringUnit mem data pos) (pos / 2) ++
        if codepoint = 0 then []
        else writeUtf16Reads mem data count fuel (if size = 4 then i + 2 else i + 1) (pos + size)
    else []

/-- `config->precision` in the branch. -/
def stringPrecision (config : PrintConfig) : Nat :=
  if config.flags.precision then config.precision.toNat else 4294967295

/-- An element of the argument, of the size that the modifier says. -/
def stringElement (mem : Memory) (config : PrintConfig) (i : Nat) : Nat :=
  match config.modifier with
  | .long => (stringUnit mem config.data (2 * i)).toNat
  | .longLong => (stringChar mem config.data (4 * i)).toNat
  | _ => (stringByte mem config.data i).toNat

/-- The elements that the branch reads: first the scan, then the printing. -/
def stringReads (mem : Memory) (config : PrintConfig) : List Nat :=
  let count := stringCount mem config
  countReads (fun i => stringElement mem config i == 0) (stringPrecision config)
      (stringPrecision config) 0 ++
    match config.modifier with
    | .long => writeUtf16Reads mem config.data count count 0 0
    | _ => List.range count

variable {mem mem' : Memory} {config : PrintConfig} {isNul isNul' : Nat → Bool} {precision : Nat}

/-! ## The scan -/

theorem le_countChars (isNul : Nat → Bool) (precision fuel n : Nat) : n ≤ countChars isNul precision fuel n := by
  induction fuel generalizing n with
  | zero => exact Nat.le_refl n
  | succ fuel ih =>
    rw [countChars]
    split
    · exact Nat.le_of_succ_le (ih (n + 1))
    · exact Nat.le_refl n

/-- It reads the element it stops at. -/
theorem mem_countReads {fuel n i : Nat} :
    i ∈ countReads isNul precision fuel n ↔ n ≤ i ∧ i ≤ countChars isNul precision fuel n := by
  induction fuel generalizing n with
  | zero =>
    rw [countReads, countChars, List.mem_singleton]
    omega
  | succ fuel ih =>
    have hle := le_countChars isNul precision fuel (n + 1)
    rw [countReads, countChars]
    split
    · rw [List.mem_cons, ih]
      omega
    · rw [List.mem_singleton]
      omega

theorem countChars_congr {fuel n : Nat}
    (h : ∀ i ∈ countReads isNul precision fuel n, isNul i = isNul' i) :
    countChars isNul precision fuel n = countChars isNul' precision fuel n := by
  induction fuel generalizing n with
  | zero => rfl
  | succ fuel ih =>
    rw [countReads] at h
    have hn := h n List.mem_cons_self
    rw [countChars, countChars, ← hn]
    split
    · next hgo =>
      rw [if_pos hgo] at h
      exact ih (fun i hi => h i (List.mem_cons_of_mem n hi))
    · rfl

theorem stringElement_units (h : config.modifier = .long) (i : Nat) :
    stringElement mem config i = (stringUnit mem config.data (2 * i)).toNat := by
  rw [stringElement, h]

theorem stringElement_chars (h : config.modifier = .longLong) (i : Nat) :
    stringElement mem config i = (stringChar mem config.data (4 * i)).toNat := by
  rw [stringElement, h]

theorem stringElement_bytes (hlong : config.modifier ≠ .long) (hlongLong : config.modifier ≠ .longLong)
    (i : Nat) : stringElement mem config i = (stringByte mem config.data i).toNat := by
  rw [stringElement]
  split
  · contradiction
  · contradiction
  · rfl

theorem stringCount_eq (mem : Memory) (config : PrintConfig) :
    stringCount mem config = countChars (fun i => stringElement mem config i == 0)
      (stringPrecision config) (stringPrecision config) 0 := by
  rw [stringCount, stringPrecision]
  refine congrArg (fun isNul => countChars isNul _ _ 0) (funext fun i => ?_)
  rw [Bool.eq_iff_iff, beq_iff_eq]
  split
  · next hm =>
    rw [stringElement_units hm, beq_iff_eq, ← UInt16.toNat_inj]
    exact Iff.rfl
  · next hm =>
    rw [stringElement_chars hm, beq_iff_eq, ← UInt32.toNat_inj]
    exact Iff.rfl
  · next hlong hlongLong =>
    rw [stringElement_bytes hlong hlongLong, beq_iff_eq, ← UInt8.toNat_inj]
    exact Iff.rfl

/-! ## The elements -/

/-- The elements of an array of `stringPrecision config` of them that stand before the first zero. -/
def stringElements (mem : Memory) (config : PrintConfig) : List Nat :=
  ((List.range (stringPrecision config)).map (stringElement mem config)).takeWhile (· ≠ 0)

/-- The units of UTF-16. -/
def utf16Units (c : Char) : List Nat :=
  if c.toNat < 0x10000 then [c.toNat]
  else [0xD800 + (c.toNat - 0x10000) / 1024, 0xDC00 + (c.toNat - 0x10000) % 1024]

/-- What elements are in UTF-8: bytes are text already, larger elements are UTF-16 and UTF-32. -/
inductive Utf8Form : Modifier → List Nat → List UInt8 → Prop
  | units (text : List Char) :
      Utf8Form .long (text.flatMap utf16Units) (text.flatMap String.utf8EncodeChar)
  | chars (text : List Char) :
      Utf8Form .longLong (text.map Char.toNat) (text.flatMap String.utf8EncodeChar)
  | bytes {m : Modifier} (hm : m ≠ .long ∧ m ≠ .longLong) (text : List UInt8) :
      Utf8Form m (text.map UInt8.toNat) text

/-- The elements are those that the scan has counted. -/
theorem stringElements_eq (mem : Memory) (config : PrintConfig) :
    stringElements mem config = (List.range (stringCount mem config)).map (stringElement mem config) := by
  obtain ⟨-, hmax, hsome, hend⟩ := countChars_spec (fun i => stringElement mem config i == 0)
    (Nat.zero_add (stringPrecision config)).symm
  rw [← stringCount_eq] at hmax hsome hend
  generalize stringCount mem config = n at hmax hsome hend ⊢
  rw [stringElements, show stringPrecision config = n + (stringPrecision config - n) by omega,
    List.range_add, List.map_append, List.takeWhile_append_of_pos]
  · rcases hend with hall | hnul
    · rw [hall, Nat.sub_self]
      simp
    · cases hrest : stringPrecision config - n with
      | zero => simp
      | succ k =>
        have hzero : stringElement mem config n = 0 := by simpa using hnul
        rw [List.range_succ_eq_map, List.map_cons, List.map_cons, Nat.add_zero, List.takeWhile_cons_of_neg,
          List.append_nil]
        simp [hzero]
  · intro e he
    obtain ⟨i, hi, rfl⟩ := List.mem_map.mp he
    have h := hsome i (Nat.zero_le i) (List.mem_range.mp hi)
    simpa using h

/-! ## What is printed -/

theorem count_cons (bytes : List UInt8) (ws : List (List UInt8)) :
    count (bytes :: ws) = UInt32.ofNat bytes.length + count ws := by
  rw [← List.singleton_append, count_append, count_singleton]

/-- The action counts what it writes on top of what has been counted. -/
theorem emits_writen_next {bytes : List UInt8} {ws : List (List UInt8)} {result : UInt32}
    {x : UInt32 → Output UInt32}
    (h : sink.Emits (x (result + UInt32.ofNat bytes.length)) ws
      (result + UInt32.ofNat bytes.length + count ws)) :
    sink.Emits (writen bytes >>= fun _ => x (result + UInt32.ofNat bytes.length)) (bytes :: ws)
      (result + count (bytes :: ws)) := by
  rw [count_cons, ← UInt32.add_assoc]
  exact Sink.emits_bind (emits_writen bytes) h

theorem emits_end (result : UInt32) : sink.Emits (pure result) [] (result + count []) := by
  rw [count_nil, UInt32.add_zero]
  exact Sink.emits_pure result

theorem toNat_bounds (c : Char) : c.toNat < 0xD800 ∨ (0xDFFF < c.toNat ∧ c.toNat < 0x110000) := c.valid

theorem utf16Decode_small {c : Char} {high low : UInt16} (hsmall : c.toNat < 0x10000)
    (hhigh : high.toNat = c.toNat) : utf16Decode high low = (2, c.val) := by
  have hc := toNat_bounds c
  have hval : high.toUInt32 = c.val := by
    rw [← UInt32.toNat_inj, UInt16.toNat_toUInt32, hhigh]
    rfl
  rw [utf16Decode, if_pos, hval]
  simp only [gt_iff_lt, UInt16.lt_iff_toNat_lt, UInt16.reduceToNat]
  omega

theorem utf16Decode_large {c : Char} {high low : UInt16} (hlarge : ¬ c.toNat < 0x10000)
    (hhigh : high.toNat = 0xD800 + (c.toNat - 0x10000) / 1024)
    (hlow : low.toNat = 0xDC00 + (c.toNat - 0x10000) % 1024) : utf16Decode high low = (4, c.val) := by
  have hc := toNat_bounds c
  exact utf16Decode_pair (v := c.val) (show 0xFFFF < c.toNat by omega) (show c.toNat < 0x110000 by omega)
    hhigh hlow

theorem val_ne_zero {c : Char} (h : c.toNat ≠ 0) : c.val ≠ 0 := by
  intro hzero
  refine h ?_
  show c.val.toNat = 0
  rw [hzero]
  rfl

/-- The loop of `%ls` on units that are a text. -/
theorem emits_writeUtf16_text {data : UInt64} {n : Nat} {text : List Char} {fuel i : Nat}
    {result : UInt32} (hi : i ≤ n) (hfuel : n ≤ fuel + i)
    (hunits : (List.range' i (n - i)).map (fun j => (stringUnit mem data (2 * j)).toNat) =
      text.flatMap utf16Units)
    (hsome : ∀ c ∈ text, c.toNat ≠ 0) :
    sink.Emits (writeUtf16 mem data n fuel i (2 * i) result) (text.map String.utf8EncodeChar)
      (result + count (text.map String.utf8EncodeChar)) := by
  induction text generalizing fuel i result with
  | nil =>
    have hlen := congrArg List.length hunits
    rw [List.length_map, List.length_range'] at hlen
    have hend : ¬ i < n := by
      have h : ([] : List Char).flatMap utf16Units = [] := rfl
      rw [h, List.length_nil] at hlen
      omega
    cases fuel with
    | zero => exact emits_end result
    | succ fuel =>
      rw [writeUtf16, if_neg hend]
      exact emits_end result
  | cons c text ih =>
    have hc := hsome c List.mem_cons_self
    have hrest : ∀ c ∈ text, c.toNat ≠ 0 := fun c hc => hsome c (List.mem_cons_of_mem _ hc)
    rw [List.flatMap_cons] at hunits
    have hlt : i < n := by
      by_contra hge
      rw [show n - i = 0 by omega, List.range'_zero, List.map_nil] at hunits
      have hnil := (List.append_eq_nil_iff.mp hunits.symm).1
      rw [utf16Units] at hnil
      split at hnil
      · exact List.cons_ne_nil _ _ hnil
      · exact List.cons_ne_nil _ _ hnil
    obtain ⟨fuel, rfl⟩ : ∃ k, fuel = k + 1 := ⟨fuel - 1, by omega⟩
    obtain ⟨m, hm⟩ : ∃ m, n - i = m + 1 := ⟨n - i - 1, by omega⟩
    rw [hm, List.range'_succ, List.map_cons] at hunits
    rw [writeUtf16, if_pos hlt, List.map_cons]
    by_cases hsmall : c.toNat < 0x10000
    · rw [utf16Units, if_pos hsmall, List.singleton_append, List.cons.injEq] at hunits
      rw [utf16Decode_small hsmall hunits.1]
      dsimp only
      rw [if_neg (val_ne_zero hc), if_neg (by decide), utf8Encode_val]
      refine emits_writen_next ?_
      exact ih (i := i + 1) hlt (by omega) (by rw [show n - (i + 1) = m by omega]; exact hunits.2) hrest
    · rw [utf16Units, if_neg hsmall, List.cons_append, List.cons_append, List.nil_append,
        List.cons.injEq] at hunits
      obtain ⟨hhigh, hlow⟩ := hunits
      obtain ⟨m, rfl⟩ : ∃ k, m = k + 1 := by
        cases m with
        | zero => exact absurd hlow.symm (List.cons_ne_nil _ _)
        | succ k => exact ⟨k, rfl⟩
      rw [List.range'_succ, List.map_cons, List.cons.injEq] at hlow
      rw [utf16Decode_large hsmall hhigh (by rw [← hlow.1]; rfl)]
      dsimp only
      rw [if_neg (val_ne_zero hc), if_pos rfl, utf8Encode_val]
      refine emits_writen_next ?_
      exact ih (i := i + 2) (by omega) (by omega)
        (by rw [show n - (i + 2) = m by omega]; exact hlow.2) hrest

/-- The loop of `%lls` on characters. -/
theorem emits_writeUtf32_text {data : UInt64} {n : Nat} {text : List Char} {i : Nat} {result : UInt32}
    (hchars : (List.range' i n).map (fun j => (stringChar mem data (4 * j)).toNat) =
      text.map Char.toNat) :
    sink.Emits (writeUtf32 mem data n i result) (text.map String.utf8EncodeChar)
      (result + count (text.map String.utf8EncodeChar)) := by
  induction text generalizing n i result with
  | nil =>
    cases n with
    | zero => exact emits_end result
    | succ n => contradiction
  | cons c text ih =>
    cases n with
    | zero => contradiction
    | succ n =>
      rw [List.range'_succ, List.map_cons, List.map_cons, List.cons.injEq] at hchars
      have hval : stringChar mem data (4 * i) = c.val := UInt32.toNat_inj.mp hchars.1
      rw [writeUtf32, List.map_cons, hval, utf8Encode_val]
      exact emits_writen_next (ih hchars.2)

theorem ne_zero_of_mem_stringElements {e : Nat} (he : e ∈ stringElements mem config) : e ≠ 0 := by
  have h := List.all_eq_true.mp List.all_takeWhile e he
  simpa using h

/-- The text of a string is printed in UTF-8. -/
theorem emits_writeString_form {form : List UInt8}
    (h : Utf8Form config.modifier (stringElements mem config) form) :
    ∃ ws, ws.flatten = form ∧ ∀ result,
      sink.Emits (writeString mem config (stringCount mem config) result) ws (result + count ws) := by
  have helems := stringElements_eq mem config
  rw [List.range_eq_range'] at helems
  have hsome : ∀ e ∈ stringElements mem config, e ≠ 0 := fun e => ne_zero_of_mem_stringElements
  generalize stringElements mem config = elems at h helems hsome
  generalize stringCount mem config = n at helems ⊢
  generalize hm : config.modifier = m at h
  cases h with
  | units text =>
    refine ⟨text.map String.utf8EncodeChar, List.flatMap_def.symm, fun result => ?_⟩
    rw [writeString, hm]
    refine emits_writeUtf16_text (Nat.zero_le n) (Nat.le_refl _) ?_ ?_
    · rw [helems, Nat.sub_zero]
      exact List.map_congr_left fun j _ => (stringElement_units hm j).symm
    · intro c hc hzero
      refine hsome 0 (List.mem_flatMap.mpr ⟨c, hc, ?_⟩) rfl
      rw [utf16Units, hzero]
      exact List.mem_cons_self
  | chars text =>
    refine ⟨text.map String.utf8EncodeChar, List.flatMap_def.symm, fun result => ?_⟩
    rw [writeString, hm]
    refine emits_writeUtf32_text ?_
    rw [helems]
    exact List.map_congr_left fun j _ => (stringElement_chars hm j).symm
  | bytes hbytes =>
    have htext : (List.range n).map (stringByte mem config.data) = form := by
      apply List.map_injective_iff.mpr (fun _ _ => UInt8.toNat_inj.mp)
      rw [helems, List.range_eq_range', List.map_map]
      refine List.map_congr_left fun j _ => ?_
      rw [stringElement_bytes (by rw [hm]; exact hbytes.1) (by rw [hm]; exact hbytes.2)]
      rfl
    refine ⟨[form], List.flatten_singleton, fun result => ?_⟩
    have hwrite : writeString mem config n result = (do
        writen ((List.range n).map (stringByte mem config.data))
        return result + UInt32.ofNat n) := by
      rw [writeString]
      split
      · next hlong => exact absurd (hm.symm.trans hlong) hbytes.1
      · next hlong => exact absurd (hm.symm.trans hlong) hbytes.2
      · rfl
    have hlen := congrArg List.length htext
    rw [List.length_map, List.length_range] at hlen
    rw [hwrite, htext, count_singleton, ← hlen]
    exact Sink.emits_bind (emits_writen form) (Sink.emits_pure _)

/-- A text in a field as wide as `config->width` says, where `n` elements have been printed. -/
def padded (config : PrintConfig) (n : Nat) (form : List UInt8) : List UInt8 :=
  if config.flags.leftJustify then form ++ List.replicate (config.width.toNat - n) 32
  else List.replicate (config.width.toNat - n) 32 ++ form

/-- What is asked of a string conversion: it stays within the array, and prints what stands before the
first zero, in UTF-8 and with spaces for the elements that are missing. -/
structure StringRight (mem : Memory) (config : PrintConfig) : Prop where
  inside : ∀ i ∈ stringReads mem config, i < stringPrecision config
  printed : ∃ form ws, Utf8Form config.modifier (stringElements mem config) form ∧
    sink.Emits (printString mem config) ws (count ws) ∧
    ws.flatten = padded config (stringElements mem config).length form

theorem printString_form {form : List UInt8}
    (h : Utf8Form config.modifier (stringElements mem config) form) :
    ∃ ws, sink.Emits (printString mem config) ws (count ws) ∧
      ws.flatten = padded config (stringElements mem config).length form := by
  obtain ⟨ws, rfl, hws⟩ := emits_writeString_form h
  have hlen : (stringElements mem config).length = stringCount mem config := by
    rw [stringElements_eq, List.length_map, List.length_range]
  rw [hlen, padded]
  simp only [printString]
  generalize stringCount mem config = n at hws ⊢
  split
  · refine ⟨ws ++ (List.replicate (config.width.toNat - n) [32] ++ []), ?_, ?_⟩
    · refine emits_count (Sink.emits_bind (hws 0)
        (Sink.emits_bind (emits_padTimes 32 _) (Sink.emits_pure _))) ?_
      simp only [count_append, count_replicate, count_nil, UInt32.zero_add, UInt32.add_zero]
    · rw [List.append_nil, List.flatten_append, List.flatten_replicate_singleton]
  · refine ⟨List.replicate (config.width.toNat - n) [32] ++ ws, ?_, ?_⟩
    · refine emits_count (Sink.emits_bind (emits_padTimes 32 _) (hws _)) ?_
      simp only [count_append, count_replicate]
    · rw [List.flatten_append, List.flatten_replicate_singleton]

/-! ## How far the array is read -/

/-- A unit that is no character ends the loop; otherwise the decoder goes on by what it has read. -/
theorem utf16Decode_size {high low : UInt16} (h : (utf16Decode high low).2 ≠ 0) :
    (utf16Decode high low).1 = 2 ∨ (utf16Decode high low).1 = 4 := by
  rw [utf16Decode] at h ⊢
  split
  · exact .inl rfl
  · next hsurrogate =>
    rw [if_neg hsurrogate] at h
    split
    · exact .inr rfl
    · next hpair =>
      rw [if_neg hpair] at h
      exact absurd rfl h

theorem mem_utf16Reads {high : UInt16} {i j : Nat} (h : j ∈ utf16Reads high i) : j = i ∨ j = i + 1 := by
  rw [utf16Reads] at h
  split at h
  · simpa using h
  · exact .inl (by simpa using h)

/-- A surrogate may be followed by the element that the scan has stopped at. -/
theorem le_of_mem_writeUtf16Reads {data : UInt64} {n fuel i j : Nat}
    (h : j ∈ writeUtf16Reads mem data n fuel i (2 * i)) : j ≤ n := by
  induction fuel generalizing i with
  | zero => exact absurd h List.not_mem_nil
  | succ fuel ih =>
    rw [writeUtf16Reads] at h
    split at h
    · next hi =>
      dsimp only at h
      rcases List.mem_append.mp h with hhere | hlater
      · have hj := mem_utf16Reads hhere
        omega
      · split at hlater
        · exact absurd hlater List.not_mem_nil
        · next hcode =>
          rcases utf16Decode_size hcode with hsize | hsize
          · rw [hsize, if_neg (by decide)] at hlater
            exact ih (i := i + 1) hlater
          · rw [hsize, if_pos rfl] at hlater
            exact ih (i := i + 2) hlater
    · exact absurd h List.not_mem_nil

/-- The branch stays within the array if and only if there is a zero in it. -/
theorem stringReads_inside_iff (mem : Memory) (config : PrintConfig) :
    (∀ i ∈ stringReads mem config, i < stringPrecision config) ↔
      ∃ z, z < stringPrecision config ∧ stringElement mem config z = 0 := by
  obtain ⟨-, hmax, hsome, hend⟩ := countChars_spec (fun i => stringElement mem config i == 0)
    (Nat.zero_add (stringPrecision config)).symm
  have hscan (i : Nat) : i ∈ countReads (fun i => stringElement mem config i == 0)
      (stringPrecision config) (stringPrecision config) 0 ↔ i ≤ stringCount mem config := by
    rw [mem_countReads, stringCount_eq]
    exact and_iff_right (Nat.zero_le i)
  rw [← stringCount_eq] at hmax hsome hend
  constructor
  · intro hinside
    -- the element that the scan stops at has been read
    have hlt := hinside (stringCount mem config)
      (List.mem_append_left _ ((hscan _).mpr (Nat.le_refl _)))
    refine ⟨stringCount mem config, hlt, ?_⟩
    simpa using hend.resolve_left (Nat.ne_of_lt hlt)
  · rintro ⟨z, hz, hnul⟩ i hi
    have hcount : stringCount mem config ≤ z := by
      by_contra hlt
      have h := hsome z (Nat.zero_le z) (Nat.lt_of_not_le hlt)
      simp [hnul] at h
    suffices hle : i ≤ stringCount mem config from Nat.lt_of_le_of_lt (Nat.le_trans hle hcount) hz
    rcases List.mem_append.mp hi with hi | hi
    · exact (hscan i).mp hi
    · split at hi
      · exact le_of_mem_writeUtf16Reads hi
      · exact Nat.le_of_lt (List.mem_range.mp hi)

/-! ### Nothing else matters -/

theorem utf16Decode_congr {high low low' : UInt16} (h : 0xD800 ≤ high ∧ high ≤ 0xDBFF → low = low') :
    utf16Decode high low = utf16Decode high low' := by
  by_cases hhigh : 0xD800 ≤ high ∧ high ≤ 0xDBFF
  · rw [h hhigh]
  · rw [utf16Decode, utf16Decode]
    split
    · rfl
    · next hsurrogate =>
      have hlow : ¬ high ≤ 0xDBFF := by
        intro hle
        refine hhigh ⟨?_, hle⟩
        exact UInt16.not_lt.mp (fun hlt => hsurrogate (.inl hlt))
      rw [if_neg (fun hpair => hlow hpair.1), if_neg (fun hpair => hlow hpair.1)]

theorem writeUtf16_congr {data : UInt64} {n fuel i : Nat} {result : UInt32}
    (h : ∀ j ∈ writeUtf16Reads mem data n fuel i (2 * i),
      stringUnit mem data (2 * j) = stringUnit mem' data (2 * j)) :
    writeUtf16 mem data n fuel i (2 * i) result = writeUtf16 mem' data n fuel i (2 * i) result := by
  induction fuel generalizing i result with
  | zero => rfl
  | succ fuel ih =>
    rw [writeUtf16Reads] at h
    rw [writeUtf16, writeUtf16]
    by_cases hi : i < n
    · rw [if_pos hi] at h
      rw [if_pos hi, if_pos hi]
      have hat : 2 * i / 2 = i := by omega
      dsimp only at h
      rw [hat] at h
      have hhigh : stringUnit mem data (2 * i) = stringUnit mem' data (2 * i) := by
        refine h i (List.mem_append_left _ ?_)
        rw [utf16Reads]
        split <;> exact List.mem_cons_self
      have hdecode : utf16Decode (stringUnit mem data (2 * i)) (stringUnit mem data (2 * i + 2)) =
          utf16Decode (stringUnit mem' data (2 * i)) (stringUnit mem' data (2 * i + 2)) := by
        rw [← hhigh]
        refine utf16Decode_congr (fun hsurrogate => ?_)
        refine h (i + 1) (List.mem_append_left _ ?_)
        rw [utf16Reads, if_pos hsurrogate]
        exact List.mem_cons_of_mem _ List.mem_cons_self
      rw [← hdecode]
      rcases hdec : utf16Decode (stringUnit mem data (2 * i)) (stringUnit mem data (2 * i + 2)) with
        ⟨size, codepoint⟩
      rw [hdec] at h
      dsimp only at h ⊢
      by_cases hcode : codepoint = 0
      · rw [if_pos hcode, if_pos hcode]
      · rw [if_neg hcode, if_neg hcode]
        rw [if_neg hcode] at h
        have hnext := fun j hj => h j (List.mem_append_right _ hj)
        have hsize : size = 2 ∨ size = 4 := by
          have hdecoded := congrArg Prod.snd hdec
          rw [← show _ = size from congrArg Prod.fst hdec]
          exact utf16Decode_size (by rw [hdecoded]; exact hcode)
        refine bind_congr (fun _ => ?_)
        rcases hsize with rfl | rfl
        · exact ih (i := i + 1) hnext
        · exact ih (i := i + 2) hnext
    · rw [if_neg hi, if_neg hi]

theorem writeUtf32_congr {data : UInt64} {n i : Nat} {result : UInt32}
    (h : ∀ j ∈ List.range' i n, stringChar mem data (4 * j) = stringChar mem' data (4 * j)) :
    writeUtf32 mem data n i result = writeUtf32 mem' data n i result := by
  induction n generalizing i result with
  | zero => rfl
  | succ n ih =>
    rw [List.range'_succ] at h
    rw [writeUtf32, writeUtf32, ← h i List.mem_cons_self]
    exact bind_congr (fun _ => ih (fun j hj => h j (List.mem_cons_of_mem _ hj)))

/-- **What `stringReads` lists is all that is read**: the output is the same wherever these elements are. -/
theorem printString_congr (h : ∀ i ∈ stringReads mem config,
    stringElement mem config i = stringElement mem' config i) :
    printString mem config = printString mem' config := by
  have hscan := fun i hi => h i (List.mem_append_left _ hi)
  have hcount : stringCount mem config = stringCount mem' config := by
    rw [stringCount_eq, stringCount_eq]
    exact countChars_congr (fun i hi => by rw [hscan i hi])
  have hprint := fun i hi => h i (List.mem_append_right _ hi)
  have hwrite (result : UInt32) : writeString mem config (stringCount mem config) result =
      writeString mem' config (stringCount mem config) result := by
    generalize stringCount mem config = n at hprint ⊢
    rw [writeString, writeString]
    split
    · next hm =>
      rw [hm] at hprint
      refine writeUtf16_congr (i := 0) (fun j hj => ?_)
      have hj' := hprint j hj
      rw [stringElement_units hm, stringElement_units hm] at hj'
      exact UInt16.toNat_inj.mp hj'
    · next hm =>
      rw [hm] at hprint
      refine writeUtf32_congr (fun j hj => ?_)
      rw [← List.range_eq_range'] at hj
      have hj' := hprint j hj
      rw [stringElement_chars hm, stringElement_chars hm] at hj'
      exact UInt32.toNat_inj.mp hj'
    · next hlong hlongLong =>
      have hbytes : (List.range n).map (stringByte mem config.data) =
          (List.range n).map (stringByte mem' config.data) := by
        refine List.map_congr_left fun j hj => ?_
        have hj' := hprint j (by
          split
          · contradiction
          · exact hj)
        rw [stringElement_bytes hlong hlongLong, stringElement_bytes hlong hlongLong] at hj'
        exact UInt8.toNat_inj.mp hj'
      rw [hbytes]
  simp only [printString, ← hcount, hwrite]

/-- **String conversions with a precision.** The conversion stays within an array of as many elements as
the precision says, and prints the text in it, if and only if there is a zero in the array and what stands
before it is a text. -/
theorem printString_right_iff (mem : Memory) (config : PrintConfig) :
    StringRight mem config ↔
      (∃ z, z < stringPrecision config ∧ stringElement mem config z = 0) ∧
        ∃ form, Utf8Form config.modifier (stringElements mem config) form := by
  rw [← stringReads_inside_iff]
  constructor
  · rintro ⟨hinside, form, -, hform, -⟩
    exact ⟨hinside, form, hform⟩
  · rintro ⟨hinside, form, hform⟩
    obtain ⟨ws, hws, hflat⟩ := printString_form hform
    exact ⟨hinside, form, ws, hform, hws, hflat⟩

/-- `printf("%.3s", p)` on the three bytes `abc`. -/
theorem not_printString_right : ¬ ∀ mem config, StringRight mem config := by
  intro h
  let config : PrintConfig :=
    ⟨.string, .none, { precision := true }, 0, 3, 0, 16⟩
  have hinside := (h (fun _ => 97) config).inside 3 (by decide)
  exact absurd hinside (by decide)

end WindowsLibc.Printf
