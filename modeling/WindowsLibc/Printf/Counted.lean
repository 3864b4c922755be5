import WindowsLibc.Printf.Print

/-!
# Every branch counts what it writes

For each function of `Print`: whatever the buffer, it writes the same byte strings and returns their
length modulo `2 ^ 32`. The arithmetic is that of 32-bit words throughout, so nothing has to be known
of the width, the precision or the text.
-/

namespace WindowsLibc.Printf

open WindowsLibc.Lib

/-- The number of bytes in some byte strings, as the counters of the source have it. -/
def count (ws : List (List UInt8)) : UInt32 := UInt32.ofNat ws.flatten.length

@[simp] theorem count_nil : count [] = 0 := rfl

@[simp] theorem count_append (ws vs : List (List UInt8)) : count (ws ++ vs) = count ws + count vs := by
  rw [count, List.flatten_append, List.length_append, UInt32.ofNat_add]
  rfl

@[simp] theorem count_singleton (bytes : List UInt8) : count [bytes] = UInt32.ofNat bytes.length := by
  rw [count, List.flatten_singleton]

@[simp] theorem count_replicate (n : Nat) (byte : UInt8) :
    count (List.replicate n [byte]) = UInt32.ofNat n := by
  induction n with
  | zero => rfl
  | succ n ih =>
    rw [List.replicate_succ, ← List.singleton_append, count_append, ih, count_singleton,
      Nat.add_comm, UInt32.ofNat_add]
    rfl

/-- The action writes the same to every buffer, and returns how much. -/
def Counted (x : Output UInt32) : Prop := ∃ ws, sink.Emits x ws (count ws)

theorem emits_count {x : Output UInt32} {ws : List (List UInt8)} {a : UInt32} (h : sink.Emits x ws a)
    (ha : a = count ws) : sink.Emits x ws (count ws) := ha ▸ h

theorem Counted.of_emits {x : Output UInt32} {ws : List (List UInt8)} {a : UInt32}
    (h : sink.Emits x ws a) (ha : a = count ws) : Counted x := ⟨ws, ha ▸ h⟩

/-! ## Loops -/

theorem emits_writen (bytes : List UInt8) : sink.Emits (writen bytes) [bytes] ⟨⟩ :=
  Sink.emits_put bytes

theorem emits_writebyte (byte : UInt8) : sink.Emits (writebyte byte) [[byte]] ⟨⟩ :=
  Sink.emits_put [byte]

/-- The loop writes what is missing up to the limit. -/
theorem emits_padFrom (byte : UInt8) (add limit : UInt32) {fuel : Nat} {pos : UInt32}
    (hfuel : limit.toNat ≤ fuel + (pos + add).toNat) :
    sink.Emits (padFrom byte add limit fuel pos) (List.replicate (limit.toNat - (pos + add).toNat) [byte])
      (pos + UInt32.ofNat (limit.toNat - (pos + add).toNat)) := by
  induction fuel generalizing pos with
  | zero =>
    rw [Nat.sub_eq_zero_of_le (by omega)]
    exact (UInt32.add_zero pos).symm ▸ Sink.emits_pure pos
  | succ fuel ih =>
    rw [padFrom]
    by_cases hlt : pos + add < limit
    · -- `pos + add` is below `limit`, so the next one does not wrap.
      have hlt' : (pos + add).toNat < limit.toNat := hlt
      have hnext : (pos + 1 + add).toNat = (pos + add).toNat + 1 := by
        have hcomm : pos + 1 + add = pos + add + 1 := by grind
        rw [hcomm, UInt32.toNat_add, UInt32.toNat_one, Nat.mod_eq_of_lt]
        exact Nat.lt_of_le_of_lt hlt' limit.toNat_lt
      have hrest := @ih (pos + 1) (by rw [hnext]; omega)
      obtain ⟨n, hn⟩ : ∃ n, limit.toNat - (pos + add).toNat = n + 1 := ⟨limit.toNat - (pos + add).toNat - 1, by omega⟩
      have hpos : pos + 1 + UInt32.ofNat n = pos + UInt32.ofNat (n + 1) := by
        rw [UInt32.ofNat_add]
        grind
      rw [show limit.toNat - (pos + 1 + add).toNat = n by omega, hpos] at hrest
      rw [if_pos hlt, hn]
      exact Sink.emits_bind (emits_writebyte byte) hrest
    · have hge : limit.toNat ≤ (pos + add).toNat := UInt32.not_lt.mp hlt
      rw [if_neg hlt, Nat.sub_eq_zero_of_le hge]
      exact (UInt32.add_zero pos).symm ▸ Sink.emits_pure pos

theorem emits_pad (byte : UInt8) (pos add limit : UInt32) :
    sink.Emits (pad byte pos add limit) (List.replicate (limit.toNat - (pos + add).toNat) [byte])
      (pos + UInt32.ofNat (limit.toNat - (pos + add).toNat)) :=
  emits_padFrom byte add limit (Nat.le_add_right _ _)

theorem emits_padTimes (byte : UInt8) (n : Nat) :
    sink.Emits (padTimes byte n) (List.replicate n [byte]) ⟨⟩ := by
  induction n with
  | zero => exact Sink.emits_pure _
  | succ n ih => exact Sink.emits_bind (emits_writebyte byte) ih

/-- The loop stops at the precision or at the end of the string. -/
theorem countChars_spec (isNul : Nat → Bool) {precision fuel i : Nat} (hfuel : precision = i + fuel) :
    i ≤ countChars isNul precision fuel i ∧ countChars isNul precision fuel i ≤ precision ∧
      (∀ j, i ≤ j → j < countChars isNul precision fuel i → isNul j = false) ∧
      (countChars isNul precision fuel i = precision ∨
        isNul (countChars isNul precision fuel i) = true) := by
  induction fuel generalizing i with
  | zero =>
    rw [countChars]
    exact ⟨Nat.le_refl i, by omega, fun j hle hlt => absurd hlt (by omega), .inl (by omega)⟩
  | succ fuel ih =>
    rw [countChars]
    split
    · next hgo =>
      obtain ⟨hle, hprec, hbefore, hstop⟩ := ih (show precision = i + 1 + fuel by omega)
      refine ⟨by omega, hprec, ?_, hstop⟩
      intro j hij hlt
      rcases Nat.eq_or_lt_of_le hij with rfl | hij
      · simpa using hgo.1
      · exact hbefore j hij hlt
    · next hgo =>
      refine ⟨Nat.le_refl i, by omega, fun j hle hlt => absurd hlt (by omega), .inr ?_⟩
      by_contra hnul
      exact hgo ⟨by simpa using hnul, by omega⟩

/-! ## Numbers -/

theorem takeSign_spec (config : PrintConfig) (temp : List UInt8) :
    ((takeSign config temp).1 ≠ 0 ∧ (takeSign config temp).2.1 = 1) ∨
      ((takeSign config temp).1 = 0 ∧ (takeSign config temp).2.1 = 0) := by
  fun_cases takeSign config temp
  case case1 => exact .inl ⟨(by decide : (45 : UInt8) ≠ 0), rfl⟩
  case case2 =>
    refine .inl ⟨?_, rfl⟩
    dsimp only
    split <;> decide
  case case3 => exact .inr ⟨rfl, rfl⟩

/-- The text of a sign. -/
def signText (sign : UInt8) : List UInt8 := if sign ≠ 0 then [sign] else []

/-- A sign takes as many bytes as `extra` says. -/
theorem emits_writeSign {sign : UInt8} {extra : UInt32}
    (h : (sign ≠ 0 ∧ extra = 1) ∨ (sign = 0 ∧ extra = 0)) :
    ∃ ws, sink.Emits (writeSign sign) ws ⟨⟩ ∧ count ws = extra ∧ ws.flatten = signText sign := by
  rw [writeSign, signText]
  obtain ⟨hsign, rfl⟩ | ⟨hsign, rfl⟩ := h
  · rw [if_pos hsign, if_pos hsign]
    exact ⟨_, emits_writebyte sign, rfl, rfl⟩
  · rw [if_neg (not_not.mpr hsign), if_neg (not_not.mpr hsign)]
    exact ⟨_, Sink.emits_pure _, rfl, rfl⟩

/-- Spaces, zeros in front of the digits, and spaces again. -/
structure Layout where
  left : Nat
  zeros : Nat
  right : Nat

/-- The sign or the prefix stands in front of the zeros. -/
def Layout.text (l : Layout) (lead digits : List UInt8) : List UInt8 :=
  List.replicate l.left 32 ++ (lead ++ (List.replicate l.zeros 48 ++ digits) ++ List.replicate l.right 32)

theorem Layout.length_text (l : Layout) (lead digits : List UInt8) :
    (l.text lead digits).length = l.left + (lead.length + (l.zeros + digits.length) + l.right) := by
  simp only [Layout.text, List.length_append, List.length_replicate]

/-- What the branches make of the width and the precision: there are `extra` bytes in front of the digits and
`size` bytes of digits and separators, `period` of which are taken for separators. -/
def layout (config : PrintConfig) (extra size period : UInt32) : Layout :=
  let zeros := config.precision.toNat - (size - period).toNat
  if config.flags.leftJustify then
    ⟨0, zeros, config.width.toNat - (size + UInt32.ofNat zeros + extra).toNat⟩
  else if config.width > max config.precision size then
    if config.flags.zeroPadded then ⟨0, config.width.toNat - (extra + size).toNat, 0⟩
    else ⟨config.width.toNat - (max config.precision (size - period) + extra + period).toNat, zeros, 0⟩
  else ⟨0, zeros, 0⟩

/-- How many of `size` bytes are taken for separators. -/
def separators (config : PrintConfig) (size : UInt32) : UInt32 :=
  if config.flags.groupDigits then (size - 1) / 3 else 0

/-- The text is laid out, and counted. -/
theorem printIntFormatted_layout (config : PrintConfig) (temp : List UInt8) :
    ∃ ws, sink.Emits (printIntFormatted config temp) ws (count ws) ∧
      ws.flatten = (layout config (takeSign config temp).2.1 (UInt32.ofNat (takeSign config temp).2.2.length)
        (separators config (UInt32.ofNat (takeSign config temp).2.2.length))).text
          (signText (takeSign config temp).1) (takeSign config temp).2.2 := by
  have hsign := takeSign_spec config temp
  simp only [printIntFormatted, layout, separators]
  -- What the branches do depends on the sign, its size and the text only.
  generalize (takeSign config temp).1 = sign at *
  generalize (takeSign config temp).2.1 = extra at *
  generalize (takeSign config temp).2.2 = temp at *
  generalize (if config.flags.groupDigits = true then _ else _) = period
  obtain ⟨ws, hws, rfl, htext⟩ := emits_writeSign hsign
  have hextra : ∀ pos : UInt32, (if sign ≠ 0 then pos + count ws else pos) = pos + count ws := by
    intro pos
    obtain ⟨h, -⟩ | ⟨-, h⟩ := hsign
    · exact if_pos h
    · rw [h, UInt32.add_zero, ite_self]
  have hone : (if sign ≠ 0 then (1 : UInt32) else 0) = count ws ∧ (if sign ≠ 0 then count ws else 0) = count ws := by
    obtain ⟨h, hcount⟩ | ⟨h, hcount⟩ := hsign
    · rw [if_pos h, if_pos h, hcount]
      exact ⟨rfl, rfl⟩
    · rw [if_neg (not_not.mpr h), if_neg (not_not.mpr h), hcount]
      exact ⟨rfl, rfl⟩
  have hzeros := emits_pad 48 0 (UInt32.ofNat temp.length - period) config.precision
  simp only [UInt32.zero_add] at hzeros
  generalize hn : config.precision.toNat - (UInt32.ofNat temp.length - period).toNat = zeros at hzeros
  split
  · have hspaces := emits_pad 32 (UInt32.ofNat temp.length + UInt32.ofNat zeros + count ws) 0 config.width
    refine ⟨_, emits_count (Sink.emits_bind hws (Sink.emits_bind hzeros (Sink.emits_bind (emits_writen temp) hspaces)))
      ?_, ?_⟩
    · simp only [count_append, count_singleton, count_replicate]
      grind
    · simp [Layout.text, htext]
  · split
    · split
      · -- Padded with zeros, which stand between the sign and the digits.
        have hfill := emits_pad 48 (count ws) (UInt32.ofNat temp.length) config.width
        rw [hone.2]
        refine ⟨_, emits_count (Sink.emits_bind hws (Sink.emits_bind hfill
          (Sink.emits_bind (emits_writen temp) (Sink.emits_pure _)))) ?_, ?_⟩
        · simp only [count_append, count_singleton, count_replicate, count_nil]
          grind
        · simp [Layout.text, htext]
      · -- Padded with spaces. The sum that bounds the padding need not be the length of the text.
        have hspaces := emits_pad 32 0
          (max config.precision (UInt32.ofNat temp.length - period) + count ws + period) config.width
        simp only [UInt32.zero_add] at hspaces
        rw [hone.1]
        refine ⟨_, emits_count (Sink.emits_bind hspaces (Sink.emits_bind hws (Sink.emits_bind hzeros
          (Sink.emits_bind (emits_writen temp) (Sink.emits_pure _))))) ?_, ?_⟩
        · simp only [count_append, count_singleton, count_replicate, count_nil, hextra]
          grind
        · simp [Layout.text, htext]
    · refine ⟨_, emits_count (Sink.emits_bind hws (Sink.emits_bind hzeros
        (Sink.emits_bind (emits_writen temp) (Sink.emits_pure _)))) ?_, ?_⟩
      · simp only [count_append, count_singleton, count_replicate, count_nil]
        grind
      · simp [Layout.text, htext]

/-- `inner` with spaces on either side. -/
def Spaced (inner text : List UInt8) : Prop :=
  ∃ left right, text = List.replicate left 32 ++ (inner ++ List.replicate right 32)

/-- The action writes such a text, and returns its length. -/
def PrintsSpaced (x : Output UInt32) (inner : List UInt8) : Prop :=
  ∃ ws, sink.Emits x ws (count ws) ∧ Spaced inner ws.flatten

theorem PrintsSpaced.of_emits {x : Output UInt32} {ws : List (List UInt8)} {a : UInt32}
    {inner : List UInt8} (left right : Nat) (h : sink.Emits x ws a) (ha : a = count ws)
    (htext : ws.flatten = List.replicate left 32 ++ (inner ++ List.replicate right 32)) :
    PrintsSpaced x inner :=
  ⟨ws, ha ▸ h, left, right, htext⟩

theorem PrintsSpaced.counted {x : Output UInt32} {inner : List UInt8} (h : PrintsSpaced x inner) :
    Counted x := by
  obtain ⟨ws, hws, -⟩ := h
  exact ⟨ws, hws⟩

/-- Zeros stand between the sign and the digits, whatever they are there for. -/
theorem printIntFormatted_spaced (config : PrintConfig) (temp : List UInt8) :
    ∃ zeros, PrintsSpaced (printIntFormatted config temp) (signText (takeSign config temp).1 ++
      (List.replicate zeros 48 ++ (takeSign config temp).2.2)) := by
  obtain ⟨ws, hws, htext⟩ := printIntFormatted_layout config temp
  exact ⟨_, ws, hws, _, _, htext⟩

theorem printIntFormatted_counted (config : PrintConfig) (temp : List UInt8) :
    Counted (printIntFormatted config temp) := by
  obtain ⟨zeros, h⟩ := printIntFormatted_spaced config temp
  exact h.counted

/-- The text of the alternate form. -/
def alternateForm (config : PrintConfig) : List UInt8 :=
  if config.flags.alternateForm then [48, alternateFormChar config] else []

theorem emits_writeAlternateForm (config : PrintConfig) :
    ∃ ws, sink.Emits (writeAlternateForm config) ws (count ws) ∧
      ws.flatten = alternateForm config := by
  rw [writeAlternateForm, alternateForm]
  split
  · exact ⟨_, Sink.emits_bind (emits_writebyte 48)
      (Sink.emits_bind (emits_writebyte (alternateFormChar config)) (Sink.emits_pure _)), rfl⟩
  · exact ⟨_, Sink.emits_pure _, rfl⟩

/-- The rule is the same, with a prefix for a sign and no separators. -/
theorem printUintFormatted_layout (config : PrintConfig) (temp : List UInt8) :
    ∃ ws, sink.Emits (printUintFormatted config temp) ws (count ws) ∧
      ws.flatten = (layout config (UInt32.ofNat (alternateForm config).length) (UInt32.ofNat temp.length) 0).text
        (alternateForm config) temp := by
  simp only [printUintFormatted, layout]
  obtain ⟨ws, hws, htext⟩ := emits_writeAlternateForm config
  have htwo : (if config.flags.alternateForm = true then (2 : UInt32) else 0) = count ws := by
    rw [count, htext, alternateForm]
    split <;> rfl
  rw [← htext, show UInt32.ofNat ws.flatten.length = count ws from rfl]
  have hzeros := emits_pad 48 0 (UInt32.ofNat temp.length) config.precision
  simp only [UInt32.zero_add] at hzeros
  simp only [UInt32.sub_zero, UInt32.add_zero]
  generalize hn : config.precision.toNat - (UInt32.ofNat temp.length).toNat = zeros at hzeros
  split
  · have hspaces := emits_pad 32 (UInt32.ofNat temp.length + (UInt32.ofNat zeros + count ws)) 0 config.width
    refine ⟨_, emits_count (Sink.emits_bind hws (Sink.emits_bind hzeros
      (Sink.emits_bind (emits_writen temp) hspaces))) ?_, ?_⟩
    · simp only [count_append, count_singleton, count_replicate]
      grind
    · simp [Layout.text, UInt32.add_assoc]
  · split
    · split
      · have hfill := emits_pad 48 (count ws) (UInt32.ofNat temp.length) config.width
        refine ⟨_, emits_count (Sink.emits_bind hws (Sink.emits_bind hfill
          (Sink.emits_bind (emits_writen temp) (Sink.emits_pure _)))) ?_, ?_⟩
        · simp only [count_append, count_singleton, count_replicate, count_nil]
          grind
        · simp [Layout.text]
      · have hspaces := emits_pad 32 0 (max config.precision (UInt32.ofNat temp.length) + count ws) config.width
        simp only [UInt32.zero_add] at hspaces
        rw [htwo]
        refine ⟨_, emits_count (Sink.emits_bind hspaces (Sink.emits_bind hws (Sink.emits_bind hzeros
          (Sink.emits_bind (emits_writen temp) (Sink.emits_pure _))))) ?_, ?_⟩
        · simp only [count_append, count_singleton, count_replicate, count_nil]
          grind
        · simp [Layout.text]
    · refine ⟨_, emits_count (Sink.emits_bind hws (Sink.emits_bind hzeros
        (Sink.emits_bind (emits_writen temp) (Sink.emits_pure _)))) ?_, ?_⟩
      · simp only [count_append, count_singleton, count_replicate, count_nil]
        grind
      · simp [Layout.text]

theorem printUintFormatted_spaced (config : PrintConfig) (temp : List UInt8) :
    ∃ zeros, PrintsSpaced (printUintFormatted config temp)
      (alternateForm config ++ (List.replicate zeros 48 ++ temp)) := by
  obtain ⟨ws, hws, htext⟩ := printUintFormatted_layout config temp
  exact ⟨_, ws, hws, _, _, htext⟩

theorem printUintFormatted_counted (config : PrintConfig) (temp : List UInt8) :
    Counted (printUintFormatted config temp) := by
  obtain ⟨zeros, h⟩ := printUintFormatted_spaced config temp
  exact h.counted

/-! ## Characters, strings and pointers -/

/-- What is staged for a character fits. -/
def CharFits (config : PrintConfig) : Prop :=
  1 < config.width → (config.width - 1).toNat + (preTemp config).length ≤ 128

theorem printChar_counted {config : PrintConfig} (h : CharFits config) :
    Counted (printChar config) := by
  simp only [printChar]
  split
  · next hwidth =>
    rw [if_neg (Nat.not_lt.mpr (h hwidth))]
    apply Counted.of_emits (Sink.emits_bind (emits_writen _) (Sink.emits_pure _))
    simp only [count_append, count_singleton, count_nil, UInt32.add_zero]
  · apply Counted.of_emits (Sink.emits_bind (emits_writen _) (Sink.emits_pure _))
    simp only [count_append, count_singleton, count_nil, UInt32.add_zero]

/-- A loop that writes some bytes, adds their number to its result and goes on. What it writes does
not depend on the result. -/
theorem emits_writen_then {bytes : List UInt8} {x : UInt32 → Output UInt32}
    (h : ∃ ws, ∀ result, sink.Emits (x result) ws (result + count ws)) :
    ∃ ws, ∀ result, sink.Emits (writen bytes >>= fun _ => x (result + UInt32.ofNat bytes.length)) ws
      (result + count ws) := by
  obtain ⟨ws, hws⟩ := h
  refine ⟨[bytes] ++ ws, ?_⟩
  intro result
  rw [count_append, count_singleton, ← UInt32.add_assoc]
  exact Sink.emits_bind (emits_writen bytes) (hws _)

/-- A loop that has ended. -/
theorem emits_nothing : ∃ ws, ∀ result, sink.Emits (pure result) ws (result + count ws) := by
  refine ⟨[], ?_⟩
  intro result
  exact (UInt32.add_zero result).symm ▸ Sink.emits_pure result

theorem emits_writeUtf16 (mem : Memory) (data : UInt64) (n fuel i pos : Nat) :
    ∃ ws, ∀ result, sink.Emits (writeUtf16 mem data n fuel i pos result) ws (result + count ws) := by
  induction fuel generalizing i pos with
  | zero => exact emits_nothing
  | succ fuel ih =>
    simp only [writeUtf16]
    by_cases hi : i < n
    · simp only [if_pos hi]
      split
      · exact emits_nothing
      · exact emits_writen_then (ih _ _)
    · simp only [if_neg hi]
      exact emits_nothing

theorem emits_writeUtf32 (mem : Memory) (data : UInt64) (n i : Nat) :
    ∃ ws, ∀ result, sink.Emits (writeUtf32 mem data n i result) ws (result + count ws) := by
  induction n generalizing i with
  | zero => exact emits_nothing
  | succ n ih => exact emits_writen_then (ih (i + 1))

theorem emits_writeString (mem : Memory) (config : PrintConfig) (n : Nat) :
    ∃ ws, ∀ result, sink.Emits (writeString mem config n result) ws (result + count ws) := by
  simp only [writeString]
  split
  · exact emits_writeUtf16 mem config.data n n 0 0
  · exact emits_writeUtf32 mem config.data n 0
  · refine ⟨[(List.range n).map (stringByte mem config.data)], ?_⟩
    intro result
    rw [count_singleton, List.length_map, List.length_range]
    exact Sink.emits_bind (emits_writen _) (Sink.emits_pure _)

theorem printString_counted (mem : Memory) (config : PrintConfig) :
    Counted (printString mem config) := by
  simp only [printString]
  generalize stringCount mem config = n
  obtain ⟨ws, hws⟩ := emits_writeString mem config n
  split
  · apply Counted.of_emits
    · exact Sink.emits_bind (hws 0) (Sink.emits_bind (emits_padTimes 32 _) (Sink.emits_pure _))
    · simp only [count_append, count_replicate, count_nil]
      grind
  · apply Counted.of_emits
    · exact Sink.emits_bind (emits_padTimes 32 _) (hws _)
    · simp only [count_append, count_replicate]

theorem printPointer_spaced (config : PrintConfig) :
    PrintsSpaced (printPointer config) (pointerEncode config.data) := by
  simp only [printPointer]
  generalize pointerEncode config.data = temp
  split
  · split
    · apply PrintsSpaced.of_emits 0 (config.width - UInt32.ofNat temp.length).toNat
      · exact Sink.emits_bind (emits_writen temp) (Sink.emits_bind (emits_padTimes 32 _)
          (Sink.emits_pure _))
      · simp only [count_append, count_singleton, count_replicate, count_nil, UInt32.add_zero]
      · simp
    · apply PrintsSpaced.of_emits (config.width - UInt32.ofNat temp.length).toNat 0
      · exact Sink.emits_bind (emits_padTimes 32 _) (Sink.emits_bind (emits_writen temp)
          (Sink.emits_pure _))
      · simp only [count_append, count_singleton, count_replicate, count_nil]
        grind
      · simp
  · apply PrintsSpaced.of_emits 0 0
    · exact Sink.emits_bind (emits_writen temp) (Sink.emits_pure _)
    · simp only [count_append, count_singleton, count_nil, UInt32.add_zero]
    · simp

theorem printPointer_counted (config : PrintConfig) : Counted (printPointer config) :=
  (printPointer_spaced config).counted

/-! ## Any argument -/

/-- What a conversion stages fits into the local arrays. -/
def Staged (config : PrintConfig) : Prop :=
  (config.type = .uintBinary → config.uint < 2 ^ 32) ∧ (config.type = .char → CharFits config)

/-- The memory that a conversion leaves. -/
def stored (mem : Memory) (config : PrintConfig) : Memory :=
  if config.type = .result then
    storeResult mem config.data config.modifier.resultBytes config.result.toNat
  else mem

theorem modifier_bits_le (modifier : Modifier) : modifier.bits ≤ 64 := by
  cases modifier <;> decide

theorem uint_lt (config : PrintConfig) : config.uint < 2 ^ 64 :=
  lt_of_lt_of_le (Nat.mod_lt _ (Nat.two_pow_pos _))
    (Nat.pow_le_pow_right (by decide) (modifier_bits_le config.modifier))

theorem int_bounds (config : PrintConfig) : -2 ^ 63 ≤ config.int ∧ config.int < 2 ^ 63 := by
  have hpow : (2 : Int) ^ (config.modifier.bits - 1) ≤ 2 ^ 63 := by
    cases config.modifier <;> decide
  have hlo := BitVec.le_toInt (BitVec.ofNat config.modifier.bits config.data.toNat)
  exact ⟨le_trans (neg_le_neg hpow) hlo, lt_of_lt_of_le BitVec.toInt_lt hpow⟩

/-- A count, beside memory that does not change. -/
theorem Counted.beside {x : Output UInt32} (h : Counted x) (mem : Memory) :
    ∃ ws, sink.Emits (x >>= fun result => pure (result, mem)) ws (count ws, mem) := by
  obtain ⟨ws, hws⟩ := h
  refine ⟨ws ++ [], ?_⟩
  rw [count_append, count_nil, UInt32.add_zero]
  exact Sink.emits_bind hws (Sink.emits_pure _)

/-- A text that could be staged is then printed. -/
theorem emits_staged {text : Option (List UInt8)} {print : List UInt8 → Output UInt32}
    (htext : text.isSome) (hprint : ∀ temp, Counted (print temp)) (mem : Memory) :
    ∃ ws, sink.Emits (StateT.lift text >>= fun temp => print temp >>= fun result =>
      pure (result, mem)) ws (count ws, mem) := by
  obtain ⟨temp, rfl⟩ := Option.isSome_iff_exists.mp htext
  obtain ⟨ws, hws⟩ := (hprint temp).beside mem
  exact ⟨[] ++ ws, Sink.emits_bind (Sink.emits_lift temp) hws⟩

/-- **A conversion writes the same to every buffer, and returns how much.** -/
theorem printArg_emits (mem : Memory) {config : PrintConfig} (h : Staged config) :
    ∃ ws, sink.Emits (printArg mem config) ws (count ws, stored mem config) := by
  obtain ⟨hbinary, hchar⟩ := h
  have huint := uint_lt config
  rw [stored]
  cases htype : config.type with
  | intNumber =>
    obtain ⟨hlo, hhi⟩ := int_bounds config
    simp only [printArg, htype]
    exact emits_staged (intToDecCommon_isSome hlo hhi _ _) (printIntFormatted_counted config) mem
  | uintNumber =>
    simp only [printArg, htype]
    exact emits_staged (uintToDecCommon_isSome huint _) (printIntFormatted_counted config) mem
  | uintBinary =>
    simp only [printArg, htype]
    exact emits_staged ((uintToBinCommon_isSome_iff _).mpr (hbinary htype))
      (printUintFormatted_counted config) mem
  | uintOctal =>
    simp only [printArg, htype]
    exact emits_staged (uintToOctCommon_isSome huint) (printUintFormatted_counted config) mem
  | uintHex =>
    simp only [printArg, htype]
    exact emits_staged (uintToHexCommon_isSome huint _) (printUintFormatted_counted config) mem
  | doubleHex =>
    obtain ⟨temp, htemp⟩ := Option.isSome_iff_exists.mp
      (float64ToHex_isSome config.flags.upperCase config.data)
    refine ⟨[] ++ ([temp] ++ []), ?_⟩
    rw [List.nil_append, List.append_nil, count_singleton]
    simp only [printArg, htype, htemp]
    exact Sink.emits_bind (Sink.emits_lift temp)
      (Sink.emits_bind (emits_writen temp) (Sink.emits_pure _))
  | char =>
    simp only [printArg, htype]
    exact (printChar_counted (hchar htype)).beside mem
  | string =>
    simp only [printArg, htype]
    exact (printString_counted mem config).beside mem
  | pointer =>
    simp only [printArg, htype]
    exact (printPointer_counted config).beside mem
  | result =>
    simp only [printArg, htype]
    exact ⟨[], Sink.emits_pure _⟩
  | doubleNormal | doubleScientific | doubleScientificShort | unknown =>
    simp only [printArg, htype]
    exact ⟨[], Sink.emits_pure _⟩

/-- What is staged and does not fit is a fault, whatever the buffer. -/
theorem printArg_fault (mem : Memory) {config : PrintConfig} (h : ¬ Staged config) (b : Buffer) :
    printArg mem config b = none := by
  by_cases hbinary : config.type = .uintBinary
  · have huint : ¬ config.uint < 2 ^ 32 := by
      intro hlt
      exact h ⟨fun _ => hlt, fun hchar => absurd (hbinary.symm.trans hchar) (by decide)⟩
    have htext : uintToBinCommon config.uint = none := by
      rw [← Option.not_isSome_iff_eq_none, uintToBinCommon_isSome_iff]
      exact huint
    simp only [printArg, hbinary, htext]
    rfl
  · have hchar : config.type = .char ∧ ¬ CharFits config := by
      by_contra hnot
      exact h ⟨fun heq => absurd heq hbinary, fun heq => by_contra fun hfits => hnot ⟨heq, hfits⟩⟩
    obtain ⟨htype, hfits⟩ := hchar
    obtain ⟨hwidth, hlong⟩ := Classical.not_imp.mp hfits
    simp only [printArg, htype, printChar]
    rw [if_pos hwidth, if_pos (Nat.not_le.mp hlong)]
    rfl

end WindowsLibc.Printf
