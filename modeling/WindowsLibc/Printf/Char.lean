import WindowsLibc.Printf.Print

/-!
# Characters, byte by byte (`print_arg`, `PRINT_CHAR`)

A character with a width is staged in the array `temp`, one byte after the other.

* `Temp` is the array with the index `pos`, which cannot be outside: `Temp.store` faults instead.
* `printCharLoops` has the loops of the source. `printCharLoops_eq` says that they do what `printChar` does.
* `print_char_iff` says when a character is printed as it should be: the array must hold all of it.
-/

namespace WindowsLibc.Printf

/-! ## The array -/

/-- `temp` and `pos`. -/
structure Temp where
  data : List UInt8
  pos : Nat
  length_eq : data.length = 128
  pos_le : pos ≤ 128

namespace Temp

/-- `temp[pos++] = byte`. -/
def store (t : Temp) (byte : UInt8) : Option Temp :=
  if h : t.pos < 128 then
    some ⟨t.data.set t.pos byte, t.pos + 1, (List.length_set).trans t.length_eq, h⟩
  else none

/-- The loop over `pre_temp`. -/
def storeBytes : List UInt8 → Temp → Option Temp
  | [], t => some t
  | byte :: bytes, t => (t.store byte).bind (storeBytes bytes)

/-- A loop that stores `n` spaces. -/
def storeSpaces : Nat → Temp → Option Temp
  | 0, t => some t
  | n + 1, t => (t.store 32).bind (storeSpaces n)

/-- `byte_t temp[128] = {0}`. -/
def empty : Temp := ⟨List.replicate 128 0, 0, List.length_replicate, Nat.zero_le _⟩

/-- What has been stored. -/
def text (t : Temp) : List UInt8 := t.data.take t.pos

theorem length_text (t : Temp) : t.text.length = t.pos := by
  rw [text, List.length_take, t.length_eq]
  exact Nat.min_eq_left t.pos_le

/-- A byte is stored behind the others, if there is room. -/
theorem store_spec (t : Temp) (byte : UInt8) :
    (t.pos < 128 ∧ ∃ t', t.store byte = some t' ∧ t'.text = t.text ++ [byte]) ∨
      (t.pos = 128 ∧ t.store byte = none) := by
  unfold store
  split
  · next hlt =>
    refine .inl ⟨hlt, _, rfl, ?_⟩
    have hlength : t.pos < (t.data.set t.pos byte).length := by
      rw [List.length_set, t.length_eq]
      exact hlt
    rw [text, List.take_add_one, List.getElem?_eq_getElem hlength, List.getElem_set_self, List.take_set_of_le le_rfl]
    rfl
  · next hlt => exact .inr ⟨Nat.le_antisymm t.pos_le (Nat.not_lt.mp hlt), rfl⟩

/-- Bytes are stored while there is room for all of them. -/
theorem storeBytes_spec (bytes : List UInt8) (t : Temp) :
    (t.pos + bytes.length ≤ 128 ∧ ∃ t', storeBytes bytes t = some t' ∧ t'.text = t.text ++ bytes) ∨
      (128 < t.pos + bytes.length ∧ storeBytes bytes t = none) := by
  induction bytes generalizing t with
  | nil => exact .inl ⟨t.pos_le, t, rfl, (List.append_nil _).symm⟩
  | cons byte bytes ih =>
    rw [storeBytes, List.length_cons]
    rcases t.store_spec byte with ⟨hlt, t₁, hstore, htext⟩ | ⟨hfull, hstore⟩
    · have hpos : t₁.pos = t.pos + 1 := by
        rw [← t₁.length_text, htext, List.length_append, t.length_text]
        rfl
      rw [hstore]
      rcases ih t₁ with ⟨hroom, t', hrest, htext'⟩ | ⟨hroom, hrest⟩
      · refine .inl ⟨by omega, t', hrest, ?_⟩
        rw [htext', htext, List.append_assoc]
        rfl
      · exact .inr ⟨by omega, hrest⟩
    · rw [hstore]
      exact .inr ⟨by omega, rfl⟩

theorem storeSpaces_eq (n : Nat) (t : Temp) : t.storeSpaces n = t.storeBytes (List.replicate n 32) := by
  induction n generalizing t with
  | zero => rfl
  | succ n ih =>
    rw [storeSpaces, List.replicate_succ, storeBytes]
    exact congrArg _ (funext ih)

theorem storeBytes_append (bytes bytes' : List UInt8) (t : Temp) :
    t.storeBytes (bytes ++ bytes') = (t.storeBytes bytes).bind (storeBytes bytes') := by
  induction bytes generalizing t with
  | nil => rfl
  | cons byte bytes ih =>
    rw [List.cons_append, storeBytes, storeBytes, Option.bind_assoc]
    exact congrArg _ (funext ih)

end Temp

/-! ## The conversion -/

/-- What is staged when there is a width. -/
def stageChar (config : PrintConfig) : Option Temp :=
  if config.flags.leftJustify then
    (Temp.empty.storeBytes (preTemp config)).bind (Temp.storeSpaces (config.width - 1).toNat)
  else (Temp.empty.storeSpaces (config.width - 1).toNat).bind (Temp.storeBytes (preTemp config))

/-- `PRINT_CHAR`, with its loops. -/
def printCharLoops (config : PrintConfig) : Output UInt32 :=
  if config.width > 1 then do
    let temp ← StateT.lift (stageChar config)
    writen temp.text
    return UInt32.ofNat temp.pos
  else do
    writen (preTemp config)
    return UInt32.ofNat (preTemp config).length

/-- The bytes of the character and the spaces, in the order the flag `-` demands. -/
def charText (config : PrintConfig) : List UInt8 :=
  let spaces := List.replicate (max config.width.toNat 1 - 1) 32
  if config.flags.leftJustify then preTemp config ++ spaces else spaces ++ preTemp config

variable {config : PrintConfig}

theorem length_charText (config : PrintConfig) :
    (charText config).length = max config.width.toNat 1 - 1 + (preTemp config).length := by
  simp only [charText]
  split <;> simp only [List.length_append, List.length_replicate]
  exact Nat.add_comm _ _

theorem charText_narrow (h : ¬ 1 < config.width) : charText config = preTemp config := by
  have hzero : max config.width.toNat 1 - 1 = 0 := by
    rw [UInt32.lt_iff_toNat_lt, UInt32.toNat_one] at h
    omega
  rw [charText, hzero]
  simp

theorem toNat_width_sub (h : 1 < config.width) : (config.width - 1).toNat = max config.width.toNat 1 - 1 := by
  have hlt : 1 < config.width.toNat := h
  rw [UInt32.toNat_sub_of_le _ _ (UInt32.le_of_lt h), UInt32.toNat_one]
  omega

theorem stageChar_eq (h : 1 < config.width) : stageChar config = Temp.empty.storeBytes (charText config) := by
  simp only [stageChar, charText, toNat_width_sub h]
  split
  · rw [Temp.storeBytes_append]
    exact congrArg _ (funext (Temp.storeSpaces_eq _))
  · rw [Temp.storeBytes_append, Temp.storeSpaces_eq]

/-- With a width, the character is staged or does not fit. -/
theorem stageChar_spec (h : 1 < config.width) :
    ((charText config).length ≤ 128 ∧ ∃ t, stageChar config = some t ∧ t.text = charText config) ∨
      (128 < (charText config).length ∧ stageChar config = none) := by
  have hspec := Temp.storeBytes_spec (charText config) Temp.empty
  rw [stageChar_eq h]
  rw [show Temp.empty.pos = 0 from rfl, Nat.zero_add] at hspec
  exact hspec

/-- What `printChar` writes. -/
theorem printChar_eq (config : PrintConfig) :
    printChar config =
      if 1 < config.width ∧ 128 < (charText config).length then StateT.lift none
      else do
        writen (charText config)
        return UInt32.ofNat (charText config).length := by
  by_cases hwidth : 1 < config.width
  · simp only [printChar, if_pos hwidth, toNat_width_sub hwidth, ← length_charText]
    by_cases hroom : 128 < (charText config).length
    · rw [if_pos hroom, if_pos ⟨hwidth, hroom⟩]
    · have hfits : ¬ (1 < config.width ∧ 128 < (charText config).length) := fun h => hroom h.2
      rw [if_neg hroom, if_neg hfits]
      rfl
  · rw [printChar, if_neg hwidth, if_neg (fun h => hwidth h.1), charText_narrow hwidth]

/-- The loops do the same. -/
theorem printCharLoops_eq (config : PrintConfig) : printCharLoops config = printChar config := by
  rw [printChar_eq]
  by_cases hwidth : 1 < config.width
  · rw [printCharLoops, if_pos hwidth]
    rcases stageChar_spec hwidth with ⟨hroom, t, hstage, htext⟩ | ⟨hroom, hstage⟩
    · rw [if_neg (fun h => Nat.not_lt.mpr hroom h.2), hstage, ← htext, t.length_text]
      rfl
    · rw [if_pos ⟨hwidth, hroom⟩, hstage]
      rfl
  · rw [printCharLoops, if_neg hwidth, if_neg (fun h => hwidth h.1), charText_narrow hwidth]

/-- The character is printed as it should be, and nothing is stored outside the array. -/
def PrintsChar (mem : Memory) (config : PrintConfig) : Prop :=
  (1 < config.width → (stageChar config).isSome) ∧
    ∃ result : UInt32, (∀ b, printArg mem config b = some ((result, mem), b.writen (charText config))) ∧
      result.toNat = if config.width ≤ 1 then (preTemp config).length
        else config.width.toNat - 1 + (preTemp config).length

theorem length_utf8Encode_le (codepoint : UInt32) : (utf8Encode codepoint).length ≤ 4 := by
  simp only [utf8Encode]
  split
  · exact Nat.le_add_left 1 3
  · split
    · exact Nat.le_add_left 2 2
    · split
      · exact Nat.le_add_left 3 1
      · split
        · exact Nat.le_refl 4
        · exact Nat.zero_le 4

theorem length_preTemp_le (config : PrintConfig) : (preTemp config).length ≤ 4 := by
  unfold preTemp
  split
  · dsimp only
    split
    · exact length_utf8Encode_le _
    · exact Nat.zero_le 4
  · exact length_utf8Encode_le _
  · exact Nat.le_add_left 1 3

/-- **When a character is printed.** -/
theorem print_char_iff (mem : Memory) (config : PrintConfig) (htype : config.type = .char) :
    PrintsChar mem config ↔ max config.width.toNat 1 - 1 + (preTemp config).length ≤ 128 := by
  rw [← length_charText]
  constructor
  · rintro ⟨hstage, -⟩
    by_cases hwidth : 1 < config.width
    · rcases stageChar_spec hwidth with ⟨hroom, -⟩ | ⟨-, hnone⟩
      · exact hroom
      · rw [hnone] at hstage
        exact absurd (hstage hwidth) Bool.false_ne_true
    · rw [charText_narrow hwidth]
      exact Nat.le_trans (length_preTemp_le config) (by decide)
  · intro hroom
    have hfits : ¬ (1 < config.width ∧ 128 < (charText config).length) := fun h => Nat.not_lt.mpr hroom h.2
    refine ⟨fun hwidth => ?_, UInt32.ofNat (charText config).length, fun b => ?_, ?_⟩
    · rcases stageChar_spec hwidth with ⟨-, t, hstage, -⟩ | ⟨hnot, -⟩
      · rw [hstage]
        rfl
      · exact absurd hroom (Nat.not_le.mpr hnot)
    · simp only [printArg, htype, printChar_eq, if_neg hfits]
      rfl
    · rw [UInt32.toNat_ofNat', Nat.mod_eq_of_lt (by omega), length_charText]
      split
      · next hle =>
        have hle' : config.width.toNat ≤ 1 := hle
        omega
      · next hnot =>
        have hlt : 1 < config.width.toNat := UInt32.not_le.mp hnot
        omega

/-- `%3c` of `a`. -/
def narrowChar : PrintConfig := ⟨.char, .none, {}, 3, 0, 0, 97⟩

theorem print_char_narrow : narrowChar.type = .char ∧
    (PrintsChar (fun _ => 0) narrowChar ↔
      max narrowChar.width.toNat 1 - 1 + (preTemp narrowChar).length ≤ 128) :=
  ⟨rfl, print_char_iff (fun _ => 0) narrowChar rfl⟩

/-- `%200c` stores behind the array. -/
theorem not_prints_char :
    ¬ ∀ (mem : Memory) (config : PrintConfig), config.type = .char → preTemp config ≠ [] → PrintsChar mem config := by
  intro h
  have hwide : (1 : UInt32) < 200 := by decide
  have hprints := h (fun _ => 0) ⟨.char, .none, {}, 200, 0, 0, 97⟩ rfl (List.cons_ne_nil _ _)
  rcases @stageChar_spec ⟨.char, .none, {}, 200, 0, 0, 97⟩ hwide with ⟨hroom, -⟩ | ⟨-, hnone⟩
  · rw [length_charText] at hroom
    exact absurd hroom (by decide)
  · have hsome := hprints.1 hwide
    rw [hnone] at hsome
    exact Bool.false_ne_true hsome

end WindowsLibc.Printf
