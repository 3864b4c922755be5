import WindowsLibc.Lib.Digits
import WindowsLibc.Printf.Counted

/-!
# The texts of numbers

What the conversions of integers and pointers print: a numeral of the value, which may begin with
zeros, behind a sign or a prefix, with spaces on either side. How many zeros and spaces there are
depends on the width, the precision and the flags, and does not matter to whoever reads the number.

* `digitsFrom_eq` and `decFrom_eq`: the digits staged are the digits of the value.
* `NumberText` is the text between the spaces, and `printArg_number` that it is what is printed.
-/

namespace WindowsLibc.Printf

open WindowsLibc.Lib

/-! ## Digits -/

/-- The digits are staged from the right. -/
theorem digitsFrom_eq {base : Nat} (hbase : 1 < base) {digit : Nat → UInt8} {room x : Nat}
    {temp text : List UInt8} (h : digitsFrom base digit room x temp = some text) :
    text = (digitsOf base x).map digit ++ temp := by
  induction room generalizing x temp with
  | zero => cases h
  | succ room ih =>
    rw [digitsFrom] at h
    split at h
    · next hdiv =>
      have hle : base ≤ x := (Nat.div_ne_zero_iff.mp hdiv).2
      rw [ih h, digitsOf_of_le hbase hle, List.map_append, List.append_assoc]
      rfl
    · next hdiv =>
      cases h
      have hlt : x < base := (Nat.div_eq_zero_iff_lt (by omega)).mp (not_not.mp hdiv)
      rw [digitsOf_of_lt hlt, Nat.mod_eq_of_lt hlt]
      rfl

theorem decFrom_eq {turns x sep : Nat} {temp text : List UInt8}
    (h : decFrom false turns x sep temp = some text) :
    text = (digitsOf 10 x).map digitChar ++ temp := by
  induction turns generalizing x sep temp with
  | zero => cases h
  | succ turns ih =>
    simp only [decFrom, Bool.false_eq_true, and_false, if_false] at h
    split at h
    · cases h
    · split at h
      · next hdiv =>
        have hle : 10 ≤ x := (Nat.div_ne_zero_iff.mp hdiv).2
        rw [ih h, digitsOf_of_le (by decide) hle, List.map_append, List.append_assoc]
        rfl
      · cases h
        have hlt : x < 10 := by omega
        rw [digitsOf_of_lt hlt, Nat.mod_eq_of_lt hlt]
        rfl

theorem uintToDecCommon_eq {x : Nat} {text : List UInt8} (h : uintToDecCommon x false = some text) :
    text = (digitsOf 10 x).map digitChar :=
  (decFrom_eq h).trans (List.append_nil _)

theorem uintToDecCommon_numeral {x : Nat} {text : List UInt8}
    (h : uintToDecCommon x false = some text) :
    ∃ ds, Numeral 10 x ds ∧ text = ds.map digitChar :=
  ⟨_, numeral_digitsOf (by decide) x, uintToDecCommon_eq h⟩

/-- The digits of the last `n` bytes of `x`, two for each. -/
def byteDigits (x n : Nat) : List Nat :=
  (List.range n).flatMap fun i => [x / 256 ^ (n - 1 - i) % 256 / 16, x / 256 ^ (n - 1 - i) % 256 % 16]

theorem byteDigits_succ (x n : Nat) :
    byteDigits x (n + 1) = byteDigits (x / 256) n ++ [x % 256 / 16, x % 256 % 16] := by
  have hdiv : ∀ i < n, x / 256 ^ (n + 1 - 1 - i) = x / 256 / 256 ^ (n - 1 - i) := by
    intro i hi
    rw [Nat.div_div_eq_div_mul, ← pow_succ', show n - 1 - i + 1 = n + 1 - 1 - i by omega]
  rw [byteDigits, List.range_succ, List.flatMap_append, byteDigits]
  congr 1
  · apply List.flatMap_congr
    intro i hi
    rw [hdiv i (List.mem_range.mp hi)]
  · simp

theorem numeral_byteDigits (x n : Nat) : numeral 16 0 (byteDigits x n) = x % 256 ^ n := by
  induction n generalizing x with
  | zero => rw [pow_zero, Nat.mod_one]; rfl
  | succ n ih =>
    rw [byteDigits_succ, numeral_append, ih, pow_succ', Nat.mod_mul]
    show (x / 256 % 256 ^ n * 16 + x % 256 / 16) * 16 + x % 256 % 16 = _
    omega

/-- The digits of `pointer_encode`. -/
theorem pointerEncode_numeral (ptr : UInt64) :
    ∃ ds, Numeral 16 ptr.toNat ds ∧
      pointerEncode ptr = 48 :: 120 :: ds.map (fun d => hexLowerTable.getD d 0) := by
  refine ⟨byteDigits ptr.toNat 8, ⟨?_, ?_, ?_⟩, ?_⟩
  · intro d hd
    obtain ⟨i, -, hd⟩ := List.mem_flatMap.mp hd
    rcases List.mem_pair.mp hd with rfl | rfl
    · omega
    · omega
  · rw [numeral_byteDigits]
    exact Nat.mod_eq_of_lt ptr.toNat_lt
  · rw [byteDigits_succ]
    simp
  · rw [pointerEncode, byteDigits, List.map_flatMap]
    rfl

/-! ## Conversions -/

/-- A hexadecimal digit. -/
def hexChar (upper : Bool) (d : Nat) : UInt8 :=
  (if upper then hexUpperTable else hexLowerTable).getD d 0

/-- The text of a conversion of an integer or a pointer, without the spaces around it. -/
def NumberText (config : PrintConfig) (text : List UInt8) : Prop :=
  match config.type with
  | .intNumber => ∃ sign ds, Numeral 10 config.int.natAbs ds ∧ text = sign ++ ds.map digitChar ∧
      (config.int < 0 ∧ sign = [45] ∨ 0 ≤ config.int ∧ (sign = [] ∨ sign = [43]))
  | .uintNumber => ∃ ds, Numeral 10 config.uint ds ∧ text = ds.map digitChar
  | .uintOctal => ∃ ds, Numeral 8 config.uint ds ∧ text = alternateForm config ++ ds.map digitChar
  | .uintHex => ∃ ds, Numeral 16 config.uint ds ∧
      text = alternateForm config ++ ds.map (hexChar config.flags.upperCase)
  | .pointer => ∃ ds, Numeral 16 config.data.toNat ds ∧ text = 48 :: 120 :: ds.map (hexChar false)
  | _ => False

/-- A conversion that stages its text and then prints it. -/
theorem emits_staged_text {text : Option (List UInt8)} {temp : List UInt8} {print : List UInt8 → Output UInt32}
    (P : List UInt8 → Prop) (htext : text = some temp)
    (hprint : ∃ ws, sink.Emits (print temp) ws (count ws) ∧ P ws.flatten) (mem : Memory) :
    ∃ ws, sink.Emits (StateT.lift text >>= fun temp => print temp >>= fun result =>
      pure (result, mem)) ws (count ws, mem) ∧ P ws.flatten := by
  obtain ⟨ws, hws, hflatten⟩ := hprint
  subst htext
  refine ⟨[] ++ (ws ++ []), ?_, ?_⟩
  · rw [count_append, count_append, count_nil, UInt32.zero_add, UInt32.add_zero]
    exact Sink.emits_bind (Sink.emits_lift temp) (Sink.emits_bind hws (Sink.emits_pure _))
  · rwa [List.nil_append, List.append_nil]

theorem emits_staged_spaced {text : Option (List UInt8)} {temp inner : List UInt8}
    {print : List UInt8 → Output UInt32} (htext : text = some temp)
    (hprint : PrintsSpaced (print temp) inner) (mem : Memory) :
    ∃ ws, sink.Emits (StateT.lift text >>= fun temp => print temp >>= fun result =>
      pure (result, mem)) ws (count ws, mem) ∧ Spaced inner ws.flatten :=
  emits_staged_text (Spaced inner) htext hprint mem

/-- A space in front is one of the spaces. -/
theorem Spaced.of_space {inner text : List UInt8} (h : Spaced (32 :: inner) text) :
    Spaced inner text := by
  obtain ⟨left, right, rfl⟩ := h
  refine ⟨left + 1, right, ?_⟩
  rw [List.replicate_succ', List.append_assoc]
  rfl

/-- Zeros in front of the digits are digits. -/
theorem replicate_append_map {digit : Nat → UInt8} (hzero : digit 0 = 48) (n : Nat)
    (ds : List Nat) :
    List.replicate n 48 ++ ds.map digit = (List.replicate n 0 ++ ds).map digit := by
  rw [List.map_append, List.map_replicate, hzero]

theorem digitChar_toNat {d : Nat} (h : d < 10) : (digitChar d).toNat = d + 48 :=
  UInt8.toNat_ofNat_of_lt' (by show d + 48 < 256; omega)

/-- A text in decimal begins with a digit. -/
theorem decFrom_cons {group : Bool} {turns x sep : Nat} {temp text : List UInt8}
    (h : decFrom group turns x sep temp = some text) :
    ∃ d : Fin 10, ∃ rest, text = digitChar d :: rest := by
  induction turns generalizing x sep temp with
  | zero => cases h
  | succ turns ih =>
    rw [decFrom] at h
    generalize (if sep = 3 ∧ group = true then 44 :: temp else temp) = temp at h
    split at h
    · cases h
    · split at h
      · exact ih h
      · cases h
        exact ⟨⟨x % 10, Nat.mod_lt x (by decide)⟩, temp, rfl⟩

/-- A digit is no sign. -/
theorem takeSign_digit (config : PrintConfig) {d : Nat} (hd : d < 10) (rest : List UInt8) :
    takeSign config (digitChar d :: rest) = (0, 0, digitChar d :: rest) := by
  have hdigit := digitChar_toNat hd
  have hminus : digitChar d ≠ 45 := by
    intro heq
    rw [heq] at hdigit
    exact absurd hdigit (show 45 ≠ d + 48 by omega)
  have hplus : digitChar d ≠ 43 := by
    intro heq
    rw [heq] at hdigit
    exact absurd hdigit (show 43 ≠ d + 48 by omega)
  simp [takeSign, hminus, hplus]

theorem takeSign_digits (config : PrintConfig) {x : Nat} {ds : List Nat} (h : Numeral 10 x ds) :
    takeSign config (ds.map digitChar) = (0, 0, ds.map digitChar) := by
  cases ds with
  | nil => exact absurd rfl h.ne_nil
  | cons d ds => exact takeSign_digit config (h.digit d List.mem_cons_self) _

/-- A sign takes one byte. -/
theorem takeSign_extra (config : PrintConfig) (temp : List UInt8) :
    (takeSign config temp).2.1 = UInt32.ofNat (signText (takeSign config temp).1).length := by
  rw [signText]
  rcases takeSign_spec config temp with ⟨hsign, hextra⟩ | ⟨hsign, hextra⟩
  · rw [hextra, if_pos hsign]
    rfl
  · rw [hextra, if_neg (not_not.mpr hsign)]
    rfl

/-- What is printed in front of the digits of `x`. -/
def signOf (config : PrintConfig) (x : Int) : List UInt8 :=
  if x < 0 then [45]
  else if config.flags.forceSign || config.flags.emptySpace then [if config.flags.emptySpace then 32 else 43]
  else []

/-- The sign is taken off the digits of the magnitude. Those of the least value are written down. -/
theorem takeSign_int (config : PrintConfig) {x : Int} {group : Bool} {text : List UInt8}
    (h : intToDecCommon x (config.flags.forceSign || config.flags.emptySpace) group = some text) :
    signText (takeSign config text).1 = signOf config x ∧
      (x = -2 ^ 63 ∧ (takeSign config text).2.2 = (digitsOf 10 x.natAbs).map digitChar ∨
        x ≠ -2 ^ 63 ∧ uintToDecCommon x.natAbs group = some (takeSign config text).2.2) := by
  rw [intToDecCommon] at h
  split at h
  · next hmin =>
    cases h
    subst hmin
    refine ⟨rfl, .inl ⟨rfl, ?_⟩⟩
    show _ = (digitsOf 10 9223372036854775808).map digitChar
    simp [digitsOf, takeSign, digitChar]
  · next hmin =>
    rw [signOf]
    split at h
    · next hneg =>
      obtain ⟨digits, hdigits, rfl⟩ := Option.map_eq_some_iff.mp h
      rw [show (-x).toNat = x.natAbs by omega] at hdigits
      rw [if_pos hneg]
      exact ⟨rfl, .inr ⟨hmin, hdigits⟩⟩
    · next hneg =>
      rw [if_neg hneg]
      split at h
      · next hforce =>
        obtain ⟨digits, hdigits, rfl⟩ := Option.map_eq_some_iff.mp h
        rw [show x.toNat = x.natAbs by omega] at hdigits
        rw [if_pos hforce]
        refine ⟨?_, .inr ⟨hmin, hdigits⟩⟩
        cases hspace : config.flags.emptySpace <;> simp [takeSign, signText, hspace]
      · next hforce =>
        rw [show x.toNat = x.natAbs by omega] at h
        obtain ⟨d, rest, rfl⟩ := decFrom_cons h
        rw [takeSign_digit config d.isLt, if_neg hforce]
        exact ⟨rfl, .inr ⟨hmin, h⟩⟩

/-- The conversions of integers, those of binary apart, and of pointers. -/
def PrintType.isNumber : PrintType → Bool
  | .intNumber => true
  | .uintNumber => true
  | .uintOctal => true
  | .uintHex => true
  | .pointer => true
  | _ => false

/-- **What is printed for a number.** -/
theorem printArg_number (mem : Memory) {config : PrintConfig} (hnumber : config.type.isNumber)
    (hgroup : config.flags.groupDigits = false) :
    ∃ ws inner, sink.Emits (printArg mem config) ws (count ws, mem) ∧ NumberText config inner ∧
      Spaced inner ws.flatten := by
  have huint := uint_lt config
  simp only [NumberText]
  cases htype : config.type with
  | intNumber =>
    obtain ⟨hlo, hhi⟩ := int_bounds config
    simp only [printArg, htype]
    obtain ⟨temp, htemp⟩ := Option.isSome_iff_exists.mp (intToDecCommon_isSome hlo hhi
      (config.flags.forceSign || config.flags.emptySpace) config.flags.groupDigits)
    obtain ⟨zeros, hprint⟩ := printIntFormatted_spaced config temp
    obtain ⟨ws, hws, hspaced⟩ := emits_staged_spaced htemp hprint mem
    rw [hgroup] at htemp
    obtain ⟨hsign, hdigits⟩ := takeSign_int config htemp
    have htext : (takeSign config temp).2.2 = (digitsOf 10 config.int.natAbs).map digitChar :=
      hdigits.elim And.right fun h => uintToDecCommon_eq h.2
    rw [hsign, htext, replicate_append_map rfl, signOf] at hspaced
    have hzeros := (numeral_digitsOf (by decide : 1 < 10) config.int.natAbs).zeros (by decide) zeros
    split at hspaced
    · next hneg => exact ⟨ws, _, hws, ⟨_, _, hzeros, rfl, .inl ⟨hneg, rfl⟩⟩, hspaced⟩
    · next hneg =>
      have hnonneg := Int.not_lt.mp hneg
      split at hspaced
      · by_cases hspace : config.flags.emptySpace = true
        · -- the space for a sign is one of the spaces in front
          rw [if_pos hspace] at hspaced
          exact ⟨ws, _, hws, ⟨[], _, hzeros, rfl, .inr ⟨hnonneg, .inl rfl⟩⟩, hspaced.of_space⟩
        · rw [if_neg hspace] at hspaced
          exact ⟨ws, _, hws, ⟨_, _, hzeros, rfl, .inr ⟨hnonneg, .inr rfl⟩⟩, hspaced⟩
      · exact ⟨ws, _, hws, ⟨_, _, hzeros, rfl, .inr ⟨hnonneg, .inl rfl⟩⟩, hspaced⟩
  | uintNumber =>
    simp only [printArg, htype]
    obtain ⟨temp, htemp⟩ := Option.isSome_iff_exists.mp
      (uintToDecCommon_isSome huint config.flags.groupDigits)
    obtain ⟨zeros, hprint⟩ := printIntFormatted_spaced config temp
    obtain ⟨ws, hws, hspaced⟩ := emits_staged_spaced htemp hprint mem
    rw [hgroup] at htemp
    obtain ⟨ds, hds, rfl⟩ := uintToDecCommon_numeral htemp
    rw [takeSign_digits config hds, replicate_append_map rfl] at hspaced
    exact ⟨ws, _, hws, ⟨_, hds.zeros (by decide) zeros, rfl⟩, hspaced⟩
  | uintOctal =>
    simp only [printArg, htype]
    obtain ⟨temp, htemp⟩ := Option.isSome_iff_exists.mp (uintToOctCommon_isSome huint)
    obtain ⟨zeros, hprint⟩ := printUintFormatted_spaced config temp
    obtain ⟨ws, hws, hspaced⟩ := emits_staged_spaced htemp hprint mem
    obtain rfl := digitsFrom_eq (by decide) htemp
    have hds := @numeral_digitsOf 8 (by decide) config.uint
    rw [List.append_nil, replicate_append_map rfl] at hspaced
    exact ⟨ws, _, hws, ⟨_, hds.zeros (by decide) zeros, rfl⟩, hspaced⟩
  | uintHex =>
    simp only [printArg, htype]
    obtain ⟨temp, htemp⟩ := Option.isSome_iff_exists.mp
      (uintToHexCommon_isSome huint config.flags.upperCase)
    obtain ⟨zeros, hprint⟩ := printUintFormatted_spaced config temp
    obtain ⟨ws, hws, hspaced⟩ := emits_staged_spaced htemp hprint mem
    obtain rfl := @digitsFrom_eq 16 (by decide) (hexChar config.flags.upperCase) _ _ _ _ htemp
    have hds := @numeral_digitsOf 16 (by decide) config.uint
    have hzero : hexChar config.flags.upperCase 0 = 48 := by
      cases config.flags.upperCase <;> rfl
    rw [List.append_nil, replicate_append_map hzero] at hspaced
    exact ⟨ws, _, hws, ⟨_, hds.zeros (by decide) zeros, rfl⟩, hspaced⟩
  | pointer =>
    simp only [printArg, htype]
    obtain ⟨ds, hds, htext⟩ := pointerEncode_numeral config.data
    obtain ⟨ws, hws, hspaced⟩ := @emits_staged_spaced (some []) [] _ (fun _ => printPointer config)
      rfl (printPointer_spaced config) mem
    exact ⟨ws, _, hws, ⟨ds, hds, htext⟩, hspaced⟩
  | _ =>
    rw [htype] at hnumber
    exact absurd hnumber Bool.false_ne_true

end WindowsLibc.Printf
