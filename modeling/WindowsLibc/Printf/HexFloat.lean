import Mathlib.Algebra.Order.Field.Rat
import Mathlib.Tactic.FieldSimp
import Mathlib.Tactic.Ring
import WindowsLibc.Scanf.Number

/-!
# Hexadecimal floating point (`float32_to_hex` and `float64_to_hex` of `internal/convert.c`)

What is printed for the bits of a number, and which number a reader makes of it.

* `FloatFields` are the sign, the exponent and the fraction, and `FloatFields.value` the number they stand for.
* `readHexFloat` reads a sign, `h.hhh` in hexadecimal and a power of two.
* The fraction is printed as an integer, without the zeros it should begin with, and aligned to the right:
  `floatToHex_value` is what is read, and `hex_float_exact_iff` when that is the number.
-/

namespace WindowsLibc.Printf

open WindowsLibc.Lib
open WindowsLibc.Scanf (toLower isDigit hexNibble decodes_hex isDigit_digitChar)

/-! ## Bit patterns -/

/-- The parts of a bit pattern. -/
structure FloatFields where
  minus : Bool
  exponent : Nat
  fraction : Nat

namespace FloatFields

/-- Of a `double`. -/
def of64 (v : UInt64) : FloatFields :=
  ⟨decide (2 ^ 63 ≤ v.toNat), v.toNat / 2 ^ 52 % 2 ^ 11, v.toNat % 2 ^ 52⟩

/-- Of a `float`. -/
def of32 (v : UInt32) : FloatFields :=
  ⟨decide (2 ^ 31 ≤ v.toNat), v.toNat / 2 ^ 23 % 2 ^ 8, v.toNat % 2 ^ 23⟩

/-- The number of a finite pattern, of which `bits` are the fraction. -/
def value (f : FloatFields) (bits bias : Nat) : ℚ :=
  (if f.minus then -1 else 1) *
    if f.exponent = 0 then (f.fraction : ℚ) / 2 ^ bits * (2 : ℚ) ^ (1 - bias : ℤ)
    else (1 + (f.fraction : ℚ) / 2 ^ bits) * (2 : ℚ) ^ (f.exponent - bias : ℤ)

end FloatFields

/-! ## Printing -/

/-- What `float32_to_hex` and `float64_to_hex` do with the parts. -/
def floatToHex (upper : Bool) (infinity bias : Nat) (f : FloatFields) : Option (List UInt8) :=
  let minus := if f.minus then [45] else []
  if f.exponent = infinity then
    some (minus ++ if f.fraction = 0 then printInf upper else printNan upper)
  else
    let leading := [48, if upper then 88 else 120, if f.exponent ≠ 0 then 49 else 48, 46]
    (uintToHexCommon upper f.fraction).bind fun digits =>
      let text := (dropZeros (minus ++ leading ++ digits).reverse).reverse
      let scale := if f.exponent ≥ bias then 43 else 45
      let power := if f.exponent ≥ bias then f.exponent - bias else bias - f.exponent
      (uintToDecCommon power false).map fun digits =>
        text ++ [if upper then 80 else 112, scale] ++ digits

/-- `float32_to_hex`, from the bits of the value. -/
def float32ToHex (upper : Bool) (v : UInt32) : Option (List UInt8) :=
  let sign := (v >>> 31) &&& 0x1
  let exponent := ((v <<< 1) >>> 24) &&& 0xFF
  let mantissa := v &&& 0x7FFFFF
  floatToHex upper 255 127 ⟨decide (sign ≠ 0), exponent.toNat, mantissa.toNat⟩

theorem float32ToHex_eq (upper : Bool) (v : UInt32) :
    float32ToHex upper v = floatToHex upper 255 127 (.of32 v) := by
  have hv : v.toNat < 2 ^ 32 := v.toNat_lt
  have hmantissa : (v &&& 0x7FFFFF).toNat = v.toNat % 2 ^ 23 := by
    rw [UInt32.toNat_and]
    exact Nat.and_two_pow_sub_one_eq_mod _ 23
  have hexponent : (((v <<< 1) >>> 24) &&& 0xFF).toNat = v.toNat / 2 ^ 23 % 2 ^ 8 := by
    rw [UInt32.toNat_and, UInt32.toNat_shiftRight, UInt32.toNat_shiftLeft]
    refine (Nat.and_two_pow_sub_one_eq_mod _ 8).trans ?_
    simp [Nat.shiftLeft_eq, Nat.shiftRight_eq_div_pow]
    omega
  have hsign : ((v >>> 31) &&& 0x1 ≠ 0) = (2 ^ 31 ≤ v.toNat) := by
    rw [ne_eq, ← UInt32.toNat_inj, UInt32.toNat_and, UInt32.toNat_shiftRight]
    refine propext ⟨fun h => ?_, fun h hzero => ?_⟩
    · by_contra hlt
      refine h ?_
      simp [Nat.shiftRight_eq_div_pow]
      omega
    · simp [Nat.shiftRight_eq_div_pow] at hzero
      omega
  simp only [float32ToHex, hmantissa, hexponent, hsign, FloatFields.of32]

theorem float64ToHex_eq (upper : Bool) (v : UInt64) :
    float64ToHex upper v = floatToHex upper 2047 1023 (.of64 v) := by
  have hv : v.toNat < 2 ^ 64 := v.toNat_lt
  have hmantissa : (v &&& 0xFFFFFFFFFFFFF).toNat = v.toNat % 2 ^ 52 := by
    rw [UInt64.toNat_and]
    exact Nat.and_two_pow_sub_one_eq_mod _ 52
  have hexponent : (((v <<< 1) >>> 53) &&& 0x7FF).toNat = v.toNat / 2 ^ 52 % 2 ^ 11 := by
    rw [UInt64.toNat_and, UInt64.toNat_shiftRight, UInt64.toNat_shiftLeft]
    refine (Nat.and_two_pow_sub_one_eq_mod _ 11).trans ?_
    simp [Nat.shiftLeft_eq, Nat.shiftRight_eq_div_pow]
    omega
  have hsign : ((v >>> 63) &&& 0x1 ≠ 0) = (2 ^ 63 ≤ v.toNat) := by
    rw [ne_eq, ← UInt64.toNat_inj, UInt64.toNat_and, UInt64.toNat_shiftRight]
    refine propext ⟨fun h => ?_, fun h hzero => ?_⟩
    · by_contra hlt
      refine h ?_
      simp [Nat.shiftRight_eq_div_pow]
      omega
    · simp [Nat.shiftRight_eq_div_pow] at hzero
      omega
  have hfinite : (((v <<< 1) >>> 53) &&& 0x7FF = 2047) = (v.toNat / 2 ^ 52 % 2 ^ 11 = 2047) := by
    rw [← UInt64.toNat_inj, hexponent]
    rfl
  have hzero : (v &&& 0xFFFFFFFFFFFFF = 0) = (v.toNat % 2 ^ 52 = 0) := by
    rw [← UInt64.toNat_inj, hmantissa]
    rfl
  have hsubnormal : (((v <<< 1) >>> 53) &&& 0x7FF ≠ 0) = (v.toNat / 2 ^ 52 % 2 ^ 11 ≠ 0) := by
    rw [ne_eq, ← UInt64.toNat_inj, hexponent]
    rfl
  simp only [float64ToHex, floatToHex, hmantissa, hexponent, hsign, hfinite, hzero, hsubnormal, FloatFields.of64,
    decide_eq_true_eq]
  rfl

/-! ## Reading -/

/-- A sign, a number in hexadecimal with a point, and an exponent. -/
structure HexFloat where
  minus : Bool
  whole : Nat
  fraction : List Nat
  exponent : Int
  deriving DecidableEq

/-- The number that it denotes. -/
def HexFloat.value (h : HexFloat) : ℚ :=
  (if h.minus then -1 else 1) *
    ((h.whole + (numeral 16 0 h.fraction : ℚ) / 16 ^ h.fraction.length) * (2 : ℚ) ^ h.exponent)

/-- An exponent: a sign and digits. -/
def readExponent : List UInt8 → Option Int
  | sign :: digits =>
    let power := numeral 10 0 (digits.map fun c => c.toNat - 48)
    if digits = [] ∨ ¬ digits.all isDigit then none
    else if sign = 43 then some power
    else if sign = 45 then some (-power)
    else none
  | [] => none

/-- `0xh.hhh`, a `p` and an exponent, behind the sign. -/
def readFraction (minus : Bool) : List UInt8 → Option HexFloat
  | zero :: x :: whole :: point :: text =>
    if zero = 48 ∧ toLower x = 120 ∧ point = 46 then
      match hexNibble whole, text.dropWhile fun c => (hexNibble c).isSome with
      | some whole, p :: scale =>
        if toLower p = 112 then
          (readExponent scale).map fun exponent =>
            ⟨minus, whole.toNat, (text.takeWhile fun c => (hexNibble c).isSome).filterMap fun c =>
              (hexNibble c).map UInt8.toNat, exponent⟩
        else none
      | _, _ => none
    else none
  | _ => none

/-- The number at the front of a text, with its sign. -/
def readHexFloat (text : List UInt8) : Option HexFloat :=
  if text.headD 0 = 45 then readFraction true text.tail else readFraction false text

example : readHexFloat [45, 48, 120, 49, 46, 53, 112, 45, 51] = some ⟨true, 1, [5], -3⟩ := by decide

variable {ds : List Nat}

theorem readExponent_digits {x : Nat} (hds : Numeral 10 x ds) :
    readExponent (43 :: ds.map digitChar) = some (x : Int) ∧
      readExponent (45 :: ds.map digitChar) = some (-(x : Int)) := by
  have hall : (ds.map digitChar).all isDigit = true := by
    rw [List.all_eq_true]
    intro c hc
    obtain ⟨d, hd, rfl⟩ := List.mem_map.mp hc
    exact isDigit_digitChar (hds.digit d hd)
  have hvalue : (ds.map digitChar).map (fun c => c.toNat - 48) = ds := by
    rw [List.map_map]
    refine (List.map_congr_left fun d hd => ?_).trans (List.map_id ds)
    show (digitChar d).toNat - 48 = d
    rw [digitChar_toNat (hds.digit d hd), Nat.add_sub_cancel]
  have hnot : ¬ (ds.map digitChar = [] ∨ ¬ (ds.map digitChar).all isDigit) := by
    rw [List.map_eq_nil_iff, hall]
    exact fun h => h.elim hds.ne_nil fun hfalse => hfalse rfl
  constructor
  · rw [readExponent, hvalue, hds.value, if_neg hnot, if_pos rfl]
  · rw [readExponent, hvalue, hds.value, if_neg hnot, if_neg (by decide), if_pos rfl]

/-- The digits of the fraction are read up to the `p`. -/
theorem readFraction_text (minus upper : Bool) {whole : Nat} (hwhole : whole ≤ 1) (hds : ∀ d ∈ ds, d < 16)
    {scale : List UInt8} {exponent : Int} (hscale : readExponent scale = some exponent) :
    readFraction minus (48 :: (if upper then 88 else 120) :: digitChar whole :: 46 ::
        (ds.map (hexChar upper) ++ (if upper then 80 else 112) :: scale)) =
      some ⟨minus, whole, ds, exponent⟩ := by
  have hnibble : ∀ d < 16, hexNibble (hexChar upper d) = some (UInt8.ofNat d) := fun d hd => (decodes_hex upper d hd).2
  have hall : ∀ c ∈ ds.map (hexChar upper), (hexNibble c).isSome = true := by
    intro c hc
    obtain ⟨d, hd, rfl⟩ := List.mem_map.mp hc
    rw [hnibble d (hds d hd)]
    rfl
  have hp : (hexNibble (if upper then 80 else 112)).isSome = false := by cases upper <;> rfl
  have hvalue : (ds.map (hexChar upper)).filterMap (fun c => (hexNibble c).map UInt8.toNat) = ds := by
    rw [List.filterMap_map]
    refine (List.filterMap_congr fun d hd => ?_).trans List.filterMap_some
    have hlt : d < 256 := Nat.lt_of_lt_of_le (hds d hd) (by decide)
    show (hexNibble (hexChar upper d)).map UInt8.toNat = some d
    rw [hnibble d (hds d hd), Option.map_some, UInt8.toNat_ofNat_of_lt' hlt]
  have hfraction : (ds.map (hexChar upper) ++ (if upper then 80 else 112) :: scale).takeWhile
      (fun c => (hexNibble c).isSome) = ds.map (hexChar upper) := by
    rw [List.takeWhile_append_of_pos hall, List.takeWhile_cons_of_neg (by rw [hp]; exact Bool.false_ne_true),
      List.append_nil]
  have hbehind : (ds.map (hexChar upper) ++ (if upper then 80 else 112) :: scale).dropWhile
      (fun c => (hexNibble c).isSome) = (if upper then 80 else 112) :: scale := by
    rw [List.dropWhile_append_of_pos hall, List.dropWhile_cons_of_neg (by rw [hp]; exact Bool.false_ne_true)]
  have hlead : hexNibble (digitChar whole) = some (UInt8.ofNat whole) ∧ (UInt8.ofNat whole).toNat = whole := by
    interval_cases whole <;> exact ⟨rfl, rfl⟩
  have hx : toLower (if upper then 88 else 120) = 120 := by cases upper <;> rfl
  have hletter : toLower (if upper then 80 else 112) = 112 := by cases upper <;> rfl
  rw [readFraction, if_pos ⟨rfl, hx, rfl⟩, hlead.1, hbehind]
  simp only [hletter, if_true, hscale, hfraction, hvalue, hlead.2, Option.map_some]

theorem readHexFloat_text (minus upper : Bool) {whole : Nat} (hwhole : whole ≤ 1) (hds : ∀ d ∈ ds, d < 16)
    {scale : List UInt8} {exponent : Int} (hscale : readExponent scale = some exponent) :
    readHexFloat ((if minus then [45] else []) ++ 48 :: (if upper then 88 else 120) :: digitChar whole :: 46 ::
        (ds.map (hexChar upper) ++ (if upper then 80 else 112) :: scale)) =
      some ⟨minus, whole, ds, exponent⟩ := by
  cases minus with
  | false => exact readFraction_text false upper hwhole hds hscale
  | true => exact readFraction_text true upper hwhole hds hscale

theorem dropZeros_zero {c : UInt8} (h : c ≠ 46) (text : List UInt8) :
    dropZeros (48 :: c :: text) = dropZeros (c :: text) := by
  rw [dropZeros]
  rintro _ heq
  exact h (List.cons.inj heq).1

theorem dropZeros_stop {c : UInt8} (h : c ≠ 48) (text : List UInt8) : dropZeros (c :: text) = c :: text := by
  rw [dropZeros]
  · rintro _ heq
    exact h (List.cons.inj heq).1
  · rintro _ heq
    exact h (List.cons.inj heq).1

/-- The zeros at the end go, up to the last digit. -/
theorem dropZeros_digits {upper : Bool} (hds : ∀ d ∈ ds, d < 16) (hne : ds ≠ []) (front : List UInt8) :
    ∃ es zeros, ds = List.replicate zeros 0 ++ es ∧ es ≠ [] ∧
      dropZeros (ds.map (hexChar upper) ++ 46 :: front) = es.map (hexChar upper) ++ 46 :: front := by
  have hzero : ∀ d < 16, d ≠ 0 → hexChar upper d ≠ 48 := by
    cases upper <;> decide
  have hpoint : ∀ d < 16, hexChar upper d ≠ 46 := by
    cases upper <;> decide
  induction ds with
  | nil => exact absurd rfl hne
  | cons d ds ih =>
    by_cases hd : d = 0
    · subst hd
      have hchar : hexChar upper 0 = 48 := by cases upper <;> rfl
      cases ds with
      | nil =>
        refine ⟨[0], 0, rfl, List.cons_ne_nil _ _, ?_⟩
        rw [List.map_singleton, hchar]
        rfl
      | cons e ds =>
        obtain ⟨es, zeros, hes, hesne, hdrop⟩ := ih (fun x hx => hds x (List.mem_cons_of_mem _ hx))
          (List.cons_ne_nil _ _)
        refine ⟨es, zeros + 1, by rw [hes, List.replicate_succ]; rfl, hesne, ?_⟩
        rw [← hdrop, List.map_cons, hchar]
        exact dropZeros_zero (hpoint e (hds e (by simp))) _
    · refine ⟨d :: ds, 0, rfl, List.cons_ne_nil _ _, ?_⟩
      exact dropZeros_stop (hzero d (hds d List.mem_cons_self) hd) _

/-- The exponent that is printed. -/
theorem readExponent_scale {exponent bias : Nat} {power : List UInt8}
    (hpower : uintToDecCommon (if exponent ≥ bias then exponent - bias else bias - exponent) false = some power) :
    readExponent ((if exponent ≥ bias then 43 else 45) :: power) = some ((exponent : Int) - bias) := by
  rw [uintToDecCommon_eq hpower]
  split
  · next hle =>
    rw [(readExponent_digits (numeral_digitsOf (by decide) _)).1]
    congr 1
    omega
  · next hlt =>
    rw [(readExponent_digits (numeral_digitsOf (by decide) _)).2]
    congr 1
    omega

/-- What is read from the text of a finite pattern: the digits of the fraction stand right behind the point. -/
theorem floatToHex_read (upper : Bool) {infinity bias : Nat} {f : FloatFields} (hfinite : f.exponent ≠ infinity)
    (hfraction : f.fraction < 2 ^ 64) (hexponent : f.exponent < 2 ^ 64) (hbias : bias < 2 ^ 64) :
    ∃ text es zeros, floatToHex upper infinity bias f = some text ∧
      digitsOf 16 f.fraction = es ++ List.replicate zeros 0 ∧
      readHexFloat text = some ⟨f.minus, if f.exponent ≠ 0 then 1 else 0, es, f.exponent - bias⟩ := by
  obtain ⟨digits, hdigits⟩ := Option.isSome_iff_exists.mp (uintToHexCommon_isSome hfraction upper)
  obtain ⟨power, hpower⟩ := Option.isSome_iff_exists.mp (uintToDecCommon_isSome
    (show (if f.exponent ≥ bias then f.exponent - bias else bias - f.exponent) < 2 ^ 64 by split <;> omega) false)
  have hnumeral := numeral_digitsOf (show 1 < 16 by decide) f.fraction
  obtain ⟨es, zeros, hes, -, hdrop⟩ := @dropZeros_digits (digitsOf 16 f.fraction).reverse upper
    (fun d hd => hnumeral.digit d (List.mem_reverse.mp hd)) (by simpa using hnumeral.ne_nil)
    ((if f.exponent ≠ 0 then 49 else 48) :: (if upper then 88 else 120) :: 48 :: (if f.minus then [45] else []))
  have hparts : digitsOf 16 f.fraction = es.reverse ++ List.replicate zeros 0 := by
    rw [← List.reverse_reverse (digitsOf 16 f.fraction), hes, List.reverse_append, List.reverse_replicate]
  have hdigit : ∀ d ∈ es.reverse, d < 16 := fun d hd =>
    hnumeral.digit d (by rw [hparts]; exact List.mem_append_left _ hd)
  have htext : digits = (digitsOf 16 f.fraction).map (hexChar upper) :=
    (@digitsFrom_eq 16 (by decide) (hexChar upper) _ _ _ _ hdigits).trans (List.append_nil _)
  have hminus : (if f.minus then [45] else [] : List UInt8).reverse = if f.minus then [45] else [] := by
    split <;> rfl
  -- The text from its end, and what remains of it.
  have hreverse : ((if f.minus then [45] else []) ++
      [48, if upper then 88 else 120, if f.exponent ≠ 0 then 49 else 48, 46] ++ digits).reverse =
        (digitsOf 16 f.fraction).reverse.map (hexChar upper) ++ 46 :: (if f.exponent ≠ 0 then 49 else 48) ::
          (if upper then 88 else 120) :: 48 :: (if f.minus then [45] else []) := by
    rw [List.reverse_append, List.reverse_append, hminus, htext, ← List.map_reverse]
    rfl
  have hback : (es.map (hexChar upper) ++ 46 :: (if f.exponent ≠ 0 then 49 else 48) ::
      (if upper then 88 else 120) :: 48 :: (if f.minus then [45] else [])).reverse =
        (if f.minus then [45] else []) ++ 48 :: (if upper then 88 else 120) ::
          digitChar (if f.exponent ≠ 0 then 1 else 0) :: 46 :: es.reverse.map (hexChar upper) := by
    have hwhole : (if f.exponent ≠ 0 then 49 else 48 : UInt8) = digitChar (if f.exponent ≠ 0 then 1 else 0) := by
      split <;> rfl
    rw [hwhole]
    simp only [List.reverse_append, List.reverse_cons, hminus, List.append_assoc, List.map_reverse]
    rfl
  have hread := readHexFloat_text f.minus upper (show (if f.exponent ≠ 0 then 1 else 0) ≤ 1 by split <;> decide)
    hdigit (readExponent_scale hpower)
  refine ⟨_, es.reverse, zeros, ?_, hparts, hread⟩
  simp only [floatToHex]
  rw [if_neg hfinite, hdigits, Option.bind_some, hpower, Option.map_some, hreverse, hdrop, hback]
  simp only [List.append_assoc, List.cons_append, List.nil_append]

/-! ## The number that is read -/

/-- A text that is read as the number `x`. -/
def Exact (text : Option (List UInt8)) (x : ℚ) : Prop :=
  ∃ t h, text = some t ∧ readHexFloat t = some h ∧ h.value = x

/-- The fraction is divided by a power of 16 for its own digits. -/
theorem value_digits {m zeros : Nat} {es : List Nat} (hes : digitsOf 16 m = es ++ List.replicate zeros 0)
    (minus : Bool) (whole : Nat) (exponent : Int) :
    HexFloat.value ⟨minus, whole, es, exponent⟩ = (if minus then -1 else 1) *
      ((whole + (m : ℚ) / 16 ^ (digitsOf 16 m).length) * (2 : ℚ) ^ exponent) := by
  have hm : m = numeral 16 0 es * 16 ^ zeros := by
    rw [← numeral_append_zeros, ← hes, (numeral_digitsOf (by decide) m).value]
  have hlength : (digitsOf 16 m).length = es.length + zeros := by
    rw [hes, List.length_append, List.length_replicate]
  have hquot : (m : ℚ) / 16 ^ (es.length + zeros) = (numeral 16 0 es : ℚ) / 16 ^ es.length := by
    rw [hm, Nat.cast_mul, Nat.cast_pow, pow_add]
    exact mul_div_mul_right _ _ (by positivity)
  rw [hlength, hquot, HexFloat.value]

theorem div_eq_iff_pow (m j k : Nat) : (m : ℚ) / 2 ^ j = (m : ℚ) / 2 ^ k ↔ m = 0 ∨ j = k := by
  rw [div_eq_div_iff (by positivity) (by positivity), mul_eq_mul_left_iff, Nat.cast_eq_zero, or_comm,
    pow_right_inj₀ (by norm_num) (by norm_num), eq_comm (a := k)]

/-- The number is right when the digits of the fraction, four bits each, fill it. -/
theorem floatToHex_exact_iff (upper : Bool) {infinity bias bits : Nat} {f : FloatFields}
    (hfinite : f.exponent ≠ infinity) (hfraction : f.fraction < 2 ^ 64) (hexponent : f.exponent < 2 ^ 64)
    (hbias : bias < 2 ^ 64) :
    Exact (floatToHex upper infinity bias f) (f.value bits bias) ↔
      f.fraction = 0 ∨ 4 * (digitsOf 16 f.fraction).length + (if f.exponent = 0 then 1 else 0) = bits := by
  obtain ⟨text, es, zeros, htext, hes, hread⟩ := floatToHex_read upper hfinite hfraction hexponent hbias
  have hexact : Exact (floatToHex upper infinity bias f) (f.value bits bias) ↔
      HexFloat.value ⟨f.minus, if f.exponent ≠ 0 then 1 else 0, es, f.exponent - bias⟩ = f.value bits bias := by
    constructor
    · rintro ⟨t, h, ht, hh, hvalue⟩
      obtain rfl := Option.some.inj (htext.symm.trans ht)
      obtain rfl := Option.some.inj (hread.symm.trans hh)
      exact hvalue
    · exact fun hvalue => ⟨text, _, htext, hread, hvalue⟩
  have hnibbles : (16 : ℚ) ^ (digitsOf 16 f.fraction).length = 2 ^ (4 * (digitsOf 16 f.fraction).length) := by
    rw [pow_mul]
    norm_num
  have hpower : ∀ n : ℤ, (2 : ℚ) ^ n ≠ 0 := fun n => zpow_ne_zero n (by norm_num)
  have hsign : (if f.minus then -1 else 1 : ℚ) ≠ 0 := by split <;> norm_num
  rw [hexact, value_digits hes, FloatFields.value, mul_right_inj' hsign, hnibbles]
  by_cases hsubnormal : f.exponent = 0
  · have hscale : (2 : ℚ) ^ (1 - bias : ℤ) = 2 * 2 ^ (0 - bias : ℤ) := by
      rw [show (1 - bias : ℤ) = 1 + (0 - bias) by ring, zpow_add₀ (by norm_num), zpow_one]
    have hmore : (f.fraction : ℚ) / 2 ^ (4 * (digitsOf 16 f.fraction).length) =
        (f.fraction : ℚ) / 2 ^ (4 * (digitsOf 16 f.fraction).length + 1) * 2 := by
      rw [pow_succ]
      field_simp
    rw [hsubnormal, if_neg (not_not.mpr rfl), if_pos rfl, if_pos rfl, Nat.cast_zero, Nat.cast_zero, zero_add,
      hscale, hmore, mul_assoc, mul_left_inj' (mul_ne_zero (by norm_num) (hpower _)), div_eq_iff_pow]
  · rw [if_pos hsubnormal, if_neg hsubnormal, if_neg hsubnormal, Nat.cast_one, mul_left_inj' (hpower _),
      add_right_inj, div_eq_iff_pow, Nat.add_zero]

theorem fraction64_lt (v : UInt64) : (FloatFields.of64 v).fraction < 2 ^ 52 ∧ (FloatFields.of64 v).exponent < 2 ^ 11 :=
  ⟨Nat.mod_lt _ (by decide), Nat.mod_lt _ (by decide)⟩

theorem fraction32_lt (v : UInt32) : (FloatFields.of32 v).fraction < 2 ^ 23 ∧ (FloatFields.of32 v).exponent < 2 ^ 8 :=
  ⟨Nat.mod_lt _ (by decide), Nat.mod_lt _ (by decide)⟩

/-- Thirteen digits, when the first of them is no zero. -/
theorem length_digitsOf_eq_iff {m : Nat} (hm : m ≠ 0) (hlt : m < 2 ^ 52) :
    (digitsOf 16 m).length = 13 ↔ 2 ^ 48 ≤ m := by
  have hupper := lt_pow_digitsOf (show 1 < 16 by decide) m
  have hlower := pow_digitsOf_le (show 1 < 16 by decide) hm
  constructor
  · intro hlength
    rw [hlength] at hlower
    exact hlower
  · intro hle
    refine Nat.le_antisymm (Nat.not_lt.mp fun hlong => ?_) (Nat.not_lt.mp fun hshort => ?_)
    · have hpow : 16 ^ 13 ≤ 16 ^ ((digitsOf 16 m).length - 1) := Nat.pow_le_pow_right (by decide) (by omega)
      exact absurd hlt (Nat.not_lt.mpr (Nat.le_trans hpow hlower))
    · have hpow : 16 ^ (digitsOf 16 m).length ≤ 16 ^ 12 := Nat.pow_le_pow_right (by decide) (by omega)
      exact absurd hle (Nat.not_le.mpr (Nat.lt_of_lt_of_le hupper hpow))

/-- **Which numbers are printed exactly.** A `double` with a fraction of 13 digits, if it is normal, and otherwise
only numbers whose fraction is 0. -/
theorem hex_float_exact_iff (upper : Bool) :
    (∀ v, (FloatFields.of64 v).exponent ≠ 2047 →
      (Exact (float64ToHex upper v) ((FloatFields.of64 v).value 52 1023) ↔
        (FloatFields.of64 v).fraction = 0 ∨
          (FloatFields.of64 v).exponent ≠ 0 ∧ 2 ^ 48 ≤ (FloatFields.of64 v).fraction)) ∧
    (∀ v, (FloatFields.of32 v).exponent ≠ 255 →
      (Exact (float32ToHex upper v) ((FloatFields.of32 v).value 23 127) ↔ (FloatFields.of32 v).fraction = 0)) := by
  constructor
  · intro v hfinite
    obtain ⟨hfraction, hexponent⟩ := fraction64_lt v
    rw [float64ToHex_eq, floatToHex_exact_iff upper hfinite (by omega) (by omega) (by decide)]
    refine or_congr_right' fun hne => ?_
    rw [← length_digitsOf_eq_iff hne hfraction]
    split <;> omega
  · intro v hfinite
    obtain ⟨hfraction, hexponent⟩ := fraction32_lt v
    rw [float32ToHex_eq, floatToHex_exact_iff upper hfinite (by omega) (by omega) (by decide)]
    refine or_iff_left fun hbits => ?_
    split at hbits <;> omega

theorem hex_float_exact_one_and_a_half :
    (FloatFields.of64 0x3FF8000000000000).exponent ≠ 2047 ∧ (FloatFields.of32 0x3F800000).exponent ≠ 255 ∧
      (Exact (float64ToHex false 0x3FF8000000000000) ((FloatFields.of64 0x3FF8000000000000).value 52 1023) ↔
        (FloatFields.of64 0x3FF8000000000000).fraction = 0 ∨
          (FloatFields.of64 0x3FF8000000000000).exponent ≠ 0 ∧
            2 ^ 48 ≤ (FloatFields.of64 0x3FF8000000000000).fraction) ∧
      (Exact (float32ToHex false 0x3F800000) ((FloatFields.of32 0x3F800000).value 23 127) ↔
        (FloatFields.of32 0x3F800000).fraction = 0) :=
  ⟨by decide, by decide, (hex_float_exact_iff false).1 _ (by decide), (hex_float_exact_iff false).2 _ (by decide)⟩

/-- The number behind 1 is printed as `0x1.1p+0`, and 1.5 as a `float` as `0x1.4p+0`. -/
theorem not_hex_float_exact :
    ¬ Exact (float64ToHex false 0x3FF0000000000001) ((FloatFields.of64 0x3FF0000000000001).value 52 1023) ∧
      ¬ Exact (float32ToHex false 0x3FC00000) ((FloatFields.of32 0x3FC00000).value 23 127) := by
  have hone : (FloatFields.of64 0x3FF0000000000001).fraction = 1 := by decide
  have hnormal : (FloatFields.of64 0x3FF0000000000001).exponent ≠ 0 := by decide
  constructor
  · rw [float64ToHex_eq, floatToHex_exact_iff false (by decide) (by decide) (by decide) (by decide), hone,
      digitsOf_of_lt (by decide), if_neg hnormal]
    decide
  · rw [float32ToHex_eq, floatToHex_exact_iff false (by decide) (by decide) (by decide) (by decide)]
    rintro (hzero | hbits)
    · exact absurd hzero (by decide)
    · split at hbits <;> omega

end WindowsLibc.Printf
