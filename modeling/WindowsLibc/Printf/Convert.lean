import Mathlib.Algebra.Order.Ring.Nat
import Mathlib.Data.List.Basic

/-!
# From values to text (`internal/convert.c`)

The conversions that `printf` uses. Digits are staged in a local array of 32 bytes, least significant
first, and copied out in reverse; a digit behind the end of the array is a fault (`none`).

* `digitsFrom_isSome_iff` says when the digits of a power of two fit: those of octal and hexadecimal
  always do, those of binary only below `2 ^ 32` (`uintToBinCommon_isSome_iff`).
* Decimal digits fit with all their separators (`uintToDecCommon_isSome`).
-/

namespace WindowsLibc.Printf

/-! ## Digits -/

def hexLowerTable : List UInt8 :=
  [48, 49, 50, 51, 52, 53, 54, 55, 56, 57, 97, 98, 99, 100, 101, 102]

def hexUpperTable : List UInt8 :=
  [48, 49, 50, 51, 52, 53, 54, 55, 56, 57, 65, 66, 67, 68, 69, 70]

/-- The loop of `uint_to_hex_common`, `uint_to_oct_common` and `uint_to_bin_common`, then the copy.
There are `room` bytes left in `temp`. -/
def digitsFrom (base : Nat) (digit : Nat → UInt8) : Nat → Nat → List UInt8 → Option (List UInt8)
  | 0, _, _ => none
  | room + 1, x, temp =>
    if x / base ≠ 0 then digitsFrom base digit room (x / base) (digit (x % base) :: temp)
    else some (digit (x % base) :: temp)

/-- `(x % 10) + '0'` and its like. -/
def digitChar (d : Nat) : UInt8 := UInt8.ofNat (d + 48)

/-- `uint_to_hex_common`. -/
def uintToHexCommon (upper : Bool) (x : Nat) : Option (List UInt8) :=
  digitsFrom 16 (fun d => (if upper then hexUpperTable else hexLowerTable).getD d 0) 32 x []

/-- `uint_to_oct_common`. -/
def uintToOctCommon (x : Nat) : Option (List UInt8) := digitsFrom 8 digitChar 32 x []

/-- `uint_to_bin_common`, with an array of 32 bytes as well. -/
def uintToBinCommon (x : Nat) : Option (List UInt8) := digitsFrom 2 digitChar 32 x []

/-- The loop of `uint_to_dec_common`, then the copy. A separator goes before every fourth digit. Every
turn stages a byte, so after 32 turns the array is full. -/
def decFrom (groupDigits : Bool) : Nat → Nat → Nat → List UInt8 → Option (List UInt8)
  | 0, _, _, _ => none
  | turns + 1, x, sep, temp =>
    let temp := if sep = 3 ∧ groupDigits then 44 :: temp else temp
    let sep := if sep = 3 then 0 else sep
    let temp := digitChar (x % 10) :: temp
    if temp.length > 32 then none
    else if x / 10 ≠ 0 then decFrom groupDigits turns (x / 10) (sep + 1) temp
    else some temp

/-- `uint_to_dec_common`. -/
def uintToDecCommon (x : Nat) (groupDigits : Bool) : Option (List UInt8) :=
  decFrom groupDigits 32 x 0 []

/-- `int_to_dec_common`. The least value is written down, without separators. -/
def intToDecCommon (x : Int) (forceSign groupDigits : Bool) : Option (List UInt8) :=
  if x = -2 ^ 63 then
    some [45, 57, 50, 50, 51, 51, 55, 50, 48, 51, 54, 56, 53, 52, 55, 55, 53, 56, 48, 56]
  else if x < 0 then (uintToDecCommon (-x).toNat groupDigits).map (List.cons 45)
  else if forceSign then (uintToDecCommon x.toNat groupDigits).map (List.cons 43)
  else uintToDecCommon x.toNat groupDigits

/-! ### What fits -/

theorem digitsFrom_isSome_iff {base : Nat} (hbase : 0 < base) (digit : Nat → UInt8)
    (room x : Nat) (temp : List UInt8) :
    (digitsFrom base digit (room + 1) x temp).isSome ↔ x < base ^ (room + 1) := by
  induction room generalizing x temp with
  | zero =>
    rw [digitsFrom, digitsFrom, pow_one]
    split
    · next h => simpa using (mt (Nat.div_eq_of_lt) h)
    · next h => simpa [Nat.div_eq_zero_iff, hbase.ne'] using h
  | succ room ih =>
    rw [digitsFrom]
    split
    · rw [ih, Nat.div_lt_iff_lt_mul hbase, ← pow_succ]
    · next h =>
      have hlt : x < base := by simpa [Nat.div_eq_zero_iff, hbase.ne'] using h
      simpa using lt_of_lt_of_le hlt (Nat.le_self_pow (by omega) base)

theorem uintToHexCommon_isSome {x : Nat} (h : x < 2 ^ 64) (upper : Bool) :
    (uintToHexCommon upper x).isSome :=
  (digitsFrom_isSome_iff (by decide) _ 31 x []).mpr (lt_of_lt_of_le h (by decide))

theorem uintToOctCommon_isSome {x : Nat} (h : x < 2 ^ 64) : (uintToOctCommon x).isSome :=
  (digitsFrom_isSome_iff (by decide) _ 31 x []).mpr (lt_of_lt_of_le h (by decide))

/-- **The array is too small for binary.** -/
theorem uintToBinCommon_isSome_iff (x : Nat) : (uintToBinCommon x).isSome ↔ x < 2 ^ 32 :=
  digitsFrom_isSome_iff (by decide) _ 31 x []

/-- With `digits` digits to come, `digits + (digits + sep - 1) / 3` bytes are staged at most. -/
theorem decFrom_isSome (groupDigits : Bool) {digits turns x sep : Nat} {temp : List UInt8}
    (hx : x < 10 ^ (digits + 1)) (hsep : sep ≤ 3) (hturns : digits < turns)
    (hroom : temp.length + (digits + 1) + (digits + sep) / 3 ≤ 32) :
    (decFrom groupDigits turns x sep temp).isSome := by
  induction digits generalizing turns x sep temp with
  | zero =>
    cases turns with
    | zero => omega
    | succ turns =>
      have hzero : x / 10 = 0 := by omega
      rw [decFrom]
      rw [if_neg, if_neg (by omega)]
      · rfl
      · split <;> simp only [List.length_cons] <;> omega
  | succ digits ih =>
    cases turns with
    | zero => omega
    | succ turns =>
      have hdiv : x / 10 < 10 ^ (digits + 1) := by
        rw [pow_succ] at hx
        omega
      rw [decFrom]
      rw [if_neg]
      · split
        · apply ih hdiv
          · split <;> omega
          · omega
          · by_cases hfull : sep = 3
            · subst hfull
              cases groupDigits <;> simp <;> omega
            · simp [hfull]
              omega
        · rfl
      · split <;> simp only [List.length_cons] <;> omega

theorem uintToDecCommon_isSome {x : Nat} (h : x < 2 ^ 64) (groupDigits : Bool) :
    (uintToDecCommon x groupDigits).isSome :=
  @decFrom_isSome groupDigits 19 32 x 0 [] (lt_of_lt_of_le h (by decide)) (by decide) (by decide)
    (by decide)

theorem intToDecCommon_isSome {x : Int} (hlo : -2 ^ 63 ≤ x) (hhi : x < 2 ^ 63)
    (forceSign groupDigits : Bool) : (intToDecCommon x forceSign groupDigits).isSome := by
  rw [intToDecCommon]
  split
  · rfl
  · split
    · rw [Option.isSome_map]
      exact uintToDecCommon_isSome (by omega) groupDigits
    · split
      · rw [Option.isSome_map]
        exact uintToDecCommon_isSome (by omega) groupDigits
      · exact uintToDecCommon_isSome (by omega) groupDigits

/-! ## Hexadecimal floating point -/

/-- `print_nan`. -/
def printNan (upper : Bool) : List UInt8 := if upper then [78, 65, 78] else [110, 97, 110]

/-- `print_inf`. -/
def printInf (upper : Bool) : List UInt8 := if upper then [73, 78, 70] else [105, 110, 102]

/-- `while (buffer[pos - 1] == '0')`, on the text from its end. The digit behind the point stays. -/
def dropZeros : List UInt8 → List UInt8
  | 48 :: 46 :: text => 48 :: 46 :: text
  | 48 :: text => dropZeros text
  | text => text

/-- `float64_to_hex`, from the bits of the value. -/
def float64ToHex (upper : Bool) (v : UInt64) : Option (List UInt8) :=
  let sign := (v >>> 63) &&& 0x1
  let exponent := ((v <<< 1) >>> 53) &&& 0x7FF
  let mantissa := v &&& 0xFFFFFFFFFFFFF
  let minus := if sign ≠ 0 then [45] else []
  if exponent = 2047 then
    some (minus ++ if mantissa = 0 then printInf upper else printNan upper)
  else
    let leading := [48, if upper then 88 else 120, if exponent ≠ 0 then 49 else 48, 46]
    (uintToHexCommon upper mantissa.toNat).bind (fun digits =>
      let text := (dropZeros (minus ++ leading ++ digits).reverse).reverse
      let scale := if exponent.toNat ≥ 1023 then 43 else 45
      let power := if exponent.toNat ≥ 1023 then exponent.toNat - 1023 else 1023 - exponent.toNat
      (uintToDecCommon power false).map (fun digits =>
        text ++ [if upper then 80 else 112, scale] ++ digits))

theorem float64ToHex_isSome (upper : Bool) (v : UInt64) : (float64ToHex upper v).isSome := by
  simp only [float64ToHex]
  split
  · rfl
  · obtain ⟨digits, hdigits⟩ := Option.isSome_iff_exists.mp
      (uintToHexCommon_isSome (v &&& 0xFFFFFFFFFFFFF).toNat_lt upper)
    rw [hdigits, Option.bind_some, Option.isSome_map]
    apply uintToDecCommon_isSome
    have hexp := (((v <<< 1) >>> 53) &&& 0x7FF).toNat_lt
    split <;> omega

/-! ## Pointers and characters -/

/-- `pointer_encode`: `0x` and the bytes, most significant first. -/
def pointerEncode (ptr : UInt64) : List UInt8 :=
  [48, 120] ++ (List.range 8).flatMap (fun i =>
    let byte := (ptr.toNat / 256 ^ (7 - i)) % 256
    [hexLowerTable.getD (byte / 16) 0, hexLowerTable.getD (byte % 16) 0])

/-- `utf8_encode`. Nothing is written for an illegal codepoint. -/
def utf8Encode (codepoint : UInt32) : List UInt8 :=
  let bits (mark shift mask : UInt32) : UInt8 := (mark ||| ((codepoint >>> shift) &&& mask)).toUInt8
  if codepoint ≤ 0x7F then [bits 0 0 0x7F]
  else if codepoint ≤ 0x07FF then [bits 0xC0 6 0x1F, bits 0x80 0 0x3F]
  else if codepoint ≤ 0xFFFF then [bits 0xE0 12 0x0F, bits 0x80 6 0x3F, bits 0x80 0 0x3F]
  else if codepoint ≤ 0x10FFFF then
    [bits 0xF0 18 0x07, bits 0x80 12 0x3F, bits 0x80 6 0x3F, bits 0x80 0 0x3F]
  else []

theorem utf8Encode_eq_nil_iff (codepoint : UInt32) :
    utf8Encode codepoint = [] ↔ 0x10FFFF < codepoint := by
  simp only [utf8Encode]
  split
  · next h => simpa using UInt32.le_trans h (by decide)
  · split
    · next h => simpa using UInt32.le_trans h (by decide)
    · split
      · next h => simpa using UInt32.le_trans h (by decide)
      · split
        · next h => simpa using h
        · next h => simpa using h

/-- `utf16_decode` of two units, of which it reads the second after a high surrogate: the number of
bytes and the codepoint, both 0 for an invalid sequence. -/
def utf16Decode (high low : UInt16) : Nat × UInt32 :=
  if high < 0xD800 ∨ high > 0xDFFF then (2, high.toUInt32)
  else if high ≤ 0xDBFF ∧ 0xDC00 ≤ low ∧ low ≤ 0xDFFF then
    (4, (((high.toUInt32 &&& 0x3FF) <<< 10) ||| (low.toUInt32 &&& 0x3FF)) + 0x10000)
  else (0, 0)

end WindowsLibc.Printf
