import WindowsLibc.Printf.Fills

/-!
# The text of an integer

What `printf` prints for an integer, as a rule in terms of the specification.

* A `Request` is a specification as it is written, before its flags override each other. Every configuration that
  `parse_print_specifier` makes is that of a request (`parsePrintSpecifier_request`).
* `Request.text` is the rule: the digits with zeros in front up to the precision, the sign or the prefix in front of
  them, and spaces or zeros up to the width.
* `print_integer` says that both functions that print integers follow it.
-/

namespace WindowsLibc.Printf

open WindowsLibc.Lib

/-! ## The rule -/

/-- A specification. Without a point there is no precision. -/
structure Request where
  type : PrintType
  modifier : Modifier
  flags : Flags
  width : UInt32
  precision : Option UInt32
  result : UInt64
  data : UInt64

namespace Request

/-- What is made of it. -/
def config (r : Request) : PrintConfig where
  type := r.type
  modifier := r.modifier
  flags := Flags.settle { r.flags with precision := r.precision.isSome }
  width := r.width
  precision := r.precision.getD 0
  result := r.result
  data := r.data

/-- The value of the argument. -/
def value (r : Request) : Int := if r.type = .intNumber then r.config.int else r.config.uint

def base (r : Request) : Nat :=
  match r.type with
  | .uintBinary => 2
  | .uintOctal => 8
  | .uintHex => 16
  | _ => 10

/-- The digits of the value, with no zeros in front. -/
def digits (r : Request) : List UInt8 := (digitsOf r.base r.value.natAbs).map (hexChar r.flags.upperCase)

/-- The letter of a prefix. -/
def letter (r : Request) : UInt8 :=
  match r.type with
  | .uintBinary => if r.flags.upperCase then 66 else 98
  | .uintOctal => if r.flags.upperCase then 79 else 111
  | _ => if r.flags.upperCase then 88 else 120

/-- The sign or the prefix. -/
def lead (r : Request) : List UInt8 :=
  match r.type with
  | .intNumber =>
    if r.value < 0 then [45]
    else if r.flags.forceSign then [43]
    else if r.flags.emptySpace then [32]
    else []
  | .uintNumber => []
  | _ => if r.flags.alternateForm then [48, r.letter] else []

/-- How many digits are asked for. -/
def least (r : Request) : Nat := (r.precision.getD 0).toNat

/-- The text for some digits behind a sign or a prefix. -/
def filled (r : Request) (lead digits : List UInt8) : List UInt8 :=
  let number := List.replicate (r.least - digits.length) 48 ++ digits
  let missing := r.width.toNat - (lead.length + number.length)
  if r.flags.leftJustify then lead ++ (number ++ List.replicate missing 32)
  else if r.flags.zeroPadded ∧ r.precision = none then lead ++ (List.replicate missing 48 ++ number)
  else List.replicate missing 32 ++ (lead ++ number)

/-- What is to be printed. -/
def text (r : Request) : List UInt8 := r.filled r.lead r.digits

end Request

variable {r : Request} {lead digits : List UInt8}

theorem Request.length_filled (r : Request) (lead digits : List UInt8) :
    (r.filled lead digits).length = max r.width.toNat (lead.length + max r.least digits.length) := by
  simp only [Request.filled]
  split
  · simp only [List.length_append, List.length_replicate]
    omega
  · split <;> simp only [List.length_append, List.length_replicate] <;> omega

theorem parsePrecision_none {format : List UInt8} (h : (parsePrecision format).1.1 = false) :
    (parsePrecision format).1.2 = ⟨4294967295, 0⟩ := by
  revert h
  fun_cases parsePrecision format
  case case1 => exact fun h => absurd h.symm Bool.false_ne_true
  case case2 => exact fun _ => rfl

/-- What is not given is 0, and then the configuration is that of a request. -/
theorem exists_request (type : PrintType) (modifier : Modifier) (flags : Flags) (width precision : UInt32)
    (data : UInt64) {given : Bool} (h : given = false → precision = 0) :
    ∃ r : Request, PrintConfig.mk type modifier (Flags.settle { flags with precision := given }) width precision 0
      data = r.config := by
  cases given with
  | false =>
    refine ⟨⟨type, modifier, flags, width, none, 0, data⟩, ?_⟩
    rw [h rfl]
    rfl
  | true => exact ⟨⟨type, modifier, flags, width, some precision, 0, data⟩, rfl⟩

theorem parsePrintSpecifier_request (format : List UInt8) (args : VariadicArgs) :
    ∃ r : Request, (parsePrintSpecifier format args).1 = r.config := by
  have hnone : (parseHeader format).1.precision.1 = false →
      (parseHeader format).1.precision.2 = ⟨4294967295, 0⟩ := parsePrecision_none
  simp only [parsePrintSpecifier]
  generalize (parseHeader format).1 = header at *
  generalize conversion ((parseHeader format).2.headD 0) = letter
  split
  · exact exists_request _ _ { header.flags with upperCase := letter.2 } _ _ _ fun h => by rw [hnone h]
  · refine exists_request _ _ { header.flags with upperCase := letter.2 } _ _ _ fun h => ?_
    rw [hnone h]
    rfl

/-! ## The layout -/

theorem toNat_ofNat_small {n : Nat} (h : n < 2 ^ 32) : (UInt32.ofNat n).toNat = n := by
  rw [UInt32.toNat_ofNat', Nat.mod_eq_of_lt h]

theorem toNat_add_small {a b : UInt32} (h : a.toNat + b.toNat < 2 ^ 32) : (a + b).toNat = a.toNat + b.toNat := by
  rw [UInt32.toNat_add, Nat.mod_eq_of_lt h]

/-- The layout that the branches find is the rule, as long as no sum wraps. -/
theorem layout_filled (hwidth : r.width.toNat < 2 ^ 31) (hprecision : r.least < 2 ^ 31) (hlead : lead.length ≤ 2)
    (hdigits : digits.length ≤ 64) :
    (layout r.config (UInt32.ofNat lead.length) (UInt32.ofNat digits.length) 0).text lead digits =
      r.filled lead digits := by
  have hsize := toNat_ofNat_small (show digits.length < 2 ^ 32 by omega)
  have hextra := toNat_ofNat_small (show lead.length < 2 ^ 32 by omega)
  have hleast : r.config.precision.toNat = r.least := rfl
  have hmax : (max r.config.precision (UInt32.ofNat digits.length)).toNat = max r.least digits.length := by
    rw [toNat_max, hsize, hleast]
  simp only [layout, Request.filled, Layout.text, UInt32.sub_zero, UInt32.add_zero, hsize, hleast]
  by_cases hleft : r.flags.leftJustify = true
  · have hzeros := toNat_ofNat_small (show r.least - digits.length < 2 ^ 32 by omega)
    have hsum := @toNat_add_small (UInt32.ofNat digits.length) (UInt32.ofNat (r.least - digits.length)) (by omega)
    have hall := @toNat_add_small (UInt32.ofNat digits.length + UInt32.ofNat (r.least - digits.length))
      (UInt32.ofNat lead.length) (by omega)
    rw [if_pos (show r.config.flags.leftJustify = true from hleft), if_pos hleft, hall, hsum, hsize, hzeros, hextra]
    have hmissing : digits.length + (r.least - digits.length) + lead.length =
        lead.length + (List.replicate (r.least - digits.length) (48 : UInt8) ++ digits).length := by
      rw [List.length_append, List.length_replicate]
      omega
    rw [hmissing, List.replicate_zero, List.nil_append, List.append_assoc]
    rfl
  · have hwide : (r.config.width > max r.config.precision (UInt32.ofNat digits.length)) ↔
        max r.least digits.length < r.width.toNat := by
      rw [gt_iff_lt, UInt32.lt_iff_toNat_lt, hmax]
      rfl
    have hnumber : (List.replicate (r.least - digits.length) (48 : UInt8) ++ digits).length =
        max r.least digits.length := by
      rw [List.length_append, List.length_replicate]
      omega
    rw [if_neg (show ¬ r.config.flags.leftJustify = true from hleft), if_neg hleft, hnumber]
    by_cases hpadded : r.flags.zeroPadded = true ∧ r.precision = none
    · have hnone : r.least = 0 := by rw [Request.least, hpadded.2]; rfl
      have hzero : r.config.flags.zeroPadded = true := by
        simp [Request.config, Flags.settle, hpadded, hleft]
      have hsum := @toNat_add_small (UInt32.ofNat lead.length) (UInt32.ofNat digits.length) (by omega)
      rw [if_pos hpadded, if_pos hzero, hsum, hsize, hextra, hnone, Nat.zero_sub, Nat.zero_max]
      by_cases hroom : r.config.width > max r.config.precision (UInt32.ofNat digits.length)
      · rw [if_pos hroom]
        simp only [List.replicate_zero, List.nil_append, List.append_nil]
        rfl
      · rw [hwide, hnone, Nat.zero_max] at hroom
        have hmissing : r.width.toNat - (lead.length + digits.length) = 0 := by omega
        rw [if_neg (by rw [hwide, hnone, Nat.zero_max]; exact hroom), hmissing]
        simp only [List.replicate_zero, List.nil_append, List.append_nil]
    · have hzero : ¬ r.config.flags.zeroPadded = true := by
        intro hzero
        apply hpadded
        simpa [Request.config, Flags.settle, hleft] using hzero
      have hcount := @toNat_add_small (max r.config.precision (UInt32.ofNat digits.length)) (UInt32.ofNat lead.length)
        (by omega)
      rw [if_neg hpadded, if_neg hzero, hcount, hmax, hextra]
      by_cases hroom : r.config.width > max r.config.precision (UInt32.ofNat digits.length)
      · rw [if_pos hroom, Nat.add_comm lead.length]
        simp only [List.replicate_zero, List.append_nil]
        rfl
      · rw [hwide] at hroom
        have hmissing : r.width.toNat - (lead.length + max r.least digits.length) = 0 := by omega
        rw [if_neg (by rw [hwide]; exact hroom), hmissing]
        simp only [List.replicate_zero, List.nil_append, List.append_nil]

/-! ## The conversions -/

theorem hexChar_of_lt (upper : Bool) {d : Nat} (h : d < 10) : hexChar upper d = digitChar d := by
  have hall : ∀ d < 10, hexChar false d = digitChar d ∧ hexChar true d = digitChar d := by decide
  cases upper
  · exact (hall d h).1
  · exact (hall d h).2

/-- Up to base 10 there are no letters among the digits. -/
theorem map_digitChar {base : Nat} (hbase : 1 < base) (hten : base ≤ 10) (upper : Bool) (x : Nat) :
    (digitsOf base x).map digitChar = (digitsOf base x).map (hexChar upper) :=
  List.map_congr_left fun d hd =>
    (hexChar_of_lt upper (Nat.lt_of_lt_of_le ((numeral_digitsOf hbase x).digit d hd) hten)).symm

theorem Request.length_lead_le (r : Request) : r.lead.length ≤ 2 := by
  unfold Request.lead
  split
  · split
    · exact Nat.le_succ 1
    · split
      · exact Nat.le_succ 1
      · split
        · exact Nat.le_succ 1
        · exact Nat.zero_le 2
  · exact Nat.zero_le 2
  · split
    · exact Nat.le_refl 2
    · exact Nat.zero_le 2

/-- The sign is the one that is asked for. -/
theorem signOf_config (h : r.type = .intNumber) : signOf r.config r.config.int = r.lead := by
  have hvalue : r.value = r.config.int := if_pos h
  simp only [signOf, Request.lead, h, hvalue]
  split
  · rfl
  · have hforce : r.config.flags.forceSign = r.flags.forceSign := rfl
    have hspace : r.config.flags.emptySpace = (r.flags.emptySpace && !r.flags.forceSign) := rfl
    rw [hforce, hspace]
    cases r.flags.forceSign <;> cases r.flags.emptySpace <;> rfl

/-- So is the prefix. -/
theorem alternateForm_config (h : r.type = .uintBinary ∨ r.type = .uintOctal ∨ r.type = .uintHex) :
    alternateForm r.config = r.lead := by
  have htype : r.config.type = r.type := rfl
  rcases h with h | h | h <;>
    simp only [alternateForm, alternateFormChar, Request.lead, Request.letter, htype, h] <;> rfl

/-- The digits of an unsigned value. -/
theorem digits_uint (h : r.type ≠ .intNumber) :
    r.digits = (digitsOf r.base r.config.uint).map (hexChar r.flags.upperCase) := by
  rw [Request.digits, Request.value, if_neg h]
  rfl

/-- What prints decimals. -/
theorem emits_layout {config : PrintConfig} {temp : List UInt8}
    (hlead : signText (takeSign config temp).1 = lead) (hdigits : (takeSign config temp).2.2 = digits) :
    ∃ ws, sink.Emits (printIntFormatted config temp) ws (count ws) ∧
      ws.flatten = (layout config (UInt32.ofNat lead.length) (UInt32.ofNat digits.length)
        (separators config (UInt32.ofNat digits.length))).text lead digits := by
  obtain ⟨ws, hws, htext⟩ := printIntFormatted_layout config temp
  rw [takeSign_extra, hlead, hdigits] at htext
  exact ⟨ws, hws, htext⟩

theorem emits_int (hgroup : r.flags.groupDigits = false) (hwidth : r.width.toNat < 2 ^ 31)
    (hprecision : r.least < 2 ^ 31) (hfits : r.digits.length ≤ 32) {temp : List UInt8}
    (hlead : signText (takeSign r.config temp).1 = r.lead) (hdigits : (takeSign r.config temp).2.2 = r.digits) :
    ∃ ws, sink.Emits (printIntFormatted r.config temp) ws (count ws) ∧ ws.flatten = r.text := by
  obtain ⟨ws, hws, htext⟩ := emits_layout hlead hdigits
  have hnone : separators r.config (UInt32.ofNat r.digits.length) = 0 :=
    if_neg (by show ¬ r.flags.groupDigits = true; rw [hgroup]; exact Bool.false_ne_true)
  refine ⟨ws, hws, ?_⟩
  rw [htext, hnone]
  exact layout_filled hwidth hprecision r.length_lead_le (by omega)

/-- What prints numbers with a prefix. -/
theorem emits_uint (hwidth : r.width.toNat < 2 ^ 31) (hprecision : r.least < 2 ^ 31)
    (hfits : r.digits.length ≤ 32) (hlead : alternateForm r.config = r.lead) :
    ∃ ws, sink.Emits (printUintFormatted r.config r.digits) ws (count ws) ∧ ws.flatten = r.text := by
  obtain ⟨ws, hws, htext⟩ := printUintFormatted_layout r.config r.digits
  refine ⟨ws, hws, ?_⟩
  rw [htext, hlead]
  exact layout_filled hwidth hprecision r.length_lead_le (by omega)

/-- **What is printed for an integer.** -/
theorem print_integer (mem : Memory) (r : Request) (htype : r.type.isInteger)
    (hgroup : r.flags.groupDigits = false) (hfits : r.digits.length ≤ 32) (hwidth : r.width.toNat < 2 ^ 31)
    (hprecision : r.least < 2 ^ 31) :
    (∃ ws, sink.Emits (printArg mem r.config) ws (UInt32.ofNat r.text.length, mem) ∧ ws.flatten = r.text) ∧
      r.text.length = max r.width.toNat (r.lead.length + max r.least r.digits.length) := by
  refine ⟨?_, r.length_filled _ _⟩
  suffices h : ∃ ws, sink.Emits (printArg mem r.config) ws (count ws, mem) ∧ ws.flatten = r.text by
    obtain ⟨ws, hws, htext⟩ := h
    rw [← htext]
    exact ⟨ws, hws, rfl⟩
  have htype' : r.config.type = r.type := rfl
  have huint := uint_lt r.config
  have hne : ∀ {type}, r.type = type → type ≠ .intNumber → r.type ≠ .intNumber := fun h hne => h ▸ hne
  cases hconfig : r.type with
  | intNumber =>
    obtain ⟨hlo, hhi⟩ := int_bounds r.config
    simp only [printArg, htype', hconfig]
    obtain ⟨temp, htemp⟩ := Option.isSome_iff_exists.mp (intToDecCommon_isSome hlo hhi
      (r.config.flags.forceSign || r.config.flags.emptySpace) r.config.flags.groupDigits)
    obtain ⟨hsign, hmagnitude⟩ := takeSign_int r.config htemp
    have hdigits : (takeSign r.config temp).2.2 = r.digits := by
      have htext : (takeSign r.config temp).2.2 = (digitsOf 10 r.config.int.natAbs).map digitChar :=
        hmagnitude.elim And.right fun h => uintToDecCommon_eq (hgroup ▸ h.2)
      rw [htext, map_digitChar (by decide) (Nat.le_refl 10) r.flags.upperCase]
      simp only [Request.digits, Request.base, Request.value, hconfig, if_true]
    exact emits_staged_text (· = r.text) htemp (emits_int hgroup hwidth hprecision hfits
      (hsign.trans (signOf_config hconfig)) hdigits) mem
  | uintNumber =>
    simp only [printArg, htype', hconfig]
    obtain ⟨temp, htemp⟩ := Option.isSome_iff_exists.mp
      (uintToDecCommon_isSome huint r.config.flags.groupDigits)
    have hds := numeral_digitsOf (by decide : 1 < 10) r.config.uint
    have htext : temp = (digitsOf 10 r.config.uint).map digitChar := uintToDecCommon_eq (hgroup ▸ htemp)
    have hdigits : temp = r.digits := by
      rw [htext, map_digitChar (by decide) (Nat.le_refl 10) r.flags.upperCase,
        digits_uint (hne hconfig (by decide)), Request.base, hconfig]
    have htake : takeSign r.config temp = (0, 0, temp) := by
      rw [htext]
      exact takeSign_digits r.config hds
    have hlead : r.lead = [] := by simp only [Request.lead, hconfig]
    exact emits_staged_text (· = r.text) htemp (emits_int hgroup hwidth hprecision hfits
      (by rw [htake, hlead]; rfl) (by rw [htake]; exact hdigits)) mem
  | uintBinary =>
    have hvalue := digits_uint (hne hconfig (by decide))
    have hlt : r.config.uint < 2 ^ 32 := by
      have hpow := lt_pow_digitsOf (by decide : 1 < 2) r.config.uint
      rw [hvalue, List.length_map, Request.base, hconfig] at hfits
      exact Nat.lt_of_lt_of_le hpow (Nat.pow_le_pow_right (by decide) hfits)
    simp only [printArg, htype', hconfig]
    obtain ⟨temp, htemp⟩ := Option.isSome_iff_exists.mp ((uintToBinCommon_isSome_iff _).mpr hlt)
    have hdigits : temp = r.digits := by
      rw [digitsFrom_eq (by decide) htemp, List.append_nil, map_digitChar (by decide) (by decide) r.flags.upperCase,
        hvalue, Request.base, hconfig]
    exact emits_staged_text (· = r.text) htemp
      (hdigits ▸ emits_uint hwidth hprecision hfits (alternateForm_config (.inl hconfig))) mem
  | uintOctal =>
    simp only [printArg, htype', hconfig]
    obtain ⟨temp, htemp⟩ := Option.isSome_iff_exists.mp (uintToOctCommon_isSome huint)
    have hdigits : temp = r.digits := by
      rw [digitsFrom_eq (by decide) htemp, List.append_nil, map_digitChar (by decide) (by decide) r.flags.upperCase,
        digits_uint (hne hconfig (by decide)), Request.base, hconfig]
    exact emits_staged_text (· = r.text) htemp
      (hdigits ▸ emits_uint hwidth hprecision hfits (alternateForm_config (.inr (.inl hconfig)))) mem
  | uintHex =>
    simp only [printArg, htype', hconfig]
    obtain ⟨temp, htemp⟩ := Option.isSome_iff_exists.mp (uintToHexCommon_isSome huint r.config.flags.upperCase)
    have hdigits : temp = r.digits := by
      rw [@digitsFrom_eq 16 (by decide) (hexChar r.config.flags.upperCase) _ _ _ _ htemp, List.append_nil,
        digits_uint (hne hconfig (by decide)), Request.base, hconfig]
      rfl
    exact emits_staged_text (· = r.text) htemp
      (hdigits ▸ emits_uint hwidth hprecision hfits (alternateForm_config (.inr (.inr hconfig)))) mem
  | _ =>
    rw [hconfig] at htype
    exact absurd htype Bool.false_ne_true

/-- `%#06x` of 7. -/
def prefixedHex : Request := ⟨.uintHex, .none, { alternateForm := true, zeroPadded := true }, 6, none, 0, 7⟩

theorem print_integer_prefixed :
    prefixedHex.type.isInteger = true ∧ prefixedHex.flags.groupDigits = false ∧ prefixedHex.digits.length ≤ 32 ∧
    prefixedHex.width.toNat < 2 ^ 31 ∧ prefixedHex.least < 2 ^ 31 ∧
    (∃ ws, sink.Emits (printArg (fun _ => 0) prefixedHex.config) ws
      (UInt32.ofNat prefixedHex.text.length, fun _ => 0) ∧ ws.flatten = prefixedHex.text) ∧
    prefixedHex.text.length = max prefixedHex.width.toNat
      (prefixedHex.lead.length + max prefixedHex.least prefixedHex.digits.length) :=
  have hdigits : prefixedHex.digits.length ≤ 32 := by
    rw [digits_uint (by decide), List.length_map]
    show (digitsOf 16 7).length ≤ 32
    rw [digitsOf_of_lt (by decide)]
    decide
  ⟨rfl, rfl, hdigits, by decide, by decide,
    print_integer (fun _ => 0) prefixedHex rfl rfl hdigits (by decide) (by decide)⟩

end WindowsLibc.Printf
