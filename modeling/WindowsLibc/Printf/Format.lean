import Mathlib.Data.List.Basic

/-!
# Conversion specifications (`stdio/printf.c`, `internal/varargs.h`)

`parse_print_specifier` reads what follows a `%`: an argument number, flags, width, precision, a
length modifier and the conversion, and fetches the arguments these need.

* The format is the list of the bytes that are left; `peekbyte` is 0 at its end.
* `variadic_args` keeps what it has read of the `va_list`, for arguments that are named by number.
* A complete specification is read off the front of what is left (`parsePrintSpecifier_known`).
-/

namespace WindowsLibc.Printf

/-- `print_type`. -/
inductive PrintType where
  | intNumber
  | uintNumber
  | uintBinary
  | uintOctal
  | uintHex
  | doubleNormal
  | doubleHex
  | doubleScientific
  | doubleScientificShort
  | char
  | string
  | pointer
  | result
  | unknown
  deriving DecidableEq

/-- `PRINT_MOD_*`. -/
inductive Modifier where
  | none
  | shortShort
  | short
  | long
  | longLong
  | max
  | size
  | ptrdiff
  | longDouble
  deriving DecidableEq

/-- The bits of `config->flags`. -/
structure Flags where
  alternateForm : Bool := false
  zeroPadded : Bool := false
  emptySpace : Bool := false
  leftJustify : Bool := false
  forceSign : Bool := false
  upperCase : Bool := false
  groupDigits : Bool := false
  precision : Bool := false

/-- `print_config`. -/
structure PrintConfig where
  type : PrintType
  modifier : Modifier
  flags : Flags
  width : UInt32
  precision : UInt32
  result : UInt64
  data : UInt64

/-! ## Arguments -/

/-- `variadic_args`: what `va_arg` gives, one after the other, and what has been read of it. The
static and the extra storage are one list. -/
structure VariadicArgs where
  list : Nat → UInt64
  currentIndex : Nat
  args : List UInt64

namespace VariadicArgs

/-- `variadic_args_init`. -/
def init (list : Nat → UInt64) : VariadicArgs := ⟨list, 0, []⟩

/-- Read `n` more arguments. -/
def read : Nat → VariadicArgs → VariadicArgs
  | 0, a => a
  | n + 1, a => read n { a with args := a.args ++ [a.list a.args.length] }

/-- `variadic_args_get`. -/
def get (a : VariadicArgs) (index : UInt32) : UInt64 × VariadicArgs :=
  if index = 0 then
    let a := if a.args.length = a.currentIndex then a.read 1 else a
    (a.args.getD a.currentIndex 0, { a with currentIndex := a.currentIndex + 1 })
  else
    -- the loops start at `read_count`, and do nothing if that is far enough
    let a := a.read (index.toNat - a.args.length)
    (a.args.getD (index.toNat - 1) 0, a)

end VariadicArgs

/-! ## The parts of a specification -/

/-- `parse_number`. -/
def parseNumber (index : UInt32) : List UInt8 → UInt32 × List UInt8
  | [] => (index, [])
  | byte :: format =>
    if 48 ≤ byte ∧ byte ≤ 57 then parseNumber (index * 10 + (byte - 48).toUInt32) format
    else (index, byte :: format)

/-- The number of the argument, with its `$`. Anything else is left for the flags and the width. -/
def parseArgument (format : List UInt8) : UInt32 × List UInt8 :=
  if (parseNumber 0 format).1 ≠ 0 ∧ (parseNumber 0 format).2.headD 0 = 36 then
    ((parseNumber 0 format).1, (parseNumber 0 format).2.tail)
  else (0, format)

/-- What a flag sets. -/
def setFlag (flags : Flags) (byte : UInt8) : Option Flags :=
  match byte with
  | 35 => some { flags with alternateForm := true }
  | 48 => some { flags with zeroPadded := true }
  | 32 => some { flags with emptySpace := true }
  | 45 => some { flags with leftJustify := true }
  | 43 => some { flags with forceSign := true }
  | 39 => some { flags with groupDigits := true }
  | _ => none

/-- The loop over the flags. -/
def parseFlags (flags : Flags) : List UInt8 → Flags × List UInt8
  | [] => (flags, [])
  | byte :: format =>
    match setFlag flags byte with
    | some flags => parseFlags flags format
    | none => (flags, byte :: format)

/-- A width or a precision: the number of the argument that holds it (0 for the next one, UINT32_MAX
for none), and its value if there is none. -/
structure Amount where
  index : UInt32
  value : UInt32

def parseAmount : List UInt8 → Amount × List UInt8
  | 42 :: format =>
    if (parseNumber 0 format).2.headD 0 = 36 then
      (⟨(parseNumber 0 format).1, 0⟩, (parseNumber 0 format).2.tail)
    else (⟨0, 0⟩, (parseNumber 0 format).2)
  | format => (⟨4294967295, (parseNumber 0 format).1⟩, (parseNumber 0 format).2)

/-- The precision, if there is a point. -/
def parsePrecision : List UInt8 → (Bool × Amount) × List UInt8
  | 46 :: format => ((true, (parseAmount format).1), (parseAmount format).2)
  | format => ((false, ⟨4294967295, 0⟩), format)

/-- The length modifier. -/
def parseModifier : List UInt8 → Modifier × List UInt8
  | 104 :: format =>
    if format.headD 0 = 104 then (.shortShort, format.tail) else (.short, format)
  | 108 :: format =>
    if format.headD 0 = 108 then (.longLong, format.tail) else (.long, format)
  | 76 :: format => (.longDouble, format)
  | 106 :: format => (.max, format)
  | 122 :: format => (.size, format)
  | 116 :: format => (.ptrdiff, format)
  | format => (.none, format)

/-- The conversion, and whether its letter is a capital that matters. -/
def conversion (byte : UInt8) : PrintType × Bool :=
  match byte with
  | 105 => (.intNumber, false)
  | 100 => (.intNumber, false)
  | 117 => (.uintNumber, false)
  | 66 => (.uintBinary, true)
  | 98 => (.uintBinary, false)
  | 79 => (.uintOctal, true)
  | 111 => (.uintOctal, false)
  | 88 => (.uintHex, true)
  | 120 => (.uintHex, false)
  | 65 => (.doubleHex, true)
  | 97 => (.doubleHex, false)
  | 70 => (.doubleNormal, true)
  | 102 => (.doubleNormal, false)
  | 69 => (.doubleScientific, true)
  | 101 => (.doubleScientific, false)
  | 71 => (.doubleScientificShort, true)
  | 103 => (.doubleScientificShort, false)
  | 99 => (.char, false)
  | 115 => (.string, false)
  | 112 => (.pointer, false)
  | 110 => (.result, false)
  | _ => (.unknown, false)

/-- The flags that others override. -/
def Flags.settle (flags : Flags) : Flags :=
  { flags with
    zeroPadded := flags.zeroPadded && !flags.leftJustify && !flags.precision
    emptySpace := flags.emptySpace && !flags.forceSign }

/-- The value of a width or a precision, from the arguments if it has a number. -/
def Amount.fetch (amount : Amount) (args : VariadicArgs) : UInt32 × VariadicArgs :=
  if amount.index ≠ 4294967295 then ((args.get amount.index).1.toUInt32, (args.get amount.index).2)
  else (amount.value, args)

/-- Everything in front of the conversion. -/
structure Header where
  argIndex : UInt32
  flags : Flags
  width : Amount
  precision : Bool × Amount
  modifier : Modifier

def parseHeader (format : List UInt8) : Header × List UInt8 :=
  let (argIndex, format) := parseArgument format
  let (flags, format) := parseFlags {} format
  let (width, format) := parseAmount format
  let (precision, format) := parsePrecision format
  let (modifier, format) := parseModifier format
  (⟨argIndex, flags, width, precision, modifier⟩, format)

/-- `parse_print_specifier`. Nothing is fetched for an unknown conversion. -/
def parsePrintSpecifier (format : List UInt8) (args : VariadicArgs) :
    PrintConfig × List UInt8 × VariadicArgs :=
  let (header, format) := parseHeader format
  let (type, upperCase) := conversion (format.headD 0)
  let flags := Flags.settle
    { header.flags with precision := header.precision.1, upperCase := upperCase }
  if type = .unknown then
    (⟨type, header.modifier, flags, header.width.value, header.precision.2.value, 0, 0⟩, format, args)
  else
    let (width, args) := header.width.fetch args
    let (precision, args) := header.precision.2.fetch args
    let (data, args) := args.get header.argIndex
    (⟨type, header.modifier, flags, width, precision, 0, data⟩, format.tail, args)

/-! ## What is left

Reading a part of a specification stops in front of the conversion, whatever stands behind that. So
one that is complete is read off the front of the format, and the rest of the format has no part in
it.
-/

/-- A byte at which every part of a specification ends. -/
structure Final (k : UInt8) : Prop where
  not_digit : ¬ (48 ≤ k ∧ k ≤ 57)
  not_flag : ∀ flags, setFlag flags k = none
  not_mark : k ≠ 36 ∧ k ≠ 42 ∧ k ≠ 46
  not_modifier : k ≠ 104 ∧ k ≠ 108 ∧ k ≠ 76 ∧ k ≠ 106 ∧ k ≠ 122 ∧ k ≠ 116

/-- Conversions are final. -/
theorem final_of_conversion {k : UInt8} (h : (conversion k).1 ≠ .unknown) : Final k := by
  revert h
  fun_cases conversion k
  case case22 => exact fun h => absurd rfl h
  all_goals exact fun _ => ⟨by decide, fun _ => rfl, by decide, by decide⟩

/-- `parse` stops in front of `k` at the latest, whatever follows. -/
def StopsAt {α : Type} (k : UInt8) (parse : List UInt8 → α × List UInt8) : Prop :=
  ∀ front, ∃ a front', ∀ rest, parse (front ++ k :: rest) = (a, front' ++ k :: rest)

variable {k : UInt8}

theorem headD_append (front rest : List UInt8) :
    (front ++ k :: rest).headD 0 = front.headD k := by
  cases front <;> rfl

theorem parseNumber_stopsAt (hk : Final k) (index : UInt32) : StopsAt k (parseNumber index) := by
  intro front
  induction front generalizing index with
  | nil => exact ⟨index, [], fun rest => if_neg hk.not_digit⟩
  | cons byte front ih =>
    by_cases hdigit : 48 ≤ byte ∧ byte ≤ 57
    · obtain ⟨n, front', h⟩ := ih (index * 10 + (byte - 48).toUInt32)
      refine ⟨n, front', ?_⟩
      intro rest
      rw [List.cons_append, parseNumber, if_pos hdigit, h rest]
    · exact ⟨index, byte :: front, fun rest => if_neg hdigit⟩

/-- The mark that may follow a number. -/
theorem tail_append {front : List UInt8} {mark : UInt8} (h : front.headD k = mark) (hk : k ≠ mark)
    (rest : List UInt8) : (front ++ k :: rest).tail = front.tail ++ k :: rest := by
  cases front with
  | nil => exact absurd h hk
  | cons byte front => rfl

theorem parseArgument_stopsAt (hk : Final k) : StopsAt k parseArgument := by
  intro front
  obtain ⟨n, front', h⟩ := parseNumber_stopsAt hk 0 front
  by_cases hnumber : n ≠ 0 ∧ front'.headD k = 36
  · refine ⟨n, front'.tail, ?_⟩
    intro rest
    rw [parseArgument, h rest, headD_append, if_pos hnumber]
    exact congrArg (Prod.mk n) (tail_append hnumber.2 hk.not_mark.1 rest)
  · refine ⟨0, front, ?_⟩
    intro rest
    rw [parseArgument, h rest, headD_append, if_neg hnumber]

theorem parseFlags_stopsAt (hk : Final k) (flags : Flags) : StopsAt k (parseFlags flags) := by
  intro front
  induction front generalizing flags with
  | nil =>
    refine ⟨flags, [], ?_⟩
    intro rest
    rw [List.nil_append, parseFlags, hk.not_flag]
  | cons byte front ih =>
    cases hflag : setFlag flags byte with
    | none =>
      refine ⟨flags, byte :: front, ?_⟩
      intro rest
      rw [List.cons_append, parseFlags, hflag]
    | some flags' =>
      obtain ⟨a, front', h⟩ := ih flags'
      refine ⟨a, front', ?_⟩
      intro rest
      rw [List.cons_append, parseFlags, hflag]
      exact h rest

theorem parseAmount_of_ne {byte : UInt8} (h : byte ≠ 42) (format : List UInt8) :
    parseAmount (byte :: format) =
      (⟨4294967295, (parseNumber 0 (byte :: format)).1⟩, (parseNumber 0 (byte :: format)).2) := by
  simp [parseAmount, h]

theorem parseAmount_stopsAt (hk : Final k) : StopsAt k parseAmount := by
  intro front
  cases front with
  | nil =>
    obtain ⟨n, front', h⟩ := parseNumber_stopsAt hk 0 []
    refine ⟨⟨4294967295, n⟩, front', ?_⟩
    intro rest
    have hrest : parseNumber 0 (k :: rest) = (n, front' ++ k :: rest) := h rest
    rw [List.nil_append, parseAmount_of_ne hk.not_mark.2.1, hrest]
  | cons byte front =>
    by_cases hstar : byte = 42
    · subst hstar
      obtain ⟨n, front', h⟩ := parseNumber_stopsAt hk 0 front
      by_cases hmark : front'.headD k = 36
      · refine ⟨⟨n, 0⟩, front'.tail, ?_⟩
        intro rest
        rw [List.cons_append, parseAmount, h rest, headD_append, if_pos hmark]
        exact congrArg (Prod.mk _) (tail_append hmark hk.not_mark.1 rest)
      · refine ⟨⟨0, 0⟩, front', ?_⟩
        intro rest
        rw [List.cons_append, parseAmount, h rest, headD_append, if_neg hmark]
    · obtain ⟨n, front', h⟩ := parseNumber_stopsAt hk 0 (byte :: front)
      refine ⟨⟨4294967295, n⟩, front', ?_⟩
      intro rest
      have hrest : parseNumber 0 (byte :: (front ++ k :: rest)) = (n, front' ++ k :: rest) := h rest
      rw [List.cons_append, parseAmount_of_ne hstar, hrest]

theorem parsePrecision_of_ne {byte : UInt8} (h : byte ≠ 46) (format : List UInt8) :
    parsePrecision (byte :: format) = ((false, ⟨4294967295, 0⟩), byte :: format) := by
  simp [parsePrecision, h]

theorem parsePrecision_stopsAt (hk : Final k) : StopsAt k parsePrecision := by
  intro front
  cases front with
  | nil => exact ⟨_, [], fun rest => parsePrecision_of_ne hk.not_mark.2.2 rest⟩
  | cons byte front =>
    by_cases hpoint : byte = 46
    · subst hpoint
      obtain ⟨a, front', h⟩ := parseAmount_stopsAt hk front
      refine ⟨(true, a), front', ?_⟩
      intro rest
      rw [List.cons_append, parsePrecision, h rest]
    · exact ⟨_, byte :: front, fun rest => parsePrecision_of_ne hpoint _⟩

theorem parseModifier_stopsAt (hk : Final k) : StopsAt k parseModifier := by
  obtain ⟨hh, hl, hL, hj, hz, ht⟩ := hk.not_modifier
  intro front
  cases front with
  | nil => exact ⟨.none, [], fun rest => by simp [parseModifier, hh, hl, hL, hj, hz, ht]⟩
  | cons byte front =>
    by_cases h104 : byte = 104
    · subst h104
      by_cases hmark : front.headD k = 104
      · refine ⟨.shortShort, front.tail, ?_⟩
        intro rest
        rw [List.cons_append, parseModifier, headD_append, if_pos hmark, tail_append hmark hh]
      · refine ⟨.short, front, ?_⟩
        intro rest
        rw [List.cons_append, parseModifier, headD_append, if_neg hmark]
    by_cases h108 : byte = 108
    · subst h108
      by_cases hmark : front.headD k = 108
      · refine ⟨.longLong, front.tail, ?_⟩
        intro rest
        rw [List.cons_append, parseModifier, headD_append, if_pos hmark, tail_append hmark hl]
      · refine ⟨.long, front, ?_⟩
        intro rest
        rw [List.cons_append, parseModifier, headD_append, if_neg hmark]
    by_cases h76 : byte = 76
    · exact ⟨.longDouble, front, fun rest => by rw [h76]; rfl⟩
    by_cases h106 : byte = 106
    · exact ⟨.max, front, fun rest => by rw [h106]; rfl⟩
    by_cases h122 : byte = 122
    · exact ⟨.size, front, fun rest => by rw [h122]; rfl⟩
    by_cases h116 : byte = 116
    · exact ⟨.ptrdiff, front, fun rest => by rw [h116]; rfl⟩
    · exact ⟨.none, byte :: front, fun rest => by
        simp [parseModifier, h104, h108, h76, h106, h122, h116]⟩

theorem parseHeader_stopsAt (hk : Final k) : StopsAt k parseHeader := by
  intro front
  obtain ⟨argIndex, front₁, h₁⟩ := parseArgument_stopsAt hk front
  obtain ⟨flags, front₂, h₂⟩ := parseFlags_stopsAt hk {} front₁
  obtain ⟨width, front₃, h₃⟩ := parseAmount_stopsAt hk front₂
  obtain ⟨precision, front₄, h₄⟩ := parsePrecision_stopsAt hk front₃
  obtain ⟨modifier, front₅, h₅⟩ := parseModifier_stopsAt hk front₄
  refine ⟨⟨argIndex, flags, width, precision, modifier⟩, front₅, ?_⟩
  intro rest
  simp only [parseHeader, h₁, h₂, h₃, h₄, h₅]

/-! ### A complete specification -/

theorem parseNumber_suffix (index : UInt32) (format : List UInt8) :
    (parseNumber index format).2 <:+ format := by
  induction format generalizing index with
  | nil => exact List.suffix_refl _
  | cons byte format ih =>
    rw [parseNumber]
    split
    · exact (ih _).trans (List.suffix_cons byte format)
    · exact List.suffix_refl _

theorem parseArgument_suffix (format : List UInt8) : (parseArgument format).2 <:+ format := by
  rw [parseArgument]
  split
  · exact (List.tail_suffix _).trans (parseNumber_suffix 0 format)
  · exact List.suffix_refl _

theorem parseFlags_suffix (flags : Flags) (format : List UInt8) :
    (parseFlags flags format).2 <:+ format := by
  induction format generalizing flags with
  | nil => exact List.suffix_refl _
  | cons byte format ih =>
    rw [parseFlags]
    split
    · exact (ih _).trans (List.suffix_cons byte format)
    · exact List.suffix_refl _

theorem parseAmount_suffix (format : List UInt8) : (parseAmount format).2 <:+ format := by
  fun_cases parseAmount format
  case case1 format _ =>
    exact ((List.tail_suffix _).trans (parseNumber_suffix 0 format)).trans (List.suffix_cons _ _)
  case case2 format _ => exact (parseNumber_suffix 0 format).trans (List.suffix_cons _ _)
  case case3 => exact parseNumber_suffix 0 format

theorem parsePrecision_suffix (format : List UInt8) : (parsePrecision format).2 <:+ format := by
  fun_cases parsePrecision format
  case case1 format => exact (parseAmount_suffix format).trans (List.suffix_cons _ _)
  case case2 => exact List.suffix_refl _

theorem parseModifier_suffix (format : List UInt8) : (parseModifier format).2 <:+ format := by
  fun_cases parseModifier format
  case case1 format _ => exact (List.tail_suffix format).trans (List.suffix_cons _ _)
  case case3 format _ => exact (List.tail_suffix format).trans (List.suffix_cons _ _)
  case case9 => exact List.suffix_refl _
  all_goals exact List.suffix_cons _ _

theorem parseHeader_suffix (format : List UInt8) : (parseHeader format).2 <:+ format :=
  (((parseModifier_suffix _).trans (parsePrecision_suffix _)).trans (parseAmount_suffix _)).trans
    ((parseFlags_suffix _ _).trans (parseArgument_suffix format))

/-- **A complete specification is read off the front of the format**, and what follows it has no part
in it. -/
theorem parsePrintSpecifier_known {format rest : List UInt8} {args args' : VariadicArgs}
    {config : PrintConfig} (h : parsePrintSpecifier format args = (config, rest, args'))
    (hknown : config.type ≠ .unknown) :
    ∃ spec, spec ≠ [] ∧ format = spec ++ rest ∧
      ∀ rest', parsePrintSpecifier (spec ++ rest') args = (config, rest', args') := by
  obtain ⟨front, hfront⟩ := parseHeader_suffix format
  have hheader : parseHeader format = ((parseHeader format).1, (parseHeader format).2) := rfl
  generalize (parseHeader format).1 = header at hheader
  generalize (parseHeader format).2 = behind at hheader hfront
  simp only [parsePrintSpecifier, hheader] at h
  have htype : (conversion (behind.headD 0)).1 ≠ .unknown := by
    intro hunknown
    rw [if_pos hunknown] at h
    cases h
    exact hknown hunknown
  rw [if_neg htype] at h
  cases behind with
  | nil => exact absurd rfl htype
  | cons k behind =>
    have hk : Final k := final_of_conversion htype
    obtain ⟨header', front', hstops⟩ := parseHeader_stopsAt hk front
    have hsame := hstops behind
    rw [hfront, hheader] at hsame
    obtain ⟨rfl, hnil⟩ := Prod.mk.inj hsame
    have hfront' : front' = [] := List.append_left_eq_self.mp hnil.symm
    subst hfront'
    cases h
    refine ⟨front ++ [k], by simp, ?_, ?_⟩
    · rw [← hfront, List.append_assoc]
      rfl
    · intro rest'
      have hrest' : parseHeader (front ++ [k] ++ rest') = (header, k :: rest') := by
        rw [List.append_assoc]
        exact hstops rest'
      simp only [parsePrintSpecifier, hrest']
      exact if_neg htype

-- nothing below looks into it again
attribute [irreducible] parsePrintSpecifier

end WindowsLibc.Printf
