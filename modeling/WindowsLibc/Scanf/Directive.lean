import WindowsLibc.Printf.Convert
import WindowsLibc.Printf.Varargs
import WindowsLibc.Scanf.Format

/-!
# Directives that both engines understand

A `Directive` is a conversion of an integer or a pointer as a caller of `printf` writes it, with the
arguments it takes: flags, a width, a precision, a modifier and the letter. For `scanf` the same
directive is the modifier and the letter.

* `parsePrintSpecifier_directive` and `parseScanSpecifier_directive`: each engine reads the directive
  off the front of the format and takes as many arguments as it has.
* `At list k args` says that the next argument is number `k`; `Supplies` that the arguments from `k`
  on are given ones.
-/

namespace WindowsLibc.Scanf

open WindowsLibc.Printf

/-! ## Their text -/

/-- The flags, grouping apart. -/
inductive Flag where
  | leftJustify
  | zeroPadded
  | forceSign
  | emptySpace
  | alternateForm

def Flag.char : Flag → UInt8
  | .leftJustify => 45
  | .zeroPadded => 48
  | .forceSign => 43
  | .emptySpace => 32
  | .alternateForm => 35

/-- Digits are written as numerals. -/
instance neZeroTen : NeZero 10 := ⟨by decide⟩

/-- A width or a precision: digits, or a star and the argument for it. -/
inductive Field where
  | digits (ds : List (Fin 10))
  | star (value : UInt64)

def Field.text : Field → List UInt8
  | .digits ds => ds.map fun d : Fin 10 => digitChar d.val
  | .star _ => [42]

def Field.args : Field → List UInt64
  | .digits _ => []
  | .star value => [value]

/-- The letters of the conversions. -/
inductive Letter where
  | d
  | i
  | u
  | o
  | x
  | X
  | p
  deriving DecidableEq

def Letter.char : Letter → UInt8
  | .d => 100
  | .i => 105
  | .u => 117
  | .o => 111
  | .x => 120
  | .X => 88
  | .p => 112

def modifierText : Modifier → List UInt8
  | .none => []
  | .shortShort => [104, 104]
  | .short => [104]
  | .long => [108]
  | .longLong => [108, 108]
  | .max => [106]
  | .size => [122]
  | .ptrdiff => [116]
  | .longDouble => [76]

/-- A directive and its arguments. No width begins with a zero: that is a flag. A precision is there
if there is a point. -/
structure Directive where
  flags : List Flag
  width : Field
  width_ne_zero : ∀ ds, width ≠ .digits (0 :: ds)
  precision : Option Field
  modifier : Modifier
  letter : Letter
  value : UInt64

def precisionText : Option Field → List UInt8
  | none => []
  | some field => 46 :: field.text

def precisionArgs : Option Field → List UInt64
  | none => []
  | some field => field.args

namespace Directive

/-- What stands between the `%` and the modifier. -/
def front (d : Directive) : List UInt8 :=
  d.flags.map Flag.char ++ (d.width.text ++ precisionText d.precision)

/-- The modifier and the letter. -/
def ending (d : Directive) : List UInt8 := modifierText d.modifier ++ [d.letter.char]

/-- The directive for `printf`. -/
def printText (d : Directive) : List UInt8 := 37 :: (d.front ++ d.ending)

/-- The directive for `scanf`. -/
def scanText (d : Directive) : List UInt8 := 37 :: d.ending

/-- The arguments it takes from `printf`. -/
def args (d : Directive) : List UInt64 :=
  d.width.args ++ (precisionArgs d.precision ++ [d.value])

end Directive

/-- Texts joined by single spaces. -/
def joined : List (List UInt8) → List UInt8
  | [] => []
  | [text] => text
  | text :: texts => text ++ 32 :: joined texts

/-- The format for `printf`. -/
def printFormat (ds : List Directive) : List UInt8 := joined (ds.map Directive.printText)

/-- The format for `scanf`. -/
def scanFormat (ds : List Directive) : List UInt8 := joined (ds.map Directive.scanText)

/-- All the arguments for `printf`. -/
def printArgs (ds : List Directive) : List UInt64 := ds.flatMap Directive.args

/-! ## Arguments -/

/-- The arguments from number `k` on begin with `vs`. -/
def Supplies (list : Nat → UInt64) (k : Nat) (vs : List UInt64) : Prop :=
  ∀ i v, vs[i]? = some v → list (k + i) = v

theorem supplies_getD (vs : List UInt64) : Supplies (fun i => vs.getD i 0) 0 vs := by
  intro i v h
  show vs.getD (0 + i) 0 = v
  rw [Nat.zero_add, List.getD_eq_getElem?_getD, h, Option.getD_some]

variable {list : Nat → UInt64} {k : Nat} {args : VariadicArgs}

theorem Supplies.head {v : UInt64} {vs : List UInt64} (h : Supplies list k (v :: vs)) :
    list k = v := h 0 v rfl

theorem Supplies.append {vs us : List UInt64} (h : Supplies list k (vs ++ us)) :
    Supplies list k vs ∧ Supplies list (k + vs.length) us := by
  refine ⟨?_, ?_⟩
  · intro i v hv
    obtain ⟨hlt, -⟩ := List.getElem?_eq_some_iff.mp hv
    exact h i v (by rw [List.getElem?_append_left hlt, hv])
  · intro i v hv
    rw [Nat.add_assoc]
    apply h
    rw [List.getElem?_append_right (Nat.le_add_right _ _), Nat.add_sub_cancel_left, hv]

/-- The next argument is number `k`. -/
structure At (list : Nat → UInt64) (k : Nat) (args : VariadicArgs) : Prop where
  read : ArgsRead k k args
  list : args.list = list

theorem at_init (list : Nat → UInt64) : At list 0 (.init list) := ⟨⟨rfl, rfl, Nat.le_refl 0⟩, rfl⟩

theorem At.get (h : At list k args) :
    (args.get 0).1 = list k ∧ At list (k + 1) (args.get 0).2 := by
  obtain ⟨hvalue, hread, hlist⟩ := get_next h.read
  rw [Nat.max_eq_right (Nat.le_succ k)] at hread
  exact ⟨by rw [hvalue, h.list], hread, hlist.trans h.list⟩

/-! ## Reading the parts -/

/-- A byte that no number, flag or mark begins with. -/
structure Ends (c : UInt8) : Prop where
  not_digit : ¬ (48 ≤ c ∧ c ≤ 57)
  not_flag : ∀ flags, setFlag flags c = none
  not_mark : c ≠ 36 ∧ c ≠ 42
  not_scan : ∀ flags, setScanFlag flags c = none

variable {text : List UInt8}

theorem parseNumber_stop (h : ¬ (48 ≤ text.headD 0 ∧ text.headD 0 ≤ 57)) (n : UInt32) :
    parseNumber n text = (n, text) := by
  cases text with
  | nil => rfl
  | cons c text => exact if_neg h

theorem parseNumber_digits (ds : List (Fin 10)) (h : ¬ (48 ≤ text.headD 0 ∧ text.headD 0 ≤ 57))
    (n : UInt32) : ∃ m, parseNumber n (Field.text (.digits ds) ++ text) = (m, text) := by
  induction ds generalizing n with
  | nil => exact ⟨n, parseNumber_stop h n⟩
  | cons d ds ih =>
    have hdigit : ∀ d : Fin 10, 48 ≤ digitChar d ∧ digitChar d ≤ 57 := by decide
    obtain ⟨m, hm⟩ := ih (n * 10 + (digitChar d - 48).toUInt32)
    refine ⟨m, ?_⟩
    show parseNumber n (digitChar d :: (Field.text (.digits ds) ++ text)) = _
    rw [parseNumber, if_pos (hdigit d), hm]

/-- There is no argument number without a `$`. -/
theorem parseArgument_none (h : ∀ c ∈ text, c ≠ 36) : parseArgument text = (0, text) := by
  have hhead : (parseNumber 0 text).2.headD 0 ≠ 36 := by
    obtain ⟨before, hsuffix⟩ := parseNumber_suffix 0 text
    cases hrest : (parseNumber 0 text).2 with
    | nil => exact (by decide : (0 : UInt8) ≠ 36)
    | cons c rest =>
      apply h
      rw [← hsuffix, hrest]
      exact List.mem_append_right _ List.mem_cons_self
  rw [parseArgument, if_neg (fun hmark => hhead hmark.2)]

theorem parseFlags_flags (fs : List Flag) (h : ∀ flags, setFlag flags (text.headD 0) = none)
    {flags : Flags} (hgroup : flags.groupDigits = false) :
    ∃ flags', parseFlags flags (fs.map Flag.char ++ text) = (flags', text) ∧
      flags'.groupDigits = false := by
  induction fs generalizing flags with
  | nil =>
    refine ⟨flags, ?_, hgroup⟩
    cases text with
    | nil => rfl
    | cons c text =>
      have hc : setFlag flags c = none := h flags
      show parseFlags flags (c :: text) = _
      rw [parseFlags, hc]
  | cons f fs ih =>
    have hflag : ∃ flags₁, setFlag flags f.char = some flags₁ ∧ flags₁.groupDigits = false := by
      cases f <;> exact ⟨_, rfl, hgroup⟩
    obtain ⟨flags₁, hset, hgroup₁⟩ := hflag
    obtain ⟨flags', hparse, hgroup'⟩ := ih hgroup₁
    refine ⟨flags', ?_, hgroup'⟩
    rw [List.map_cons, List.cons_append, parseFlags, hset]
    exact hparse

/-- A width or a precision is read, and takes an argument if it is a star. -/
theorem parseAmount_field (field : Field) (h : Ends (text.headD 0)) :
    ∃ amount, parseAmount (field.text ++ text) = (amount, text) ∧
      amount.index = (if field.args = [] then 4294967295 else 0) := by
  cases field with
  | digits ds =>
    obtain ⟨m, hm⟩ := parseNumber_digits ds h.not_digit 0
    refine ⟨⟨4294967295, m⟩, ?_, rfl⟩
    cases htext : Field.text (.digits ds) ++ text with
    | nil =>
      rw [htext] at hm
      rw [parseAmount, hm]
      intro rest hcons
      cases hcons
    | cons c rest =>
      have hne : c ≠ 42 := by
        cases ds with
        | nil =>
          have hc : text.headD 0 = c := by
            rw [show text = c :: rest from htext]
            rfl
          exact hc ▸ h.not_mark.2
        | cons d ds =>
          have hdigit : ∀ d : Fin 10, digitChar d ≠ 42 := by decide
          have hc : digitChar d = c := (List.cons.inj htext).1
          exact hc ▸ hdigit d
      rw [htext] at hm
      rw [parseAmount_of_ne hne, hm]
  | star value =>
    refine ⟨⟨0, 0⟩, ?_, rfl⟩
    show parseAmount (42 :: text) = _
    rw [parseAmount, parseNumber_stop h.not_digit]
    exact if_neg h.not_mark.1

theorem Field.length_args_le (field : Field) : field.args.length ≤ 1 := by
  cases field with
  | digits _ => exact Nat.zero_le 1
  | star _ => exact Nat.le_refl 1

/-- The value of a width or a precision takes as many arguments as it has. -/
theorem fetch_amount {amount : Amount} {vs : List UInt64} (hvs : vs.length ≤ 1)
    (hindex : amount.index = (if vs = [] then 4294967295 else 0)) (h : At list k args) :
    At list (k + vs.length) (amount.fetch args).2 := by
  rw [Amount.fetch, hindex]
  cases vs with
  | nil => exact h
  | cons v vs =>
    obtain rfl : vs = [] := List.length_eq_zero_iff.mp (by rw [List.length_cons] at hvs; omega)
    exact h.get.2

/-! ## Reading a directive -/

variable (d : Directive) (rest : List UInt8)

theorem ends_letter (letter : Letter) : Ends letter.char := by
  cases letter <;> exact ⟨by decide, fun _ => rfl, by decide, fun _ => rfl⟩

theorem ends_modifier {c : UInt8} (h : c ∈ [104, 108, 106, 122, 116, 76]) : Ends c ∧ c ≠ 46 := by
  simp only [List.mem_cons, List.not_mem_nil, or_false] at h
  rcases h with rfl | rfl | rfl | rfl | rfl | rfl
  all_goals exact ⟨⟨by decide, fun _ => rfl, by decide, fun _ => rfl⟩, by decide⟩

theorem ends_ending :
    Ends ((d.ending ++ rest).headD 0) ∧ (d.ending ++ rest).headD 0 ≠ 46 := by
  have hletter : d.letter.char ≠ 46 := by cases d.letter <;> decide
  rw [Directive.ending]
  cases d.modifier with
  | none => exact ⟨ends_letter d.letter, hletter⟩
  | _ => exact ends_modifier (by simp [modifierText])

theorem ends_precision {text : List UInt8} (h : Ends (text.headD 0)) (precision : Option Field) :
    Ends ((precisionText precision ++ text).headD 0) := by
  cases precision with
  | none => exact h
  | some field =>
    show Ends 46
    exact ⟨by decide, fun _ => rfl, by decide, fun _ => rfl⟩

/-- The flags end where the width begins. -/
theorem width_not_flag {text : List UInt8} (h : Ends (text.headD 0)) (flags : Flags) :
    setFlag flags ((d.width.text ++ text).headD 0) = none := by
  have hne := d.width_ne_zero
  cases hwidth : d.width with
  | star value => rfl
  | digits ds =>
    rw [hwidth] at hne
    cases ds with
    | nil => exact h.not_flag flags
    | cons e ds =>
      show setFlag flags (digitChar e) = none
      have hdigit : ∀ e : Fin 10, e ≠ 0 → ∃ c, digitChar e = c ∧ 49 ≤ c ∧ c ≤ 57 := by
        intro e he
        refine ⟨_, rfl, ?_⟩
        revert e
        decide
      obtain ⟨c, hc, hlo, hhi⟩ := hdigit e (fun he => hne ds (by rw [he]))
      rw [hc]
      fun_cases setFlag flags c
      case case7 => rfl
      all_goals exact absurd hlo (by decide)

theorem parsePrecision_field {text : List UInt8} (h : Ends (text.headD 0))
    (hpoint : text.headD 0 ≠ 46) (hne : text ≠ []) (precision : Option Field) :
    ∃ present amount, parsePrecision (precisionText precision ++ text) = ((present, amount), text) ∧
      amount.index = (if precisionArgs precision = [] then 4294967295 else 0) := by
  cases precision with
  | none =>
    cases text with
    | nil => exact absurd rfl hne
    | cons c text => exact ⟨false, _, parsePrecision_of_ne hpoint text, rfl⟩
  | some field =>
    obtain ⟨amount, hparse, hindex⟩ := parseAmount_field field h
    refine ⟨true, amount, ?_, hindex⟩
    show parsePrecision (46 :: (field.text ++ text)) = _
    rw [parsePrecision, hparse]

theorem parseModifier_ending :
    parseModifier (d.ending ++ rest) = (d.modifier, d.letter.char :: rest) := by
  rw [Directive.ending]
  cases d.modifier <;> cases d.letter <;> rfl

/-- The type that `printf` gives a letter. -/
def Letter.printType : Letter → PrintType
  | .d => .intNumber
  | .i => .intNumber
  | .u => .uintNumber
  | .o => .uintOctal
  | .x => .uintHex
  | .X => .uintHex
  | .p => .pointer

theorem conversion_letter (letter : Letter) :
    conversion letter.char = (letter.printType, decide (letter = .X)) ∧
      letter.printType ≠ .unknown := by
  cases letter <;> exact ⟨rfl, by decide⟩

/-- **`printf` reads the directive**, with its modifier and its value. -/
theorem parsePrintSpecifier_directive (hdollar : ∀ c ∈ d.front ++ (d.ending ++ rest), c ≠ 36)
    (h : At list k args) (hargs : Supplies list k d.args) :
    ∃ config args', parsePrintSpecifier (d.front ++ (d.ending ++ rest)) args = (config, rest, args') ∧
      At list (k + d.args.length) args' ∧ config.type = d.letter.printType ∧
      config.modifier = d.modifier ∧ config.data = d.value ∧ config.flags.groupDigits = false := by
  obtain ⟨hends, hpoint⟩ := ends_ending d rest
  have hprec := ends_precision hends d.precision
  have hne : d.ending ++ rest ≠ [] := by
    intro hnil
    exact absurd (List.append_eq_nil_iff.mp (List.append_eq_nil_iff.mp hnil).1).2 (List.cons_ne_nil _ _)
  obtain ⟨flags, hflags, hgroup⟩ :=
    @parseFlags_flags _ d.flags (width_not_flag d hprec) {} rfl
  obtain ⟨width, hwidth, hwindex⟩ := parseAmount_field d.width hprec
  obtain ⟨present, precision, hprecision, hpindex⟩ :=
    parsePrecision_field hends hpoint hne d.precision
  have hheader : parseHeader (d.front ++ (d.ending ++ rest)) =
      (⟨0, flags, width, (present, precision), d.modifier⟩, d.letter.char :: rest) := by
    rw [parseHeader, parseArgument_none hdollar]
    simp only [Directive.front, List.append_assoc] at hflags ⊢
    rw [hflags]
    simp only [hwidth, hprecision, parseModifier_ending]
  obtain ⟨hconv, hknown⟩ := conversion_letter d.letter
  -- the width, the precision and the value are fetched in this order
  have hplen : (precisionArgs d.precision).length ≤ 1 := by
    cases d.precision with
    | none => exact Nat.zero_le 1
    | some field => exact field.length_args_le
  have hfetched := fetch_amount hplen hpindex (fetch_amount d.width.length_args_le hwindex h)
  obtain ⟨hdata, hafter⟩ := hfetched.get
  have hvalue := (hargs.append.2.append.2).head
  simp only [parsePrintSpecifier, hheader, List.headD_cons, hconv, if_neg hknown, List.tail_cons]
  refine ⟨_, _, rfl, ?_, rfl, rfl, hdata.trans hvalue, hgroup⟩
  rw [Directive.args, List.length_append, List.length_append, ← Nat.add_assoc, ← Nat.add_assoc]
  exact hafter

/-! ## For `scanf` -/

/-- The type that `scanf` gives a letter. -/
def Letter.scanType : Letter → ScanType
  | .d => .intNumber
  | .i => .intNumber
  | .u => .uintNumber
  | .o => .uintOctal
  | .x => .uintHex
  | .X => .uintHex
  | .p => .pointer

theorem scanConversion_letter (letter : Letter) :
    scanConversion letter.char = (letter.scanType, decide (letter = .X)) := by
  cases letter <;> rfl

/-- **`scanf` reads the directive**, without a width and without flags. -/
theorem parseScanSpecifier_directive (hdollar : ∀ c ∈ d.ending ++ rest, c ≠ 36) (h : At list k args) :
    ∃ config args', parseScanSpecifier (d.ending ++ rest) args = some (config, rest, args') ∧
      At list (k + 1) args' ∧ config.type = d.letter.scanType ∧ config.modifier = d.modifier ∧
      config.flags.groupDigits = false ∧ config.flags.suppressInput = false ∧ config.width = 0 ∧
      config.data = some (list k) := by
  obtain ⟨hends, -⟩ := ends_ending d rest
  obtain ⟨hdata, hafter⟩ := h.get
  have hflags : parseScanFlags {} (d.ending ++ rest) = ({}, d.ending ++ rest) := by
    have hnone := hends.not_scan {}
    cases htext : d.ending ++ rest with
    | nil => rfl
    | cons c text =>
      rw [htext] at hnone
      rw [parseScanFlags, show setScanFlag {} c = none from hnone]
  have hset : d.letter.scanType ≠ .set := by cases d.letter <;> decide
  have hknown : ¬ (d.letter.scanType = .unknown ∨ ({} : ScanFlags).suppressInput = true) := by
    cases d.letter <;> decide
  simp only [parseScanSpecifier, parseArgument_none hdollar, hflags,
    parseNumber_stop hends.not_digit, parseModifier_ending, List.headD_cons,
    scanConversion_letter, if_neg hset, if_neg hknown, List.tail_cons]
  exact ⟨_, _, rfl, hafter, rfl, rfl, rfl, rfl, rfl, congrArg some hdata⟩

end WindowsLibc.Scanf
