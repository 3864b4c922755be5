import Mathlib.Data.Nat.Digits.Lemmas
import WindowsLibc.Lib.Digits
import WindowsLibc.Scanf.Directive

/-!
# Conversion specifications as they are written

A `Spec` is a specification of `printf` with every part that it can have: the number of an argument,
flags, a width and a precision that are digits, `*` or `*m$`, a modifier and the letter of a
conversion.

* `parsePrintSpecifier_spec`: the engine reads it off the front of the format. Its configuration and
  the arguments it takes are `Spec.config` and `Spec.behind`.
* What has been read ahead of the arguments makes no difference: where they are `Alike`, the same
  specification is read (`parsePrintSpecifier_alike`).
-/

namespace WindowsLibc.Printf

open WindowsLibc.Lib
open WindowsLibc.Scanf (Ends modifierText ends_modifier parseNumber_stop)

/-! ## Numbers -/

/-- The text of some digits. -/
def digitText (ds : List (Fin 10)) : List UInt8 := ds.map fun d : Fin 10 => digitChar d.val

/-- Their value. -/
def value (ds : List (Fin 10)) : Nat := numeral 10 0 (ds.map Fin.val)

/-- The digits of a number. -/
def decimal (n : Nat) : List (Fin 10) :=
  if n = 0 then [0] else (Nat.digits 10 n).reverse.map (Fin.ofNat 10)

theorem numeral_reverse (ds : List Nat) : numeral 10 0 ds.reverse = Nat.ofDigits 10 ds := by
  rw [numeral, List.foldl_reverse, Nat.ofDigits_eq_foldr]
  congr 1
  funext d n
  exact (Nat.add_comm _ _).trans (congrArg (d + ·) (Nat.mul_comm n 10))

theorem value_decimal (n : Nat) : value (decimal n) = n := by
  rw [decimal]
  split
  · next hzero => rw [hzero]; rfl
  · have hval : ∀ d ∈ (Nat.digits 10 n).reverse, (Fin.val ∘ Fin.ofNat 10) d = d := by
      intro d hd
      exact Nat.mod_eq_of_lt (Nat.digits_lt_base (by decide) (List.mem_reverse.mp hd))
    rw [value, List.map_map, List.map_congr_left hval, List.map_id', numeral_reverse,
      Nat.ofDigits_digits]

/-- A number does not begin with a zero, unless it is zero. -/
theorem decimal_ne_zero {n : Nat} (h : n ≠ 0) (ds : List (Fin 10)) : decimal n ≠ 0 :: ds := by
  rw [decimal, if_neg h]
  intro heq
  have hne : Nat.digits 10 n ≠ [] := Nat.digits_ne_nil_iff_ne_zero.mpr h
  have hlast := Nat.getLast_digit_ne_zero 10 h
  have hhead : ((Nat.digits 10 n).reverse.map (Fin.ofNat 10)).head? = some 0 := by
    rw [heq]
    rfl
  rw [List.head?_map, List.head?_reverse, List.getLast?_eq_some_getLast hne, Option.map_some] at hhead
  have hzero : (Nat.digits 10 n).getLast hne % 10 = 0 := congrArg Fin.val (Option.some.inj hhead)
  rw [Nat.mod_eq_of_lt (Nat.digits_lt_base (by decide) (List.getLast_mem hne))] at hzero
  exact hlast hzero

/-- The number of an argument. UINT32_MAX stands for none in the source. -/
structure ArgNumber where
  digits : List (Fin 10)
  pos : 0 < value digits
  lt : value digits < 4294967295

/-- The text of a number, with its `$`. -/
def ArgNumber.text (n : ArgNumber) : List UInt8 := digitText n.digits ++ [36]

def ArgNumber.index (n : ArgNumber) : UInt32 := UInt32.ofNat (value n.digits)

/-! ## The parts of a specification -/

/-- How a width or a precision is given: digits, `*` or `*m$`. -/
inductive Given where
  | digits (ds : List (Fin 10))
  | star (number : Option ArgNumber)

/-- The text of a number that need not be there. -/
def numberText : Option ArgNumber → List UInt8
  | none => []
  | some n => n.text

/-- The index of an argument, 0 for the next one. -/
def numberIndex : Option ArgNumber → UInt32
  | none => 0
  | some n => n.index

namespace Given

def text : Given → List UInt8
  | digits ds => digitText ds
  | star number => 42 :: numberText number

/-- What is parsed. -/
def amount : Given → Amount
  | digits ds => ⟨4294967295, UInt32.ofNat (value ds)⟩
  | star number => ⟨numberIndex number, 0⟩

/-- The `int` that is supplied for a star. -/
def supplied (g : Given) (args : VariadicArgs) : Option Int :=
  match g with
  | digits _ => none
  | star number => some (args.get (numberIndex number)).1.toUInt32.toInt32.toInt

end Given

/-- The point and the precision, if it is there. -/
def givenText : Option Given → List UInt8
  | none => []
  | some g => 46 :: g.text

def givenAmount : Option Given → Bool × Amount
  | none => (false, ⟨4294967295, 0⟩)
  | some g => (true, g.amount)

/-- A conversion specification, without its `%`. No width begins with a zero: that is a flag. -/
structure Spec where
  argument : Option ArgNumber
  flags : List UInt8
  flags_known : ∀ c ∈ flags, (setFlag {} c).isSome
  width : Given
  width_ne_zero : ∀ ds, width ≠ .digits (0 :: ds)
  precision : Option Given
  modifier : Modifier
  letter : UInt8
  letter_known : (conversion letter).1 ≠ .unknown

/-- What some flags set. -/
def flagsOf (flags : Flags) (cs : List UInt8) : Flags :=
  cs.foldl (fun flags c => (setFlag flags c).getD flags) flags

namespace Spec

/-- The modifier and the letter. -/
def ending (s : Spec) : List UInt8 := modifierText s.modifier ++ [s.letter]

def text (s : Spec) : List UInt8 :=
  numberText s.argument ++ (s.flags ++ (s.width.text ++ (givenText s.precision ++ s.ending)))

def type (s : Spec) : PrintType := (conversion s.letter).1

/-- What stands in front of the conversion. -/
def header (s : Spec) : Header :=
  ⟨numberIndex s.argument, flagsOf {} s.flags, s.width.amount, givenAmount s.precision, s.modifier⟩

/-- The arguments when those of the width and the precision have been taken. -/
def starsTaken (s : Spec) (args : VariadicArgs) : VariadicArgs :=
  ((givenAmount s.precision).2.fetch (s.width.amount.fetch args).2).2

/-- The flags that remain. -/
def settled (s : Spec) : Flags :=
  Flags.settle { flagsOf {} s.flags with
    precision := s.precision.isSome, upperCase := (conversion s.letter).2 }

/-- What is read of a specification, with `data` for its argument. -/
def config (s : Spec) (args : VariadicArgs) : PrintConfig where
  type := s.type
  modifier := s.modifier
  flags := s.settled
  width := (s.width.amount.fetch args).1
  precision := ((givenAmount s.precision).2.fetch (s.width.amount.fetch args).2).1
  result := 0
  data := ((s.starsTaken args).get (numberIndex s.argument)).1

/-- The arguments behind a specification. -/
def behind (s : Spec) (args : VariadicArgs) : VariadicArgs :=
  ((s.starsTaken args).get (numberIndex s.argument)).2

end Spec

/-! ## Reading them -/

variable {text : List UInt8}

theorem parseNumber_digitText (ds : List (Fin 10))
    (h : ¬ (48 ≤ text.headD 0 ∧ text.headD 0 ≤ 57)) (n : Nat) :
    parseNumber (UInt32.ofNat n) (digitText ds ++ text) =
      (UInt32.ofNat (numeral 10 n (ds.map Fin.val)), text) := by
  induction ds generalizing n with
  | nil => exact parseNumber_stop h _
  | cons d ds ih =>
    have hdigit : ∀ d : Fin 10, (48 ≤ digitChar d ∧ digitChar d ≤ 57) ∧
        (digitChar d - 48).toUInt32 = UInt32.ofNat d := by decide
    obtain ⟨hrange, hvalue⟩ := hdigit d
    show parseNumber (UInt32.ofNat n) (digitChar d :: (digitText ds ++ text)) = _
    have hnext : UInt32.ofNat n * 10 + UInt32.ofNat d = UInt32.ofNat (n * 10 + d) := by
      rw [UInt32.ofNat_add, UInt32.ofNat_mul]
      rfl
    rw [parseNumber, if_pos hrange, hvalue, hnext, ih]
    rfl

theorem parseNumber_number (n : ArgNumber) (text : List UInt8) :
    parseNumber 0 (n.text ++ text) = (n.index, 36 :: text) := by
  have hmark : ¬ (48 ≤ ([36] ++ text).headD 0 ∧ ([36] ++ text).headD 0 ≤ 57) :=
    (by decide : ¬ (48 ≤ (36 : UInt8) ∧ (36 : UInt8) ≤ 57))
  rw [ArgNumber.text, List.append_assoc]
  exact parseNumber_digitText n.digits hmark 0

theorem ArgNumber.toNat_index (n : ArgNumber) : n.index.toNat = value n.digits :=
  UInt32.toNat_ofNat_of_lt' (Nat.lt_trans n.lt (by decide))

theorem ArgNumber.index_ne (n : ArgNumber) : n.index ≠ 0 ∧ n.index ≠ 4294967295 := by
  have hpos := n.pos
  have hlt := n.lt
  rw [← n.toNat_index] at hpos hlt
  constructor <;> intro h <;> rw [h] at hpos hlt <;> revert hpos hlt <;> decide

/-- What follows a number that may stand at the front is no `$`. -/
def Unmarked (text : List UInt8) : Prop := ∀ n, (parseNumber n text).2.headD 0 ≠ 36

theorem unmarked_of_head (h : ¬ (48 ≤ text.headD 0 ∧ text.headD 0 ≤ 57)) (hmark : text.headD 0 ≠ 36) :
    Unmarked text := by
  intro n
  rw [parseNumber_stop h]
  exact hmark

theorem unmarked_digits (ds : List (Fin 10)) (h : ¬ (48 ≤ text.headD 0 ∧ text.headD 0 ≤ 57))
    (hmark : text.headD 0 ≠ 36) : Unmarked (digitText ds ++ text) := by
  intro n
  rw [← UInt32.ofNat_toNat (x := n), parseNumber_digitText ds h]
  exact hmark

theorem unmarked_flag {c : UInt8} (hc : (setFlag {} c).isSome) (h : Unmarked text) :
    Unmarked (c :: text) := by
  intro n
  rw [parseNumber]
  split
  · exact h _
  · intro hmark
    have hc36 : c = 36 := hmark
    rw [hc36] at hc
    cases hc

theorem unmarked_flags {cs : List UInt8} (hcs : ∀ c ∈ cs, (setFlag {} c).isSome)
    (h : Unmarked text) : Unmarked (cs ++ text) := by
  induction cs with
  | nil => exact h
  | cons c cs ih =>
    exact unmarked_flag (hcs c List.mem_cons_self)
      (ih fun c hc => hcs c (List.mem_cons_of_mem _ hc))

theorem parseArgument_number (number : Option ArgNumber) (h : Unmarked text) :
    parseArgument (numberText number ++ text) = (numberIndex number, text) := by
  cases number with
  | none =>
    rw [numberText, List.nil_append, parseArgument, if_neg fun hmark => h 0 hmark.2]
    rfl
  | some n =>
    have hnumber := parseNumber_number n text
    rw [numberText, parseArgument, hnumber, if_pos ⟨n.index_ne.1, rfl⟩]
    rfl

/-- Whether a byte is a flag does not depend on those before it. -/
theorem setFlag_isSome {c : UInt8} (h : (setFlag {} c).isSome) (flags : Flags) :
    ∃ flags', setFlag flags c = some flags' := by
  revert h
  fun_cases setFlag flags c
  case case7 h₁ h₂ h₃ h₄ h₅ h₆ =>
    intro h
    simp [setFlag] at h
  all_goals exact fun _ => ⟨_, rfl⟩

theorem parseFlags_flagsOf {cs : List UInt8} (hcs : ∀ c ∈ cs, (setFlag {} c).isSome)
    (h : ∀ flags, setFlag flags (text.headD 0) = none) (flags : Flags) :
    parseFlags flags (cs ++ text) = (flagsOf flags cs, text) := by
  induction cs generalizing flags with
  | nil =>
    cases text with
    | nil => rfl
    | cons c text =>
      have hc : setFlag flags c = none := h flags
      show parseFlags flags (c :: text) = _
      rw [parseFlags, hc]
      rfl
  | cons c cs ih =>
    obtain ⟨flags', hflag⟩ := setFlag_isSome (hcs c List.mem_cons_self) flags
    rw [List.cons_append, parseFlags, hflag, flagsOf, List.foldl_cons, hflag]
    exact ih (fun c hc => hcs c (List.mem_cons_of_mem _ hc)) flags'

theorem parseAmount_given (g : Given) (h : Ends (text.headD 0)) (hne : text ≠ []) :
    parseAmount (g.text ++ text) = (g.amount, text) := by
  cases g with
  | digits ds =>
    have hnumber := parseNumber_digitText ds h.not_digit 0
    have hne42 : ∃ c rest, digitText ds ++ text = c :: rest ∧ c ≠ 42 := by
      cases ds with
      | nil =>
        cases text with
        | nil => exact absurd rfl hne
        | cons c text => exact ⟨c, text, rfl, h.not_mark.2⟩
      | cons d ds =>
        have hdigit : ∀ d : Fin 10, digitChar d ≠ 42 := by decide
        exact ⟨_, _, rfl, hdigit d⟩
    obtain ⟨c, rest, htext, hc⟩ := hne42
    rw [Given.text]
    rw [htext] at hnumber ⊢
    rw [parseAmount_of_ne hc]
    rw [show (0 : UInt32) = UInt32.ofNat 0 from rfl, hnumber]
    rfl
  | star number =>
    cases number with
    | none =>
      show parseAmount (42 :: text) = _
      rw [parseAmount, parseNumber_stop h.not_digit, if_neg h.not_mark.1]
      rfl
    | some n =>
      show parseAmount (42 :: (n.text ++ text)) = _
      rw [parseAmount, parseNumber_number]
      exact if_pos rfl

theorem parsePrecision_given (precision : Option Given) (h : Ends (text.headD 0))
    (hpoint : text.headD 0 ≠ 46) (hne : text ≠ []) :
    parsePrecision (givenText precision ++ text) = (givenAmount precision, text) := by
  cases precision with
  | none =>
    cases text with
    | nil => exact absurd rfl hne
    | cons c text => exact parsePrecision_of_ne hpoint text
  | some g =>
    show parsePrecision (46 :: (g.text ++ text)) = _
    rw [parsePrecision, parseAmount_given g h hne]
    rfl

theorem parseModifier_text {k : UInt8} (hk : Final k) (m : Modifier) (rest : List UInt8) :
    parseModifier (modifierText m ++ k :: rest) = (m, k :: rest) := by
  obtain ⟨hh, hl, hL, hj, hz, ht⟩ := hk.not_modifier
  cases m <;> simp [modifierText, parseModifier, hh, hl, hL, hj, hz, ht]

theorem ends_of_conversion {k : UInt8} (h : (conversion k).1 ≠ .unknown) : Ends k := by
  revert h
  fun_cases conversion k
  case case22 => exact fun h => absurd rfl h
  all_goals exact fun _ => ⟨by decide, fun _ => rfl, by decide, fun _ => rfl⟩

namespace Spec

variable (s : Spec) (rest : List UInt8)

theorem final_letter : Final s.letter := final_of_conversion s.letter_known

theorem ending_append : s.ending ++ rest = modifierText s.modifier ++ s.letter :: rest := by
  rw [ending, List.append_assoc]
  rfl

theorem ending_ne_nil : s.ending ++ rest ≠ [] := by
  rw [ending_append]
  simp

/-- What follows the precision. -/
theorem ends_ending : Ends ((s.ending ++ rest).headD 0) ∧ (s.ending ++ rest).headD 0 ≠ 46 := by
  have hletter := ends_of_conversion s.letter_known
  have hpoint := s.final_letter.not_mark.2.2
  rw [ending]
  cases s.modifier with
  | none => exact ⟨hletter, hpoint⟩
  | _ => exact ends_modifier (by simp [modifierText])

/-- What follows the width. -/
theorem ends_precision : Ends ((givenText s.precision ++ (s.ending ++ rest)).headD 0) := by
  cases s.precision with
  | none => exact (s.ends_ending rest).1
  | some g =>
    show Ends 46
    exact ⟨by decide, fun _ => rfl, by decide, fun _ => rfl⟩

theorem precision_ne_nil : givenText s.precision ++ (s.ending ++ rest) ≠ [] :=
  List.append_ne_nil_of_right_ne_nil _ (s.ending_ne_nil rest)

/-- What follows the flags is none. -/
theorem width_not_flag {text : List UInt8} (h : Ends (text.headD 0)) (flags : Flags) :
    setFlag flags ((s.width.text ++ text).headD 0) = none := by
  have hne := s.width_ne_zero
  cases hwidth : s.width with
  | star number => rfl
  | digits ds =>
    rw [hwidth] at hne
    cases ds with
    | nil => exact h.not_flag flags
    | cons d ds =>
      show setFlag flags (digitChar d) = none
      have hdigit : ∀ d : Fin 10, d ≠ 0 → 49 ≤ digitChar d ∧ digitChar d ≤ 57 := by decide
      obtain ⟨hlo, -⟩ := hdigit d (fun hd => hne ds (by rw [hd]))
      generalize digitChar d = c at hlo
      fun_cases setFlag flags c
      case case7 => rfl
      all_goals exact absurd hlo (by decide)

theorem unmarked_width {text : List UInt8} (h : Ends (text.headD 0)) :
    Unmarked (s.width.text ++ text) := by
  cases s.width with
  | digits ds => exact unmarked_digits ds h.not_digit h.not_mark.1
  | star number =>
    apply unmarked_of_head
    · exact (by decide : ¬ (48 ≤ (42 : UInt8) ∧ (42 : UInt8) ≤ 57))
    · exact (by decide : (42 : UInt8) ≠ 36)

theorem parseHeader_text : parseHeader (s.text ++ rest) = (s.header, s.letter :: rest) := by
  obtain ⟨hends, hpoint⟩ := s.ends_ending rest
  have hprec := s.ends_precision rest
  have hargument := parseArgument_number s.argument
    (unmarked_flags s.flags_known (s.unmarked_width hprec))
  have hflags := parseFlags_flagsOf s.flags_known (s.width_not_flag hprec) {}
  have hwidth := parseAmount_given s.width hprec (s.precision_ne_nil rest)
  have hprecision := parsePrecision_given s.precision hends hpoint (s.ending_ne_nil rest)
  have hmodifier := parseModifier_text s.final_letter s.modifier rest
  rw [← ending_append] at hmodifier
  simp only [parseHeader, text, List.append_assoc, hargument, hflags, hwidth, hprecision, hmodifier]
  rfl

theorem givenAmount_fst (precision : Option Given) :
    (givenAmount precision).1 = precision.isSome := by
  cases precision <;> rfl

/-- **The engine reads a specification off the front of the format.** -/
theorem parsePrintSpecifier_spec (args : VariadicArgs) :
    parsePrintSpecifier (s.text ++ rest) args = (s.config args, rest, s.behind args) := by
  have htype : (conversion s.letter).1 ≠ .unknown := s.letter_known
  simp only [parsePrintSpecifier, s.parseHeader_text rest, List.headD_cons, if_neg htype,
    List.tail_cons, header, givenAmount_fst]
  rfl

end Spec

/-! ## What has been read ahead -/

/-- The same arguments are left, however many of them have been read. -/
structure Alike (a a' : VariadicArgs) : Prop where
  list : a.list = a'.list
  currentIndex : a.currentIndex = a'.currentIndex
  read : ∃ n, ArgsRead n a.currentIndex a
  read' : ∃ n, ArgsRead n a'.currentIndex a'

theorem ArgsRead.own {n m : Nat} {a : VariadicArgs} (h : ArgsRead n m a) :
    ∃ n, ArgsRead n a.currentIndex a := by
  refine ⟨n, ?_⟩
  rw [h.currentIndex]
  exact h

theorem Alike.get {a a' : VariadicArgs} (h : Alike a a') (index : UInt32) :
    (a.get index).1 = (a'.get index).1 ∧ Alike (a.get index).2 (a'.get index).2 := by
  obtain ⟨n, hread⟩ := h.read
  obtain ⟨n', hread'⟩ := h.read'
  by_cases hindex : index = 0
  · subst hindex
    obtain ⟨hvalue, hnext, hlist⟩ := get_next hread
    obtain ⟨hvalue', hnext', hlist'⟩ := get_next hread'
    refine ⟨?_, hlist.trans (h.list.trans hlist'.symm), ?_, hnext.own, hnext'.own⟩
    · rw [hvalue, hvalue', h.list, h.currentIndex]
    · rw [hnext.currentIndex, hnext'.currentIndex, h.currentIndex]
  · obtain ⟨hvalue, hnext, hlist⟩ := get_at hread hindex
    obtain ⟨hvalue', hnext', hlist'⟩ := get_at hread' hindex
    refine ⟨?_, hlist.trans (h.list.trans hlist'.symm), ?_, hnext.own, hnext'.own⟩
    · rw [hvalue, hvalue', h.list]
    · rw [hnext.currentIndex, hnext'.currentIndex, h.currentIndex]

theorem Alike.fetch {a a' : VariadicArgs} (h : Alike a a') (amount : Amount) :
    (amount.fetch a).1 = (amount.fetch a').1 ∧ Alike (amount.fetch a).2 (amount.fetch a').2 := by
  simp only [Amount.fetch]
  split
  · exact ⟨congrArg UInt64.toUInt32 (h.get _).1, (h.get _).2⟩
  · exact ⟨rfl, h⟩

theorem parsePrintSpecifier_alike {a a' : VariadicArgs} (h : Alike a a') (format : List UInt8) :
    (parsePrintSpecifier format a).1 = (parsePrintSpecifier format a').1 ∧
      (parsePrintSpecifier format a).2.1 = (parsePrintSpecifier format a').2.1 ∧
      Alike (parsePrintSpecifier format a).2.2 (parsePrintSpecifier format a').2.2 := by
  simp only [parsePrintSpecifier]
  split
  · exact ⟨rfl, rfl, h⟩
  · obtain ⟨hwidth, h₁⟩ := h.fetch (parseHeader format).1.width
    obtain ⟨hprecision, h₂⟩ := h₁.fetch (parseHeader format).1.precision.2
    obtain ⟨hdata, h₃⟩ := h₂.get (parseHeader format).1.argIndex
    rw [hwidth, hprecision, hdata]
    exact ⟨rfl, rfl, h₃⟩

end WindowsLibc.Printf
