import WindowsLibc.Printf.Fills
import WindowsLibc.Printf.Literal

/-!
# Stars (`parse_print_specifier`)

The number that an argument holds for a star goes into the configuration as it is, cast to 32 bits
without a sign. So a negative width is not one to the left but a large one to the right, and a
negative precision is not absent but large.

* `Amends`: what a conversion looks at. Where the width, the precision and the flags that go with them
  are the same, or it takes no notice of them, it prints the same.
* `Spec.Unsigned` says that no star holds a negative number that the conversion looks at. Then the
  literal specification prints the same (`Spec.Unsigned.sameAsLiteral`).
* A negative number that it looks at makes the output at least `2 ^ 31` bytes long, so it shows where
  the literal output is shorter (`Spec.SameAsLiteral.unsigned`).
-/

namespace WindowsLibc.Printf

open WindowsLibc.Lib

/-! ## What a conversion looks at -/

/-- Conversions that take no notice of the width. -/
def PrintType.ignoresWidth : PrintType → Bool
  | .doubleNormal | .doubleHex | .doubleScientific | .doubleScientificShort => true
  | .result | .unknown => true
  | _ => false

/-- Conversions that take no notice of the precision. -/
def PrintType.ignoresPrecision : PrintType → Bool
  | .char | .pointer => true
  | type => type.ignoresWidth

/-- `config` with another width and precision, and the flags that go with them. -/
structure Amends (config config' : PrintConfig) : Prop where
  type : config.type = config'.type
  modifier : config.modifier = config'.modifier
  result : config.result = config'.result
  data : config.data = config'.data
  alternateForm : config.flags.alternateForm = config'.flags.alternateForm
  emptySpace : config.flags.emptySpace = config'.flags.emptySpace
  forceSign : config.flags.forceSign = config'.flags.forceSign
  upperCase : config.flags.upperCase = config'.flags.upperCase
  groupDigits : config.flags.groupDigits = config'.flags.groupDigits

section

variable {config config' : PrintConfig} (h : Amends config config')
include h

theorem Amends.int : config.int = config'.int := by
  rw [PrintConfig.int, PrintConfig.int, h.modifier, h.data]

theorem Amends.uint : config.uint = config'.uint := by
  rw [PrintConfig.uint, PrintConfig.uint, h.modifier, h.data]

theorem Amends.preTemp : preTemp config = preTemp config' := by
  simp only [Printf.preTemp, h.modifier, h.data]

theorem Amends.takeSign (temp : List UInt8) : takeSign config temp = takeSign config' temp := by
  simp only [Printf.takeSign, h.emptySpace]

theorem Amends.writeString (mem : Memory) (n : Nat) (result : UInt32) :
    writeString mem config n result = writeString mem config' n result := by
  simp only [Printf.writeString, h.modifier, h.data]

theorem Amends.writeAlternateForm : writeAlternateForm config = writeAlternateForm config' := by
  simp only [Printf.writeAlternateForm, alternateFormChar, h.alternateForm, h.type, h.upperCase]

theorem printArg_ignoresWidth (mem : Memory) (htype : config.type.ignoresWidth) :
    printArg mem config = printArg mem config' := by
  cases hconfig : config.type
  all_goals
    rw [hconfig] at htype
    first
      | exact absurd htype Bool.false_ne_true
      | simp only [printArg, ← h.type, hconfig, h.upperCase, h.data, h.modifier, h.result]

variable (hwidth : config.width = config'.width)
  (hleft : config.flags.leftJustify = config'.flags.leftJustify)
include hwidth hleft

theorem printChar_amends : printChar config = printChar config' := by
  simp only [printChar, hwidth, hleft, h.preTemp]

theorem printPointer_amends : printPointer config = printPointer config' := by
  simp only [printPointer, hwidth, hleft, h.data]

theorem printString_amends {mem : Memory} (hcount : stringCount mem config = stringCount mem config') :
    printString mem config = printString mem config' := by
  simp only [printString, hwidth, hleft, hcount, h.writeString]

variable (hprecision : config.precision = config'.precision)
  (hzero : config.width = 0 ∨ config.flags.zeroPadded = config'.flags.zeroPadded)
include hprecision hzero

theorem printIntFormatted_amends (temp : List UInt8) :
    printIntFormatted config temp = printIntFormatted config' temp := by
  simp only [printIntFormatted, ← hwidth, ← hleft, ← h.takeSign, ← h.groupDigits, ← hprecision]
  rcases hzero with hzero | hzero
  · -- Nothing is below a width of zero, so whether it is padded with zeros is not asked.
    have hnot : ∀ n : UInt32, ¬ config.width > n := by
      intro n
      rw [hzero]
      exact UInt32.not_lt_zero
    simp only [if_neg (hnot _)]
  · rw [hzero]

theorem printUintFormatted_amends (temp : List UInt8) :
    printUintFormatted config temp = printUintFormatted config' temp := by
  simp only [printUintFormatted, ← hwidth, ← hleft, ← h.writeAlternateForm, ← h.alternateForm,
    ← hprecision]
  rcases hzero with hzero | hzero
  · have hnot : ∀ n : UInt32, ¬ config.width > n := by
      intro n
      rw [hzero]
      exact UInt32.not_lt_zero
    simp only [if_neg (hnot _)]
  · rw [hzero]

theorem printArg_isInteger (mem : Memory) (htype : config.type.isInteger) :
    printArg mem config = printArg mem config' := by
  have hint := printIntFormatted_amends h hwidth hleft hprecision hzero
  have huint := printUintFormatted_amends h hwidth hleft hprecision hzero
  cases hconfig : config.type
  all_goals
    rw [hconfig] at htype
    first
      | exact absurd htype Bool.false_ne_true
      | simp only [printArg, ← h.type, hconfig, ← h.forceSign, ← h.emptySpace, ← h.groupDigits,
          ← h.upperCase, ← h.int, ← h.uint, hint, huint]

end

/-! ### The length of a string -/

/-- A precision that the string does not reach makes no difference. -/
theorem countChars_of_le (isNul : Nat → Bool) {p q : Nat} (hpq : p ≤ q)
    (h : countChars isNul q q 0 ≤ p) : countChars isNul p p 0 = countChars isNul q q 0 := by
  obtain ⟨-, -, hbefore, hstop⟩ := countChars_spec isNul (Nat.zero_add q).symm
  obtain ⟨-, hle, hbefore', hstop'⟩ := countChars_spec isNul (Nat.zero_add p).symm
  generalize countChars isNul q q 0 = n at *
  generalize countChars isNul p p 0 = m at *
  rcases Nat.lt_trichotomy m n with hlt | heq | hgt
  · have hnul := hbefore m (Nat.zero_le m) hlt
    rcases hstop' with hfull | hend
    · omega
    · rw [hnul] at hend
      cases hend
  · exact heq
  · have hnul := hbefore' n (Nat.zero_le n) hgt
    rcases hstop with hfull | hend
    · omega
    · rw [hnul] at hend
      cases hend

/-! ## Numbers that are not negative -/

/-- A word as an `int`. -/
theorem toInt_word (v : UInt32) :
    v.toInt32.toInt = if v.toNat < 2 ^ 31 then (v.toNat : Int) else v.toNat - 2 ^ 32 := by
  change v.toBitVec.toInt = _
  rw [BitVec.toInt_eq_toNat_cond]
  change (if 2 * v.toNat < 2 ^ 32 then (v.toNat : Int) else v.toNat - (2 ^ 32 : Nat)) = _
  split <;> split <;> omega

theorem ofNat_natAbs {v : UInt32} {w : Int} (h : v.toInt32.toInt = w) (hw : 0 ≤ w) :
    UInt32.ofNat w.natAbs = v := by
  have hlt := v.toNat_lt
  rw [toInt_word] at h
  have hnat : w.natAbs = v.toNat := by
    split at h <;> omega
  rw [hnat, UInt32.ofNat_toNat]

/-- One that is negative is large as a word. -/
theorem toNat_of_neg {v : UInt32} {w : Int} (h : v.toInt32.toInt = w) (hw : w < 0) :
    v.toNat + w.natAbs = 2 ^ 32 ∧ 2 ^ 31 ≤ v.toNat := by
  have hlt := v.toNat_lt
  rw [toInt_word] at h
  split at h <;> omega

theorem flagsOf_widthFlags (flags : Flags) (w : Int) :
    flagsOf flags (widthFlags w) =
      if w < 0 then { flags with leftJustify := true }
      else if w = 0 then { flags with zeroPadded := true } else flags := by
  rw [widthFlags]
  split
  · rfl
  · split <;> rfl

theorem flagsOf_append (flags : Flags) (cs ds : List UInt8) :
    flagsOf flags (cs ++ ds) = flagsOf (flagsOf flags cs) ds := List.foldl_append

namespace Spec

variable (s : Spec) (l : Loop)

/-- The flags of the literal specification. -/
theorem flagsOf_literal (args : VariadicArgs) : flagsOf {} (s.literal args).flags =
    match s.suppliedWidth args with
    | none => flagsOf {} s.flags
    | some w =>
      if w < 0 then { flagsOf {} s.flags with leftJustify := true }
      else if w = 0 then { flagsOf {} s.flags with zeroPadded := true } else flagsOf {} s.flags := by
  cases hw : s.suppliedWidth args with
  | none => simp only [literal, hw, Option.map_none, Option.getD_none, List.append_nil]
  | some w =>
    simp only [literal, hw, Option.map_some, Option.getD_some, flagsOf_append, flagsOf_widthFlags]

theorem amends_literal : Amends (s.printed l) (s.printedLiteral l) := by
  have hconfig := s.config_literal l.args (s.starsTaken l.args)
  have hflags := s.flagsOf_literal l.args
  have hsame : (flagsOf {} s.flags).alternateForm =
        (flagsOf {} (s.literal l.args).flags).alternateForm ∧
      (flagsOf {} s.flags).emptySpace = (flagsOf {} (s.literal l.args).flags).emptySpace ∧
      (flagsOf {} s.flags).forceSign = (flagsOf {} (s.literal l.args).flags).forceSign ∧
      (flagsOf {} s.flags).groupDigits = (flagsOf {} (s.literal l.args).flags).groupDigits := by
    rw [hflags]
    split
    · exact ⟨rfl, rfl, rfl, rfl⟩
    · split
      · exact ⟨rfl, rfl, rfl, rfl⟩
      · split <;> exact ⟨rfl, rfl, rfl, rfl⟩
  obtain ⟨halternate, hempty, hsign, hgroup⟩ := hsame
  constructor
  case type | modifier | result => rfl
  case data =>
    show _ = ((s.literal l.args).config (s.starsTaken l.args)).data
    rw [hconfig]
    rfl
  case alternateForm => exact halternate
  case emptySpace =>
    show ((flagsOf {} s.flags).emptySpace && !(flagsOf {} s.flags).forceSign) = _
    rw [hempty, hsign]
    rfl
  case forceSign => exact hsign
  case upperCase => rfl
  case groupDigits => exact hgroup

/-- A width that is not negative is the literal one. -/
theorem width_literal (h : ∀ w, s.suppliedWidth l.args = some w → 0 ≤ w) :
    (s.printed l).width = (s.printedLiteral l).width ∧
      (s.printed l).flags.leftJustify = (s.printedLiteral l).flags.leftJustify := by
  have hconfig := s.config_literal l.args (s.starsTaken l.args)
  have hflags := s.flagsOf_literal l.args
  constructor
  · show (s.width.amount.fetch l.args).1 = ((s.literal l.args).config (s.starsTaken l.args)).width
    rw [hconfig]
    cases hw : s.suppliedWidth l.args with
    | none => rfl
    | some w => exact (ofNat_natAbs (Given.fetch_of_supplied hw) (h w hw)).symm
  · show (flagsOf {} s.flags).leftJustify = (flagsOf {} (s.literal l.args).flags).leftJustify
    rw [hflags]
    cases hw : s.suppliedWidth l.args with
    | none => rfl
    | some w =>
      simp only [if_neg (Int.not_lt.mpr (h w hw))]
      split <;> rfl

theorem fetch_suppliedPrecision {p : Int} (hp : s.suppliedPrecision l.args = some p) :
    (s.printed l).precision.toInt32.toInt = p ∧ s.precision.isSome := by
  rw [suppliedPrecision] at hp
  obtain ⟨g, hg, hsupplied⟩ := Option.bind_eq_some_iff.mp hp
  refine ⟨?_, by rw [hg]; rfl⟩
  show ((givenAmount s.precision).2.fetch _).1.toInt32.toInt = p
  rw [hg]
  exact Given.fetch_of_supplied hsupplied

/-- A precision that is not negative is the literal one. -/
theorem precision_literal (h : ∀ p, s.suppliedPrecision l.args = some p → 0 ≤ p) :
    (s.printed l).precision = (s.printedLiteral l).precision ∧
      s.precision.isSome = (s.literal l.args).precision.isSome := by
  have hconfig := s.config_literal l.args (s.starsTaken l.args)
  constructor
  · show _ = ((s.literal l.args).config (s.starsTaken l.args)).precision
    rw [hconfig]
    cases hp : s.suppliedPrecision l.args with
    | none => rfl
    | some p =>
      have hneg : ¬ p < 0 := Int.not_lt.mpr (h p hp)
      simp only [if_neg hneg]
      exact (ofNat_natAbs (s.fetch_suppliedPrecision l hp).1 (h p hp)).symm
  · cases hp : s.suppliedPrecision l.args with
    | none => simp only [literal, hp]
    | some p =>
      have hneg : ¬ p < 0 := Int.not_lt.mpr (h p hp)
      simp only [literal, hp, if_neg hneg]
      exact (s.fetch_suppliedPrecision l hp).2

/-- A zero in place of the star is read as a flag, but then there is no width. -/
theorem zeroPadded_literal (hw : ∀ w, s.suppliedWidth l.args = some w → 0 ≤ w)
    (hp : ∀ p, s.suppliedPrecision l.args = some p → 0 ≤ p) :
    (s.printed l).width = 0 ∨
      (s.printed l).flags.zeroPadded = (s.printedLiteral l).flags.zeroPadded := by
  have hflags := s.flagsOf_literal l.args
  have hprecision := (s.precision_literal l hp).2
  cases hsupplied : s.suppliedWidth l.args with
  | none =>
    rw [hsupplied] at hflags
    right
    show (_ && !_ && !s.precision.isSome) = (_ && !_ && !(s.literal l.args).precision.isSome)
    rw [hflags, hprecision]
  | some w =>
    have hneg : ¬ w < 0 := Int.not_lt.mpr (hw w hsupplied)
    rw [hsupplied] at hflags
    simp only [if_neg hneg] at hflags
    by_cases hzero : w = 0
    · left
      have hfetch := Given.fetch_of_supplied hsupplied
      rw [hzero] at hfetch
      exact (ofNat_natAbs hfetch (Int.le_refl 0)).symm
    · right
      rw [if_neg hzero] at hflags
      show (_ && !_ && !s.precision.isSome) = (_ && !_ && !(s.literal l.args).precision.isSome)
      rw [hflags, hprecision]

/-- A precision that the string does not reach makes no difference to its length. -/
theorem stringCount_literal (h : ∀ p, s.suppliedPrecision l.args = some p → 0 ≤ p ∨
      stringCount l.mem (s.printedLiteral l) ≤ 2 ^ 32 - p.natAbs) :
    stringCount l.mem (s.printed l) = stringCount l.mem (s.printedLiteral l) := by
  have hamends := s.amends_literal l
  by_cases hneg : ∃ p, s.suppliedPrecision l.args = some p ∧ p < 0
  · obtain ⟨p, hp, hneg⟩ := hneg
    have hcount := (h p hp).resolve_left (Int.not_le.mpr hneg)
    obtain ⟨hprecision, hsome⟩ := s.fetch_suppliedPrecision l hp
    obtain ⟨hsum, -⟩ := toNat_of_neg hprecision hneg
    have hflag : (s.printed l).flags.precision = true := hsome
    have hflag' : (s.printedLiteral l).flags.precision = false := by
      show (s.literal l.args).precision.isSome = false
      simp only [literal, hp, if_pos hneg, Option.isSome_none]
    have hle : (s.printed l).precision.toNat ≤ 4294967295 := by
      have hlt := (s.printed l).precision.toNat_lt
      omega
    rw [show 2 ^ 32 - p.natAbs = (s.printed l).precision.toNat by omega] at hcount
    simp only [stringCount, hflag, hflag', if_true, ← hamends.modifier, ← hamends.data] at hcount ⊢
    exact countChars_of_le _ hle hcount
  · have hnonneg : ∀ p, s.suppliedPrecision l.args = some p → 0 ≤ p := by
      intro p hp
      by_contra hlt
      exact hneg ⟨p, hp, by omega⟩
    obtain ⟨hprecision, hsome⟩ := s.precision_literal l hnonneg
    have hflag : (s.printed l).flags.precision = (s.printedLiteral l).flags.precision := hsome
    simp only [stringCount, hprecision, hflag, hamends.modifier, hamends.data]

end Spec

/-! ## Stars that are harmless -/

namespace Spec

/-- No star holds a negative number that the conversion looks at. -/
structure Unsigned (s : Spec) (l : Loop) : Prop where
  width : ∀ w, s.suppliedWidth l.args = some w → 0 ≤ w ∨ s.type.ignoresWidth
  precision : ∀ p, s.suppliedPrecision l.args = some p → 0 ≤ p ∨ s.type.ignoresPrecision ∨
    s.type = .string ∧ stringCount l.mem (s.printedLiteral l) ≤ 2 ^ 32 - p.natAbs

variable {s : Spec} {l : Loop}

theorem Unsigned.stringCount (h : s.Unsigned l) (hstring : s.type = .string) :
    Printf.stringCount l.mem (s.printed l) = Printf.stringCount l.mem (s.printedLiteral l) := by
  apply s.stringCount_literal
  intro p hp
  rcases h.precision p hp with hnonneg | hignores | ⟨-, hcount⟩
  · exact .inl hnonneg
  · rw [hstring] at hignores
    cases hignores
  · exact .inr hcount

/-- Then the literal specification prints the same. -/
theorem Unsigned.printArg (h : s.Unsigned l) :
    Printf.printArg l.mem (s.printed l) = Printf.printArg l.mem (s.printedLiteral l) := by
  have hamends := s.amends_literal l
  by_cases hignores : s.type.ignoresWidth
  · exact printArg_ignoresWidth hamends l.mem hignores
  · have hw : ∀ w, s.suppliedWidth l.args = some w → 0 ≤ w := fun w hw =>
      (h.width w hw).resolve_right hignores
    obtain ⟨hwidth, hleft⟩ := s.width_literal l hw
    have htype' := hamends.type
    cases htype : (s.printed l).type with
    | char =>
      rw [htype] at htype'
      simp only [Printf.printArg, htype, ← htype', printChar_amends hamends hwidth hleft]
    | pointer =>
      rw [htype] at htype'
      simp only [Printf.printArg, htype, ← htype', printPointer_amends hamends hwidth hleft]
    | string =>
      have hstring := printString_amends hamends hwidth hleft (h.stringCount htype)
      rw [htype] at htype'
      simp only [Printf.printArg, htype, ← htype', hstring]
    | intNumber | uintNumber | uintBinary | uintOctal | uintHex =>
      have hstype : s.type = (s.printed l).type := rfl
      have hp : ∀ p, s.suppliedPrecision l.args = some p → 0 ≤ p := by
        intro p hp
        rcases h.precision p hp with hnonneg | hignores | ⟨hstring, -⟩
        · exact hnonneg
        · rw [hstype, htype] at hignores
          cases hignores
        · rw [hstype, htype] at hstring
          cases hstring
      exact printArg_isInteger hamends hwidth hleft (s.precision_literal l hp).1
        (s.zeroPadded_literal l hw hp) l.mem (by rw [htype]; rfl)
    | doubleNormal | doubleHex | doubleScientific | doubleScientificShort | result | unknown =>
      rw [show s.type = (s.printed l).type from rfl, htype] at hignores
      exact absurd rfl hignores

/-- The literal specification behind other arguments that are alike. -/
theorem printfIteration_literal {others : VariadicArgs} (h : Alike (s.starsTaken l.args) others)
    (rest : List UInt8) :
    printfIteration ((s.literal l.args).atLoop { l with args := others } rest) =
      Printf.printArg l.mem (s.printedLiteral l) >>= fun p =>
        checkError (l.behind rest ((s.literal l.args).behind others) p.1 p.2) := by
  rw [printfIteration_atLoop, printed, s.config_literal_alike l.args h]
  rfl

theorem Unsigned.sameAsLiteral (h : s.Unsigned l) {others : VariadicArgs}
    (hothers : Alike (s.starsTaken l.args) others) (rest : List UInt8) :
    SameAsLiteral s l others rest := by
  intro b
  rw [printfIteration_atLoop, printfIteration_literal hothers, h.printArg]
  exact sameTurn_print _ rfl (s.behind_literal_alike l.args hothers) rest b

end Spec

/-! ## Numbers that are negative -/

/-- A turn writes what its conversion does. -/
theorem emits_turn {x : Output (UInt32 × Memory)} {ws : List (List UInt8)} {a : UInt32 × Memory}
    (h : sink.Emits x ws a) (l : Loop) (rest : List UInt8) (args : VariadicArgs) :
    sink.Emits (x >>= fun p => checkError (l.behind rest args p.1 p.2)) ws
      (.next (l.behind rest args a.1 a.2)) := by
  rw [← List.append_nil ws]
  exact Sink.emits_bind h (emits_checkError _)

namespace Spec

/-- The literal specification prints fewer than `2 ^ 31` bytes, so that an `int` counts them; the
absolute value of the width is an `int` too, and so is the length of a string. -/
structure Countable (s : Spec) (l : Loop) : Prop where
  prints : ∃ ws a, sink.Emits (Printf.printArg l.mem (s.printedLiteral l)) ws a ∧ bytes ws < 2 ^ 31
  width : s.suppliedWidth l.args ≠ some (-2 ^ 31)
  string : s.type = .string → stringCount l.mem (s.printedLiteral l) < 2 ^ 31

variable {s : Spec} {l : Loop} {others : VariadicArgs} {rest : List UInt8}

/-- Turns that are the same write the same. -/
theorem SameAsLiteral.emits (h : SameAsLiteral s l others rest)
    (hothers : Alike (s.starsTaken l.args) others) {ws' : List (List UInt8)} {a' : UInt32 × Memory}
    (hws' : sink.Emits (printArg l.mem (s.printedLiteral l)) ws' a') :
    ∃ ws a, sink.Emits (printArg l.mem (s.printed l)) ws a ∧ bytes ws = bytes ws' := by
  have hsound := @sound_growing (fun _ => true) (fun _ => rfl)
  have hgrows := grows_growing fun _ => true
  have hsame := h (.growing fun _ => true)
  rw [printfIteration_literal hothers, emits_turn hws' l rest _ _ hsound, printfIteration_atLoop]
    at hsame
  by_cases hstaged : Staged (s.printed l)
  · obtain ⟨ws, hws⟩ := printArg_emits l.mem hstaged
    rw [emits_turn hws l rest _ _ hsound] at hsame
    cases hsame with
    | some hsame =>
      have hcontents := congrArg Buffer.contents hsame.2
      rw [(contents_puts hgrows hsound _).1, (contents_puts hgrows hsound _).1] at hcontents
      exact ⟨ws, _, hws, congrArg List.length (List.append_cancel_left hcontents)⟩
  · -- what faults is not the same as what prints
    have hfault := printArg_fault l.mem hstaged (.growing fun _ => true)
    change SameTurn ((printArg l.mem (s.printed l) (.growing fun _ => true)).bind _) _ at hsame
    rw [hfault] at hsame
    cases hsame

section

variable (hcount : s.Countable l) {ws : List (List UInt8)} {a : UInt32 × Memory}
  (hws : sink.Emits (printArg l.mem (s.printed l)) ws a)
include hcount hws

/-- A negative width that is looked at shows. -/
theorem Countable.width_nonneg {ws' : List (List UInt8)} {a' : UInt32 × Memory}
    (hws' : sink.Emits (printArg l.mem (s.printedLiteral l)) ws' a') (hbytes : bytes ws = bytes ws')
    (hshort : bytes ws' < 2 ^ 31) {w : Int} (hw : s.suppliedWidth l.args = some w)
    (hignores : ¬ s.type.ignoresWidth) : 0 ≤ w := by
  by_contra hneg
  obtain ⟨hsum, hlarge⟩ := toNat_of_neg (v := (s.printed l).width) (Given.fetch_of_supplied hw)
    (Int.not_le.mp hneg)
  have htype' := (s.amends_literal l).type
  cases htype : (s.printed l).type with
  | intNumber | uintNumber | uintBinary | uintOctal | uintHex =>
    have hfills := (printArg_fills (by rw [htype]; rfl) hws).width
    omega
  | char =>
    have hstaged : ¬ Staged (s.printed l) := fun hstaged => not_charFits hlarge (hstaged.2 htype)
    obtain ⟨b, hb⟩ := emits_some hws
    exact hb (printArg_fault l.mem hstaged b)
  | pointer =>
    simp only [printArg, htype] at hws
    obtain ⟨vs, r, hvs, hfills⟩ := printPointer_width (s.printed l)
    rw [← bytes_beside hws hvs] at hfills
    omega
  | string =>
    rw [htype] at htype'
    simp only [printArg, htype] at hws
    simp only [printArg, ← htype'] at hws'
    have hn := hcount.string htype
    have hsame : stringCount l.mem (s.printed l) = stringCount l.mem (s.printedLiteral l) := by
      apply s.stringCount_literal
      intro p hp
      by_cases hpneg : p < 0
      · obtain ⟨hpsum, hplarge⟩ := toNat_of_neg (s.fetch_suppliedPrecision l hp).1 hpneg
        right
        omega
      · exact .inl (Int.not_lt.mp hpneg)
    -- the text is the same, and the spaces before or behind it are not
    obtain ⟨vs, hvs⟩ := emits_writeString l.mem (s.printed l) (stringCount l.mem (s.printed l))
    obtain ⟨us, r, hus, hlen⟩ := printString_bytes l.mem (s.printed l) hvs
    have hvs' : ∀ result, sink.Emits (writeString l.mem (s.printedLiteral l)
        (stringCount l.mem (s.printedLiteral l)) result) vs (result + count vs) := by
      intro result
      rw [← (s.amends_literal l).writeString, ← hsame]
      exact hvs result
    obtain ⟨us', r', hus', hlen'⟩ := printString_bytes l.mem (s.printedLiteral l) hvs'
    rw [← bytes_beside hws hus] at hlen
    rw [← bytes_beside hws' hus'] at hlen'
    have hliteral : (s.printedLiteral l).width.toNat = w.natAbs := by
      show ((s.literal l.args).config (s.starsTaken l.args)).width.toNat = _
      rw [config_literal, hw]
      exact UInt32.toNat_ofNat_of_lt' (by show _ < 2 ^ 32; omega)
    have hmin : w ≠ -2 ^ 31 := fun hmin => hcount.width (by rw [hw, hmin])
    rw [hliteral] at hlen'
    omega
  | doubleNormal | doubleHex | doubleScientific | doubleScientificShort | result | unknown =>
    rw [show s.type = (s.printed l).type from rfl, htype] at hignores
    exact absurd rfl hignores

/-- A negative precision that is looked at shows. -/
theorem Countable.precision_nonneg (hshort : bytes ws < 2 ^ 31) {p : Int}
    (hp : s.suppliedPrecision l.args = some p) :
    0 ≤ p ∨ s.type.ignoresPrecision ∨
      s.type = .string ∧ stringCount l.mem (s.printedLiteral l) ≤ 2 ^ 32 - p.natAbs := by
  by_cases hneg : p < 0
  · obtain ⟨hprecision, hsome⟩ := s.fetch_suppliedPrecision l hp
    obtain ⟨hsum, hlarge⟩ := toNat_of_neg hprecision hneg
    right
    cases htype : (s.printed l).type with
    | intNumber | uintNumber | uintBinary | uintOctal | uintHex =>
      have hpadded : (s.printed l).flags.zeroPadded = false := by
        show (_ && !_ && !s.precision.isSome) = false
        rw [hsome]
        simp
      have hfills := (printArg_fills (by rw [htype]; rfl) hws).precision hpadded
      omega
    | string =>
      have hn := hcount.string htype
      exact .inr ⟨htype, by omega⟩
    | char | pointer | doubleNormal | doubleHex | doubleScientific | doubleScientificShort | result
    | unknown =>
      left
      show (s.printed l).type.ignoresPrecision = true
      rw [htype]
      rfl
  · exact .inl (Int.not_lt.mp hneg)

end

/-- **Where an `int` counts the literal output, only stars that are harmless do as the literal
specification.** -/
theorem SameAsLiteral.unsigned (h : SameAsLiteral s l others rest)
    (hothers : Alike (s.starsTaken l.args) others) (hcount : s.Countable l) : s.Unsigned l := by
  obtain ⟨ws', a', hws', hshort⟩ := hcount.prints
  obtain ⟨ws, a, hws, hbytes⟩ := SameAsLiteral.emits h hothers hws'
  constructor
  · intro w hw
    by_cases hignores : s.type.ignoresWidth
    · exact .inr hignores
    · exact .inl (hcount.width_nonneg hws hws' hbytes hshort hw hignores)
  · intro p hp
    exact hcount.precision_nonneg hws (hbytes ▸ hshort) hp

end Spec

/-! ## Every specification -/

/-- **A specification with stars does as the literal one**, in its turn and in the rest of the run, if
no star holds a negative number that the conversion looks at. Where an `int` counts what the literal
one prints, it does so only then. -/
theorem sameAsLiteral_iff (s : Spec) (l : Loop) {others : VariadicArgs}
    (hothers : Alike (s.starsTaken l.args) others) (rest : List UInt8) :
    (s.Unsigned l → SameAsLiteral s l others rest ∧
      ∀ fuel b, printfLoop fuel (s.atLoop l rest) b =
        printfLoop fuel ((s.literal l.args).atLoop { l with args := others } rest) b) ∧
    (s.Countable l → (SameAsLiteral s l others rest ↔ s.Unsigned l)) := by
  constructor
  · intro h
    have hsame := h.sameAsLiteral hothers rest
    refine ⟨hsame, ?_⟩
    intro fuel b
    cases fuel with
    | zero => rfl
    | succ fuel => exact printfLoop_of_sameTurn (hsame b) (printfLoop_alike fuel)
  · intro hcount
    constructor
    · intro hsame
      exact Spec.SameAsLiteral.unsigned hsame hothers hcount
    · intro h
      exact h.sameAsLiteral hothers rest

/-- The loop of a call with two arguments. -/
def callOf (a b : UInt64) : Loop := .start [] (fun i => [a, b].getD i 0) fun _ => 0

theorem argsRead_callOf (a b : UInt64) : ArgsRead 0 0 (callOf a b).args := ⟨rfl, rfl, Nat.le_refl 0⟩

/-- `%2$*1$d`. -/
def starredNumbered : Spec where
  argument := some ⟨[2], by decide, by decide⟩
  flags := []
  flags_known := nofun
  width := .star (some ⟨[1], by decide, by decide⟩)
  width_ne_zero := nofun
  precision := none
  modifier := .none
  letter := 100
  letter_known := by decide

/-- `printf("%2$*1$d", 5, 42)` does as `printf("%2$5d", 5, 42)`. -/
theorem sameAsLiteral_five :
    (starredNumbered.literal (callOf 5 42).args).text = [50, 36, 53, 100] ∧
      SameAsLiteral starredNumbered (callOf 5 42) (callOf 5 42).args [] := by
  have hsupplied : starredNumbered.suppliedWidth (callOf 5 42).args = some 5 := by decide +kernel
  have hread := (argsRead_callOf 5 42).own
  have hothers := starredNumbered.starsTaken_numbered ⟨rfl, rfl, hread, hread⟩
    (fun h => by cases h) (fun h => by cases h)
  refine ⟨by decide +kernel, ((sameAsLiteral_iff starredNumbered _ hothers []).1 ?_).1⟩
  constructor
  · intro w hw
    rw [hsupplied] at hw
    cases hw
    exact .inl (by decide)
  · intro p hp
    cases hp

/-- `%*d`. -/
def starredInt : Spec where
  argument := none
  flags := []
  flags_known := nofun
  width := .star none
  width_ne_zero := nofun
  precision := none
  modifier := .none
  letter := 100
  letter_known := by decide

/-- `printf("%*d", -5, 42)` does not do as `printf("%-5d", 42)`. -/
theorem not_sameAsLiteral :
    (starredInt.literal (callOf 4294967291 42).args).text = [45, 53, 100] ∧
      ¬ SameAsLiteral starredInt (callOf 4294967291 42)
        (starredInt.starsTaken (callOf 4294967291 42).args) [] := by
  have hsupplied : starredInt.suppliedWidth (callOf 4294967291 42).args = some (-5) := by
    decide +kernel
  obtain ⟨-, hread, -⟩ := get_next (argsRead_callOf 4294967291 42)
  have hrun : (printArg (fun _ => 0) (starredInt.printedLiteral (callOf 4294967291 42))
      (.growing fun _ => true)).map (fun p => p.2.contents) = some [52, 50, 32, 32, 32] := by
    decide +kernel
  have hcount : starredInt.Countable (callOf 4294967291 42) := by
    constructor
    · obtain ⟨ws, hws⟩ := @printArg_emits (fun _ => 0)
        (starredInt.printedLiteral (callOf 4294967291 42)) ⟨nofun, nofun⟩
      have hsound := @sound_growing (fun _ => true) (fun _ => rfl)
      rw [hws _ hsound, Option.map_some, (contents_puts (grows_growing _) hsound ws).1] at hrun
      have hlength : bytes ws = 5 := congrArg List.length (Option.some.inj hrun)
      exact ⟨ws, _, hws, by rw [hlength]; decide⟩
    · rw [hsupplied]
      decide
    · exact nofun
  refine ⟨by decide +kernel, ?_⟩
  intro hsame
  have hunsigned := Spec.SameAsLiteral.unsigned hsame ⟨rfl, rfl, hread.own, hread.own⟩ hcount
  rcases hunsigned.width (-5) hsupplied with hneg | hignores
  · exact absurd hneg (by decide)
  · cases hignores

end WindowsLibc.Printf
