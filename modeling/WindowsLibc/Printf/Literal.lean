import WindowsLibc.Printf.Loop
import WindowsLibc.Printf.Specification

/-!
# The literal specification

For a specification with stars, and the numbers that its arguments hold for them, `Spec.literal` is the
one that has these numbers written out: `|w|` for a width, behind a `-` if `w` is negative, and `p` for
a precision, or none if `p` is negative.

* `SameAsLiteral` compares a turn of the loop at the one with a turn at the other: the same output, the
  same memory and count, and the same arguments left. What has been read ahead of them is left out.
* Turns that are the same are followed by the same (`printfLoop_of_sameTurn`).
* `Spec.config_literal`: what is read of the literal specification.
-/

namespace WindowsLibc.Printf

open WindowsLibc.Lib

/-! ## The literal specification -/

/-- The flags that a literal width brings: `-` for one that is negative, and a zero is itself read as
a flag. -/
def widthFlags (w : Int) : List UInt8 := if w < 0 then [45] else if w = 0 then [48] else []

/-- The digits of a literal width that are not read as flags. -/
def widthDigits (w : Int) : List (Fin 10) := if w = 0 then [] else decimal w.natAbs

theorem widthFlags_known (w : Int) : ∀ c ∈ widthFlags w, (setFlag {} c).isSome := by
  rw [widthFlags]
  split
  · exact List.forall_mem_singleton.mpr rfl
  · split
    · exact List.forall_mem_singleton.mpr rfl
    · exact nofun

theorem widthDigits_ne_zero (w : Int) (ds : List (Fin 10)) : widthDigits w ≠ 0 :: ds := by
  rw [widthDigits]
  split
  · exact nofun
  · next hzero => exact decimal_ne_zero (Int.natAbs_ne_zero.mpr hzero) ds

namespace Spec

/-- The `int` supplied for the width, if that is a star. -/
def suppliedWidth (s : Spec) (args : VariadicArgs) : Option Int := s.width.supplied args

/-- The `int` supplied for the precision. It is fetched when the width has been. -/
def suppliedPrecision (s : Spec) (args : VariadicArgs) : Option Int :=
  s.precision.bind fun g => g.supplied (s.width.amount.fetch args).2

/-- The specification with numbers in place of the stars. -/
def literal (s : Spec) (args : VariadicArgs) : Spec :=
  { s with
    flags := s.flags ++ ((s.suppliedWidth args).map widthFlags).getD []
    flags_known := by
      intro c hc
      rcases List.mem_append.mp hc with hc | hc
      · exact s.flags_known c hc
      · cases hw : s.suppliedWidth args with
        | none =>
          rw [hw] at hc
          cases hc
        | some w =>
          rw [hw] at hc
          exact widthFlags_known w c hc
    width := ((s.suppliedWidth args).map fun w => Given.digits (widthDigits w)).getD s.width
    width_ne_zero := by
      cases s.suppliedWidth args with
      | none => exact s.width_ne_zero
      | some w => exact fun ds h => widthDigits_ne_zero w ds (Given.digits.inj h)
    precision := match s.suppliedPrecision args with
      | none => s.precision
      | some p => if p < 0 then none else some (.digits (decimal p.natAbs)) }

/-- The loop at a specification. -/
def atLoop (s : Spec) (l : Loop) (rest : List UInt8) : Loop :=
  { l with format := 37 :: (s.text ++ rest) }

/-- What is printed there. -/
def printed (s : Spec) (l : Loop) : PrintConfig := { s.config l.args with result := l.result.toUInt64 }

/-- The arguments that are left for the literal specification. -/
def left (s : Spec) (l : Loop) : Loop := { l with args := s.starsTaken l.args }

/-- What the literal specification prints. -/
def printedLiteral (s : Spec) (l : Loop) : PrintConfig := (s.literal l.args).printed (s.left l)

end Spec

/-! ## What is left for it -/

/-- A number in the format takes nothing away, and neither does a star with a number. -/
theorem Alike.fetch_numbered {a a' : VariadicArgs} (h : Alike a a') {g : Given}
    (hg : g ≠ .star none) : Alike (g.amount.fetch a).2 a' := by
  cases g with
  | digits ds => exact h
  | star number =>
    cases number with
    | none => exact absurd rfl hg
    | some n =>
      have hindex : (Given.star (some n)).amount.index ≠ 4294967295 := n.index_ne.2
      obtain ⟨m, hread⟩ := h.read
      obtain ⟨-, hnext, hlist⟩ := get_at hread n.index_ne.1
      rw [Amount.fetch, if_pos hindex]
      exact ⟨hlist.trans h.list, hnext.currentIndex.trans h.currentIndex, hnext.own, h.read'⟩

/-- Where every star has a number, the literal specification is given all the arguments. -/
theorem Spec.starsTaken_numbered (s : Spec) {args : VariadicArgs} (h : Alike args args)
    (hwidth : s.width ≠ .star none) (hprecision : s.precision ≠ some (.star none)) :
    Alike (s.starsTaken args) args := by
  have hstar := h.fetch_numbered hwidth
  rw [starsTaken]
  cases hprec : s.precision with
  | none => exact hstar
  | some g => exact hstar.fetch_numbered fun hg => hprecision (by rw [hprec, hg])

/-! ## When two turns are the same -/

/-- The same loop, up to the arguments that have been read ahead. -/
structure Loop.Alike (l l' : Loop) : Prop where
  format : l.format = l'.format
  args : Printf.Alike l.args l'.args
  mem : l.mem = l'.mem
  result : l.result = l'.result

inductive Iteration.Alike : Iteration → Iteration → Prop
  | next {l l' : Loop} : l.Alike l' → Alike (.next l) (.next l')
  | done {l l' : Loop} : l.Alike l' → Alike (.done l) (.done l')
  | failed {l l' : Loop} : l.Alike l' → Alike (.failed l) (.failed l')

/-- Both fault, or both leave the same output and loops that are alike. -/
def SameTurn : Option (Iteration × Buffer) → Option (Iteration × Buffer) → Prop :=
  Option.Rel fun x y => x.1.Alike y.1 ∧ x.2 = y.2

/-- A specification with stars does to every output what the literal one does to it with the other
arguments, and leaves the same arguments. -/
def SameAsLiteral (s : Spec) (l : Loop) (others : VariadicArgs) (rest : List UInt8) : Prop :=
  ∀ b, SameTurn (printfIteration (s.atLoop l rest) b)
    (printfIteration ((s.literal l.args).atLoop { l with args := others } rest) b)

theorem sameTurn_checkError {l l' : Loop} (h : l.Alike l') (b : Buffer) :
    SameTurn (checkError l b) (checkError l' b) := by
  change SameTurn ((if b.error then pure (.failed l) else pure (.next l) : Output Iteration) b)
    ((if b.error then pure (.failed l') else pure (.next l') : Output Iteration) b)
  split
  · exact .some ⟨.failed h, rfl⟩
  · exact .some ⟨.next h, rfl⟩

/-- Two turns that print the same conversion. -/
theorem sameTurn_print (x : Output (UInt32 × Memory)) {l l' : Loop} (hresult : l.result = l'.result)
    {args args' : VariadicArgs} (hargs : Alike args args') (rest : List UInt8) (b : Buffer) :
    SameTurn
      ((x >>= fun p => checkError (l.behind rest args p.1 p.2)) b)
      ((x >>= fun p => checkError (l'.behind rest args' p.1 p.2)) b) := by
  change SameTurn ((x b).bind _) ((x b).bind _)
  cases x b with
  | none => exact .none
  | some p =>
    have hbehind : (l.behind rest args p.1.1 p.1.2).Alike (l'.behind rest args' p.1.1 p.1.2) :=
      ⟨rfl, hargs, rfl, congrArg (· + p.1.1) hresult⟩
    exact sameTurn_checkError hbehind p.2

/-- A turn does not depend on what has been read ahead. -/
theorem printfIteration_alike {l l' : Loop} (h : l.Alike l') (b : Buffer) :
    SameTurn (printfIteration l b) (printfIteration l' b) := by
  obtain ⟨format, args, mem, result⟩ := l
  obtain ⟨format', args', mem', result'⟩ := l'
  obtain ⟨rfl, hargs, rfl, rfl⟩ := h
  rw [printfIteration, printfIteration]
  dsimp only at hargs ⊢
  split
  · exact .some ⟨.done ⟨rfl, hargs, rfl, rfl⟩, rfl⟩
  · exact .some ⟨.done ⟨rfl, hargs, rfl, rfl⟩, rfl⟩
  · exact .some ⟨.next ⟨rfl, hargs, rfl, rfl⟩, rfl⟩
  · next format _ _ =>
    obtain ⟨hconfig, hrest, hbehind⟩ := parsePrintSpecifier_alike hargs format
    generalize parsePrintSpecifier format args = x at hconfig hrest hbehind
    generalize parsePrintSpecifier format args' = y at hconfig hrest hbehind
    obtain ⟨config, rest, behind⟩ := x
    obtain ⟨config', rest', behind'⟩ := y
    cases hconfig
    cases hrest
    dsimp only
    split
    · exact .some ⟨.next ⟨rfl, hargs, rfl, rfl⟩, rfl⟩
    · have hresult : (Loop.mk format args mem result).result = (Loop.mk format args' mem result).result :=
        rfl
      exact sameTurn_print _ hresult hbehind rest b
  · exact .some ⟨.next ⟨rfl, hargs, rfl, rfl⟩, rfl⟩

/-- Turns that are the same are followed by the same. -/
theorem printfLoop_of_sameTurn {fuel : Nat} {l l' : Loop} {b : Buffer}
    (h : SameTurn (printfIteration l b) (printfIteration l' b))
    (ih : ∀ {l l' : Loop} (b : Buffer), l.Alike l' → printfLoop fuel l b = printfLoop fuel l' b) :
    printfLoop (fuel + 1) l b = printfLoop (fuel + 1) l' b := by
  change (printfIteration l b).bind _ = (printfIteration l' b).bind _
  generalize printfIteration l b = x at h
  generalize printfIteration l' b = y at h
  cases h with
  | none => rfl
  | @some p q hsame =>
    obtain ⟨it, out⟩ := p
    obtain ⟨it', out'⟩ := q
    obtain ⟨halike, rfl⟩ := hsame
    cases halike with
    | next hl => exact ih _ hl
    | done hl =>
      obtain ⟨-, -, hmem, hresult⟩ := hl
      show some ((_, _), out) = some ((_, _), out)
      rw [hmem, hresult]
    | failed hl =>
      show some ((-1, _), out) = some ((-1, _), out)
      rw [hl.mem]

theorem printfLoop_alike (fuel : Nat) {l l' : Loop} (b : Buffer) (h : l.Alike l') :
    printfLoop fuel l b = printfLoop fuel l' b := by
  induction fuel generalizing l l' b with
  | zero =>
    rw [printfLoop, printfLoop, h.result, h.mem]
  | succ fuel ih => exact printfLoop_of_sameTurn (printfIteration_alike h b) ih

/-! ## The turn at a specification -/

theorem parsePrintSpecifier_percent (format : List UInt8) (args : VariadicArgs) :
    (parsePrintSpecifier (37 :: format) args).1.type = .unknown := by
  simp [parsePrintSpecifier, parseHeader, parseArgument, parseNumber, parseFlags, setFlag,
    parseAmount, parsePrecision, parseModifier, conversion]

theorem parsePrintSpecifier_nil (args : VariadicArgs) :
    (parsePrintSpecifier [] args).1.type = .unknown := by
  simp [parsePrintSpecifier, parseHeader, parseArgument, parseNumber, parseFlags, parseAmount,
    parsePrecision, parseModifier, conversion]

namespace Spec

variable (s : Spec)

theorem directive_atLoop (l : Loop) (rest : List UInt8) :
    (s.atLoop l rest).directive = some (s.printed l, rest, s.behind l.args) := by
  have hparse := s.parsePrintSpecifier_spec rest l.args
  have hknown : (s.config l.args).type ≠ .unknown := s.letter_known
  rw [directive_of_format rfl]
  · simp only [atLoop, hparse, if_neg hknown]
    rfl
  · intro hnil
    rw [hnil] at hparse
    have hunknown := parsePrintSpecifier_nil l.args
    rw [hparse] at hunknown
    exact hknown hunknown
  · intro format hpercent
    rw [hpercent] at hparse
    have hunknown := parsePrintSpecifier_percent format l.args
    rw [hparse] at hunknown
    exact hknown hunknown

theorem printfIteration_atLoop (l : Loop) (rest : List UInt8) :
    printfIteration (s.atLoop l rest) = printArg l.mem (s.printed l) >>= fun p =>
      checkError (l.behind rest (s.behind l.args) p.1 p.2) :=
  (printfIteration_of_directive (s.directive_atLoop l rest)).1

end Spec

/-! ## What the literal specification holds -/

theorem Given.fetch_digits (ds : List (Fin 10)) (args : VariadicArgs) :
    (Given.digits ds).amount.fetch args = (UInt32.ofNat (value ds), args) := rfl

theorem numberIndex_ne (number : Option ArgNumber) : numberIndex number ≠ 4294967295 := by
  cases number with
  | none => decide
  | some n => exact n.index_ne.2

/-- What is supplied for a star is what is fetched. -/
theorem Given.fetch_of_supplied {g : Given} {args : VariadicArgs} {w : Int}
    (h : g.supplied args = some w) : (g.amount.fetch args).1.toInt32.toInt = w := by
  cases g with
  | digits ds => cases h
  | star number =>
    have hindex : (Given.star number).amount.index ≠ 4294967295 := numberIndex_ne number
    rw [Amount.fetch, if_pos hindex]
    exact Option.some.inj h

theorem Given.fetch_of_none {g : Given} {args : VariadicArgs} (h : g.supplied args = none)
    (args' : VariadicArgs) : g.amount.fetch args' = ((g.amount.fetch args).1, args') := by
  cases g with
  | digits ds => rfl
  | star number => cases h

theorem value_widthDigits (w : Int) : value (widthDigits w) = w.natAbs := by
  rw [widthDigits]
  split
  · next hzero => rw [hzero]; rfl
  · exact value_decimal _

namespace Spec

variable (s : Spec) (args args' : VariadicArgs)

theorem fetch_width_literal : (s.literal args).width.amount.fetch args' =
    (match s.suppliedWidth args with
      | none => (s.width.amount.fetch args).1
      | some w => UInt32.ofNat w.natAbs, args') := by
  cases hw : s.suppliedWidth args with
  | none =>
    simp only [literal, hw]
    exact Given.fetch_of_none hw args'
  | some w =>
    simp only [literal, hw]
    refine (Given.fetch_digits _ _).trans ?_
    rw [value_widthDigits]

theorem fetch_precision_literal : (givenAmount (s.literal args).precision).2.fetch args' =
    (match s.suppliedPrecision args with
      | none => ((givenAmount s.precision).2.fetch (s.width.amount.fetch args).2).1
      | some p => if p < 0 then 0 else UInt32.ofNat p.natAbs, args') := by
  cases hp : s.suppliedPrecision args with
  | none =>
    simp only [literal, hp]
    cases hprec : s.precision with
    | none => rfl
    | some g =>
      rw [suppliedPrecision, hprec] at hp
      exact Given.fetch_of_none hp args'
  | some p =>
    simp only [literal, hp]
    split
    · rfl
    · refine (Given.fetch_digits _ _).trans ?_
      rw [value_decimal]

/-- It takes no arguments but its own. -/
theorem starsTaken_literal : (s.literal args).starsTaken args' = args' := by
  rw [starsTaken, fetch_width_literal, fetch_precision_literal]

theorem config_literal : (s.literal args).config args' =
    { type := s.type, modifier := s.modifier, flags := (s.literal args).settled
      width := match s.suppliedWidth args with
        | none => (s.width.amount.fetch args).1
        | some w => UInt32.ofNat w.natAbs
      precision := match s.suppliedPrecision args with
        | none => ((givenAmount s.precision).2.fetch (s.width.amount.fetch args).2).1
        | some p => if p < 0 then 0 else UInt32.ofNat p.natAbs
      result := 0, data := (args'.get (numberIndex s.argument)).1 } := by
  rw [config, fetch_width_literal, fetch_precision_literal, starsTaken_literal]
  rfl

variable {args'} in
/-- What has been read ahead makes no difference to it. -/
theorem config_literal_alike (h : Alike (s.starsTaken args) args') :
    (s.literal args).config args' = (s.literal args).config (s.starsTaken args) := by
  rw [config_literal, config_literal, (h.get _).1]

variable {args'} in
theorem behind_literal_alike (h : Alike (s.starsTaken args) args') :
    Alike (s.behind args) ((s.literal args).behind args') := by
  rw [behind, behind, starsTaken_literal]
  exact (h.get _).2

end Spec

end WindowsLibc.Printf
