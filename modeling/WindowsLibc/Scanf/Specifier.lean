import WindowsLibc.Lib.Trajectory
import WindowsLibc.Scanf.Accounting
import WindowsLibc.Scanf.ScanSet

/-!
# Parsing a directive, step by step

`parse_scan_specifier` with its loops: every turn of a loop is a step.

* `Parser` is the buffer of the format and the variables of the function, and `step` what happens next.
* `Sound` is what should hold at any time: the position is in the buffer, and the bits that have been set or
  cleared are bits of the set.
* `parser_total_iff` says when the function comes to its end, and is sound all the time: no range may end behind
  the bits of the set.
-/

namespace WindowsLibc.Scanf

open WindowsLibc.Lib WindowsLibc.Printf

/-! ## The function -/

/-- Where the function is. -/
inductive Phase where
  | argument
  | flags
  | width
  | conversion
  | set
  | range (last : UInt8)
  | finish
  | done
  deriving DecidableEq

/-- The variables of `parse_scan_specifier`. `touched` are the bits that have been set or cleared. -/
structure Parser where
  phase : Phase
  format : Buffer
  pos : Nat
  index : UInt32
  byte : UInt8
  first : Bool
  exclude : Bool
  config : ScanConfig
  argument : UInt32
  args : VariadicArgs
  touched : List UInt8

/-- The length modifier. -/
def takeModifier (b : Buffer) : Modifier × Buffer :=
  match b.peekbyte 0 with
  | 104 => if b.next.peekbyte 0 = 104 then (.shortShort, b.next.next) else (.short, b.next)
  | 108 => if b.next.peekbyte 0 = 108 then (.longLong, b.next.next) else (.long, b.next)
  | 76 => (.longDouble, b.next)
  | 106 => (.max, b.next)
  | 122 => (.size, b.next)
  | 116 => (.ptrdiff, b.next)
  | _ => (.none, b)

/-- `SET_BIT`, or `UNSET_BIT`. A bit behind the array is none of the set. -/
def Parser.put (p : Parser) (byte : UInt8) : Parser :=
  { p with
    config := { p.config with set := (putBit p.exclude p.config.set byte).getD p.config.set }
    touched := byte :: p.touched }

/-- The first byte of a set, if it is special. -/
def Parser.firstByte (p : Parser) : Parser :=
  if p.format.peekbyte 0 = 93 then { p.put 93 with format := p.format.next }
  else
    let p := { p with exclude := true, config := { p.config with set := BitVec.allOnes 128 } }
    if p.format.peekbyte 1 = 93 then { p.put 93 with format := p.format.next.next }
    else { p with format := p.format.next }

/-- A turn of the loop over the set. -/
def Parser.setByte (p : Parser) : Parser :=
  let byte := p.format.peekbyte 0
  if byte = 0 then { p with phase := .finish, config := { p.config with type := .unknown } }
  else if ¬ p.first ∧ (byte = 93 ∨ byte = 94) then { p.firstByte with first := true }
  else if byte = 93 then { p with phase := .finish, format := p.format.next, first := true }
  else if byte < 128 then
    if p.format.peekbyte 1 = 45 ∧ p.format.peekbyte 2 ≠ 93 then
      { p with phase := .range (p.format.peekbyte 2), byte := byte, first := true }
    else { p.put byte with format := p.format.next, first := true }
  else { p with format := p.format.next, first := true }

/-- The next step. -/
def Parser.step (p : Parser) : Parser :=
  let byte := p.format.peekbyte 0
  match p.phase with
  | .argument =>
    if isDigit byte then
      { p with index := p.index * 10 + (byte - 48).toUInt32, format := p.format.next }
    else if p.index ≠ 0 ∧ byte = 36 then
      { p with phase := .flags, argument := p.index, format := p.format.next }
    else { p with phase := .flags, format := { p.format with pos := p.pos } }
  | .flags =>
    match setScanFlag p.config.flags byte with
    | some flags => { p with config := { p.config with flags := flags }, format := p.format.next }
    | none => { p with phase := .width, index := 0 }
  | .width =>
    if isDigit byte then
      { p with index := p.index * 10 + (byte - 48).toUInt32, format := p.format.next }
    else { p with phase := .conversion, config := { p.config with width := p.index } }
  | .conversion =>
    let (modifier, format) := takeModifier p.format
    let (type, upperCase) := scanConversion format.readbyte.1
    { p with
      phase := if type = .set then .set else .finish
      format := format.next
      config := { p.config with
        type := type, modifier := modifier, flags := { p.config.flags with upperCase := upperCase } } }
  | .set => p.setByte
  | .range last =>
    if p.byte ≤ last then { p.put p.byte with byte := p.byte + 1 }
    else { p with phase := .set, format := p.format.advance 3 }
  | .finish =>
    if p.config.type = .unknown ∨ p.config.flags.suppressInput then
      { p with phase := .done, config := { p.config with data := none } }
    else
      { p with
        phase := .done
        config := { p.config with data := some (p.args.get p.argument).1 }
        args := (p.args.get p.argument).2 }
  | .done => p

/-- The beginning. -/
def Parser.start (format : Buffer) (args : VariadicArgs) : Parser where
  phase := .argument
  format := format
  pos := format.pos
  index := 0
  byte := 0
  first := false
  exclude := false
  config := ⟨.unknown, .none, {}, 0, 0, none, 0⟩
  argument := 0
  args := args
  touched := []

/-- Inside the format, and inside the set. -/
structure Sound (p : Parser) : Prop where
  pos_le : p.format.pos ≤ p.format.size
  touched : ∀ bit ∈ p.touched, bit < 128

/-- The function ends, and is sound all the time. -/
def Total (p : Parser) : Prop := (∃ n, (Parser.step^[n] p).phase = .done) ∧ Always Parser.step Sound p

/-! ## The format -/

/-- The last bytes of the ranges in a set that begin with a bit of the set. A set ends with a `]` or before a
NUL. -/
@[grind =]
def rangeEnds : List UInt8 → List UInt8
  | first :: dash :: last :: text =>
    if first = 0 ∨ first = 93 then []
    else if first < 128 ∧ dash = 45 ∧ last ≠ 93 then last :: rangeEnds text
    else rangeEnds (dash :: last :: text)
  | _ => []

/-- What is left in front of the conversion. -/
def conversionText (text : List UInt8) : List UInt8 :=
  (parseModifier (parseNumber 0 (parseScanFlags {} (parseArgument text).2).2).2).2

/-- What follows the `[`, if the directive has a set. -/
def setBody (text : List UInt8) : Option (List UInt8) :=
  if (conversionText text).headD 0 = 91 then some (conversionText text).tail else none

/-- No range ends behind the bits of the set. -/
def Fits (text : List UInt8) : Prop := ∀ last ∈ rangeEnds text, last < 128

/-- No range of a set in the directive does. -/
def RangesFit (text : List UInt8) : Prop := ∀ body, setBody text = some body → Fits (itemText body)

/-! ## In front of the conversion -/

variable {p q : Parser} {b : Buffer} {text body : List UInt8}

theorem isDigit_iff (c : UInt8) : isDigit c = true ↔ 48 ≤ c ∧ c ≤ 57 := decide_eq_true_iff

/-- The digits of a number are read one by one. -/
theorem leads_number (hphase : p.phase = .argument ∨ p.phase = .width) (hsound : Sound p)
    (h : Reads p.format text) :
    ∃ n, (parseNumber p.index text).2 = text.drop n ∧ ¬ isDigit ((text.drop n).headD 0) ∧
      Leads Parser.step Sound p
        { p with index := (parseNumber p.index text).1, format := p.format.advance n } := by
  induction text generalizing p with
  | nil =>
    refine ⟨0, rfl, by decide, ?_⟩
    rw [h.advance_zero]
    exact .refl hsound
  | cons c text ih =>
    have hpeek : p.format.peekbyte 0 = c := h.peek
    by_cases hc : isDigit c
    · have hstep : p.step = { p with index := p.index * 10 + (c - 48).toUInt32, format := p.format.next } := by
        rcases hphase with hphase | hphase <;>
          simp only [Parser.step, hphase, hpeek, hc, if_true]
      have hsound' : Sound p.step := by
        rw [hstep]
        exact ⟨h.next.pos_le, hsound.touched⟩
      have hreads : Reads p.step.format text := by
        rw [hstep]
        exact h.next
      obtain ⟨n, hrest, hstop, hleads⟩ := @ih p.step (by rw [hstep]; exact hphase) hsound' hreads
      refine ⟨n + 1, ?_, hstop, .step hsound ?_⟩
      · rw [parseNumber, if_pos ((isDigit_iff c).mp hc)]
        rw [hstep] at hrest
        exact hrest
      · rw [hstep] at hleads ⊢
        rw [parseNumber, if_pos ((isDigit_iff c).mp hc), ← h.next_advance]
        exact hleads
    · refine ⟨0, ?_, hc, ?_⟩
      · rw [parseNumber, if_neg (mt (isDigit_iff c).mpr hc)]
        rfl
      · rw [parseNumber, if_neg (mt (isDigit_iff c).mpr hc), h.advance_zero]
        exact .refl hsound

theorem leads_flags (hphase : p.phase = .flags) (hsound : Sound p) (h : Reads p.format text) :
    ∃ b, Reads b (parseScanFlags p.config.flags text).2 ∧
      Leads Parser.step Sound p { p with
        phase := .width, index := 0, format := b
        config := { p.config with flags := (parseScanFlags p.config.flags text).1 } } := by
  induction text generalizing p with
  | nil =>
    have hpeek : p.format.peekbyte 0 = 0 := h.peek
    refine ⟨p.format, h, ?_⟩
    have hstep : p.step = { p with phase := .width, index := 0 } := by
      have hnone : setScanFlag p.config.flags 0 = none := rfl
      simp only [Parser.step, hphase, hpeek, hnone]
    exact .cons hsound hstep (.refl ⟨hsound.pos_le, hsound.touched⟩)
  | cons c text ih =>
    have hpeek : p.format.peekbyte 0 = c := h.peek
    rw [parseScanFlags]
    cases hflag : setScanFlag p.config.flags c with
    | some flags =>
      have hstep : p.step = { p with config := { p.config with flags := flags }, format := p.format.next } := by
        simp only [Parser.step, hphase, hpeek, hflag]
      obtain ⟨b, hb, hleads⟩ := @ih p.step (by rw [hstep]; exact hphase)
        (by rw [hstep]; exact ⟨h.next.pos_le, hsound.touched⟩) (by rw [hstep]; exact h.next)
      rw [hstep] at hb hleads
      exact ⟨b, hb, .cons hsound hstep hleads⟩
    | none =>
      have hstep : p.step = { p with phase := .width, index := 0 } := by
        simp only [Parser.step, hphase, hpeek, hflag]
      exact ⟨p.format, h, .cons hsound hstep (.refl ⟨hsound.pos_le, hsound.touched⟩)⟩

theorem takeModifier_reads (h : Reads b text) :
    (takeModifier b).1 = (parseModifier text).1 ∧ Reads (takeModifier b).2 (parseModifier text).2 := by
  have hpeek : b.peekbyte 0 = text.headD 0 := h.peek
  have hdouble : ∀ {c : UInt8} {rest : List UInt8} (once twice : Modifier), Reads b (c :: rest) →
      (if b.next.peekbyte 0 = c then (twice, b.next.next) else (once, b.next)).1 =
          (if rest.headD 0 = c then (twice, rest.tail) else (once, rest)).1 ∧
        Reads (if b.next.peekbyte 0 = c then (twice, b.next.next) else (once, b.next)).2
          (if rest.headD 0 = c then (twice, rest.tail) else (once, rest)).2 := by
    intro c rest once twice hc
    rw [hc.next.peek]
    split
    · exact ⟨rfl, hc.next.tail⟩
    · exact ⟨rfl, hc.next⟩
  unfold takeModifier
  rw [hpeek]
  fun_cases parseModifier text
  case case1 rest htwice =>
    have hboth := hdouble .short .shortShort h
    rw [if_pos htwice] at hboth
    exact hboth
  case case2 rest honce =>
    have hboth := hdouble .short .shortShort h
    rw [if_neg honce] at hboth
    exact hboth
  case case3 rest htwice =>
    have hboth := hdouble .long .longLong h
    rw [if_pos htwice] at hboth
    exact hboth
  case case4 rest honce =>
    have hboth := hdouble .long .longLong h
    rw [if_neg honce] at hboth
    exact hboth
  case case5 => exact ⟨rfl, h.next⟩
  case case6 => exact ⟨rfl, h.next⟩
  case case7 => exact ⟨rfl, h.next⟩
  case case8 => exact ⟨rfl, h.next⟩
  case case9 h₁ h₂ h₃ h₄ h₅ h₆ =>
    cases text with
    | nil => exact ⟨rfl, h⟩
    | cons c text =>
      have hne : ∀ k, (∀ format, c :: text = k :: format → False) → (c :: text).headD 0 ≠ k :=
        fun k hk heq => hk text (congrArg (· :: text) heq)
      split
      · next heq => exact absurd heq (hne 104 h₁)
      · next heq => exact absurd heq (hne 108 h₂)
      · next heq => exact absurd heq (hne 76 h₃)
      · next heq => exact absurd heq (hne 106 h₄)
      · next heq => exact absurd heq (hne 122 h₅)
      · next heq => exact absurd heq (hne 116 h₆)
      · exact ⟨rfl, h⟩

theorem sound_start (args : VariadicArgs) (h : Reads b text) : Sound (.start b args) :=
  ⟨h.pos_le, fun _ hbit => absurd hbit List.not_mem_nil⟩

/-- The number of the argument, or the way back. -/
theorem leads_argument (args : VariadicArgs) (h : Reads b text) :
    ∃ index f, Reads f (parseArgument text).2 ∧
      Leads Parser.step Sound (.start b args) { Parser.start b args with
        phase := .flags, index := index, format := f, argument := (parseArgument text).1 } := by
  obtain ⟨n, hrest, hstop, hleads⟩ := leads_number (.inl rfl) (sound_start args h) h
  have hreads := h.skip n
  have hpeek : (b.advance n).peekbyte 0 = (text.drop n).headD 0 := hreads.peek
  have hsound := hleads.last
  rw [show (Parser.start b args).index = 0 from rfl] at hrest hleads hsound
  rw [parseArgument, hrest]
  by_cases hdollar : (parseNumber 0 text).1 ≠ 0 ∧ (text.drop n).headD 0 = 36
  · rw [if_pos hdollar]
    refine ⟨(parseNumber 0 text).1, (b.advance n).next, hreads.tail, hleads.trans ?_⟩
    refine .cons hsound ?_ (.refl ⟨hreads.tail.pos_le, hsound.touched⟩)
    rw [← hpeek] at hstop hdollar
    exact (if_neg hstop).trans (if_pos hdollar)
  · rw [if_neg hdollar]
    refine ⟨(parseNumber 0 text).1, b, h, hleads.trans ?_⟩
    refine .cons hsound ?_ (.refl ⟨h.pos_le, hsound.touched⟩)
    rw [← hpeek] at hstop hdollar
    exact (if_neg hstop).trans (if_neg hdollar)

/-- What is known when the conversion is reached. -/
theorem leads_conversion (args : VariadicArgs) (h : Reads b text) :
    ∃ q, Leads Parser.step Sound (.start b args) q ∧
      Reads q.format (parseNumber 0 (parseScanFlags {} (parseArgument text).2).2).2 ∧
      q = { Parser.start b args with
        phase := .conversion, index := q.index, format := q.format, argument := (parseArgument text).1
        config := { (Parser.start b args).config with
          flags := (parseScanFlags {} (parseArgument text).2).1
          width := (parseNumber 0 (parseScanFlags {} (parseArgument text).2).2).1 } } := by
  obtain ⟨index, f₁, hf₁, hargument⟩ := leads_argument args h
  obtain ⟨f₂, hf₂, hflags⟩ := leads_flags rfl hargument.last hf₁
  obtain ⟨n, hrest, hstop, hwidth⟩ := leads_number (.inr rfl) hflags.last hf₂
  have hreads := hf₂.skip n
  have hpeek : (f₂.advance n).peekbyte 0 = ((parseScanFlags {} (parseArgument text).2).2.drop n).headD 0 :=
    hreads.peek
  have hread : (parseNumber 0 (parseScanFlags {} (parseArgument text).2).2).2 =
      (parseScanFlags {} (parseArgument text).2).2.drop n := hrest
  rw [hread]
  have hstop' : ¬ isDigit ((f₂.advance n).peekbyte 0) := by
    rw [hpeek]
    exact hstop
  exact ⟨_, (hargument.trans (hflags.trans hwidth)).trans
    (.cons hwidth.last (if_neg hstop') (.refl ⟨hreads.pos_le, hwidth.last.touched⟩)), hreads, rfl⟩

/-! ## Ranges -/

theorem Sound.put (h : Sound p) {byte : UInt8} (hbyte : byte < 128) : Sound (p.put byte) :=
  ⟨h.pos_le, List.forall_mem_cons.mpr ⟨hbyte, h.touched⟩⟩

theorem toNat_add_one {byte : UInt8} (h : byte ≤ 128) : (byte + 1).toNat = byte.toNat + 1 := by
  have hle : byte.toNat ≤ 128 := h
  rw [UInt8.toNat_add]
  exact Nat.mod_eq_of_lt (show byte.toNat + 1 < 256 by omega)

/-- A range that fits is put into the set. -/
theorem leads_range {last : UInt8} (hlast : last < 128) {fuel : Nat} (hphase : p.phase = .range last)
    (hbyte : p.byte ≤ 128) (hfuel : last.toNat + 1 - p.byte.toNat ≤ fuel) (hsound : Sound p)
    (h : Reads p.format text) :
    ∃ byte set touched, putRange p.exclude last fuel p.byte p.config.set = some set ∧
      Leads Parser.step Sound p { p with
        phase := .set, byte := byte, touched := touched, format := p.format.advance 3
        config := { p.config with set := set } } := by
  have hlast' : last.toNat < 128 := hlast
  induction fuel generalizing p with
  | zero =>
    have hnot : ¬ p.byte ≤ last := by
      rw [UInt8.le_iff_toNat_le]
      omega
    have hstep : p.step = { p with phase := .set, format := p.format.advance 3 } := by
      simp only [Parser.step, hphase, hnot, if_false]
    exact ⟨p.byte, p.config.set, p.touched, rfl,
      .cons hsound hstep (.refl ⟨(h.skip 3).pos_le, hsound.touched⟩)⟩
  | succ fuel ih =>
    rw [putRange]
    by_cases hle : p.byte ≤ last
    · have hlt : p.byte < 128 := UInt8.lt_of_le_of_lt hle hlast
      have hlt' : p.byte.toNat < 128 := hlt
      obtain ⟨set, hput, -⟩ := putBit_spec hlt p.exclude p.config.set
      have hnext := toNat_add_one hbyte
      have hstep : p.step = { p with
          byte := p.byte + 1, touched := p.byte :: p.touched, config := { p.config with set := set } } := by
        simp only [Parser.step, hphase, hle, if_true, Parser.put, hput, Option.getD_some]
      obtain ⟨byte, set', touched, hrange, hleads⟩ := @ih p.step (by rw [hstep]; exact hphase)
        (by rw [hstep]; show (p.byte + 1).toNat ≤ 128; omega)
        (by rw [hstep]; show last.toNat + 1 - (p.byte + 1).toNat ≤ fuel; omega)
        (by rw [hstep]; exact ⟨hsound.pos_le, (hsound.put hlt).touched⟩) (by rw [hstep]; exact h)
      rw [hstep] at hrange hleads
      rw [if_pos hle, hput]
      exact ⟨byte, set', touched, hrange, .cons hsound hstep hleads⟩
    · have hstep : p.step = { p with phase := .set, format := p.format.advance 3 } := by
        simp only [Parser.step, hphase, hle, if_false]
      rw [if_neg hle]
      exact ⟨p.byte, p.config.set, p.touched, rfl,
        .cons hsound hstep (.refl ⟨(h.skip 3).pos_le, hsound.touched⟩)⟩

/-- Any other goes on behind the set. -/
theorem leads_range_high {last : UInt8} (hlast : 128 ≤ last) (hphase : p.phase = .range last)
    (hbyte : p.byte ≤ 128) : ∃ q, Leads Parser.step (fun _ => True) p q ∧ ¬ Sound q := by
  have hlast' : 128 ≤ last.toNat := hlast
  induction hn : 128 - p.byte.toNat generalizing p with
  | zero =>
    have heq : p.byte = 128 := UInt8.le_antisymm hbyte (show 128 ≤ p.byte.toNat by omega)
    have hstep : p.step = { p.put p.byte with byte := p.byte + 1 } := by
      simp only [Parser.step, hphase, heq, hlast, if_true]
    refine ⟨p.step, .step trivial (.refl trivial), fun hsound => ?_⟩
    rw [hstep] at hsound
    have hlt := hsound.touched p.byte List.mem_cons_self
    rw [heq] at hlt
    exact absurd hlt (by decide)
  | succ n ih =>
    have hlt : p.byte.toNat < 128 := by omega
    have hnext := toNat_add_one hbyte
    have hle : p.byte ≤ last := UInt8.le_iff_toNat_le.mpr (by omega)
    have hstep : p.step = { p.put p.byte with byte := p.byte + 1 } := by
      simp only [Parser.step, hphase, hle, if_true]
    obtain ⟨q, hleads, hnot⟩ := @ih p.step (by rw [hstep]; exact hphase)
      (by rw [hstep]; show (p.byte + 1).toNat ≤ 128; omega)
      (by rw [hstep]; show 128 - (p.byte + 1).toNat = n; omega)
    exact ⟨q, .step trivial hleads, hnot⟩

/-- The counter comes round before it is above the last byte there is. -/
theorem range_never_ends (hphase : p.phase = .range 255) (n : Nat) : (Parser.step^[n] p).phase = .range 255 := by
  induction n generalizing p with
  | zero => exact hphase
  | succ n ih =>
    have hle : p.byte ≤ 255 := UInt8.le_iff_toNat_le.mpr (Nat.le_of_lt_succ p.byte.toNat_lt)
    have hstep : p.step = { p.put p.byte with byte := p.byte + 1 } := by
      simp only [Parser.step, hphase, hle, if_true]
    rw [Function.iterate_succ_apply]
    exact ih (by rw [hstep]; exact hphase)

/-! ## The set -/

/-- There are no ranges where the set ends. -/
theorem fits_of_end (h : text.headD 0 = 0 ∨ text.headD 0 = 93) : Fits text := by
  match text with
  | [] | [_] | [_, _] => simp [Fits, rangeEnds]
  | c :: dash :: last :: text =>
    have hc : c = 0 ∨ c = 93 := h
    rw [Fits, rangeEnds, if_pos hc]
    exact List.forall_mem_nil _

/-- A byte of the set that is no range. -/
theorem rangeEnds_byte {c : UInt8} (hnul : c ≠ 0) (hclose : c ≠ 93)
    (hnot : ¬ (c < 128 ∧ text.headD 0 = 45 ∧ text.getD 1 0 ≠ 93)) : rangeEnds (c :: text) = rangeEnds text := by
  match text with
  | [] | [_] => rfl
  | dash :: last :: text =>
    have hbyte : ¬ (c < 128 ∧ dash = 45 ∧ last ≠ 93) := hnot
    rw [rangeEnds, if_neg (fun h => h.elim hnul hclose), if_neg hbyte]

/-- A range, which may be cut off by the end of the format. -/
theorem rangeEnds_range {c : UInt8} (hnul : c ≠ 0) (hclose : c ≠ 93)
    (hrange : c < 128 ∧ text.headD 0 = 45 ∧ text.getD 1 0 ≠ 93) :
    Fits (c :: text) ↔ text.getD 1 0 < 128 ∧ Fits (text.drop 2) := by
  match text with
  | [] => exact absurd hrange.2.1 (by decide)
  | [_] =>
    have hend : (0 : UInt8) < 128 := by decide
    exact ⟨fun _ => ⟨hend, by simp [Fits, rangeEnds]⟩, fun _ => by simp [Fits, rangeEnds]⟩
  | dash :: last :: text =>
    have hdash : c < 128 ∧ dash = 45 ∧ last ≠ 93 := hrange
    rw [Fits, rangeEnds, if_neg (fun h => h.elim hnul hclose), if_pos hdash, List.forall_mem_cons]
    rfl

/-- The first byte of `text` is no special one. -/
def Ordinary (p : Parser) (text : List UInt8) : Prop :=
  p.first = true ∨ text.headD 0 ≠ 93 ∧ text.headD 0 ≠ 94

/-- The loop over the set ends. -/
theorem step_set_end (hphase : p.phase = .set) (h : Reads p.format text) (hend : text.headD 0 = 0) :
    p.step = { p with phase := .finish, config := { p.config with type := .unknown } } := by
  have hpeek : p.format.peekbyte 0 = 0 := h.peek.trans hend
  simp only [Parser.step, hphase, Parser.setByte, hpeek, if_true]

/-- Behind the first byte there are four cases. -/
theorem step_set {c : UInt8} (hphase : p.phase = .set) (hfirst : Ordinary p (c :: text))
    (h : Reads p.format (c :: text)) (hnul : c ≠ 0) :
    p.step =
      if c = 93 then { p with phase := .finish, format := p.format.next, first := true }
      else if c < 128 then
        if text.headD 0 = 45 ∧ text.getD 1 0 ≠ 93 then
          { p with phase := .range (text.getD 1 0), byte := c, first := true }
        else { p.put c with format := p.format.next, first := true }
      else { p with format := p.format.next, first := true } := by
  have hpeek : p.format.peekbyte 0 = c := h.peek
  have hdash : p.format.peekbyte 1 = text.headD 0 := by
    rw [h.peekbyte 1]
    cases text <;> rfl
  have hlast : p.format.peekbyte 2 = text.getD 1 0 := h.peekbyte 2
  have hspecial : ¬ ((¬ p.first = true) ∧ (c = 93 ∨ c = 94)) := by
    rintro ⟨hnot, hhead⟩
    obtain ⟨hclose, hcaret⟩ := hfirst.resolve_left hnot
    exact hhead.elim hclose hcaret
  simp only [Parser.step, hphase, Parser.setByte, hpeek, hdash, hlast]
  rw [if_neg hnul, if_neg hspecial]

/-- The function goes wrong on the way. -/
def Faults (p : Parser) : Prop := ∃ q, Leads Parser.step (fun _ => True) p q ∧ ¬ Sound q

theorem Faults.behind (hleads : Leads Parser.step Sound p q) (h : Faults q) : Faults p := by
  obtain ⟨r, hrest, hnot⟩ := h
  exact ⟨r, (hleads.mono fun _ _ => trivial).trans hrest, hnot⟩

/-- An item of the set has been read. -/
structure ItemRead (p q : Parser) (c : UInt8) (text rest : List UInt8) : Prop where
  leads : Leads Parser.step Sound p q
  phase : q.phase = .set
  first : q.first = true
  reads : Reads q.format rest
  suffix : rest <:+ text
  fits : Fits (c :: text) ↔ Fits rest
  parse : ∀ fuel, parseSetFrom p.exclude (fuel + 1) p.config.set (c :: text) =
    parseSetFrom q.exclude fuel q.config.set rest
  config : q.config = { p.config with set := q.config.set }
  argument : q.argument = p.argument
  args : q.args = p.args

/-- An item is read, or it is a range that ends behind the set. -/
theorem leads_item {c : UInt8} (hphase : p.phase = .set) (hfirst : Ordinary p (c :: text)) (hsound : Sound p)
    (h : Reads p.format (c :: text)) (hnul : c ≠ 0) (hclose : c ≠ 93) :
    (∃ q rest, ItemRead p q c text rest) ∨ ¬ Fits (c :: text) ∧ Faults p := by
  have hstep := step_set hphase hfirst h hnul
  rw [if_neg hclose] at hstep
  by_cases hlow : c < 128
  · rw [if_pos hlow] at hstep
    by_cases hdash : text.headD 0 = 45 ∧ text.getD 1 0 ≠ 93
    · rw [if_pos hdash] at hstep
      have hends := rangeEnds_range hnul hclose ⟨hlow, hdash⟩
      by_cases hlast : text.getD 1 0 < 128
      · -- a range of the set
        left
        have hlast' : (text.getD 1 0).toNat < 128 := hlast
        obtain ⟨byte, set, touched, hput, hleads⟩ := @leads_range
          { p with phase := .range (text.getD 1 0), byte := c, first := true } (c :: text) _ hlast 256 rfl
          (UInt8.le_of_lt hlow) (by omega) ⟨hsound.pos_le, hsound.touched⟩ h
        refine ⟨_, text.drop 2, .cons hsound hstep hleads, rfl, rfl, h.skip 3, List.drop_suffix 2 text,
          hends.trans (and_iff_right hlast), fun fuel => ?_, rfl, rfl, rfl⟩
        rw [parseSetFrom, if_neg hclose, if_pos hlow, if_pos hdash]
        exact congrArg (Option.bind · _) hput
      · -- a range that goes on behind it
        right
        obtain ⟨q, hleads, hnot⟩ := @leads_range_high
          { p with phase := .range (text.getD 1 0), byte := c, first := true } _ (UInt8.not_lt.mp hlast) rfl
          (UInt8.le_of_lt hlow)
        exact ⟨fun hfits => hlast (hends.mp hfits).1, q, .cons trivial hstep hleads, hnot⟩
    · -- a byte of the set
      left
      rw [if_neg hdash] at hstep
      obtain ⟨set, hput, -⟩ := putBit_spec hlow p.exclude p.config.set
      have hsound' : Sound { p.put c with format := p.format.next, first := true } :=
        ⟨h.next.pos_le, (hsound.put hlow).touched⟩
      refine ⟨_, text, .cons hsound hstep (.refl hsound'), hphase, rfl, h.next, List.suffix_rfl, ?_, fun fuel => ?_,
        rfl, rfl, rfl⟩
      · rw [Fits, rangeEnds_byte hnul hclose (fun hrange => hdash hrange.2), Fits]
      · rw [parseSetFrom, if_neg hclose, if_pos hlow, if_neg hdash, Parser.put, hput]
        rfl
  · -- a byte that no set contains
    left
    rw [if_neg hlow] at hstep
    have hsound' : Sound { p with format := p.format.next, first := true } := ⟨h.next.pos_le, hsound.touched⟩
    refine ⟨_, text, .cons hsound hstep (.refl hsound'), hphase, rfl, h.next, List.suffix_rfl, ?_, fun fuel => ?_,
      rfl, rfl, rfl⟩
    · rw [Fits, rangeEnds_byte hnul hclose (fun hrange => hlow hrange.1), Fits]
    · rw [parseSetFrom, if_neg hclose, if_neg hlow]

/-- The set has been read to its end. -/
structure SetRead (p q : Parser) (text : List UInt8) : Prop where
  leads : Leads Parser.step Sound p q
  phase : q.phase = .finish
  parse : 0 ∉ text → ∀ fuel, text.length ≤ fuel → ∃ closed rest,
    parseSetFrom p.exclude fuel p.config.set text = some (closed, q.config.set, rest) ∧ Reads q.format rest ∧
      q.argument = p.argument ∧ q.args = p.args ∧
      q.config = { p.config with set := q.config.set, type := if closed then p.config.type else .unknown }

theorem SetRead.cons {r : Parser} {c : UInt8} {rest : List UInt8} (h : SetRead q r rest)
    (hitem : ItemRead p q c text rest) : SetRead p r (c :: text) where
  leads := hitem.leads.trans h.leads
  phase := h.phase
  parse hzero fuel hfuel := by
    have hlength := hitem.suffix.length_le
    rw [List.length_cons] at hfuel
    obtain ⟨fuel, rfl⟩ : ∃ n, fuel = n + 1 := ⟨fuel - 1, by omega⟩
    obtain ⟨closed, rest', hread, hreads, hargument, hargs, hconfig⟩ :=
      h.parse (fun hmem => hzero (List.mem_cons_of_mem _ (hitem.suffix.mem hmem))) fuel (by omega)
    refine ⟨closed, rest', (hitem.parse fuel).trans hread, hreads, hargument.trans hitem.argument,
      hargs.trans hitem.args, ?_⟩
    rw [hconfig, hitem.config]

/-- A set whose ranges fit is read to its end, and no other is. -/
theorem leads_set (hphase : p.phase = .set) (hfirst : Ordinary p text) (hsound : Sound p) (h : Reads p.format text) :
    (Fits text ∧ ∃ q, SetRead p q text) ∨ ¬ Fits text ∧ Faults p := by
  induction hn : text.length using Nat.strong_induction_on generalizing p text with
  | _ n ih =>
    subst hn
    by_cases hnul : text.headD 0 = 0
    · have hstep := step_set_end hphase h hnul
      refine .inl ⟨fits_of_end (.inl hnul), _, .cons hsound hstep (.refl ⟨hsound.pos_le, hsound.touched⟩), rfl,
        fun hzero fuel hfuel => ?_⟩
      cases text with
      | nil =>
        refine ⟨false, [], ?_, h, rfl, rfl, rfl⟩
        cases fuel <;> rfl
      | cons c text => exact absurd List.mem_cons_self (hnul ▸ hzero)
    cases text with
    | nil => exact absurd rfl hnul
    | cons c text =>
      have hc : c ≠ 0 := hnul
      by_cases hclose : c = 93
      · have hstep := step_set hphase hfirst h hc
        rw [if_pos hclose] at hstep
        refine .inl ⟨fits_of_end (.inr hclose), _, .cons hsound hstep (.refl ⟨h.next.pos_le, hsound.touched⟩), rfl,
          fun hzero fuel hfuel => ?_⟩
        obtain ⟨fuel, rfl⟩ : ∃ n, fuel = n + 1 := ⟨fuel - 1, by simp only [List.length_cons] at hfuel; omega⟩
        exact ⟨true, text, if_pos hclose, h.next, rfl, rfl, rfl⟩
      · rcases leads_item hphase hfirst hsound h hc hclose with ⟨q, rest, hitem⟩ | hfaults
        · have hlt := Nat.lt_succ_of_le hitem.suffix.length_le
          rcases @ih rest.length hlt q rest hitem.phase (.inl hitem.first) hitem.leads.last hitem.reads rfl with
            ⟨hfits, r, hread⟩ | ⟨hnot, hfaults⟩
          · exact .inl ⟨hitem.fits.mpr hfits, r, hread.cons hitem⟩
          · exact .inr ⟨mt hitem.fits.mp hnot, hfaults.behind hitem.leads⟩
        · exact .inr hfaults

/-- The first byte of a set has been read, if it is special. -/
structure Opened (p q : Parser) (body : List UInt8) : Prop where
  leads : Leads Parser.step Sound p q
  phase : q.phase = .set
  ordinary : Ordinary q (itemText body)
  reads : Reads q.format (itemText body)
  parse : ∃ fuel, (itemText body).length ≤ fuel ∧
    parseSet body = parseSetFrom q.exclude fuel q.config.set (itemText body)
  config : q.config = { p.config with set := q.config.set }
  argument : q.argument = p.argument
  args : q.args = p.args

theorem step_first (hphase : p.phase = .set) (hfirst : p.first = false)
    (h : p.format.peekbyte 0 = 93 ∨ p.format.peekbyte 0 = 94) : p.step = { p.firstByte with first := true } := by
  have hnul : p.format.peekbyte 0 ≠ 0 := by
    rcases h with h | h <;> rw [h] <;> decide
  simp only [Parser.step, hphase, Parser.setByte]
  rw [if_neg hnul, if_pos ⟨by rw [hfirst]; exact Bool.false_ne_true, h⟩]

theorem leads_first (hphase : p.phase = .set) (hfirst : p.first = false) (hexclude : p.exclude = false)
    (hset : p.config.set = 0) (hsound : Sound p) (h : Reads p.format body) : ∃ q, Opened p q body := by
  have hclose : (93 : UInt8) < 128 := by decide
  fun_cases parseSet body
  case case1 rest =>
    have hpeek : p.format.peekbyte 0 = 93 := h.peek
    obtain ⟨set, hput, -⟩ := putBit_spec hclose false 0
    have hstep : p.step = { p.put 93 with format := p.format.next, first := true } := by
      rw [step_first hphase hfirst (.inl hpeek), Parser.firstByte, if_pos hpeek]
    have hsound' : Sound { p.put 93 with format := p.format.next, first := true } :=
      ⟨h.next.pos_le, (hsound.put hclose).touched⟩
    refine ⟨_, .cons hsound hstep (.refl hsound'), hphase, .inl rfl, h.next, ⟨_, Nat.le_succ _, ?_⟩, rfl, rfl, rfl⟩
    simp only [Parser.put, hexclude, hset, hput]
    rw [parseSet, hput]
    rfl
  case case2 rest =>
    have hpeek : p.format.peekbyte 0 = 94 := h.peek
    have hnext : p.format.peekbyte 1 = 93 := h.peekbyte 1
    have hnot : p.format.peekbyte 0 ≠ 93 := by rw [hpeek]; decide
    obtain ⟨set, hput, -⟩ := putBit_spec hclose true (BitVec.allOnes 128)
    have hstep : p.step = { p with
        exclude := true, format := p.format.next.next, first := true, touched := 93 :: p.touched
        config := { p.config with set := set } } := by
      rw [step_first hphase hfirst (.inr hpeek), Parser.firstByte, if_neg hnot]
      simp only [hnext, if_true, Parser.put, hput, Option.getD_some]
    refine ⟨_, .cons hsound hstep (.refl ⟨h.next.next.pos_le, (hsound.put hclose).touched⟩), hphase, .inl rfl,
      h.next.next, ⟨_, Nat.le_add_right _ 2, ?_⟩, rfl, rfl, rfl⟩
    rw [parseSet, hput]
    rfl
  case case3 rest hnext =>
    have hhead : rest.headD 0 ≠ 93 := headD_ne (by decide) fun text h => hnext text h
    have hpeek : p.format.peekbyte 0 = 94 := h.peek
    have hnot : p.format.peekbyte 0 ≠ 93 := by rw [hpeek]; decide
    have hnot' : p.format.peekbyte 1 ≠ 93 := by
      rw [h.peekbyte 1]
      cases rest <;> exact hhead
    have hstep : p.step = { p with
        exclude := true, format := p.format.next, first := true
        config := { p.config with set := BitVec.allOnes 128 } } := by
      rw [step_first hphase hfirst (.inr hpeek), Parser.firstByte, if_neg hnot]
      simp only [hnot', if_false]
    have htext := (itemText_caret hhead).2
    refine ⟨_, .cons hsound hstep (.refl ⟨h.next.pos_le, hsound.touched⟩), hphase, .inl rfl, ?_,
      ⟨(94 :: rest).length, ?_, ?_⟩, rfl, rfl, rfl⟩
    · rw [htext]
      exact h.next
    · rw [htext]
      exact Nat.le_succ _
    · rw [htext]
      exact parseSet.eq_3 rest hnext
  case case4 hbracket hboth hcaret =>
    have hhead : body.headD 0 ≠ 93 ∧ body.headD 0 ≠ 94 :=
      ⟨headD_ne (by decide) fun rest h => hbracket rest h, headD_ne (by decide) fun rest h => hcaret rest h⟩
    have htext := (itemText_plain hhead.1 hhead.2).2.2
    refine ⟨p, .refl hsound, hphase, ?_, ?_, ⟨body.length + 1, ?_, ?_⟩, rfl, rfl, rfl⟩
    · rw [htext]
      exact .inr hhead
    · rw [htext]
      exact h
    · rw [htext]
      exact Nat.le_succ _
    · rw [htext, hexclude, hset]
      exact parseSet.eq_4 body hbracket hboth hcaret

/-! ## The directive -/

theorem scanConversion_set (c : UInt8) : (scanConversion c).1 = .set ↔ c = 91 := by
  unfold scanConversion
  split <;> simp_all

theorem step_conversion (hphase : p.phase = .conversion) (h : Reads p.format text) :
    ∃ f, Reads f (parseModifier text).2.tail ∧ p.step = { p with
      phase := if (parseModifier text).2.headD 0 = 91 then .set else .finish
      format := f
      config := { p.config with
        type := (scanConversion ((parseModifier text).2.headD 0)).1
        modifier := (parseModifier text).1
        flags := { p.config.flags with upperCase := (scanConversion ((parseModifier text).2.headD 0)).2 } } } := by
  obtain ⟨hmodifier, hreads⟩ := takeModifier_reads h
  have hbyte : (takeModifier p.format).2.readbyte.1 = (parseModifier text).2.headD 0 :=
    (readbyte_fst _).trans hreads.peek
  refine ⟨(takeModifier p.format).2.next, hreads.tail, ?_⟩
  simp only [Parser.step, hphase, hbyte, hmodifier, scanConversion_set]

/-- The argument is fetched, unless there is nothing to store. -/
def fetchArgument (config : ScanConfig) (index : UInt32) (args : VariadicArgs) (rest : List UInt8) :
    ScanConfig × List UInt8 × VariadicArgs :=
  if config.type = .unknown ∨ config.flags.suppressInput then ({ config with data := none }, rest, args)
  else ({ config with data := some (args.get index).1 }, rest, (args.get index).2)

theorem step_finish (hphase : p.phase = .finish) (rest : List UInt8) :
    p.step.phase = .done ∧ p.step.format = p.format ∧ p.step.touched = p.touched ∧
      (p.step.config, rest, p.step.args) = fetchArgument p.config p.argument p.args rest := by
  simp only [Parser.step, hphase, fetchArgument]
  split <;> exact ⟨rfl, rfl, rfl, rfl⟩

theorem conversionText_suffix (text : List UInt8) : conversionText text <:+ text :=
  (parseModifier_suffix _).trans ((parseNumber_suffix 0 _).trans ((parseScanFlags_suffix {} _).trans
    (parseArgument_suffix text)))

/-- What is known of the directive up to its conversion. -/
def frontConfig (text : List UInt8) : ScanConfig :=
  let (flags, format) := parseScanFlags {} (parseArgument text).2
  let (type, upperCase) := scanConversion ((conversionText text).headD 0)
  ⟨type, (parseModifier (parseNumber 0 format).2).1, { flags with upperCase := upperCase },
    (parseNumber 0 format).1, 0, none, 0⟩

/-- The conversion has been read. -/
structure Converted (p q : Parser) (text : List UInt8) : Prop where
  leads : Leads Parser.step Sound p q
  phase : q.phase = if (conversionText text).headD 0 = 91 then .set else .finish
  reads : Reads q.format (conversionText text).tail
  first : q.first = false
  exclude : q.exclude = false
  config : q.config = frontConfig text
  argument : q.argument = (parseArgument text).1
  args : q.args = p.args

theorem leads_converted (args : VariadicArgs) (h : Reads b text) : ∃ q, Converted (.start b args) q text := by
  obtain ⟨q, hfront, hreads, hq⟩ := leads_conversion args h
  have hsound := hfront.last
  obtain ⟨f, hf, hstep⟩ := step_conversion (congrArg Parser.phase hq) hreads
  refine ⟨_, hfront.trans (.cons hsound hstep (.refl ⟨hf.pos_le, hsound.touched⟩)), rfl, hf, ?_, ?_, ?_, ?_, ?_⟩
  · show q.first = _
    exact congrArg Parser.first hq
  · show q.exclude = _
    exact congrArg Parser.exclude hq
  · show ScanConfig.mk _ _ _ _ _ _ _ = _
    rw [congrArg Parser.config hq]
    rfl
  · show q.argument = _
    exact congrArg Parser.argument hq
  · show q.args = args
    exact congrArg Parser.args hq

/-- The function comes to its end. -/
structure Parsed (p q : Parser) (text : List UInt8) (args : VariadicArgs) : Prop where
  leads : Leads Parser.step Sound p q
  phase : q.phase = .done
  parse : 0 ∉ text → ∃ rest, parseScanSpecifier text args = some (q.config, rest, q.args) ∧ Reads q.format rest


theorem Parsed.of_finish (args : VariadicArgs) (hleads : Leads Parser.step Sound p q) (hphase : q.phase = .finish)
    (hparse : 0 ∉ text → ∃ rest, Reads q.format rest ∧
      parseScanSpecifier text args = some (fetchArgument q.config q.argument q.args rest)) :
    Parsed p q.step text args := by
  obtain ⟨hdone, hformat, htouched, -⟩ := step_finish hphase []
  have hsound : Sound q.step := by
    refine ⟨?_, ?_⟩
    · rw [hformat]
      exact hleads.last.pos_le
    · rw [htouched]
      exact hleads.last.touched
  refine ⟨hleads.trans (.cons hleads.last rfl (.refl hsound)), hdone, fun hzero => ?_⟩
  obtain ⟨rest, hreads, hresult⟩ := hparse hzero
  refine ⟨rest, ?_, hformat ▸ hreads⟩
  rw [(step_finish hphase rest).2.2.2]
  exact hresult

/-- The directive, cut at its conversion. -/
theorem parseScanSpecifier_eq (text : List UInt8) (args : VariadicArgs) :
    parseScanSpecifier text args =
      if (conversionText text).headD 0 = 91 then
        (parseSet (conversionText text).tail).map fun parsed =>
          fetchArgument { frontConfig text with
            type := if parsed.1 then .set else .unknown, set := parsed.2.1 } (parseArgument text).1 args parsed.2.2
      else some (fetchArgument (frontConfig text) (parseArgument text).1 args (conversionText text).tail) := by
  simp only [← scanConversion_set]
  rfl

/-- The function comes to its end, or goes wrong in a range that does not fit. -/
theorem leads_specifier (args : VariadicArgs) (h : Reads b text) :
    (RangesFit text ∧ ∃ q, Parsed (.start b args) q text args) ∨ ¬ RangesFit text ∧ Faults (.start b args) := by
  obtain ⟨q, hq⟩ := leads_converted args h
  by_cases hset : (conversionText text).headD 0 = 91
  · have hphase : q.phase = .set := hq.phase.trans (if_pos hset)
    have htype : (frontConfig text).type = .set := (scanConversion_set _).mpr hset
    have hbody : setBody text = some (conversionText text).tail := if_pos hset
    have hfits : RangesFit text ↔ Fits (itemText (conversionText text).tail) :=
      ⟨fun hall => hall _ hbody, fun hfit body h => Option.some.inj (hbody.symm.trans h) ▸ hfit⟩
    obtain ⟨r, hr⟩ := leads_first hphase hq.first hq.exclude (congrArg ScanConfig.set hq.config) hq.leads.last hq.reads
    rw [hfits]
    rcases leads_set hr.phase hr.ordinary hr.leads.last hr.reads with ⟨hfit, s, hs⟩ | ⟨hnot, hfaults⟩
    · left
      refine ⟨hfit, s.step, .of_finish args (hq.leads.trans (hr.leads.trans hs.leads)) hs.phase fun hzero => ?_⟩
      have hitems : 0 ∉ itemText (conversionText text).tail := fun hmem =>
        hzero ((conversionText_suffix text).mem (List.mem_of_mem_tail (mem_itemText hmem)))
      obtain ⟨fuel, hfuel, hparse⟩ := hr.parse
      obtain ⟨closed, rest, hread, hreads, hargument, hargs, hconfig⟩ := hs.parse hitems fuel hfuel
      refine ⟨rest, hreads, ?_⟩
      rw [parseScanSpecifier_eq, if_pos hset, hparse, hread, hargument, hr.argument, hq.argument, hargs, hr.args,
        hq.args, hconfig, hr.config, hq.config]
      simp only [Option.map_some, htype]
      rfl
    · exact .inr ⟨hnot, hfaults.behind (hq.leads.trans hr.leads)⟩
  · left
    refine ⟨fun body hbody => ?_, q.step, .of_finish args hq.leads (hq.phase.trans (if_neg hset)) fun _ => ?_⟩
    · have hnone : setBody text = none := if_neg hset
      rw [hnone] at hbody
      exact absurd hbody.symm (Option.some_ne_none body)
    · refine ⟨_, hq.reads, ?_⟩
      rw [parseScanSpecifier_eq, if_neg hset, hq.argument, hq.args, hq.config]
      rfl

/-- What the steps compute is what the function returns. -/
theorem parser_parses (args : VariadicArgs) (h : Reads b text) (hzero : 0 ∉ text) (hfit : RangesFit text) :
    ∃ n rest, (Parser.step^[n] (.start b args)).phase = .done ∧
      parseScanSpecifier text args =
        some ((Parser.step^[n] (.start b args)).config, rest, (Parser.step^[n] (.start b args)).args) ∧
      Reads (Parser.step^[n] (.start b args)).format rest := by
  rcases leads_specifier args h with ⟨-, q, hq⟩ | ⟨hnot, -⟩
  · obtain ⟨n, rfl⟩ := hq.leads.exists_iterate
    obtain ⟨rest, hparse, hreads⟩ := hq.parse hzero
    exact ⟨n, rest, hq.phase, hparse, hreads⟩
  · exact absurd hfit hnot

theorem step_done (h : p.phase = .done) : p.step = p := by
  simp only [Parser.step, h]

/-- **When the function ends, and stays inside the format and the set.** -/
theorem parser_total_iff (args : VariadicArgs) (h : Reads b text) : Total (.start b args) ↔ RangesFit text := by
  rcases leads_specifier args h with ⟨hfit, q, hq⟩ | ⟨hnot, q, hleads, hbad⟩
  · refine iff_of_true ⟨?_, hq.leads.always (step_done hq.phase)⟩ hfit
    obtain ⟨n, hn⟩ := hq.leads.exists_iterate
    exact ⟨n, hn ▸ hq.phase⟩
  · exact iff_of_false (fun htotal => hleads.not_always hbad htotal.2) hnot

/-- `%[a-c]` -/
theorem parser_total_letters :
    Reads (.fixed [91, 97, 45, 99, 93] 5) [91, 97, 45, 99, 93] ∧
      Total (.start (.fixed [91, 97, 45, 99, 93] 5) (.init fun _ => 0)) := by
  have hreads := reads_fixed [91, 97, 45, 99, 93] (Nat.le_refl 5)
  have hfit : RangesFit [91, 97, 45, 99, 93] := by
    intro body hbody
    have hbody' : setBody [91, 97, 45, 99, 93] = some [97, 45, 99, 93] := rfl
    cases hbody.symm.trans hbody'
    intro c hc
    have hlast : c = 99 := by simpa [itemText, leading, behindCaret, negated, rangeEnds] using hc
    rw [hlast]
    decide
  exact ⟨hreads, (parser_total_iff _ hreads).mpr hfit⟩

/-- `%[a-\x80]` sets a bit behind the set. -/
theorem not_parser_total :
    ¬ ∀ (b : Buffer) (text : List UInt8) (args : VariadicArgs), Reads b text → Total (.start b args) := by
  intro h
  have hreads := reads_fixed [91, 97, 45, 128, 93] (Nat.le_refl 5)
  have htotal := h _ _ (.init fun _ => 0) hreads
  rcases leads_specifier (.init fun _ => 0) hreads with ⟨hfit, -⟩ | ⟨-, q, hleads, hbad⟩
  · have hlast := hfit [97, 45, 128, 93] rfl 128
    exact absurd (hlast (by simp [itemText, leading, behindCaret, negated, rangeEnds])) (by decide)
  · exact hleads.not_always hbad htotal.2

end WindowsLibc.Scanf
