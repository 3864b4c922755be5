import WindowsLibc.Scanf.Locality

/-!
# What a directive matches

`Matches` says, by its first bytes, what a directive that skips white space finds in its field.

* `doScan_gains`: if it matches, something is read.
* `doScan_unmatched`: if it does not, nothing is counted.
-/

namespace WindowsLibc.Scanf

open WindowsLibc.Printf

variable {b b' b'' : Buffer} {c c' : UInt32}

/-- A digit, or a separator that `parse_digits` takes. -/
def DigitStarts (groupDigits : Bool) (b : Buffer) : Prop :=
  isDigit (b.peekbyte 0) ∨ (b.peekbyte 0 = 44 ∧ groupDigits = true ∧
    (b.peekbyte 1 = 0 ∨ (isDigit (b.peekbyte 1) ∧ isDigit (b.peekbyte 2) ∧ isDigit (b.peekbyte 3))))

/-- The first bytes of the field are what the directive looks for. -/
def Matches (config : ScanConfig) (b : Buffer) : Prop :=
  match config.type with
  | .intNumber =>
    b.peekbyte 0 = 45 ∨ b.peekbyte 0 = 43 ∨ DigitStarts config.flags.groupDigits b
  | .uintNumber => b.peekbyte 0 = 43 ∨ DigitStarts config.flags.groupDigits b
  | .uintBinary => (binDigit (b.peekbyte 0)).isSome
  | .uintOctal => (octDigit (b.peekbyte 0)).isSome
  | .uintHex => (hexNibble (b.peekbyte 0)).isSome
  | .doubleNormal | .doubleScientific | .doubleScientificShort =>
    b.peekbyte 0 = 43 ∨ b.peekbyte 0 = 45 ∨ (parseFloatInfOrNan b 0).count ≠ 0 ∨
      DigitStarts config.flags.groupDigits b ∨ b.peekbyte 0 = 46 ∨ toLower (b.peekbyte 0) = 101
  | .doubleHex =>
    let b := (takeFloatSign b).2.2
    (parseFloatInfOrNan b 0).count ≠ 0 ∨ (b.peekbyte 0 = 48 ∧ toLower (b.peekbyte 1) = 120)
  | .pointer => b.peekbyte 0 = 48 ∧ toLower (b.next.peekbyte 0) = 120
  | .string => b.peekbyte 0 ≠ 0 ∧ isSpace (b.peekbyte 0) = false ∧
    (config.flags.suppressInput = true ∨ (config.modifier ≠ .long ∧ config.modifier ≠ .longLong) ∨
      (decodeHere b).1 ≠ 0)
  | _ => False

/-- The position has moved. -/
def Gains (b b' : Buffer) : Prop := b.pos < b'.pos

theorem Moves.pos_le (h : Moves b c c' b') : b.pos ≤ b'.pos := by
  obtain ⟨k, -, -, rfl⟩ := h
  exact Nat.le_add_right _ _

theorem gains_next (hpeek : b.peekbyte 0 ≠ 0) (h : Moves b.next c c' b') : Gains b b' := by
  have hle := h.pos_le
  rw [next_of_peekbyte hpeek] at hle
  exact hle

theorem Gains.moves (h : Gains b b') (h' : Moves b' c c' b'') : Gains b b'' :=
  Nat.lt_of_lt_of_le h h'.pos_le

theorem Moves.gains (h : Moves b c c' b') (h' : Gains b' b'') : Gains b b'' :=
  Nat.lt_of_le_of_lt h.pos_le h'

/-- What is counted has been read. -/
theorem Moves.gains_of_count (h : Moves b c c' b') (hcount : c' ≠ c) : Gains b b' := by
  obtain ⟨k, -, rfl, rfl⟩ := h
  rcases Nat.eq_zero_or_pos k with rfl | hk
  · exact absurd (UInt32.add_zero c) hcount
  · exact Nat.lt_add_of_pos_right hk

/-- The first byte is taken, or the loop ends where it is. -/
theorem readWhile_gains {α : Type} {body : α → UInt8 → Option α} {value : α}
    (hpeek : b.peekbyte 0 ≠ 0) (hbody : body value (b.peekbyte 0) ≠ none) (c : UInt32) :
    Gains b (readWhile body value c b).buffer := by
  obtain ⟨-, hpos⟩ := lt_of_peekbyte hpeek
  obtain ⟨fuel, hfuel⟩ : ∃ fuel, b.size - b.pos = fuel + 1 := ⟨b.size - b.pos - 1, by omega⟩
  obtain ⟨value', hvalue⟩ := Option.ne_none_iff_exists'.mp hbody
  rw [readWhile, hfuel, readFrom, if_neg hpeek, hvalue]
  exact gains_next hpeek (readFrom_moves _ _ _ _ _)

theorem readWhile_stops {α : Type} {body : α → UInt8 → Option α} {value : α}
    (hbody : b.peekbyte 0 = 0 ∨ body value (b.peekbyte 0) = none) (c : UInt32) :
    readWhile body value c b = ⟨value, c, b⟩ := by
  rw [readWhile]
  cases b.size - b.pos with
  | zero => rfl
  | succ fuel =>
    rw [readFrom]
    rcases hbody with hzero | hnone
    · rw [if_pos hzero]
    · rw [hnone, ite_self]

/-- `parse_digits`, at the first digit: it takes a byte, or stops where it is. -/
theorem parseDigits_starts (groupDigits : Bool) (c : UInt32) (b : Buffer) :
    let digit := parseDigits { groupDigits := groupDigits } c b
    (DigitStarts groupDigits b → Gains b digit.2.2.2) ∧
      (¬ DigitStarts groupDigits b → digit.1 = 0 ∧ digit.2.2.1 = c ∧ digit.2.2.2 = b) := by
  intro digit
  simp only [digit, parseDigits, parseDigitsFrom]
  by_cases hzero : b.peekbyte 0 = 0
  · have hnot : ¬ DigitStarts groupDigits b := by
      rintro (hdigit | ⟨hcomma, -⟩)
      · exact isDigit_ne_zero hdigit hzero
      · rw [hzero] at hcomma
        cases hcomma
    rw [if_pos hzero]
    exact ⟨fun h => absurd h hnot, fun _ => ⟨rfl, rfl, rfl⟩⟩
  rw [if_neg hzero]
  by_cases hdigit : isDigit (b.peekbyte 0) = true
  · rw [if_pos hdigit, if_neg (fun h => Bool.false_ne_true h.1)]
    exact ⟨fun _ => gains_next hzero (.refl _ c), fun h => absurd (.inl hdigit) h⟩
  rw [if_neg hdigit]
  by_cases hcomma : b.peekbyte 0 = 44 ∧ groupDigits = true
  · rw [if_pos hcomma]
    by_cases hlast : b.peekbyte 1 = 0
    · rw [if_pos hlast]
      exact ⟨fun _ => gains_next hzero (.refl _ c),
        fun h => absurd (.inr ⟨hcomma.1, hcomma.2, .inl hlast⟩) h⟩
    · rw [if_neg hlast, if_neg Bool.false_ne_true, if_neg (fun h => Bool.false_ne_true h.1),
        if_neg (fun h => absurd h.2 (by decide))]
      by_cases hgroup : isDigit (b.peekbyte 1) ∧ isDigit (b.peekbyte 2) ∧ isDigit (b.peekbyte 3)
      · rw [if_pos hgroup]
        exact ⟨fun _ => gains_next hzero (parseDigitsFrom_moves _ _ _ _),
          fun h => absurd (.inr ⟨hcomma.1, hcomma.2, .inr hgroup⟩) h⟩
      · rw [if_neg hgroup]
        refine ⟨?_, fun _ => ⟨rfl, rfl, rfl⟩⟩
        rintro (h | ⟨-, -, h | h⟩)
        · exact absurd h hdigit
        · exact absurd h hlast
        · exact absurd h hgroup
  · rw [if_neg hcomma]
    refine ⟨?_, fun _ => ⟨rfl, rfl, rfl⟩⟩
    rintro (h | ⟨h, h', -⟩)
    · exact absurd h hdigit
    · exact absurd ⟨h, h'⟩ hcomma

theorem readDigits_gains {α : Type} {groupDigits : Bool} (h : DigitStarts groupDigits b)
    (add : α → UInt8 → α) (value : α) (c : UInt32) :
    Gains b (readDigits add { groupDigits := groupDigits } value c b).buffer := by
  have hdigit := (parseDigits_starts groupDigits c b).1 h
  rw [readDigits, digitsLoop]
  generalize parseDigits { groupDigits := groupDigits } c b = digit at hdigit ⊢
  obtain ⟨byte, state, c', b'⟩ := digit
  dsimp only at hdigit ⊢
  split
  · exact hdigit
  · exact Nat.lt_of_lt_of_le hdigit (digitsLoop_moves _ _ _ _ _ _).pos_le

theorem readDigits_stops {α : Type} {groupDigits : Bool} (h : ¬ DigitStarts groupDigits b)
    (add : α → UInt8 → α) (value : α) (c : UInt32) :
    readDigits add { groupDigits := groupDigits } value c b = ⟨value, c, b⟩ := by
  have hdigit := (parseDigits_starts groupDigits c b).2 h
  rw [readDigits, digitsLoop]
  generalize parseDigits { groupDigits := groupDigits } c b = digit at hdigit ⊢
  obtain ⟨byte, state, c', b'⟩ := digit
  obtain ⟨rfl, rfl, rfl⟩ := hdigit
  rfl

theorem uintFrom_gains {shift : UInt64} {digit : UInt8 → Option UInt8} (hzero : digit 0 = none)
    (h : (digit (b.peekbyte 0)).isSome) : Gains b (uintFrom shift digit b).buffer := by
  have hpeek : b.peekbyte 0 ≠ 0 := by
    intro hpeek
    rw [hpeek, hzero] at h
    cases h
  obtain ⟨d, hd⟩ := Option.isSome_iff_exists.mp h
  exact readWhile_gains hpeek (by rw [hd]; exact Option.some_ne_none _) 0

theorem uintFrom_stops {shift : UInt64} {digit : UInt8 → Option UInt8}
    (h : ¬ (digit (b.peekbyte 0)).isSome) : uintFrom shift digit b = ⟨0, 0, b⟩ := by
  rw [Option.not_isSome_iff_eq_none] at h
  exact readWhile_stops (.inr (by rw [h]; rfl)) 0

/-- A prefix, or the first digit. -/
theorem skipPrefix_starts (letter : UInt8) (hletter : letter ≠ 32) (b : Buffer) :
    Gains b (skipPrefix letter b).2 ∨ skipPrefix letter b = (0, b) := by
  have hmoves := skipPrefix_moves letter hletter b
  unfold skipPrefix at hmoves ⊢
  split
  · next h =>
    rw [if_pos h] at hmoves
    exact .inl (hmoves.gains_of_count (show (2 : UInt32) ≠ 0 by decide))
  · exact .inr rfl

theorem skipOctalPrefix_starts (b : Buffer) :
    Gains b (skipOctalPrefix b).2 ∨ skipOctalPrefix b = (0, b) := by
  have hmoves := skipOctalPrefix_moves b
  unfold skipOctalPrefix at hmoves ⊢
  split
  · next hzero =>
    rw [if_pos hzero] at hmoves
    refine .inl (hmoves.gains_of_count ?_)
    split
    · exact show (2 : UInt32) ≠ 0 by decide
    · exact show (1 : UInt32) ≠ 0 by decide
  · exact .inr rfl

theorem floatFromNormalCommon_gains (fpu : FloatUnit) {groupDigits : Bool}
    (h : b.peekbyte 0 = 43 ∨ b.peekbyte 0 = 45 ∨ (parseFloatInfOrNan b 0).count ≠ 0 ∨
      DigitStarts groupDigits b ∨ b.peekbyte 0 = 46 ∨ toLower (b.peekbyte 0) = 101) :
    Gains b (floatFromNormalCommon fpu groupDigits b).buffer := by
  have hsign := takeFloatSign_moves b
  have hstart : (takeFloatSign b).2.1 ≠ 0 ∨ (takeFloatSign b).2.2 = b ∧
      ((parseFloatInfOrNan b 0).count ≠ 0 ∨ DigitStarts groupDigits b ∨ b.peekbyte 0 = 46 ∨
        toLower (b.peekbyte 0) = 101) := by
    unfold takeFloatSign
    split
    · exact .inl (show (1 : UInt32) ≠ 0 by decide)
    · next hnone =>
      refine .inr ⟨rfl, ?_⟩
      rcases h with h | h | h
      · exact absurd (.inl h) hnone
      · exact absurd (.inr h) hnone
      · exact h
  unfold floatFromNormalCommon
  generalize takeFloatSign b = front at hstart hsign ⊢
  obtain ⟨minus, signCount, b'⟩ := front
  dsimp only at hstart hsign ⊢
  have hspecial := parseFloatInfOrNan_moves b' 0
  have hwhole := readDigits_moves (fun value byte =>
    fpu.add (fpu.mul value (fpu.ofNat 10)) (fpu.ofNat (byte.toNat - 48)))
    { groupDigits := groupDigits } 0 signCount b'
  rcases hstart with hcount | ⟨rfl, hstart⟩
  · have hgains := hsign.gains_of_count hcount
    split
    · exact hgains.moves hspecial
    · exact (hgains.moves hwhole).moves
        (exponent_moves fpu 10 (by decide) minus (mantissa_moves (.refl _ _) (readDigits_moves _ _ _ _ _)))
  by_cases hcount : (parseFloatInfOrNan b' 0).count ≠ 0
  · rw [if_pos hcount]
    exact hspecial.gains_of_count hcount
  rw [if_neg hcount]
  by_cases hdigits : DigitStarts groupDigits b'
  · have hgains := readDigits_gains hdigits (fun value byte =>
      fpu.add (fpu.mul value (fpu.ofNat 10)) (fpu.ofNat (byte.toNat - 48))) 0 signCount
    exact hgains.moves
      (exponent_moves fpu 10 (by decide) minus (mantissa_moves (.refl _ _) (readDigits_moves _ _ _ _ _)))
  rw [readDigits_stops hdigits]
  dsimp only
  by_cases hpoint : b'.peekbyte 0 = 46
  · rw [if_pos hpoint]
    have hgains := gains_next (by rw [hpoint]; decide)
      (readDigits_moves (fun acc byte => addFraction fpu 10 acc (byte - 48))
        { fraction := true, groupDigits := groupDigits } (0, fpu.ofNat 10) (signCount + 1) b'.next)
    exact hgains.moves (exponent_moves fpu 10 (by decide) minus (.refl _ _))
  rw [if_neg hpoint]
  dsimp only
  have hexp : toLower (b'.peekbyte 0) = 101 := by
    rcases hstart with h | h | h | h
    · exact absurd h hcount
    · exact absurd h hdigits
    · exact absurd h hpoint
    · exact h
  rw [if_pos hexp]
  exact gains_next (toLower_ne_zero hexp (by decide)) (negateIf_moves fpu minus (scaleBy_moves _ _ _ _ _))

theorem negateIf_count (fpu : FloatUnit) (minus : Bool) (taken : Taken UInt64) :
    (negateIf fpu minus taken).count = taken.count := by
  unfold negateIf
  split <;> rfl

theorem floatFromNormalCommon_count (fpu : FloatUnit) {groupDigits : Bool}
    (h : ¬ (b.peekbyte 0 = 43 ∨ b.peekbyte 0 = 45 ∨ (parseFloatInfOrNan b 0).count ≠ 0 ∨
      DigitStarts groupDigits b ∨ b.peekbyte 0 = 46 ∨ toLower (b.peekbyte 0) = 101)) :
    (floatFromNormalCommon fpu groupDigits b).count = 0 := by
  simp only [not_or] at h
  obtain ⟨hplus, hminus, hspecial, hdigits, hpoint, hexp⟩ := h
  have hsign : takeFloatSign b = (false, 0, b) := if_neg (not_or.mpr ⟨hplus, hminus⟩)
  unfold floatFromNormalCommon
  rw [hsign]
  dsimp only
  rw [if_neg hspecial, readDigits_stops hdigits]
  dsimp only
  rw [if_neg hpoint]
  dsimp only
  rw [if_neg hexp, negateIf_count]

theorem floatFromHexCommon_gains (fpu : FloatUnit)
    (h : (parseFloatInfOrNan (takeFloatSign b).2.2 0).count ≠ 0 ∨
      ((takeFloatSign b).2.2.peekbyte 0 = 48 ∧ toLower ((takeFloatSign b).2.2.peekbyte 1) = 120)) :
    Gains b (floatFromHexCommon fpu b).buffer := by
  have hsign := takeFloatSign_moves b
  unfold floatFromHexCommon
  generalize takeFloatSign b = front at h hsign ⊢
  obtain ⟨minus, signCount, b'⟩ := front
  dsimp only at h hsign ⊢
  by_cases hspecial : (parseFloatInfOrNan b' 0).count ≠ 0
  · rw [if_pos hspecial]
    exact hsign.gains ((parseFloatInfOrNan_moves b' 0).gains_of_count hspecial)
  rw [if_neg hspecial]
  obtain ⟨hzero, hx⟩ := h.resolve_left hspecial
  have hzero' : b'.peekbyte 0 ≠ 0 := by
    rw [hzero]
    decide
  have hnext : b'.next.peekbyte 0 = b'.peekbyte 1 := by
    rw [next_of_peekbyte hzero', peekbyte_skip]
  have hnext' : b'.next.peekbyte 0 ≠ 0 := by
    rw [hnext]
    exact toLower_ne_zero hx (by decide)
  simp only [readbyte_fst]
  rw [if_neg (not_not.mpr hzero), hnext, if_neg (not_not.mpr hx)]
  have hskip : Gains b b'.next.next := hsign.gains (gains_next hzero' (moves_next hnext' 0))
  exact hskip.moves (exponent_moves fpu 2 (by decide) minus
    (mantissa_moves (readWhile_moves _ _ _ _) (readWhile_moves _ _ _ _)))

theorem stringLoop_gains {modifier : Modifier} {fuel : Nat} {out out' : Buffer} {finished : Bool}
    (hsize : b.size ≤ 2 ^ 64) (hpeek : b.peekbyte 0 ≠ 0) (hspace : isSpace (b.peekbyte 0) = false)
    (hdecode : (modifier ≠ .long ∧ modifier ≠ .longLong) ∨ (decodeHere b).1 ≠ 0)
    (h : stringLoop modifier (fuel + 1) c b out = some (finished, c', b', out')) : Gains b b' := by
  have hgo : ¬ (b.peekbyte 0 = 0 ∨ isSpace (b.peekbyte 0) = true) := by
    rw [hspace]
    exact not_or.mpr ⟨hpeek, Bool.false_ne_true⟩
  have hadvance (hcount : (decodeHere b).1 ≠ 0) : Gains b (b.advance (decodeHere b).1) := by
    rw [(decodeHere_solid hpeek hsize).advance hcount]
    exact Nat.lt_add_of_pos_right (Nat.pos_of_ne_zero hcount)
  cases modifier with
  | long =>
    have hcount := hdecode.resolve_left (fun h => h.1 rfl)
    simp only [stringLoop, hgo, if_false, hcount] at h
    obtain ⟨out₁, -, h⟩ := Option.bind_eq_some_iff.mp h
    exact (hadvance hcount).moves (stringLoop_moves (b := b.advance _) hsize h)
  | longLong =>
    have hcount := hdecode.resolve_left (fun h => h.2 rfl)
    simp only [stringLoop, hgo, if_false, hcount] at h
    exact (hadvance hcount).moves (stringLoop_moves (b := b.advance _) hsize h)
  | _ =>
    simp only [stringLoop, hgo, if_false] at h
    have hnext : b.next.size ≤ 2 ^ 64 := by
      rw [next_of_peekbyte hpeek]
      exact hsize
    exact gains_next hpeek (stringLoop_moves hnext h)

theorem stringLoop_stops {modifier : Modifier} (fuel : Nat) (c : UInt32) (out : Buffer)
    (h : b.peekbyte 0 ≠ 0 → isSpace (b.peekbyte 0) = false →
      (modifier = .long ∨ modifier = .longLong) ∧ (decodeHere b).1 = 0) :
    ∃ finished, stringLoop modifier fuel c b out = some (finished, c, b, out) := by
  cases fuel with
  | zero => exact ⟨true, rfl⟩
  | succ fuel =>
    by_cases hstop : b.peekbyte 0 = 0 ∨ isSpace (b.peekbyte 0) = true
    · exact ⟨true, by simp only [stringLoop, hstop, if_true]⟩
    · obtain ⟨hpeek, hspace⟩ := not_or.mp hstop
      obtain ⟨rfl | rfl, hcount⟩ := h hpeek (Bool.eq_false_iff.mpr hspace)
      · exact ⟨false, by simp only [stringLoop, hstop, if_false, hcount, if_true]⟩
      · exact ⟨false, by simp only [stringLoop, hstop, if_false, hcount, if_true]⟩

theorem scanString_gains {env : ScanEnv} {config : ScanConfig} {st st' : Store}
    (hsize : b.size ≤ 2 ^ 64) (htype : config.type = .string) (hmatch : Matches config b)
    (h : scanString env config b st = some (c, b', st')) : Gains b b' := by
  unfold Matches at hmatch
  rw [htype] at hmatch
  obtain ⟨hpeek, hspace, hmatch⟩ := hmatch
  unfold scanString at h
  split at h
  · have hgains := @readWhile_gains b Unit
      (fun _ byte => if isSpace byte then none else some ()) () hpeek
      (by rw [hspace]; exact Option.some_ne_none _) 0
    cases h
    exact hgains
  · next hsuppress =>
    obtain ⟨fuel, hfuel⟩ : ∃ fuel, b.size - b.pos = fuel + 1 :=
      ⟨b.size - b.pos - 1, by have := (lt_of_peekbyte hpeek).2; omega⟩
    rw [hfuel] at h
    obtain ⟨⟨finished, c₁, b₁, out⟩, hloop, hresult⟩ := Option.map_eq_some_iff.mp h
    cases hresult
    exact stringLoop_gains hsize hpeek hspace (hmatch.resolve_left hsuppress) hloop

theorem scanString_unmatched {env : ScanEnv} {config : ScanConfig} (htype : config.type = .string)
    (hmatch : ¬ Matches config b) (st : Store) :
    ∃ st', scanString env config b st = some (0, b, st') := by
  unfold Matches at hmatch
  rw [htype] at hmatch
  unfold scanString
  split
  · next hsuppress =>
    have hstop : b.peekbyte 0 = 0 ∨
        (fun (_ : Unit) byte => if isSpace byte then none else some ()) () (b.peekbyte 0) = none := by
      by_contra hgo
      obtain ⟨hpeek, hspace⟩ := not_or.mp hgo
      refine hmatch ⟨hpeek, ?_, .inl hsuppress⟩
      by_contra hs
      exact hspace (if_pos (Bool.not_eq_false _ ▸ hs))
    rw [readWhile_stops hstop]
    exact ⟨st, rfl⟩
  · obtain ⟨finished, hloop⟩ := @stringLoop_stops b config.modifier (b.size - b.pos) 0
      (outBuffer env config) (by
        intro hpeek hspace
        by_contra hnot
        refine hmatch ⟨hpeek, hspace, .inr ?_⟩
        by_cases hwide : config.modifier = .long ∨ config.modifier = .longLong
        · exact .inr fun hcount => hnot ⟨hwide, hcount⟩
        · exact .inl (not_or.mp hwide))
    rw [hloop]
    exact ⟨_, rfl⟩

theorem uintFrom_matched {shift : UInt64} {digit : UInt8 → Option UInt8} {front : UInt32 × Buffer}
    (hfront : Gains b front.2 ∨ front = (0, b)) (hzero : digit 0 = none)
    (h : (digit (b.peekbyte 0)).isSome) : Gains b (uintFrom shift digit front.2).buffer := by
  rcases hfront with hgains | rfl
  · exact hgains.moves (uintFrom_moves _ _ _)
  · exact uintFrom_gains hzero h

/-- **A directive that matches reads something.** -/
theorem doScan_gains {env : ScanEnv} {config : ScanConfig} {st st' : Store} (hsize : b.size ≤ 2 ^ 64)
    (hmatch : Matches config b) (h : doScan env config b st = some (c, b', st')) : Gains b b' := by
  have hmatch' := hmatch
  unfold Matches at hmatch
  have hfloat {taken : Taken UInt64} (hgains : Gains b taken.buffer)
      (h : some (storeFloat env config st taken) = some (c, b', st')) : Gains b b' := by
    unfold storeFloat at h
    split at h <;> cases h <;> exact hgains
  unfold doScan at h
  cases hty : config.type <;> rw [hty] at h hmatch
  case intNumber =>
    cases h
    dsimp only at hmatch
    unfold intFromDecCommon
    by_cases hminus : b.peekbyte 0 = 45
    · rw [if_pos hminus]
      exact gains_next (by rw [hminus]; decide) (readDigits_moves _ _ _ _ _)
    rw [if_neg hminus]
    by_cases hplus : b.peekbyte 0 = 43
    · rw [if_pos hplus]
      exact gains_next (by rw [hplus]; decide) (readDigits_moves _ _ _ _ _)
    rw [if_neg hplus]
    exact readDigits_gains ((hmatch.resolve_left hminus).resolve_left hplus) _ _ _
  case uintNumber =>
    cases h
    dsimp only at hmatch
    unfold uintFromDecCommon
    by_cases hplus : b.peekbyte 0 = 43
    · rw [if_pos hplus]
      exact gains_next (by rw [hplus]; decide) (readDigits_moves _ _ _ _ _)
    rw [if_neg hplus]
    exact readDigits_gains (hmatch.resolve_left hplus) _ _ _
  case uintBinary =>
    cases h
    exact uintFrom_matched (skipPrefix_starts 98 (by decide) b) rfl hmatch
  case uintOctal =>
    cases h
    exact uintFrom_matched (skipOctalPrefix_starts b) rfl hmatch
  case uintHex =>
    cases h
    exact uintFrom_matched (skipPrefix_starts 120 (by decide) b) rfl hmatch
  case doubleNormal => exact hfloat (floatFromNormalCommon_gains env.fpu hmatch) h
  case doubleScientific => exact hfloat (floatFromNormalCommon_gains env.fpu hmatch) h
  case doubleScientificShort => exact hfloat (floatFromNormalCommon_gains env.fpu hmatch) h
  case doubleHex => exact hfloat (floatFromHexCommon_gains env.fpu hmatch) h
  case string => exact scanString_gains hsize hty hmatch' h
  case pointer =>
    cases h
    obtain ⟨hzero, hx⟩ := hmatch
    rw [pointerDecode, if_pos hzero, if_pos hx]
    exact gains_next (by rw [hzero]; decide)
      ((moves_next (toLower_ne_zero hx (by decide)) 0).trans ((uintFrom_moves _ _ _).add 1))
  case char => exact hmatch.elim
  case set => exact hmatch.elim
  case result => exact hmatch.elim
  case unknown => exact hmatch.elim

theorem uintFrom_unmatched {shift : UInt64} {digit : UInt8 → Option UInt8}
    {front : UInt32 × Buffer} (hfront : front = (0, b)) (h : ¬ (digit (b.peekbyte 0)).isSome) :
    front.1 + (uintFrom shift digit front.2).count = 0 := by
  rw [hfront, uintFrom_stops h]
  rfl

/-- **A directive that does not match counts nothing.** -/
theorem doScan_unmatched {env : ScanEnv} {config : ScanConfig} (hspace : config.type.keepsSpace = false)
    (hmatch : ¬ Matches config b) (st : Store) :
    ∃ b' st', doScan env config b st = some (0, b', st') := by
  have hmatch' := hmatch
  unfold Matches at hmatch
  have hfloat {taken : Taken UInt64} (hcount : taken.count = 0) :
      ∃ b' st', some (storeFloat env config st taken) = some (0, b', st') := by
    unfold storeFloat
    rw [hcount]
    split <;> exact ⟨_, _, rfl⟩
  have hinteger {front : UInt32} {value : UInt64} {count : UInt32} {b₁ : Buffer}
      (hcount : front + count = 0) :
      ∃ b' st', some (storeInteger config st front value count b₁) = some (0, b', st') := by
    unfold storeInteger
    rw [hcount]
    exact ⟨_, _, rfl⟩
  unfold doScan
  cases hty : config.type <;> rw [hty] at hmatch hspace
  case intNumber =>
    refine hinteger ?_
    obtain ⟨hminus, hplus, hdigits⟩ := not_or.mp hmatch |>.imp_right not_or.mp
    unfold intFromDecCommon
    dsimp only
    rw [if_neg hminus, if_neg hplus, readDigits_stops hdigits]
    rfl
  case uintNumber =>
    refine hinteger ?_
    obtain ⟨hplus, hdigits⟩ := not_or.mp hmatch
    unfold uintFromDecCommon
    dsimp only
    rw [if_neg hplus, readDigits_stops hdigits]
    rfl
  case uintBinary =>
    refine hinteger (uintFrom_unmatched (if_neg ?_) hmatch)
    rintro ⟨hzero, -⟩
    rw [hzero] at hmatch
    exact hmatch rfl
  case uintOctal =>
    refine hinteger (uintFrom_unmatched (if_neg ?_) hmatch)
    intro hzero
    rw [hzero] at hmatch
    exact hmatch rfl
  case uintHex =>
    refine hinteger (uintFrom_unmatched (if_neg ?_) hmatch)
    rintro ⟨hzero, -⟩
    rw [hzero] at hmatch
    exact hmatch rfl
  case doubleNormal => exact hfloat (floatFromNormalCommon_count env.fpu hmatch)
  case doubleScientific => exact hfloat (floatFromNormalCommon_count env.fpu hmatch)
  case doubleScientificShort => exact hfloat (floatFromNormalCommon_count env.fpu hmatch)
  case doubleHex => exact hfloat (floatFromHexCommon_count env.fpu hmatch)
  case string => exact ⟨b, scanString_unmatched hty hmatch' st⟩
  case pointer =>
    rw [pointerDecode]
    by_cases hzero : b.peekbyte 0 = 48
    · rw [if_pos hzero, if_neg (fun hx => hmatch ⟨hzero, hx⟩)]
      exact ⟨_, _, rfl⟩
    · rw [if_neg hzero]
      exact ⟨_, _, rfl⟩
  case unknown => exact ⟨_, _, rfl⟩
  case char => cases hspace
  case set => cases hspace
  case result => cases hspace

end WindowsLibc.Scanf
