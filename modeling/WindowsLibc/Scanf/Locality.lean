import WindowsLibc.Scanf.Accounting

/-!
# What a scan depends on

A scan depends only on the bytes in front of the end of its buffer, and not on where in memory they
stand. `onto D d b` is the buffer `b` over other memory, `d` bytes further on; if that memory has the same
bytes (`Carries`), every function of `internal/convert.c` does the same there (`readFrom_onto` and its like).

* `Within` says where a conversion may leave the position, whether it counts right or not.
* `scanf_within_input`: as long as no width reaches past the end of the input, the position stays within
  the input, and what stands behind the input does not matter.
-/

namespace WindowsLibc.Scanf

open WindowsLibc.Printf

/-! ## Where a conversion ends -/

/-- The same buffer at another position, which is not behind its end unless the old one was. -/
def Within (b b' : Buffer) : Prop := ∃ p, b' = { b with pos := p } ∧ p ≤ max b.pos b.size

variable {b b' b'' : Buffer} {c c' : UInt32}

theorem Within.refl (b : Buffer) : Within b b := ⟨b.pos, rfl, Nat.le_max_left _ _⟩

theorem Within.trans (h : Within b b') (h' : Within b' b'') : Within b b'' := by
  obtain ⟨p, rfl, hp⟩ := h
  obtain ⟨q, rfl, hq⟩ := h'
  refine ⟨q, rfl, hq.trans ?_⟩
  exact Nat.max_le.mpr ⟨hp, Nat.le_max_right _ _⟩

theorem within_skip {k : Nat} (h : k = 0 ∨ b.pos + k ≤ b.size) : Within b (skip b k) := by
  refine ⟨b.pos + k, rfl, ?_⟩
  omega

theorem Moves.within (h : Moves b c c' b') : Within b b' := by
  obtain ⟨k, hsolid, -, rfl⟩ := h
  exact within_skip hsolid.le

theorem within_next (b : Buffer) : Within b b.next := by
  by_cases herror : b.error = true
  · rw [Buffer.next, Buffer.readbyte, if_pos herror]
    exact .refl b
  · by_cases hpos : b.pos < b.size
    · rw [next_of_lt (Bool.eq_false_iff.mpr herror) hpos]
      exact within_skip (.inr hpos)
    · rw [next_of_ge (Nat.not_lt.mp hpos)]
      exact .refl b

theorem within_advance (b : Buffer) (k : Nat) : Within b (b.advance k) :=
  ⟨_, rfl, (Nat.min_le_right _ _).trans (Nat.le_max_right _ _)⟩

theorem floatFromHexCommon_within (fpu : FloatUnit) (b : Buffer) :
    Within b (floatFromHexCommon fpu b).buffer := by
  by_cases hstarts : HexFloatStarts b
  · exact (floatFromHexCommon_moves fpu hstarts).within
  · have hsign := (takeFloatSign_moves b).within
    unfold HexFloatStarts at hstarts
    unfold floatFromHexCommon
    generalize takeFloatSign b = front at hstarts hsign ⊢
    obtain ⟨minus, signCount, b'⟩ := front
    dsimp only at hstarts hsign ⊢
    simp only [not_or, not_not, not_and] at hstarts
    rw [if_neg (not_not.mpr hstarts.1)]
    simp only [readbyte_fst]
    by_cases hzero : b'.peekbyte 0 = 48
    · have hnext : b'.next.peekbyte 0 = b'.peekbyte 1 := by
        rw [next_of_peekbyte (by rw [hzero]; decide), peekbyte_skip]
      rw [if_neg (not_not.mpr hzero), hnext, if_pos (hstarts.2.1 hzero)]
      exact hsign.trans ((within_next b').trans (within_next _))
    · rw [if_pos hzero]
      exact hsign.trans (within_next b')

theorem scanChar_within (config : ScanConfig) (b : Buffer) (st : Store) :
    Within b (scanChar config b st).2.1 := by
  unfold scanChar
  split
  · exact .refl b
  · split
    · dsimp only
      split
      · exact within_advance b 0
      · split <;> exact within_advance b _
    · dsimp only
      split <;> exact within_advance b _
    · exact within_next b

theorem doScan_within {env : ScanEnv} {config : ScanConfig} {st st' : Store}
    (hsize : b.size ≤ 2 ^ 64) (h : doScan env config b st = some (c, b', st')) : Within b b' := by
  by_cases haccounted : config.type ≠ .char ∧ Accounted config b
  · exact (doScan_moves haccounted.1 hsize haccounted.2 h).within
  · unfold doScan at h
    by_cases htype : config.type = .char
    · rw [htype] at h
      have hwithin := scanChar_within config b st
      rwa [Option.some.inj h] at hwithin
    · obtain ⟨-, hty⟩ := doScan_count htype (fun hacc => haccounted ⟨htype, hacc⟩) (by
        unfold doScan; exact h)
      rcases hty with hty | hty
      · rw [hty] at h
        cases h
        unfold pointerDecode
        split
        · split
          · exact (within_next b).trans ((within_next _).trans (uintFrom_moves _ _ _).within)
          · exact within_next b
        · exact .refl b
      · rw [hty] at h
        have hwithin := floatFromHexCommon_within env.fpu b
        unfold storeFloat at h
        dsimp only at h
        split at h <;> cases h <;> exact hwithin

theorem scanArg_within {env : ScanEnv} {config : ScanConfig} {st st' : Store}
    (hsize : (config.field b).size ≤ 2 ^ 64) (h : scanArg env config b st = some (c, b', st')) :
    ∃ p, b' = { b with pos := p } ∧ p ≤ max b.pos (max b.size (config.field b).size) := by
  obtain ⟨j, size, hsolid, -, hbuffer, hfield, -, hzero, -⟩ := field_eq config b
  have hj := hsolid.le
  rw [scanArg_eq] at h
  obtain ⟨⟨count, b₁, st₁⟩, hscan, hresult⟩ := Option.map_eq_some_iff.mp h
  obtain ⟨p, rfl, hp⟩ := doScan_within hsize hscan
  cases hresult
  refine ⟨p, ?_, ?_⟩
  · rw [hfield, hbuffer]
    split
    · rfl
    · next hwidth => rw [hzero (by simpa using hwidth)]; rfl
  · rw [hfield] at hp ⊢
    simp only [skip] at hp ⊢
    omega


/-! ## Over other memory -/

/-- The buffer over the memory `D`, `d` bytes further on. -/
def onto (D : List UInt8) (d : Nat) (b : Buffer) : Buffer :=
  { b with data := D, pos := b.pos + d, size := b.size + d }

/-- `D` has the bytes of the buffer there. -/
def Carries (D : List UInt8) (d : Nat) (b : Buffer) : Prop :=
  ∀ i < b.size, D.getD (i + d) 0 = b.data.getD i 0

/-- What was taken, with the buffer behind it over `D`. -/
def Taken.onto {α : Type} (D : List UInt8) (d : Nat) (t : Taken α) : Taken α :=
  ⟨t.value, t.count, Scanf.onto D d t.buffer⟩

variable {D : List UInt8} {d : Nat}

theorem peekbyte_onto (h : Carries D d b) (i : Nat) : (onto D d b).peekbyte i = b.peekbyte i := by
  unfold Buffer.peekbyte onto
  dsimp only
  split
  · rfl
  · by_cases hi : b.pos + i ≥ b.size
    · rw [if_pos hi, if_pos (by omega)]
    · rw [if_neg hi, if_neg (by omega), show b.pos + d + i = b.pos + i + d by omega]
      exact h _ (Nat.not_le.mp hi)

theorem next_onto (D : List UInt8) (d : Nat) (b : Buffer) : (onto D d b).next = onto D d b.next := by
  unfold Buffer.next Buffer.readbyte onto
  dsimp only
  split
  · rfl
  · by_cases hpos : b.pos + 1 > b.size
    · rw [if_pos hpos, if_pos (by omega)]
    · rw [if_neg hpos, if_neg (by omega)]
      simp only [Nat.add_right_comm]

theorem advance_onto (D : List UInt8) (d : Nat) (b : Buffer) (k : Nat) :
    (onto D d b).advance k = onto D d (b.advance k) := by
  unfold Buffer.advance onto
  dsimp only
  rw [Nat.add_right_comm, ← Nat.add_min_add_right]

theorem room_onto (D : List UInt8) (d : Nat) (b : Buffer) :
    (onto D d b).size - (onto D d b).pos = b.size - b.pos := Nat.add_sub_add_right _ _ _

theorem pending_onto (h : b.pos + d ≤ 2 ^ 64) : (onto D d b).pending = b.pending := by
  unfold Buffer.pending onto
  dsimp only
  congr 1
  omega

theorem Carries.within (h : Carries D d b) (hb : Within b b') : Carries D d b' := by
  obtain ⟨p, rfl, -⟩ := hb
  exact h

theorem Carries.moves (h : Carries D d b) (hb : Moves b c c' b') : Carries D d b' := h.within hb.within

theorem Carries.next (h : Carries D d b) : Carries D d b.next := h.within (within_next b)

theorem readFrom_onto {α : Type} (h : Carries D d b) (body : α → UInt8 → Option α) (fuel : Nat)
    (value : α) (c : UInt32) :
    readFrom body fuel value c (onto D d b) = (readFrom body fuel value c b).onto D d := by
  induction fuel generalizing value c b with
  | zero => rfl
  | succ fuel ih =>
    rw [readFrom, readFrom, peekbyte_onto h, next_onto]
    split
    · rfl
    · split
      · rfl
      · exact ih h.next _ _

theorem readWhile_onto {α : Type} (h : Carries D d b) (body : α → UInt8 → Option α) (value : α)
    (c : UInt32) : readWhile body value c (onto D d b) = (readWhile body value c b).onto D d := by
  rw [readWhile, readWhile, room_onto, readFrom_onto h]

theorem consumeWhitespaces_onto (h : Carries D d b) :
    consumeWhitespaces (onto D d b) = (consumeWhitespaces b).onto D d := readWhile_onto h _ _ _

theorem uintFrom_onto (h : Carries D d b) (shift : UInt64) (digit : UInt8 → Option UInt8) :
    uintFrom shift digit (onto D d b) = (uintFrom shift digit b).onto D d := readWhile_onto h _ _ _

theorem pointerDecode_onto (h : Carries D d b) :
    pointerDecode (onto D d b) = (pointerDecode b).onto D d := by
  unfold pointerDecode
  rw [peekbyte_onto h, next_onto, peekbyte_onto h.next, next_onto, uintFromHexCommon,
    uintFrom_onto h.next.next]
  split
  · split <;> rfl
  · rfl

/-- What `parse_digits` returns, with the buffer over `D`. -/
def digitOnto (D : List UInt8) (d : Nat) (digit : UInt8 × DigitParseState × UInt32 × Buffer) :
    UInt8 × DigitParseState × UInt32 × Buffer :=
  (digit.1, digit.2.1, digit.2.2.1, onto D d digit.2.2.2)

theorem parseDigitsFrom_onto (h : Carries D d b) (fuel : Nat) (state : DigitParseState)
    (c : UInt32) :
    parseDigitsFrom fuel state c (onto D d b) = digitOnto D d (parseDigitsFrom fuel state c b) := by
  induction fuel generalizing state c b with
  | zero => rfl
  | succ fuel ih =>
    rw [parseDigitsFrom, parseDigitsFrom]
    rw [peekbyte_onto h, peekbyte_onto h, peekbyte_onto h, peekbyte_onto h, next_onto, ih h.next]
    simp only [apply_ite (digitOnto D d)]
    rfl

theorem digitsLoop_onto {α : Type} (h : Carries D d b) (add : α → UInt8 → α) (fuel : Nat)
    (state : DigitParseState) (value : α) (c : UInt32) :
    digitsLoop add fuel state value c (onto D d b) =
      (digitsLoop add fuel state value c b).onto D d := by
  induction fuel generalizing state value c b with
  | zero => rfl
  | succ fuel ih =>
    have hmoves := parseDigitsFrom_moves (b.size - b.pos + 1) state c b
    have honto := parseDigitsFrom_onto h (b.size - b.pos + 1) state c
    rw [digitsLoop, digitsLoop, parseDigits, parseDigits, room_onto, honto]
    generalize parseDigitsFrom (b.size - b.pos + 1) state c b = digit at hmoves ⊢
    obtain ⟨byte, state', c', b'⟩ := digit
    dsimp only [digitOnto] at hmoves ⊢
    split
    · rfl
    · exact ih (h.moves hmoves) _ _ _

theorem readDigits_onto {α : Type} (h : Carries D d b) (add : α → UInt8 → α)
    (state : DigitParseState) (value : α) (c : UInt32) :
    readDigits add state value c (onto D d b) = (readDigits add state value c b).onto D d := by
  rw [readDigits, readDigits, room_onto, digitsLoop_onto h]

theorem uintFromDecCommon_onto (h : Carries D d b) (groupDigits : Bool) :
    uintFromDecCommon groupDigits (onto D d b) = (uintFromDecCommon groupDigits b).onto D d := by
  unfold uintFromDecCommon
  dsimp only
  rw [peekbyte_onto h, next_onto, readDigits_onto h.next, readDigits_onto h]
  split <;> rfl

theorem intFromDecCommon_onto (h : Carries D d b) (groupDigits : Bool) :
    intFromDecCommon groupDigits (onto D d b) = (intFromDecCommon groupDigits b).onto D d := by
  unfold intFromDecCommon
  dsimp only
  rw [peekbyte_onto h, next_onto, readDigits_onto h.next, readDigits_onto h.next, readDigits_onto h]
  split
  · rfl
  · split <;> rfl

theorem skipPrefix_onto (h : Carries D d b) (letter : UInt8) :
    skipPrefix letter (onto D d b) =
      ((skipPrefix letter b).1, onto D d (skipPrefix letter b).2) := by
  unfold skipPrefix
  rw [peekbyte_onto h, peekbyte_onto h, advance_onto]
  split <;> rfl

theorem skipOctalPrefix_onto (h : Carries D d b) :
    skipOctalPrefix (onto D d b) = ((skipOctalPrefix b).1, onto D d (skipOctalPrefix b).2) := by
  unfold skipOctalPrefix
  rw [peekbyte_onto h, next_onto, peekbyte_onto h.next, next_onto]
  split
  · split <;> rfl
  · rfl

/-! ### Floating point -/

theorem takeFloatSign_onto (h : Carries D d b) :
    takeFloatSign (onto D d b) =
      ((takeFloatSign b).1, (takeFloatSign b).2.1, onto D d (takeFloatSign b).2.2) := by
  unfold takeFloatSign
  rw [peekbyte_onto h, next_onto]
  split <;> rfl

theorem parseFloatInfOrNan_onto (h : Carries D d b) (value : UInt64) :
    parseFloatInfOrNan (onto D d b) value = (parseFloatInfOrNan b value).onto D d := by
  have hthree := h.within (within_advance b 3)
  unfold parseFloatInfOrNan
  simp only [advance_onto, peekbyte_onto h, peekbyte_onto hthree]
  split_ifs <;> rfl

theorem scaleBy_onto (h : Carries D d b) (fpu : FloatUnit) (base : Nat) (value : UInt64)
    (c : UInt32) : scaleBy fpu base value c (onto D d b) = (scaleBy fpu base value c b).onto D d := by
  have hsign := h.moves (takeFloatSign_moves b)
  unfold scaleBy
  rw [takeFloatSign_onto h]
  dsimp only
  rw [uintFromDecCommon_onto hsign]
  rfl

theorem negateIf_onto (fpu : FloatUnit) (minus : Bool) (taken : Taken UInt64) :
    negateIf fpu minus (taken.onto D d) = (negateIf fpu minus taken).onto D d := by
  unfold negateIf
  split <;> rfl

/-- The point and the digits behind it. -/
theorem fraction_onto {whole : Taken UInt64} (h : Carries D d whole.buffer)
    (digits : UInt64 → UInt32 → Buffer → Taken (UInt64 × UInt64))
    (hdigits : ∀ value c b, Carries D d b →
      digits value c (onto D d b) = (digits value c b).onto D d) :
    (if (whole.onto D d).buffer.peekbyte 0 = 46 then
        let fraction := digits (whole.onto D d).value ((whole.onto D d).count + 1)
          (whole.onto D d).buffer.next
        ⟨fraction.value.1, fraction.count, fraction.buffer⟩
      else whole.onto D d : Taken UInt64) =
      (if whole.buffer.peekbyte 0 = 46 then
        let fraction := digits whole.value (whole.count + 1) whole.buffer.next
        ⟨fraction.value.1, fraction.count, fraction.buffer⟩
      else whole : Taken UInt64).onto D d := by
  have hpeek : (whole.onto D d).buffer.peekbyte 0 = whole.buffer.peekbyte 0 := peekbyte_onto h 0
  have hnext : (whole.onto D d).buffer.next = onto D d whole.buffer.next := next_onto _ _ _
  by_cases hpoint : whole.buffer.peekbyte 0 = 46
  · rw [if_pos (hpeek.trans hpoint), if_pos hpoint, hnext, hdigits _ _ _ h.next]
    rfl
  · rw [if_neg (fun hp => hpoint (hpeek.symm.trans hp)), if_neg hpoint]

/-- The exponent. -/
theorem exponent_onto {taken : Taken UInt64} (h : Carries D d taken.buffer) (fpu : FloatUnit)
    (base : Nat) (letter : UInt8) (minus : Bool) :
    (if toLower ((taken.onto D d).buffer.peekbyte 0) = letter then
        negateIf fpu minus (scaleBy fpu base (taken.onto D d).value ((taken.onto D d).count + 1)
          (taken.onto D d).buffer.next)
      else negateIf fpu minus (taken.onto D d)) =
      (if toLower (taken.buffer.peekbyte 0) = letter then
        negateIf fpu minus (scaleBy fpu base taken.value (taken.count + 1) taken.buffer.next)
      else negateIf fpu minus taken).onto D d := by
  have hpeek : (taken.onto D d).buffer.peekbyte 0 = taken.buffer.peekbyte 0 := peekbyte_onto h 0
  have hnext : (taken.onto D d).buffer.next = onto D d taken.buffer.next := next_onto _ _ _
  by_cases hletter : toLower (taken.buffer.peekbyte 0) = letter
  · rw [if_pos (by rwa [hpeek]), if_pos hletter, hnext, scaleBy_onto h.next, negateIf_onto]
    rfl
  · rw [if_neg (by rwa [hpeek]), if_neg hletter, negateIf_onto]

theorem floatFromNormalCommon_onto (h : Carries D d b) (fpu : FloatUnit) (groupDigits : Bool) :
    floatFromNormalCommon fpu groupDigits (onto D d b) =
      (floatFromNormalCommon fpu groupDigits b).onto D d := by
  have hsign := takeFloatSign_moves b
  unfold floatFromNormalCommon
  rw [takeFloatSign_onto h]
  generalize takeFloatSign b = front at hsign ⊢
  obtain ⟨minus, signCount, b'⟩ := front
  dsimp only at hsign ⊢
  have h' := h.moves hsign
  rw [parseFloatInfOrNan_onto h', readDigits_onto h']
  have hwhole := readDigits_moves (fun value byte =>
    fpu.add (fpu.mul value (fpu.ofNat 10)) (fpu.ofNat (byte.toNat - 48)))
    { groupDigits := groupDigits } 0 signCount b'
  generalize readDigits (fun value byte =>
    fpu.add (fpu.mul value (fpu.ofNat 10)) (fpu.ofNat (byte.toNat - 48)))
    { groupDigits := groupDigits } 0 signCount b' = whole at hwhole ⊢
  have hbuffer := h'.moves hwhole
  rw [fraction_onto hbuffer (fun value c b => readDigits (fun acc byte => addFraction fpu 10 acc (byte - 48))
    { fraction := true, groupDigits := groupDigits } (value, fpu.ofNat 10) c b)
    (fun value c b hb => readDigits_onto hb _ _ _ _)]
  rw [exponent_onto]
  · by_cases hspecial : (parseFloatInfOrNan b' 0).count ≠ 0
    · rw [if_pos (show ((parseFloatInfOrNan b' 0).onto D d).count ≠ 0 from hspecial), if_pos hspecial]
      rfl
    · rw [if_neg (show ¬ ((parseFloatInfOrNan b' 0).onto D d).count ≠ 0 from hspecial), if_neg hspecial]
  · exact hbuffer.moves (mantissa_moves (.refl _ _) (readDigits_moves _ _ _ _ _))

theorem floatFromHexCommon_onto (h : Carries D d b) (fpu : FloatUnit) :
    floatFromHexCommon fpu (onto D d b) = (floatFromHexCommon fpu b).onto D d := by
  have hsign := takeFloatSign_moves b
  unfold floatFromHexCommon
  rw [takeFloatSign_onto h]
  generalize takeFloatSign b = front at hsign ⊢
  obtain ⟨minus, signCount, b'⟩ := front
  dsimp only at hsign ⊢
  have h' := h.moves hsign
  simp only [readbyte_fst]
  rw [parseFloatInfOrNan_onto h', peekbyte_onto h', next_onto, peekbyte_onto h'.next, next_onto,
    readWhile_onto h'.next.next]
  have hwhole := readWhile_moves (fun value byte => (hexNibble byte).map fun d =>
      fpu.add (fpu.mul value (fpu.ofNat 16)) (fpu.ofNat d.toNat)) 0 (signCount + 2) b'.next.next
  generalize readWhile (fun value byte => (hexNibble byte).map fun d =>
      fpu.add (fpu.mul value (fpu.ofNat 16)) (fpu.ofNat d.toNat)) 0 (signCount + 2) b'.next.next =
    whole at hwhole ⊢
  have hbuffer := h'.next.next.moves hwhole
  rw [fraction_onto hbuffer (fun value c b => readWhile
    (fun acc byte => (hexNibble byte).map (addFraction fpu 16 acc)) (value, fpu.ofNat 16) c b)
    (fun value c b hb => readWhile_onto hb _ _ _)]
  rw [exponent_onto]
  · by_cases hspecial : (parseFloatInfOrNan b' 0).count ≠ 0
    · rw [if_pos (show ((parseFloatInfOrNan b' 0).onto D d).count ≠ 0 from hspecial), if_pos hspecial]
      rfl
    · rw [if_neg (show ¬ ((parseFloatInfOrNan b' 0).onto D d).count ≠ 0 from hspecial), if_neg hspecial]
      by_cases hzero : b'.peekbyte 0 ≠ 48
      · rw [if_pos hzero, if_pos hzero]
        rfl
      · rw [if_neg hzero, if_neg hzero]
        by_cases hx : toLower (b'.next.peekbyte 0) ≠ 120
        · rw [if_pos hx, if_pos hx]
          rfl
        · rw [if_neg hx, if_neg hx]
  · exact hbuffer.moves (mantissa_moves (.refl _ _) (readWhile_moves _ _ _ _))

/-! ### Characters -/

/-- `utf8_decode` reads no more bytes than it is told of. -/
theorem utf8Decode_congr {text text' : List UInt8} {size : UInt8}
    (h : ∀ i < size.toNat, text.getD i 0 = text'.getD i 0) :
    utf8Decode text size = utf8Decode text' size := by
  have hhead {xs : List UInt8} : xs.headD 0 = xs.getD 0 0 := by cases xs <;> rfl
  have hlt (n : UInt8) : size < n ↔ size.toNat < n.toNat := UInt8.lt_iff_toNat_lt
  by_cases h0 : size = 0
  · simp only [utf8Decode, h0, if_true]
  have hpos : 0 < size.toNat := Nat.pos_of_ne_zero fun hz => h0 (UInt8.toNat_inj.mp hz)
  have e0 : text.headD 0 = text'.headD 0 := by rw [hhead, hhead, h 0 hpos]
  by_cases h2 : size < 2
  · have h3 : size < 3 := UInt8.lt_trans h2 (by decide)
    have h4 : size < 4 := UInt8.lt_trans h2 (by decide)
    simp only [utf8Decode, h0, e0, h2, h3, h4, true_or, if_true, if_false]
  have e1 : text.getD 1 0 = text'.getD 1 0 := h 1 (by rw [hlt] at h2; exact Nat.not_lt.mp h2)
  by_cases h3 : size < 3
  · have h4 : size < 4 := UInt8.lt_trans h3 (by decide)
    simp only [utf8Decode, h0, e0, e1, h3, h4, true_or, if_true, if_false]
  have e2 : text.getD 2 0 = text'.getD 2 0 := h 2 (by rw [hlt] at h3; exact Nat.not_lt.mp h3)
  by_cases h4 : size < 4
  · simp only [utf8Decode, h0, e0, e1, e2, h4, true_or, if_true, if_false]
  have e3 : text.getD 3 0 = text'.getD 3 0 := h 3 (by rw [hlt] at h4; exact Nat.not_lt.mp h4)
  simp only [utf8Decode, e0, e1, e2, e3]

/-- What reading characters needs besides: no position overflows, and a position behind the end sees the
same bytes as well. -/
structure Sees (D : List UInt8) (d : Nat) (b : Buffer) : Prop where
  carries : Carries D d b
  far : max b.pos b.size + d ≤ 2 ^ 64
  inside : b.pos ≤ b.size ∨ ∀ i, D.getD (i + d) 0 = b.data.getD i 0

theorem Sees.within (h : Sees D d b) (hb : Within b b') : Sees D d b' := by
  have hfar := h.far
  obtain ⟨p, rfl, hp⟩ := hb
  refine ⟨h.carries, ?_, ?_⟩
  · dsimp only
    omega
  · rcases h.inside with hpos | hall
    · refine .inl ?_
      dsimp only
      omega
    · exact .inr hall

theorem Sees.le (h : Sees D d b) : b.pos + d ≤ 2 ^ 64 ∧ b.size ≤ 2 ^ 64 := by
  have hfar := h.far
  omega

theorem decodeHere_onto (h : Sees D d b) : decodeHere (onto D d b) = decodeHere b := by
  unfold decodeHere
  rw [pending_onto h.le.1]
  apply utf8Decode_congr
  intro i hi
  have hget (xs : List UInt8) (n : Nat) : (xs.drop n).getD i 0 = xs.getD (n + i) 0 := by
    rw [List.getD_eq_getElem?_getD, List.getElem?_drop, ← List.getD_eq_getElem?_getD]
  rw [hget, hget, show (onto D d b).pos + i = b.pos + i + d by simp only [onto]; omega]
  rcases h.inside with hpos | hall
  · have hpending := pending_of_le hpos h.le.2
    rw [UInt8.toNat_ofNat'] at hi
    exact h.carries _ (by omega)
  · exact hall _

/-- The result of a conversion, over other memory. -/
def Scanned.onto (D : List UInt8) (d : Nat) (s : Scanned) : Scanned :=
  (s.1, Scanf.onto D d s.2.1, s.2.2)

theorem scanChar_onto (h : Sees D d b) (config : ScanConfig) (st : Store) :
    scanChar config (onto D d b) st = (scanChar config b st).onto D d := by
  unfold scanChar
  simp only [pending_onto h.le.1, decodeHere_onto h, advance_onto, next_onto, readbyte_fst,
    peekbyte_onto h.carries]
  split
  · rfl
  · split
    · split_ifs <;> rfl
    · split_ifs <;> rfl
    · rfl

theorem stringLoop_onto (h : Sees D d b) (modifier : Modifier) (fuel : Nat) (c : UInt32)
    (out : Buffer) :
    stringLoop modifier fuel c (onto D d b) out =
      (stringLoop modifier fuel c b out).map
        fun (finished, c, b, out) => (finished, c, onto D d b, out) := by
  induction fuel generalizing c b out with
  | zero => rfl
  | succ fuel ih =>
    by_cases hstop : b.peekbyte 0 = 0 ∨ isSpace (b.peekbyte 0) = true
    · simp only [stringLoop, peekbyte_onto h.carries, hstop, if_true]
      rfl
    · have hnext := ih (h.within (within_next b))
      have hadvance := ih (h.within (within_advance b (decodeHere b).1))
      cases modifier with
      | long =>
        simp only [stringLoop, peekbyte_onto h.carries, hstop, if_false, decodeHere_onto h, advance_onto]
        split
        · rfl
        · cases storeAt out (utf16Encode (decodeHere b).2) with
          | none => rfl
          | some out => exact hadvance _ _
      | longLong =>
        simp only [stringLoop, peekbyte_onto h.carries, hstop, if_false, decodeHere_onto h, advance_onto]
        split
        · rfl
        · exact hadvance _ _
      | _ =>
        simp only [stringLoop, peekbyte_onto h.carries, hstop, if_false, next_onto]
        exact hnext _ _

theorem scanString_onto (h : Sees D d b) (env : ScanEnv) (config : ScanConfig) (st : Store) :
    scanString env config (onto D d b) st = (scanString env config b st).map (·.onto D d) := by
  unfold scanString
  rw [readWhile_onto h.carries, room_onto, stringLoop_onto h]
  split
  · rfl
  · rw [Option.map_map, Option.map_map]
    rfl

theorem scanSet_onto (h : Carries D d b) (env : ScanEnv) (config : ScanConfig) (st : Store) :
    scanSet env config (onto D d b) st = (scanSet env config b st).onto D d := by
  unfold scanSet
  dsimp only
  rw [readWhile_onto h, readWhile_onto h]
  split <;> rfl

/-! ## The directives over other memory -/

theorem storeFloat_onto (env : ScanEnv) (config : ScanConfig) (st : Store) (taken : Taken UInt64) :
    storeFloat env config st (taken.onto D d) = (storeFloat env config st taken).onto D d := by
  unfold storeFloat
  split <;> rfl

/-- **A conversion does the same over other memory.** -/
theorem doScan_onto (h : Sees D d b) (env : ScanEnv) (config : ScanConfig) (st : Store) :
    doScan env config (onto D d b) st = (doScan env config b st).map (·.onto D d) := by
  have hc := h.carries
  unfold doScan
  cases hty : config.type
  case intNumber =>
    simp only [intFromDecCommon_onto hc]
    rfl
  case uintNumber =>
    simp only [uintFromDecCommon_onto hc]
    rfl
  case uintBinary =>
    simp only [skipPrefix_onto hc, uintFromBinCommon,
      uintFrom_onto (hc.moves (skipPrefix_moves 98 (by decide) b))]
    rfl
  case uintOctal =>
    simp only [skipOctalPrefix_onto hc, uintFromOctCommon,
      uintFrom_onto (hc.moves (skipOctalPrefix_moves b))]
    rfl
  case uintHex =>
    simp only [skipPrefix_onto hc, uintFromHexCommon,
      uintFrom_onto (hc.moves (skipPrefix_moves 120 (by decide) b))]
    rfl
  case doubleNormal => simp only [floatFromNormalCommon_onto hc, storeFloat_onto, Option.map_some]
  case doubleScientific => simp only [floatFromNormalCommon_onto hc, storeFloat_onto, Option.map_some]
  case doubleScientificShort =>
    simp only [floatFromNormalCommon_onto hc, storeFloat_onto, Option.map_some]
  case doubleHex => simp only [floatFromHexCommon_onto hc, storeFloat_onto, Option.map_some]
  case char => simp only [scanChar_onto h, Option.map_some]
  case string => exact scanString_onto h env config st
  case set => simp only [scanSet_onto hc, Option.map_some]
  case pointer =>
    simp only [pointerDecode_onto hc]
    rfl
  case result => rfl
  case unknown => rfl

theorem spaces_onto (h : Carries D d b) (config : ScanConfig) :
    config.spaces (onto D d b) = (config.spaces b).onto D d := by
  unfold ScanConfig.spaces
  rw [consumeWhitespaces_onto h]
  split <;> rfl

theorem field_onto (h : Carries D d b) (config : ScanConfig) :
    config.field (onto D d b) = onto D d (config.field b) := by
  unfold ScanConfig.field
  rw [spaces_onto h]
  dsimp only [Taken.onto]
  split
  · simp only [onto, Nat.add_right_comm]
  · rfl

theorem scanArg_onto (h : Carries D d b) {config : ScanConfig} (hfield : Sees D d (config.field b))
    (env : ScanEnv) (st : Store) :
    scanArg env config (onto D d b) st = (scanArg env config b st).map (·.onto D d) := by
  rw [scanArg_eq, scanArg_eq, field_onto h, doScan_onto hfield, spaces_onto h, Option.map_map,
    Option.map_map]
  congr 1
  funext ⟨count, b', st'⟩
  simp only [Function.comp, Scanned.onto, Taken.onto]
  split <;> rfl

/-! ## The loop over other memory -/

/-- The state of the loop over other memory. -/
def ScanLoop.onto (D : List UInt8) (d : Nat) (l : ScanLoop) : ScanLoop :=
  { l with buffer := Scanf.onto D d l.buffer }

/-- The end of a turn over other memory. -/
def ScanTurn.onto (D : List UInt8) (d : Nat) : ScanTurn → ScanTurn
  | .next l => .next (l.onto D d)
  | .done l => .done (l.onto D d)
  | .failed l => .failed (l.onto D d)

/-- The directive at which the loop stands, if it does, sees the same bytes over `D`. -/
def ScanLoop.Sees (D : List UInt8) (d : Nat) (l : ScanLoop) : Prop :=
  ∀ spec config format args, l.format = 37 :: spec →
    parseScanSpecifier spec l.args = some (config, format, args) →
    Scanf.Sees D d (config.field l.buffer)

theorem scanDirective_onto {l : ScanLoop} (h : Carries D d l.buffer) (hsees : l.Sees D d)
    {spec : List UInt8} (hformat : l.format = 37 :: spec) (env : ScanEnv) :
    scanDirective env (l.onto D d) spec = (scanDirective env l spec).map (·.onto D d) := by
  unfold scanDirective
  change (parseScanSpecifier spec l.args).bind _ = ((parseScanSpecifier spec l.args).bind _).map _
  cases hparse : parseScanSpecifier spec l.args with
  | none => rfl
  | some parsed =>
    obtain ⟨config, format, args⟩ := parsed
    have hfield : Scanf.Sees D d (ScanConfig.field { config with result := l.processed.toUInt64 } l.buffer) :=
      hsees spec config format args hformat hparse
    have hscan := scanArg_onto h hfield env l.store
    simp only [Option.bind_some]
    split
    · rfl
    · change (scanArg env { config with result := l.processed.toUInt64 } (Scanf.onto D d l.buffer) l.store).bind
        _ = ((scanArg env { config with result := l.processed.toUInt64 } l.buffer l.store).bind _).map _
      rw [hscan]
      cases scanArg env { config with result := l.processed.toUInt64 } l.buffer l.store with
      | none => rfl
      | some scanned =>
        obtain ⟨count, buffer, store⟩ := scanned
        simp only [Option.map_some, Option.bind_some, Scanned.onto]
        change (if buffer.error = true then _ else _) = Option.map _ (if buffer.error = true then _ else _)
        split
        · rfl
        · split
          · split <;> rfl
          · rfl

/-- **A turn does the same over other memory.** -/
theorem scanfIteration_onto {l : ScanLoop} (h : Carries D d l.buffer) (hsees : l.Sees D d)
    (env : ScanEnv) :
    scanfIteration env (l.onto D d) = (scanfIteration env l).map (·.onto D d) := by
  have hpeek : (l.onto D d).buffer.peekbyte 0 = l.buffer.peekbyte 0 := peekbyte_onto h 0
  have hnext : (l.onto D d).buffer.next = Scanf.onto D d l.buffer.next := next_onto _ _ _
  have hspaces : consumeWhitespaces (l.onto D d).buffer = (consumeWhitespaces l.buffer).onto D d :=
    consumeWhitespaces_onto h
  unfold scanfIteration
  rw [show (l.onto D d).format = l.format from rfl, hpeek, hnext, hspaces]
  split
  · rfl
  · rfl
  · split <;> rfl
  · next spec _ _ hformat => exact scanDirective_onto h hsees hformat env
  · split
    · rfl
    · split <;> rfl

/-! ## Within the input -/

/-- No width reaches past the end of the input. -/
def ScanLoop.Fits (l : ScanLoop) : Prop :=
  ∀ spec config format args, l.format = 37 :: spec →
    parseScanSpecifier spec l.args = some (config, format, args) →
    (config.field l.buffer).size ≤ l.buffer.size

/-- A turn whose width fits. -/
def FittingTurn (env : ScanEnv) (l l' : ScanLoop) : Prop :=
  l.Fits ∧ scanfIteration env l = some (.next l')

/-- The loop reads from the `n` bytes of `str`, and has not left them. -/
def ScanLoop.Inside (str : List UInt8) (n : Nat) (l : ScanLoop) : Prop :=
  ∃ p ≤ n, l.buffer = { Buffer.fixed str n with pos := p }

theorem ScanLoop.Inside.within {str : List UInt8} {n : Nat} {l : ScanLoop} (h : l.Inside str n)
    (hb : Within l.buffer b') : ∃ p ≤ n, b' = { Buffer.fixed str n with pos := p } := by
  obtain ⟨p, hp, hbuffer⟩ := h
  obtain ⟨q, rfl, hq⟩ := hb
  rw [hbuffer] at hq ⊢
  exact ⟨q, hq.trans (Nat.max_le.mpr ⟨hp, Nat.le_refl n⟩), rfl⟩

/-- What a turn ends with. -/
def ScanTurn.loop : ScanTurn → ScanLoop
  | .next l | .done l | .failed l => l

/-- A directive leaves the buffer as it was, or as `scan_arg` has left it. -/
theorem scanDirective_buffer {env : ScanEnv} {l : ScanLoop} {spec : List UInt8} {turn : ScanTurn}
    (h : scanDirective env l spec = some turn) :
    turn.loop.buffer = l.buffer ∨ ∃ config format args scanned, parseScanSpecifier spec l.args =
        some (config, format, args) ∧
      scanArg env { config with result := l.processed.toUInt64 } l.buffer l.store = some scanned ∧
      turn.loop.buffer = scanned.2.1 := by
  obtain ⟨⟨config, format, args⟩, hparse, h⟩ := Option.bind_eq_some_iff.mp h
  dsimp only at h
  split at h
  · cases h
    exact .inl rfl
  · obtain ⟨⟨count, buffer, store⟩, hscan, h⟩ := Option.bind_eq_some_iff.mp h
    refine .inr ⟨config, format, args, ⟨count, buffer, store⟩, hparse, hscan, ?_⟩
    dsimp only at h
    split at h
    · cases h
      rfl
    · split at h
      · split at h <;> cases h <;> rfl
      · cases h
        rfl

/-- **A turn that fits stays inside**, also the last one. -/
theorem ScanLoop.Inside.turn {str : List UInt8} {n : Nat} {env : ScanEnv} {l : ScanLoop} {turn : ScanTurn}
    (h : l.Inside str n) (hn : n ≤ 65536) (hfits : l.Fits) (hturn : scanfIteration env l = some turn) :
    turn.loop.Inside str n := by
  rw [scanfIteration] at hturn
  split at hturn
  · cases hturn
    exact h
  · cases hturn
    exact h
  · split at hturn
    · cases hturn
      exact h
    · cases hturn
      exact h.within (within_next _)
  · next spec _ _ hformat =>
    rcases scanDirective_buffer hturn with hsame | ⟨config, format, args, scanned, hparse, hscan, hbuffer⟩
    · obtain ⟨p, hp, hfixed⟩ := h
      exact ⟨p, hp, hsame.trans hfixed⟩
    · have hfield := hfits spec config format args hformat hparse
      have hsize : l.buffer.size = n := by
        obtain ⟨p, -, hbuffer⟩ := h
        rw [hbuffer]
        rfl
      obtain ⟨q, hq, hle⟩ := @scanArg_within _ _ _ _ { config with result := l.processed.toUInt64 } _ _
        (by change (config.field l.buffer).size ≤ 2 ^ 64; omega) hscan
      change q ≤ max l.buffer.pos (max l.buffer.size (config.field l.buffer).size) at hle
      rw [ScanLoop.Inside, hbuffer]
      exact h.within ⟨q, hq, by omega⟩
  · split at hturn
    · cases hturn
      exact h.within (consumeWhitespaces_moves _).within
    · split at hturn
      · cases hturn
        exact h
      · cases hturn
        exact h.within (within_next _)

theorem ScanLoop.Inside.sees {str str' : List UInt8} {n : Nat} {l : ScanLoop} (h : l.Inside str n)
    (hn : n ≤ 65536) (hsame : ∀ i < n, str'.getD i 0 = str.getD i 0) (hfits : l.Fits) :
    Carries str' 0 l.buffer ∧ l.Sees str' 0 := by
  obtain ⟨p, hp, hbuffer⟩ := h
  refine ⟨by rw [hbuffer]; exact hsame, ?_⟩
  intro spec config format args hformat hparse
  have hfield := hfits spec config format args hformat hparse
  obtain ⟨j, size, hsolid, -, -, hfieldeq, -, -, hends⟩ := field_eq config l.buffer
  have hj := hsolid.le
  rw [hfieldeq] at hfield ⊢
  rw [hbuffer] at hfield hj hends ⊢
  simp only [skip, Buffer.fixed] at hfield hj hends ⊢
  refine ⟨?_, ?_, ?_⟩
  · intro i hi
    exact hsame i (lt_of_lt_of_le hi hfield)
  · dsimp only
    omega
  · refine .inl ?_
    dsimp only
    omega

/-- **The scan does not leave its input**, in a run in which no width reaches past its end: the position
stays within the `n` bytes, also in the last turn, and whatever stands behind them, every turn is the same. -/
theorem scanf_within_input (env : ScanEnv) (str : List UInt8) {n : Nat} (hn : n ≤ 65536)
    (format : List UInt8) (list : Nat → UInt64) (st : Store) {l : ScanLoop}
    (hrun : Relation.ReflTransGen (FittingTurn env) (.start (.fixed str n) format list st) l) :
    l.buffer.pos ≤ n ∧
      (∀ turn, l.Fits → scanfIteration env l = some turn → turn.loop.buffer.pos ≤ n) ∧
      ∀ str', (∀ i < n, str'.getD i 0 = str.getD i 0) →
        Relation.ReflTransGen (fun l l' => scanfIteration env l = some (.next l'))
          (.start (.fixed str' n) format list st) (l.onto str' 0) ∧
        (l.Fits → scanfIteration env (l.onto str' 0) = (scanfIteration env l).map (·.onto str' 0)) := by
  have hrun' : l.Inside str n ∧ ∀ str', (∀ i < n, str'.getD i 0 = str.getD i 0) →
      Relation.ReflTransGen (fun l l' => scanfIteration env l = some (.next l'))
        (.start (.fixed str' n) format list st) (l.onto str' 0) := by
    induction hrun with
    | refl => exact ⟨⟨0, Nat.zero_le n, rfl⟩, fun str' _ => .refl⟩
    | tail _ hturn ih =>
      obtain ⟨hinside, hreach⟩ := ih
      refine ⟨hinside.turn hn hturn.1 hturn.2, fun str' hsame => (hreach str' hsame).tail ?_⟩
      obtain ⟨hcarries, hsees⟩ := hinside.sees hn hsame hturn.1
      rw [scanfIteration_onto hcarries hsees env, hturn.2]
      rfl
  obtain ⟨hinside, hreach⟩ := hrun'
  have hpos {l : ScanLoop} (h : l.Inside str n) : l.buffer.pos ≤ n := by
    obtain ⟨p, hp, hbuffer⟩ := h
    rw [hbuffer]
    exact hp
  refine ⟨hpos hinside, fun turn hfits hturn => hpos (hinside.turn hn hfits hturn),
    fun str' hsame => ⟨hreach str' hsame, fun hfits => ?_⟩⟩
  · obtain ⟨hcarries, hsees⟩ := hinside.sees hn hsame hfits
    exact scanfIteration_onto hcarries hsees env

/-- After `%1d` of `7`. -/
theorem scanf_within_seven : ∃ l,
    FittingTurn plainEnv (.start (.fixed [55] 1) [37, 49, 100] (fun _ => 0) ⟨fun _ => 0, []⟩) l ∧
      l.buffer.pos ≤ 1 := by
  have hfits :
      (ScanLoop.start (.fixed [55] 1) [37, 49, 100] (fun _ => 0) ⟨fun _ => 0, []⟩).Fits := by
    intro spec config format args hformat hparse
    cases hformat
    cases hparse
    exact Nat.le_refl 1
  obtain ⟨l, hturn, -⟩ := @exists_next plainEnv
    (.start (.fixed [55] 1) [37, 49, 100] (fun _ => 0) ⟨fun _ => 0, []⟩)
    (fun _ => true) (by decide +kernel)
  exact ⟨l, ⟨hfits, hturn⟩, (scanf_within_input plainEnv [55] (by decide) [37, 49, 100] (fun _ => 0)
    ⟨fun _ => 0, []⟩ (.single ⟨hfits, hturn⟩)).1⟩

/-- `%2c` of an empty string reads the zero behind it. -/
theorem scanf_leaves_input : ¬ ∀ l, Relation.ReflTransGen
    (fun l l' => scanfIteration plainEnv l = some (.next l'))
    (.start (.fixed [0] 0) [37, 50, 99] (fun _ => 0) ⟨fun _ => 0, []⟩) l → l.buffer.pos ≤ 0 := by
  intro h
  obtain ⟨l, hturn, hpos⟩ := @exists_next plainEnv
    (.start (.fixed [0] 0) [37, 50, 99] (fun _ => 0) ⟨fun _ => 0, []⟩)
    (fun l => l.buffer.pos = 1) (by decide +kernel)
  have hle := h l (.single hturn)
  simp only [decide_eq_true_eq] at hpos
  omega
end WindowsLibc.Scanf
