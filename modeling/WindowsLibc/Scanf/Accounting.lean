import Mathlib.Data.List.TakeWhile
import Mathlib.Logic.Relation
import WindowsLibc.Convert.Unicode
import WindowsLibc.Scanf.Scan

/-!
# Counting what is read

Every conversion counts the bytes it reads on its own. `Moves` says that such a count is right: the
buffer has moved by as many bytes as were counted, and none of them was a zero. One lemma for each
function of `internal/convert.c` says that it moves.

* Two of them do not always: `pointer_decode` upon a `0` that begins no number (`pointerDecode_moves`), and
  `float_from_hex_common` without a prefix (`floatFromHexCommon_moves`).
* `SCAN_CHAR` may read a zero, and gets `pending` wrong behind the end of the buffer (`scanChar_counts`).
* `scanArg_counts` is a directive as a whole, and `scanfIteration_counts` a turn of the loop.
-/

namespace WindowsLibc.Scanf

open WindowsLibc.Printf

/-! ## Moving on -/

/-- The buffer `k` bytes further on. -/
def skip (b : Buffer) (k : Nat) : Buffer := { b with pos := b.pos + k }

/-- The next `k` bytes are there, and none is zero. -/
def Solid (b : Buffer) (k : Nat) : Prop := ∀ i < k, b.peekbyte i ≠ 0

/-- From `count` and `b` to `count'` and `b'`, every byte has been counted. -/
def Moves (b : Buffer) (count count' : UInt32) (b' : Buffer) : Prop :=
  ∃ k, Solid b k ∧ count' = count + UInt32.ofNat k ∧ b' = skip b k

theorem peekbyte_skip (b : Buffer) (k i : Nat) : (skip b k).peekbyte i = b.peekbyte (k + i) := by
  simp only [skip, Buffer.peekbyte, Nat.add_assoc]

theorem lt_of_peekbyte {b : Buffer} {i : Nat} (h : b.peekbyte i ≠ 0) :
    b.error = false ∧ b.pos + i < b.size := by
  unfold Buffer.peekbyte at h
  split at h
  · exact absurd rfl h
  · split at h
    · exact absurd rfl h
    · next herror hpos => exact ⟨Bool.eq_false_iff.mpr herror, Nat.not_le.mp hpos⟩

theorem next_of_lt {b : Buffer} (herror : b.error = false) (h : b.pos < b.size) :
    b.next = skip b 1 := by
  rw [Buffer.next, Buffer.readbyte, if_neg (by rw [herror]; exact Bool.false_ne_true),
    if_neg (by omega)]
  rfl

theorem next_of_ge {b : Buffer} (h : b.size ≤ b.pos) : b.next = b := by
  rw [Buffer.next, Buffer.readbyte, if_pos (Nat.lt_succ_of_le h), ite_self]

theorem next_of_peekbyte {b : Buffer} (h : b.peekbyte 0 ≠ 0) : b.next = skip b 1 :=
  next_of_lt (lt_of_peekbyte h).1 (lt_of_peekbyte h).2

variable {b b' b'' : Buffer} {c c' c'' : UInt32}

theorem Solid.le {k : Nat} (h : Solid b k) : k = 0 ∨ b.pos + k ≤ b.size := by
  cases k with
  | zero => exact .inl rfl
  | succ k => exact .inr (lt_of_peekbyte (h k (Nat.lt_succ_self k))).2

theorem Solid.advance {k : Nat} (h : Solid b k) (hk : k ≠ 0) : b.advance k = skip b k := by
  have hle := h.le.resolve_left hk
  simp only [Buffer.advance, skip, Nat.min_eq_left hle]

theorem Solid.add {j k : Nat} (hj : Solid b j) (hk : Solid (skip b j) k) : Solid b (j + k) := by
  intro i hi
  by_cases hij : i < j
  · exact hj i hij
  · have h := hk (i - j) (by omega)
    rwa [peekbyte_skip, Nat.add_sub_cancel' (Nat.not_lt.mp hij)] at h

theorem Moves.refl (b : Buffer) (c : UInt32) : Moves b c c b :=
  ⟨0, fun _ hi => absurd hi (Nat.not_lt_zero _), (UInt32.add_zero c).symm, rfl⟩

theorem Moves.trans (h : Moves b c c' b') (h' : Moves b' c' c'' b'') : Moves b c c'' b'' := by
  obtain ⟨j, hj, rfl, rfl⟩ := h
  obtain ⟨k, hk, rfl, rfl⟩ := h'
  refine ⟨j + k, hj.add hk, ?_, ?_⟩
  · rw [UInt32.add_assoc, ← UInt32.ofNat_add]
  · simp only [skip, Nat.add_assoc]

theorem moves_next (h : b.peekbyte 0 ≠ 0) (c : UInt32) : Moves b c (c + 1) b.next := by
  refine ⟨1, ?_, rfl, next_of_peekbyte h⟩
  intro i hi
  rwa [Nat.lt_one_iff.mp hi]

theorem moves_advance {k : Nat} (h : Solid b k) (hk : k ≠ 0) (c : UInt32) :
    Moves b c (c + UInt32.ofNat k) (b.advance k) := ⟨k, h, rfl, h.advance hk⟩

/-- A count may start anywhere. -/
theorem Moves.add (h : Moves b c c' b') (n : UInt32) : Moves b (n + c) (n + c') b' := by
  obtain ⟨k, hk, rfl, rfl⟩ := h
  exact ⟨k, hk, (UInt32.add_assoc n c _).symm, rfl⟩

theorem Moves.size (h : Moves b c c' b') : b'.size = b.size := by
  obtain ⟨k, -, -, rfl⟩ := h
  rfl

/-! ## The conversions -/

theorem readFrom_moves {α : Type} (body : α → UInt8 → Option α) (fuel : Nat) (value : α)
    (c : UInt32) (b : Buffer) :
    Moves b c (readFrom body fuel value c b).count (readFrom body fuel value c b).buffer := by
  induction fuel generalizing value c b with
  | zero => exact .refl b c
  | succ fuel ih =>
    rw [readFrom]
    split
    · exact .refl b c
    · next hbyte =>
      split
      · exact .refl b c
      · exact (moves_next hbyte c).trans (ih _ _ _)

theorem readWhile_moves {α : Type} (body : α → UInt8 → Option α) (value : α) (c : UInt32)
    (b : Buffer) :
    Moves b c (readWhile body value c b).count (readWhile body value c b).buffer :=
  readFrom_moves body _ value c b

theorem consumeWhitespaces_moves (b : Buffer) :
    Moves b 0 (consumeWhitespaces b).count (consumeWhitespaces b).buffer := readWhile_moves _ _ _ _

theorem uintFrom_moves (shift : UInt64) (digit : UInt8 → Option UInt8) (b : Buffer) :
    Moves b 0 (uintFrom shift digit b).count (uintFrom shift digit b).buffer := readWhile_moves _ _ _ _

theorem parseDigitsFrom_moves (fuel : Nat) (state : DigitParseState) (c : UInt32) (b : Buffer) :
    Moves b c (parseDigitsFrom fuel state c b).2.2.1 (parseDigitsFrom fuel state c b).2.2.2 := by
  fun_induction parseDigitsFrom fuel state c b with
  | case1 => exact .refl _ _
  | case2 => exact .refl _ _
  | case3 => exact .refl _ _
  | case4 => exact moves_next (by assumption) _
  | case5 => exact moves_next (by assumption) _
  | case6 => exact .refl _ _
  | case7 => exact (moves_next (by assumption) _).trans (by assumption)
  | case8 => exact .refl _ _
  | case9 => exact .refl _ _
  | case10 => exact (moves_next (by assumption) _).trans (by assumption)
  | case11 => exact .refl _ _
  | case12 => exact .refl _ _

theorem digitsLoop_moves {α : Type} (add : α → UInt8 → α) (fuel : Nat) (state : DigitParseState)
    (value : α) (c : UInt32) (b : Buffer) :
    Moves b c (digitsLoop add fuel state value c b).count
      (digitsLoop add fuel state value c b).buffer := by
  induction fuel generalizing state value c b with
  | zero => exact .refl b c
  | succ fuel ih =>
    have hdigit := parseDigitsFrom_moves (b.size - b.pos + 1) state c b
    rw [← parseDigits] at hdigit
    rw [digitsLoop]
    generalize parseDigits state c b = digit at hdigit ⊢
    obtain ⟨byte, state', c', b'⟩ := digit
    dsimp only at hdigit ⊢
    split
    · exact hdigit
    · exact hdigit.trans (ih _ _ _ _)

theorem readDigits_moves {α : Type} (add : α → UInt8 → α) (state : DigitParseState) (value : α)
    (c : UInt32) (b : Buffer) :
    Moves b c (readDigits add state value c b).count (readDigits add state value c b).buffer :=
  digitsLoop_moves add _ state value c b

theorem uintFromDecCommon_moves (groupDigits : Bool) (b : Buffer) :
    Moves b 0 (uintFromDecCommon groupDigits b).count (uintFromDecCommon groupDigits b).buffer := by
  unfold uintFromDecCommon
  split
  · next hplus => exact (moves_next (by rw [hplus]; decide) 0).trans (readDigits_moves _ _ _ _ _)
  · exact readDigits_moves _ _ _ _ _

theorem intFromDecCommon_moves (groupDigits : Bool) (b : Buffer) :
    Moves b 0 (intFromDecCommon groupDigits b).count (intFromDecCommon groupDigits b).buffer := by
  unfold intFromDecCommon
  split
  · next hminus => exact (moves_next (by rw [hminus]; decide) 0).trans (readDigits_moves _ _ _ _ _)
  · split
    · next hplus => exact (moves_next (by rw [hplus]; decide) 0).trans (readDigits_moves _ _ _ _ _)
    · exact readDigits_moves _ _ _ _ _

theorem toLower_ne_zero {byte letter : UInt8} (h : toLower byte = letter) (hletter : letter ≠ 32) :
    byte ≠ 0 := by
  rintro rfl
  exact hletter h.symm

/-- A number follows the `0`, or there is none. -/
def PointerStarts (b : Buffer) : Prop := b.peekbyte 0 = 48 → toLower (b.next.peekbyte 0) = 120

theorem pointerDecode_moves (h : PointerStarts b) :
    Moves b 0 (pointerDecode b).count (pointerDecode b).buffer := by
  unfold pointerDecode
  split
  · next hzero =>
    rw [if_pos (h hzero)]
    have hx := toLower_ne_zero (h hzero) (by decide)
    have hzero' : b.peekbyte 0 ≠ 0 := by rw [hzero]; decide
    exact ((moves_next hzero' 0).trans (moves_next hx 1)).trans ((uintFrom_moves _ _ _).add 2)
  · exact .refl b 0

theorem skipPrefix_moves (letter : UInt8) (hletter : letter ≠ 32) (b : Buffer) :
    Moves b 0 (skipPrefix letter b).1 (skipPrefix letter b).2 := by
  unfold skipPrefix
  split
  · next h =>
    refine moves_advance (k := 2) ?_ (by decide) 0
    intro i hi
    match i, hi with
    | 0, _ => rw [h.1]; decide
    | 1, _ => exact toLower_ne_zero h.2 hletter
  · exact .refl b 0

theorem skipOctalPrefix_moves (b : Buffer) :
    Moves b 0 (skipOctalPrefix b).1 (skipOctalPrefix b).2 := by
  unfold skipOctalPrefix
  split
  · next hzero =>
    have hnext := moves_next (b := b) (by rw [hzero]; decide) 0
    split
    · next ho => exact hnext.trans (moves_next (toLower_ne_zero ho (by decide)) 1)
    · exact hnext
  · exact .refl b 0

/-! ### Floating point -/

theorem takeFloatSign_moves (b : Buffer) :
    Moves b 0 (takeFloatSign b).2.1 (takeFloatSign b).2.2 := by
  unfold takeFloatSign
  split
  · next h =>
    refine moves_next ?_ 0
    rcases h with h | h <;> rw [h] <;> decide
  · exact .refl b 0

theorem parseFloatInfOrNan_moves (b : Buffer) (value : UInt64) :
    Moves b 0 (parseFloatInfOrNan b value).count (parseFloatInfOrNan b value).buffer := by
  have hthree {x y z : UInt8} (hx : x ≠ 32) (hy : y ≠ 32) (hz : z ≠ 32)
      (h : toLower (b.peekbyte 0) = x ∧ toLower (b.peekbyte 1) = y ∧ toLower (b.peekbyte 2) = z) :
      Solid b 3 := by
    intro i hi
    match i, hi with
    | 0, _ => exact toLower_ne_zero h.1 hx
    | 1, _ => exact toLower_ne_zero h.2.1 hy
    | 2, _ => exact toLower_ne_zero h.2.2 hz
  unfold parseFloatInfOrNan
  dsimp only
  split
  · next h =>
    have hinf := moves_advance (hthree (by decide) (by decide) (by decide) h) (by decide) 0
    split
    · next h' =>
      refine hinf.trans (moves_advance (k := 5) ?_ (by decide) _)
      intro i hi
      match i, hi with
      | 0, _ => exact toLower_ne_zero h'.1 (by decide)
      | 1, _ => exact toLower_ne_zero h'.2.1 (by decide)
      | 2, _ => exact toLower_ne_zero h'.2.2.1 (by decide)
      | 3, _ => exact toLower_ne_zero h'.2.2.2.1 (by decide)
      | 4, _ => exact toLower_ne_zero h'.2.2.2.2 (by decide)
    · exact hinf
  · split
    · next h => exact moves_advance (hthree (by decide) (by decide) (by decide) h) (by decide) 0
    · exact .refl b 0

theorem scaleBy_moves (fpu : FloatUnit) (base : Nat) (value : UInt64) (c : UInt32) (b : Buffer) :
    Moves b c (scaleBy fpu base value c b).count (scaleBy fpu base value c b).buffer := by
  have hsign := (takeFloatSign_moves b).add c
  unfold scaleBy
  generalize takeFloatSign b = front at hsign ⊢
  obtain ⟨sign, signCount, b'⟩ := front
  dsimp only at hsign ⊢
  have hexp := (uintFromDecCommon_moves false b').add (c + signCount)
  rw [UInt32.add_zero] at hsign hexp
  exact hsign.trans hexp

theorem negateIf_moves (fpu : FloatUnit) (minus : Bool) {taken : Taken UInt64}
    (h : Moves b c taken.count taken.buffer) :
    Moves b c (negateIf fpu minus taken).count (negateIf fpu minus taken).buffer := by
  unfold negateIf
  split <;> exact h

/-- The digits, the point and the digits behind it, then the exponent: the part that the two formats have
in common. -/
theorem mantissa_moves {whole : Taken UInt64} {fraction : Taken (UInt64 × UInt64)}
    (hwhole : Moves b c whole.count whole.buffer)
    (hfraction : Moves whole.buffer.next (whole.count + 1) fraction.count fraction.buffer) :
    let taken : Taken UInt64 := if whole.buffer.peekbyte 0 = 46 then
      ⟨fraction.value.1, fraction.count, fraction.buffer⟩ else whole
    Moves b c taken.count taken.buffer := by
  intro taken
  simp only [taken]
  split
  · next hpoint =>
    exact hwhole.trans ((moves_next (by rw [hpoint]; decide) _).trans hfraction)
  · exact hwhole

theorem exponent_moves (fpu : FloatUnit) (base : Nat) {letter : UInt8} (hletter : letter ≠ 32)
    (minus : Bool) {taken : Taken UInt64} (h : Moves b c taken.count taken.buffer) :
    let result := if toLower (taken.buffer.peekbyte 0) = letter then
      negateIf fpu minus (scaleBy fpu base taken.value (taken.count + 1) taken.buffer.next)
      else negateIf fpu minus taken
    Moves b c result.count result.buffer := by
  intro result
  simp only [result]
  split
  · next hexp =>
    apply negateIf_moves
    exact h.trans ((moves_next (toLower_ne_zero hexp hletter) _).trans (scaleBy_moves _ _ _ _ _))
  · exact negateIf_moves fpu minus h

theorem floatFromNormalCommon_moves (fpu : FloatUnit) (groupDigits : Bool) (b : Buffer) :
    Moves b 0 (floatFromNormalCommon fpu groupDigits b).count
      (floatFromNormalCommon fpu groupDigits b).buffer := by
  have hsign := takeFloatSign_moves b
  unfold floatFromNormalCommon
  generalize takeFloatSign b = front at hsign ⊢
  obtain ⟨minus, signCount, b'⟩ := front
  dsimp only at hsign ⊢
  split
  · have hspecial := (parseFloatInfOrNan_moves b' 0).add signCount
    rw [UInt32.add_zero] at hspecial
    exact hsign.trans hspecial
  · apply exponent_moves fpu 10 (by decide)
    exact mantissa_moves (hsign.trans (readDigits_moves _ _ _ _ _)) (readDigits_moves _ _ _ _ _)

/-- A hexadecimal number, an infinity or a NaN follows, or nothing at all. -/
def HexFloatStarts (b : Buffer) : Prop :=
  let b' := (takeFloatSign b).2.2
  (parseFloatInfOrNan b' 0).count ≠ 0 ∨ (b'.peekbyte 0 = 48 ∧ toLower (b'.peekbyte 1) = 120) ∨
    b.size ≤ b.pos

theorem floatFromHexCommon_moves (fpu : FloatUnit) (h : HexFloatStarts b) :
    Moves b 0 (floatFromHexCommon fpu b).count (floatFromHexCommon fpu b).buffer := by
  have hsign := takeFloatSign_moves b
  unfold HexFloatStarts at h
  unfold floatFromHexCommon
  generalize takeFloatSign b = front at h hsign ⊢
  obtain ⟨minus, signCount, b'⟩ := front
  dsimp only at h hsign ⊢
  simp only [readbyte_fst]
  by_cases hspecial : (parseFloatInfOrNan b' 0).count = 0
  · rw [if_neg (not_not.mpr hspecial)]
    rcases h.resolve_left (not_not.mpr hspecial) with ⟨hzero, hx⟩ | hend
    · -- the prefix
      have hzero' : b'.peekbyte 0 ≠ 0 := by rw [hzero]; decide
      have hx' : toLower (b'.next.peekbyte 0) = 120 := by
        rwa [next_of_peekbyte hzero', peekbyte_skip]
      have hskip : Moves b 0 (signCount + 2) b'.next.next := by
        have htwo := (moves_next hzero' signCount).trans
          (moves_next (toLower_ne_zero hx' (by decide)) (signCount + 1))
        rw [UInt32.add_assoc] at htwo
        exact hsign.trans htwo
      rw [if_neg (not_not.mpr hzero), if_neg (not_not.mpr hx')]
      apply exponent_moves fpu 2 (by decide)
      exact mantissa_moves (hskip.trans (readWhile_moves _ _ _ _)) (readWhile_moves _ _ _ _)
    · -- nothing is left, and nothing is read
      obtain ⟨k, hsolid, hcount, rfl⟩ := hsign
      have hk : k = 0 := by
        rcases hsolid.le with hk | hk
        · exact hk
        · omega
      subst hk
      have hpeek : b.peekbyte 0 = 0 := by
        by_contra hne
        exact absurd (lt_of_peekbyte hne).2 (Nat.not_lt.mpr hend)
      rw [show skip b 0 = b from rfl, if_pos (by rw [hpeek]; decide), next_of_ge hend]
      exact .refl b 0
  · rw [if_pos hspecial]
    have hmoves := (parseFloatInfOrNan_moves b' 0).add signCount
    rw [UInt32.add_zero] at hmoves
    exact hsign.trans hmoves

/-! ### Characters -/

theorem utf8Decode_bytes (text : List UInt8) (size : UInt8) :
    (utf8Decode text size).1 ≤ size.toNat ∧
      ∀ i, 0 < i → i < (utf8Decode text size).1 → text.getD i 0 ≠ 0 := by
  by_cases hzero : (utf8Decode text size).1 = 0
  · rw [hzero]
    exact ⟨Nat.zero_le _, fun i _ hlt => absurd hlt (Nat.not_lt_zero i)⟩
  · obtain ⟨seq, v, hseq, hlen, hbytes, hdec⟩ := Convert.utf8Decode_reads hzero
    rw [hdec]
    refine ⟨hlen, fun i hpos hlt => ?_⟩
    rw [hbytes i hlt]
    exact hseq.tail_ne_zero hpos hlt

theorem pending_of_le (hpos : b.pos ≤ b.size) (hsize : b.size ≤ 2 ^ 64) :
    b.pending ≤ b.size - b.pos := by
  unfold Buffer.pending
  omega

/-- What is decoded lies within the buffer. -/
theorem decodeHere_le (hpos : b.pos ≤ b.size) (hsize : b.size ≤ 2 ^ 64) :
    b.pos + (decodeHere b).1 ≤ b.size := by
  have hle := (utf8Decode_bytes (b.data.drop b.pos) (UInt8.ofNat b.pending)).1
  have hpending := pending_of_le hpos hsize
  have hbyte : (UInt8.ofNat b.pending).toNat ≤ b.pending := by
    rw [UInt8.toNat_ofNat']
    exact Nat.mod_le _ _
  unfold decodeHere
  omega

theorem decodeHere_solid (hpeek : b.peekbyte 0 ≠ 0) (hsize : b.size ≤ 2 ^ 64) :
    Solid b (decodeHere b).1 := by
  obtain ⟨herror, hpos⟩ := lt_of_peekbyte hpeek
  have hle := decodeHere_le (Nat.le_of_lt hpos) hsize
  intro i hi
  by_cases hzero : i = 0
  · rwa [hzero]
  · have hbyte := (utf8Decode_bytes (b.data.drop b.pos) (UInt8.ofNat b.pending)).2 i
      (Nat.pos_of_ne_zero hzero) hi
    rw [List.getD_eq_getElem?_getD, List.getElem?_drop] at hbyte
    rw [Buffer.peekbyte, herror, if_neg Bool.false_ne_true, if_neg (by omega),
      List.getD_eq_getElem?_getD]
    exact hbyte

theorem stringLoop_moves {modifier : Modifier} {fuel : Nat} {c : UInt32} {b out : Buffer}
    (hsize : b.size ≤ 2 ^ 64) {finished : Bool} {c' : UInt32} {b' out' : Buffer}
    (h : stringLoop modifier fuel c b out = some (finished, c', b', out')) : Moves b c c' b' := by
  induction fuel generalizing c b out with
  | zero =>
    cases h
    exact .refl _ _
  | succ fuel ih =>
    by_cases hstop : b.peekbyte 0 = 0 ∨ isSpace (b.peekbyte 0) = true
    · simp only [stringLoop, hstop, if_true] at h
      cases h
      exact .refl _ _
    · have hpeek : b.peekbyte 0 ≠ 0 := fun hzero => hstop (.inl hzero)
      have hbyte {out : Buffer}
          (h : stringLoop modifier fuel (c + 1) b.next out = some (finished, c', b', out')) :
          Moves b c c' b' := by
        have hnext := moves_next hpeek c
        exact hnext.trans (ih (by rwa [hnext.size]) h)
      have hchar {out : Buffer} (hcount : (decodeHere b).1 ≠ 0)
          (h : stringLoop modifier fuel (c + UInt32.ofNat (decodeHere b).1)
            (b.advance (decodeHere b).1) out = some (finished, c', b', out')) : Moves b c c' b' := by
        have hnext := moves_advance (decodeHere_solid hpeek hsize) hcount c
        exact hnext.trans (ih (by rwa [hnext.size]) h)
      cases modifier with
      | long =>
        simp only [stringLoop, hstop, if_false] at h
        split at h
        · cases h
          exact .refl _ _
        · next hcount =>
          obtain ⟨out₁, -, h⟩ := Option.bind_eq_some_iff.mp h
          exact hchar hcount h
      | longLong =>
        simp only [stringLoop, hstop, if_false] at h
        split at h
        · cases h
          exact .refl _ _
        · next hcount => exact hchar hcount h
      | _ =>
        simp only [stringLoop, hstop, if_false] at h
        exact hbyte h

/-! ## Directives -/

/-- The count is the number of bytes by which the buffer has moved, within its end. -/
def Counts (b : Buffer) (count : UInt32) (b' : Buffer) : Prop :=
  ∃ k, count = UInt32.ofNat k ∧ b' = skip b k ∧ (k = 0 ∨ b.pos + k ≤ b.size)

theorem Moves.counts (h : Moves b 0 c b') : Counts b c b' := by
  obtain ⟨k, hk, rfl, rfl⟩ := h
  exact ⟨k, UInt32.zero_add _, rfl, hk.le⟩

/-- What the conversions that may go wrong need of the bytes they are to read. -/
def Accounted (config : ScanConfig) (b : Buffer) : Prop :=
  match config.type with
  | .pointer => PointerStarts b
  | .doubleHex => HexFloatStarts b
  | .char => b.pos ≤ b.size
  | _ => True

theorem scanChar_counts {config : ScanConfig} {st st' : Store} (herror : b.error = false)
    (hpos : b.pos ≤ b.size) (hsize : b.size ≤ 2 ^ 64) (h : scanChar config b st = (c, b', st')) :
    Counts b c b' := by
  have hnone : Counts b 0 b := ⟨0, rfl, rfl, .inl rfl⟩
  have hzero : b.advance 0 = b := by
    simp only [Buffer.advance, Nat.add_zero, Nat.min_eq_left hpos]
  have hwide : Counts b (UInt32.ofNat (decodeHere b).1) (b.advance (decodeHere b).1) := by
    have hle := decodeHere_le hpos hsize
    refine ⟨_, rfl, ?_, .inr hle⟩
    simp only [Buffer.advance, skip, Nat.min_eq_left hle]
  unfold scanChar at h
  split at h
  · cases h
    exact hnone
  · next hpending =>
    have hlt : b.pos < b.size := by
      have := pending_of_le hpos hsize
      omega
    split at h
    · dsimp only at h
      split at h
      · cases h
        rwa [hzero]
      · split at h <;> cases h <;> exact hwide
    · dsimp only at h
      split at h
      · cases h
        rwa [hzero]
      · cases h
        exact hwide
    · cases h
      exact ⟨1, rfl, next_of_lt herror hlt, .inr hlt⟩

/-- **Every conversion but `SCAN_CHAR` counts the bytes it reads.** -/
theorem doScan_moves {env : ScanEnv} {config : ScanConfig} {st st' : Store}
    (htype : config.type ≠ .char) (hsize : b.size ≤ 2 ^ 64) (haccounted : Accounted config b)
    (h : doScan env config b st = some (c, b', st')) : Moves b 0 c b' := by
  have hnumber {skipped : UInt32} {b₁ : Buffer} {taken : Taken UInt64} (hskip : Moves b 0 skipped b₁)
      (htaken : Moves b₁ 0 taken.count taken.buffer) :
      Moves b 0 (skipped + taken.count) taken.buffer := by
    have := htaken.add skipped
    rw [UInt32.add_zero] at this
    exact hskip.trans this
  have hfloat {taken : Taken UInt64} (htaken : Moves b 0 taken.count taken.buffer)
      (h : storeFloat env config st taken = (c, b', st')) : Moves b 0 c b' := by
    unfold storeFloat at h
    split at h <;> cases h <;> exact htaken
  unfold Accounted at haccounted
  unfold doScan at h
  cases hty : config.type <;> rw [hty] at h haccounted <;> simp only [Option.some.injEq] at h
  case intNumber =>
    cases h
    have hmoves := intFromDecCommon_moves config.flags.groupDigits b
    rwa [← UInt32.zero_add (intFromDecCommon config.flags.groupDigits b).count] at hmoves
  case uintNumber =>
    cases h
    exact hnumber (.refl b 0) (uintFromDecCommon_moves _ b)
  case uintBinary =>
    cases h
    exact hnumber (skipPrefix_moves 98 (by decide) b) (uintFrom_moves _ _ _)
  case uintOctal =>
    cases h
    exact hnumber (skipOctalPrefix_moves b) (uintFrom_moves _ _ _)
  case uintHex =>
    cases h
    exact hnumber (skipPrefix_moves 120 (by decide) b) (uintFrom_moves _ _ _)
  case doubleNormal => exact hfloat (floatFromNormalCommon_moves _ _ b) h
  case doubleScientific => exact hfloat (floatFromNormalCommon_moves _ _ b) h
  case doubleScientificShort => exact hfloat (floatFromNormalCommon_moves _ _ b) h
  case doubleHex => exact hfloat (floatFromHexCommon_moves _ haccounted) h
  case char => exact absurd hty htype
  case string =>
    unfold scanString at h
    split at h
    · cases h
      exact readWhile_moves _ _ _ _
    · obtain ⟨⟨finished, result, b₁, out⟩, hloop, hfinish⟩ := Option.map_eq_some_iff.mp h
      cases hfinish
      exact stringLoop_moves hsize hloop
  case set =>
    unfold scanSet at h
    dsimp only at h
    split at h <;> cases h <;> exact readWhile_moves _ _ _ _
  case pointer =>
    cases h
    exact pointerDecode_moves haccounted
  case result =>
    cases h
    exact .refl _ _
  case unknown =>
    cases h
    exact .refl _ _

theorem doScan_counts {env : ScanEnv} {config : ScanConfig} {st st' : Store}
    (herror : b.error = false) (hsize : b.size ≤ 2 ^ 64) (haccounted : Accounted config b)
    (h : doScan env config b st = some (c, b', st')) : Counts b c b' := by
  by_cases htype : config.type = .char
  · unfold Accounted at haccounted
    unfold doScan at h
    rw [htype] at h haccounted
    exact scanChar_counts herror haccounted hsize (Option.some.inj h)
  · exact (doScan_moves htype hsize haccounted h).counts


/-- The white space in front of a directive. -/
def ScanConfig.spaces (config : ScanConfig) (b : Buffer) : Taken Unit :=
  if config.type.keepsSpace then ⟨⟨⟩, 0, b⟩ else consumeWhitespaces b

/-- What a directive reads from: the input behind the white space, up to its width. -/
def ScanConfig.field (config : ScanConfig) (b : Buffer) : Buffer :=
  let b := (config.spaces b).buffer
  if config.width > 0 then { b with size := b.pos + config.width.toNat } else b

/-- `scan_arg` around `do_scan`. -/
theorem scanArg_eq (env : ScanEnv) (config : ScanConfig) (b : Buffer) (st : Store) :
    scanArg env config b st = (doScan env config (config.field b) st).map
      fun (count, b', st) => ((config.spaces b).count + count,
        if config.width > 0 then { b' with size := (config.spaces b).buffer.size } else b', st) := by
  unfold scanArg
  rw [← ScanConfig.spaces]
  unfold ScanConfig.field
  split <;> rfl

theorem spaces_moves (config : ScanConfig) (b : Buffer) :
    Moves b 0 (config.spaces b).count (config.spaces b).buffer := by
  unfold ScanConfig.spaces
  split
  · exact .refl b 0
  · exact consumeWhitespaces_moves b

theorem field_eq (config : ScanConfig) (b : Buffer) :
    ∃ j size, Solid b j ∧ (config.spaces b).count = UInt32.ofNat j ∧
      (config.spaces b).buffer = skip b j ∧
      config.field b = { skip b j with size := size } ∧ size ≤ max b.size (b.pos + j + 2 ^ 32) ∧
      (config.width = 0 → size = b.size) ∧ (size = b.size ∨ b.pos + j ≤ size) := by
  obtain ⟨j, hsolid, hcount, hbuffer⟩ := spaces_moves config b
  rw [UInt32.zero_add] at hcount
  refine ⟨j, (config.field b).size, hsolid, hcount, hbuffer, ?_, ?_, ?_, ?_⟩
  · simp only [ScanConfig.field, hbuffer]
    split <;> rfl
  · have hwidth := config.width.toNat_lt
    simp only [ScanConfig.field, hbuffer, skip]
    split
    · dsimp only
      omega
    · exact Nat.le_max_left _ _
  · intro hwidth
    simp only [ScanConfig.field, hbuffer, hwidth]
    rfl
  · simp only [ScanConfig.field, hbuffer, skip]
    split
    · exact .inr (Nat.le_add_right _ _)
    · exact .inl rfl

/-- **A directive counts the bytes it reads**, white space included. -/
theorem scanArg_counts {env : ScanEnv} {config : ScanConfig} {st st' : Store}
    (herror : b.error = false) (hsize : (config.field b).size ≤ 2 ^ 64)
    (haccounted : Accounted config (config.field b))
    (h : scanArg env config b st = some (c, b', st')) :
    ∃ k, c = UInt32.ofNat k ∧ b' = skip b k ∧
      (b.pos + k ≤ max b.pos (max b.size (config.field b).size)) := by
  obtain ⟨j, size, hsolid, hcount, hbuffer, hfield, -, hzero, -⟩ := field_eq config b
  rw [scanArg_eq] at h
  obtain ⟨⟨count, b₁, st₁⟩, hscan, hresult⟩ := Option.map_eq_some_iff.mp h
  have herror' : (config.field b).error = false := by rw [hfield]; exact herror
  obtain ⟨k, rfl, rfl, hk⟩ := doScan_counts herror' hsize haccounted hscan
  cases hresult
  refine ⟨j + k, ?_, ?_, ?_⟩
  · rw [hcount, UInt32.ofNat_add]
  · rw [hfield, hbuffer]
    split
    · simp only [skip, Nat.add_assoc]
    · next hwidth =>
      rw [hzero (by simpa using hwidth)]
      simp only [skip, Nat.add_assoc]
  · rw [hfield] at hk ⊢
    have hj := hsolid.le
    simp only [skip] at hk ⊢
    omega

/-! ## The format -/

theorem parseScanFlags_suffix (flags : ScanFlags) (format : List UInt8) :
    (parseScanFlags flags format).2 <:+ format := by
  induction format generalizing flags with
  | nil => exact List.suffix_refl _
  | cons byte format ih =>
    rw [parseScanFlags]
    split
    · exact (ih _).trans (List.suffix_cons _ _)
    · exact List.suffix_refl _

theorem parseSetFrom_suffix {exclude : Bool} {fuel : Nat} {set : BitVec 128} {format : List UInt8}
    {closed : Bool} {set' : BitVec 128} {rest : List UInt8}
    (h : parseSetFrom exclude fuel set format = some (closed, set', rest)) : rest <:+ format := by
  fun_induction parseSetFrom exclude fuel set format with
  | case1 =>
    cases h
    exact List.suffix_refl _
  | case2 =>
    cases h
    exact List.suffix_refl _
  | case3 =>
    cases h
    exact List.suffix_cons _ _
  | case4 fuel set byte format _ _ _ ih =>
    obtain ⟨set₁, -, h⟩ := Option.bind_eq_some_iff.mp h
    exact (ih set₁ h).trans ((List.drop_suffix _ _).trans (List.suffix_cons _ _))
  | case5 fuel set byte format _ _ _ ih =>
    obtain ⟨set₁, -, h⟩ := Option.bind_eq_some_iff.mp h
    exact (ih set₁ h).trans (List.suffix_cons _ _)
  | case6 fuel set byte format _ _ ih => exact (ih h).trans (List.suffix_cons _ _)

theorem parseSet_suffix {format : List UInt8} {closed : Bool} {set : BitVec 128} {rest : List UInt8}
    (h : parseSet format = some (closed, set, rest)) : rest <:+ format := by
  unfold parseSet at h
  split at h
  · obtain ⟨set₁, -, h⟩ := Option.bind_eq_some_iff.mp h
    exact (parseSetFrom_suffix h).trans (List.suffix_cons _ _)
  · obtain ⟨set₁, -, h⟩ := Option.bind_eq_some_iff.mp h
    exact (parseSetFrom_suffix h).trans ((List.suffix_cons _ _).trans (List.suffix_cons _ _))
  · exact (parseSetFrom_suffix h).trans (List.suffix_cons _ _)
  · exact parseSetFrom_suffix h

theorem parseScanSpecifier_suffix {format : List UInt8} {args args' : VariadicArgs}
    {config : ScanConfig} {rest : List UInt8}
    (h : parseScanSpecifier format args = some (config, rest, args')) : rest <:+ format := by
  have hfront : (parseModifier (parseNumber 0 (parseScanFlags {} (parseArgument format).2).2).2).2 <:+
      format :=
    (parseModifier_suffix _).trans ((parseNumber_suffix 0 _).trans ((parseScanFlags_suffix {} _).trans
      (parseArgument_suffix format)))
  have htail := (List.tail_suffix _).trans hfront
  unfold parseScanSpecifier at h
  dsimp only at h
  split at h
  · obtain ⟨⟨closed, set, format'⟩, hset, h⟩ := Option.map_eq_some_iff.mp h
    have hrest : rest = format' := by
      refine (congrArg (fun parsed => parsed.2.1) h).symm.trans ?_
      dsimp only
      split <;> split <;> rfl
    rw [hrest]
    exact (parseSet_suffix hset).trans htail
  · rw [Option.some.injEq] at h
    split at h <;> cases h <;> exact htail

/-! ## The loop -/

/-- What a turn that goes on has done. -/
theorem scanfIteration_next {env : ScanEnv} {l l' : ScanLoop}
    (h : scanfIteration env l = some (.next l')) :
    (∃ front byte format, l.format = front ++ byte :: format ∧ l.buffer.peekbyte 0 = byte ∧
      l' = ⟨format, l.args, l.buffer.next, l.store, l.processed + 1, l.result⟩) ∨
    (∃ byte format, l.format = byte :: format ∧
      l' = ⟨format, l.args, (consumeWhitespaces l.buffer).buffer, l.store,
        l.processed + (consumeWhitespaces l.buffer).count, l.result⟩) ∨
    (∃ spec config format args count buffer store result, l.format = 37 :: spec ∧
      parseScanSpecifier spec l.args = some (config, format, args) ∧
      scanArg env { config with result := l.processed.toUInt64 } l.buffer l.store =
        some (count, buffer, store) ∧
      (config.type = .result ∨ config.flags.suppressInput = true ∨ count ≠ 0 ∨ config.type = .set) ∧
      l' = ⟨format, args, buffer, store, l.processed + count, result⟩) := by
  unfold scanfIteration at h
  split at h
  · cases h
  · cases h
  · next format hformat =>
    split at h
    · cases h
    · next hpeek =>
      cases h
      exact .inl ⟨[37], 37, format, hformat, not_not.mp hpeek, rfl⟩
  · next spec _ _ hformat =>
    unfold scanDirective at h
    obtain ⟨⟨config, format, args⟩, hparse, h⟩ := Option.bind_eq_some_iff.mp h
    dsimp only at h
    split at h
    · cases h
    · obtain ⟨⟨count, buffer, store⟩, hscan, h⟩ := Option.bind_eq_some_iff.mp h
      dsimp only at h
      refine .inr (.inr ⟨spec, config, format, args, count, buffer, store, ?_⟩)
      split at h
      · cases h
      · split at h
        · split at h
          · cases h
          · next hstored hcount =>
            cases h
            refine ⟨_, hformat, hparse, hscan, ?_, rfl⟩
            by_cases hzero : count = 0
            · by_cases hset : config.type = .set
              · exact .inr (.inr (.inr hset))
              · exact absurd ⟨hzero, .inl hset⟩ hcount
            · exact .inr (.inr (.inl hzero))
        · next hstored =>
          cases h
          refine ⟨_, hformat, hparse, hscan, ?_, rfl⟩
          by_cases hresult : config.type = .result
          · exact .inl hresult
          · by_cases hsuppress : config.flags.suppressInput = true
            · exact .inr (.inl hsuppress)
            · exact absurd ⟨hresult, hsuppress⟩ hstored
  · next byte format _ _ _ hformat =>
    split at h
    · cases h
      exact .inr (.inl ⟨byte, format, hformat, rfl⟩)
    · split at h
      · cases h
      · next hpeek =>
        cases h
        exact .inl ⟨[], byte, format, hformat, not_not.mp hpeek, rfl⟩

theorem pointerDecode_count (h : ¬ PointerStarts b) : (pointerDecode b).count = 0 := by
  unfold PointerStarts at h
  obtain ⟨hzero, hx⟩ := Classical.not_imp.mp h
  rw [pointerDecode, if_pos hzero, if_neg hx]

theorem floatFromHexCommon_count (fpu : FloatUnit)
    (h : ¬ ((parseFloatInfOrNan (takeFloatSign b).2.2 0).count ≠ 0 ∨
      ((takeFloatSign b).2.2.peekbyte 0 = 48 ∧ toLower ((takeFloatSign b).2.2.peekbyte 1) = 120))) :
    (floatFromHexCommon fpu b).count = 0 := by
  unfold floatFromHexCommon
  generalize takeFloatSign b = front at h ⊢
  obtain ⟨minus, signCount, b'⟩ := front
  dsimp only at h ⊢
  obtain ⟨hspecial, hx⟩ := not_or.mp h
  rw [if_neg hspecial]
  simp only [readbyte_fst]
  by_cases hzero : b'.peekbyte 0 = 48
  · have hnext : b'.next.peekbyte 0 = b'.peekbyte 1 := by
      rw [next_of_peekbyte (by rw [hzero]; decide), peekbyte_skip]
    rw [if_neg (not_not.mpr hzero), hnext, if_pos (fun hletter => hx ⟨hzero, hletter⟩)]
  · rw [if_pos hzero]

/-- A conversion that is not accounted for counts nothing, unless it is of a character. -/
theorem doScan_count {env : ScanEnv} {config : ScanConfig} {st st' : Store}
    (htype : config.type ≠ .char) (hnot : ¬ Accounted config b)
    (h : doScan env config b st = some (c, b', st')) :
    c = 0 ∧ (config.type = .pointer ∨ config.type = .doubleHex) := by
  unfold Accounted at hnot
  unfold doScan at h
  cases hty : config.type <;> rw [hty] at h hnot <;> try exact absurd trivial hnot
  case char => exact absurd hty htype
  case pointer =>
    cases h
    exact ⟨pointerDecode_count hnot, .inl rfl⟩
  case doubleHex =>
    have hcount := floatFromHexCommon_count env.fpu
      (fun h => hnot (h.imp_right .inl))
    refine ⟨?_, .inr rfl⟩
    unfold storeFloat at h
    dsimp only at h
    split at h <;> cases h <;> exact hcount

theorem consumeWhitespaces_count (h : ¬ isSpace (b.peekbyte 0)) : (consumeWhitespaces b).count = 0 := by
  unfold consumeWhitespaces readWhile
  cases b.size - b.pos with
  | zero => rfl
  | succ fuel =>
    rw [readFrom]
    split
    · rfl
    · split
      · rfl
      · next hbody => cases hbody

/-- What a turn needs, so that it counts right: its conversion is accounted for, or it is the last. -/
def ScanLoop.Accounted (l : ScanLoop) : Prop :=
  ∀ spec config format args, l.format = 37 :: spec →
    parseScanSpecifier spec l.args = some (config, format, args) →
    Scanf.Accounted config (config.field l.buffer) ∨
      (config.type ≠ .char ∧ config.flags.suppressInput = false ∧ ¬ isSpace (l.buffer.peekbyte 0))

/-- The state of the loop when nothing has been scanned. -/
def ScanLoop.start (buffer : Buffer) (format : List UInt8) (list : Nat → UInt64) (st : Store) :
    ScanLoop :=
  ⟨(format.takeWhile (· ≠ 0)).take 65536, .init list, buffer, st, 0, 0⟩

/-- What holds between turns. The position has a bound because the format has one. -/
structure Counted (l : ScanLoop) : Prop where
  count : l.processed = UInt32.ofNat l.buffer.pos
  error : l.buffer.error = false
  size : l.buffer.size ≤ 65536
  format : ∀ byte ∈ l.format, byte ≠ 0
  bound : l.buffer.pos + 2 ^ 33 * l.format.length ≤ 2 ^ 63

theorem start_format (format : List UInt8) :
    (∀ byte ∈ (format.takeWhile (· ≠ 0)).take 65536, byte ≠ 0) ∧
      ((format.takeWhile (· ≠ 0)).take 65536).length ≤ 65536 := by
  refine ⟨fun byte hbyte => ?_, List.length_take_le _ _⟩
  simpa using List.mem_takeWhile_imp (List.mem_of_mem_take hbyte)

theorem counted_start {str : List UInt8} {n : Nat} (hn : n ≤ 65536) (format : List UInt8)
    (list : Nat → UInt64) (st : Store) : Counted (.start (.fixed str n) format list st) := by
  obtain ⟨hformat, hlength⟩ := start_format format
  refine ⟨rfl, rfl, hn, hformat, ?_⟩
  simp only [ScanLoop.start, Buffer.fixed]
  omega

theorem Counted.skip {l : ScanLoop} (h : Counted l) {k : Nat} {format : List UInt8}
    (hformat : format <:+ l.format) (hlength : format.length < l.format.length)
    (hk : k ≤ 2 ^ 33) {args : VariadicArgs} {store : Store} {result : UInt32} :
    Counted ⟨format, args, Scanf.skip l.buffer k, store, l.processed + UInt32.ofNat k, result⟩ := by
  refine ⟨?_, h.error, h.size, fun byte hbyte => h.format byte (hformat.subset hbyte), ?_⟩
  · rw [h.count, ← UInt32.ofNat_add]
    rfl
  · have hbound := h.bound
    simp only [Scanf.skip]
    omega

theorem Solid.le_size {k : Nat} (h : Solid b k) : k ≤ b.size := by
  rcases h.le with hk | hk <;> omega

/-- **A turn that is accounted for counts what it reads.** -/
theorem scanfIteration_counts {env : ScanEnv} {l l' : ScanLoop} (h : Counted l)
    (haccounted : l.Accounted) (hturn : scanfIteration env l = some (.next l')) : Counted l' := by
  have hsize := h.size
  have hbound := h.bound
  rcases scanfIteration_next hturn with ⟨front, byte, format, hformat, hpeek, rfl⟩ |
    ⟨byte, format, hformat, rfl⟩ |
    ⟨spec, config, format, args, count, buffer, store, result, hformat, hparse, hscan, hgoes, rfl⟩
  · -- a byte of the format, which is not zero
    have hbyte : l.buffer.peekbyte 0 ≠ 0 := by
      rw [hpeek]
      exact h.format byte (by rw [hformat]; exact List.mem_append_right _ List.mem_cons_self)
    rw [next_of_peekbyte hbyte]
    refine h.skip (k := 1) ?_ ?_ (by decide)
    · rw [hformat]
      exact (List.suffix_cons _ _).trans (List.suffix_append _ _)
    · rw [hformat, List.length_append, List.length_cons]
      omega
  · -- white space
    obtain ⟨k, hsolid, hcount, hbuffer⟩ := consumeWhitespaces_moves l.buffer
    rw [UInt32.zero_add] at hcount
    rw [hcount, hbuffer]
    refine h.skip ?_ ?_ ?_
    · rw [hformat]
      exact List.suffix_cons _ _
    · rw [hformat]
      exact Nat.lt_succ_self _
    · have := hsolid.le_size
      omega
  · -- a directive
    have hsuffix := parseScanSpecifier_suffix hparse
    have hlength : format.length < l.format.length := by
      rw [hformat]
      exact Nat.lt_succ_of_le hsuffix.length_le
    have hfits : 1 ≤ l.format.length := by omega
    obtain ⟨j, size, hsolid, hskipped, hspaces, hfield, hwidth, -⟩ := field_eq config l.buffer
    have hj := hsolid.le_size
    by_cases hacc : Scanf.Accounted config (config.field l.buffer)
    · have hfieldsize : (config.field l.buffer).size = size := by rw [hfield]
      obtain ⟨k, rfl, rfl, hk⟩ := @scanArg_counts _ _ _ _ { config with result := l.processed.toUInt64 } _ _ h.error
        (by change (config.field l.buffer).size ≤ 2 ^ 64; omega) hacc hscan
      change l.buffer.pos + k ≤ max l.buffer.pos (max l.buffer.size (config.field l.buffer).size) at hk
      refine h.skip ?_ hlength (by omega)
      rw [hformat]
      exact hsuffix.trans (List.suffix_cons _ _)
    · -- the last turn: nothing is counted
      obtain ⟨htype, hstores, hspace⟩ :=
        (haccounted spec config format args hformat hparse).resolve_left hacc
      rw [scanArg_eq] at hscan
      obtain ⟨⟨c, b₁, st₁⟩, hdo, hresult⟩ := Option.map_eq_some_iff.mp hscan
      obtain ⟨rfl, hty⟩ := @doScan_count _ _ _ _ { config with result := l.processed.toUInt64 } _ _ htype hacc hdo
      change config.type = .pointer ∨ config.type = .doubleHex at hty
      have hzero : count = 0 := by
        have hspaces : config.spaces l.buffer = consumeWhitespaces l.buffer := by
          have hkeeps : config.type.keepsSpace = false := by
            rcases hty with hty | hty <;> rw [hty] <;> rfl
          rw [ScanConfig.spaces, if_neg (by rw [hkeeps]; exact Bool.false_ne_true)]
        rw [← (Prod.mk.inj hresult).1]
        change (config.spaces l.buffer).count + 0 = 0
        rw [hspaces, consumeWhitespaces_count hspace, UInt32.add_zero]
      rcases hgoes with h | h | h | h
      · rcases hty with hty | hty <;> rw [hty] at h <;> cases h
      · rw [hstores] at h
        cases h
      · exact absurd hzero h
      · rcases hty with hty | hty <;> rw [hty] at h <;> cases h

/-- A turn that counts right. -/
def CountingTurn (env : ScanEnv) (l l' : ScanLoop) : Prop :=
  l.Accounted ∧ scanfIteration env l = some (.next l')

/-- A conversion that is known is not a second `%`. -/
theorem scanfIteration_known (env : ScanEnv) {l : ScanLoop} {spec : List UInt8}
    {config : ScanConfig} {format : List UInt8} {args : VariadicArgs} (hformat : l.format = 37 :: spec)
    (hparse : parseScanSpecifier spec l.args = some (config, format, args))
    (htype : config.type ≠ .unknown) : scanfIteration env l = scanDirective env l spec := by
  cases spec with
  | nil =>
    cases hparse
    exact absurd rfl htype
  | cons c spec =>
    by_cases hpercent : c = 37
    · subst hpercent
      cases hparse
      exact absurd rfl htype
    · exact scanfIteration_percent hformat hpercent

/-- A turn at a `%n`. -/
theorem scanfIteration_result (env : ScanEnv) {l : ScanLoop} {spec : List UInt8} {config : ScanConfig}
    {format : List UInt8} {args : VariadicArgs} (hformat : l.format = 37 :: spec)
    (hparse : parseScanSpecifier spec l.args = some (config, format, args))
    (htype : config.type = .result) (herror : l.buffer.error = false) :
    scanfIteration env l = some (.next { l with
      format := format
      args := args
      store := l.store.put config.data config.modifier.resultBytes l.processed.toNat }) := by
  have hscan : scanArg env { config with result := l.processed.toUInt64 } l.buffer l.store =
      some (0, l.buffer,
        l.store.put config.data config.modifier.resultBytes l.processed.toNat) := by
    unfold scanArg doScan
    simp only [htype, ScanType.keepsSpace, if_true, Option.map_some, UInt32.toNat_toUInt64]
    split <;> rfl
  have hdirective : scanDirective env l spec = some (.next { l with
      format := format
      args := args
      store := l.store.put config.data config.modifier.resultBytes l.processed.toNat }) := by
    have hunknown : config.type ≠ .unknown := by rw [htype]; decide
    have hstored : ¬ (config.type ≠ .result ∧ ¬ config.flags.suppressInput = true) :=
      fun h => h.1 htype
    simp only [scanDirective, hparse, Option.bind_eq_bind, Option.bind_some, if_neg hunknown, hscan,
      herror, Bool.false_eq_true, if_false, if_neg hstored, UInt32.add_zero]
    rfl
  rw [← hdirective]
  exact scanfIteration_known env hformat hparse (by rw [htype]; decide)

/-- **`processed` is the number of bytes that have been read**, between all turns of a run in which every
turn is accounted for. So a `%n` stores the true offset. -/
theorem processed_eq_pos (env : ScanEnv) (str : List UInt8) {n : Nat} (hn : n ≤ 65536)
    (format : List UInt8) (list : Nat → UInt64) (st : Store) {l : ScanLoop}
    (hrun : Relation.ReflTransGen (CountingTurn env) (.start (.fixed str n) format list st) l) :
    l.processed = UInt32.ofNat l.buffer.pos ∧
      ∀ spec config rest args, l.format = 37 :: spec →
        parseScanSpecifier spec l.args = some (config, rest, args) → config.type = .result →
        scanfIteration env l = some (.next { l with
          format := rest
          args := args
          store := l.store.put config.data config.modifier.resultBytes
            (UInt32.ofNat l.buffer.pos).toNat }) := by
  have hcounted : Counted l := by
    induction hrun with
    | refl => exact counted_start hn format list st
    | tail _ hturn ih => exact scanfIteration_counts ih hturn.1 hturn.2
  refine ⟨hcounted.count, ?_⟩
  intro spec config rest args hformat hparse htype
  rw [← hcounted.count]
  exact scanfIteration_result env hformat hparse htype hcounted.error

/-- A turn that goes on, with something that can be computed of the state it leads to. -/
theorem exists_next {env : ScanEnv} {l : ScanLoop} {p : ScanLoop → Bool}
    (h : (match scanfIteration env l with
      | some (.next l') => p l'
      | _ => false) = true) :
    ∃ l', scanfIteration env l = some (.next l') ∧ p l' = true := by
  split at h
  · next l' hturn => exact ⟨l', hturn, h⟩
  · cases h

/-- After `%d` of `7`. -/
theorem processed_eq_pos_seven : ∃ l,
    CountingTurn plainEnv (.start (.fixed [55] 1) [37, 100] (fun _ => 0) ⟨fun _ => 0, []⟩) l ∧
      l.buffer.pos = 1 ∧ l.processed = UInt32.ofNat l.buffer.pos := by
  have haccounted :
      (ScanLoop.start (.fixed [55] 1) [37, 100] (fun _ => 0) ⟨fun _ => 0, []⟩).Accounted := by
    intro spec config format args hformat hparse
    cases hformat
    cases hparse
    exact .inl trivial
  obtain ⟨l, hturn, hpos⟩ := @exists_next plainEnv
    (.start (.fixed [55] 1) [37, 100] (fun _ => 0) ⟨fun _ => 0, []⟩)
    (fun l => l.buffer.pos = 1) (by decide +kernel)
  refine ⟨l, ⟨haccounted, hturn⟩, by simpa using hpos, ?_⟩
  exact (processed_eq_pos plainEnv [55] (by decide) [37, 100] (fun _ => 0) ⟨fun _ => 0, []⟩
    (.single ⟨haccounted, hturn⟩)).1

/-- `%*p` of `01` reads the `0`, and does not count it. -/
theorem processed_ne_pos : ¬ ∀ l, Relation.ReflTransGen
    (fun l l' => scanfIteration plainEnv l = some (.next l'))
    (.start (.fixed [48, 49] 2) [37, 42, 112] (fun _ => 0) ⟨fun _ => 0, []⟩) l →
      l.processed = UInt32.ofNat l.buffer.pos := by
  intro h
  obtain ⟨l, hturn, hne⟩ := @exists_next plainEnv
    (.start (.fixed [48, 49] 2) [37, 42, 112] (fun _ => 0) ⟨fun _ => 0, []⟩)
    (fun l => l.processed ≠ UInt32.ofNat l.buffer.pos) (by decide +kernel)
  exact absurd (h l (.single hturn)) (by simpa using hne)

end WindowsLibc.Scanf
