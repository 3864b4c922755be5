import WindowsLibc.Scanf.Convert

/-!
# The codecs of Unicode (`internal/convert.c`)

`utf8_encode` and `utf16_encode`, `utf8_decode` and `utf16_decode`, and the lengths, against the
characters and the encoding of Lean. The bits are turned into arithmetic once (`utf8Encode_eq`,
`utf8Decode_eq`).

* `Sequence` has the byte sequences that `utf8_decode` accepts, with their codepoints.
  `Sequence.decode`, `utf8Decode_sequence` and `Sequence.encode` are all that is used of the decoder.
* `decodesRight_iff` and `encodesRight_iff` say where the codecs go wrong: on four bytes for a codepoint
  that is too large (`Beyond`), and on surrogates.
-/

namespace WindowsLibc.Convert

open WindowsLibc.Printf WindowsLibc.Scanf

/-- A unit of a text in memory. -/
def unitAt (text : List UInt8) (i : Nat) : UInt16 :=
  (text.getD i 0).toUInt16 ||| ((text.getD (i + 1) 0).toUInt16 <<< 8)

/-- `utf16_decode` of the bytes at the front of `text`, of which there are `size`. -/
def utf16DecodeText (text : List UInt8) (size : UInt8) : Nat × UInt32 :=
  let high := unitAt text 0
  if size < 2 then (0, 0)
  else if high < 0xD800 ∨ high > 0xDFFF then (2, high.toUInt32)
  else if size < 4 then (0, 0)
  else utf16Decode high (unitAt text 2)

/-- `utf8_octets`. -/
def utf8Octets (codepoint : UInt32) : Nat :=
  if codepoint ≤ 0x7F then 1
  else if codepoint ≥ 0x80 ∧ codepoint ≤ 0x07FF then 2
  else if codepoint ≥ 0x800 ∧ codepoint ≤ 0xFFFF then 3
  else if codepoint ≥ 0x10000 ∧ codepoint ≤ 0x10FFFF then 4
  else 0

/-- `utf16_octets`. -/
def utf16Octets (codepoint : UInt32) : Nat :=
  if codepoint ≤ 0xFFFF then 2 else if codepoint ≤ 0x10FFFF then 4 else 0

/-! ## Bits -/

theorem toNat_or {x y : UInt32} {i : Nat} (hx : 2 ^ i ∣ x.toNat) (hy : y.toNat < 2 ^ i) :
    (x ||| y).toNat = x.toNat + y.toNat := by
  obtain ⟨a, ha⟩ := hx
  rw [UInt32.toNat_or, ha, ← Nat.two_pow_add_eq_or_of_lt hy]

/-- Bits of a byte, moved up. -/
theorem toNat_bits (byte mask : UInt8) (shift : UInt32) {k : Nat} (hmask : mask.toNat = 2 ^ k - 1)
    (hk : k + shift.toNat < 32) :
    (((byte &&& mask).toUInt32) <<< shift).toNat = byte.toNat % 2 ^ k * 2 ^ shift.toNat := by
  have hlt : byte.toNat % 2 ^ k < 2 ^ k := Nat.mod_lt _ (Nat.two_pow_pos k)
  have hpow : 2 ^ k * 2 ^ shift.toNat ≤ 2 ^ 32 := by
    rw [← Nat.pow_add]
    exact Nat.pow_le_pow_right (by decide) hk.le
  rw [UInt32.toNat_shiftLeft, UInt8.toNat_toUInt32, UInt8.toNat_and, hmask,
    Nat.and_two_pow_sub_one_eq_mod, Nat.mod_eq_of_lt (by omega : shift.toNat < 32),
    Nat.shiftLeft_eq]
  apply Nat.mod_eq_of_lt
  exact lt_of_lt_of_le (Nat.mul_lt_mul_of_pos_right hlt (Nat.two_pow_pos _)) hpow

theorem byte_masks : ∀ n < 256,
    (UInt8.ofNat n &&& 0xC0 = 0x80 ↔ 128 ≤ n ∧ n < 192) ∧
    (UInt8.ofNat n &&& 0xE0 = 0xC0 ↔ 192 ≤ n ∧ n < 224) ∧
    (UInt8.ofNat n &&& 0xF0 = 0xE0 ↔ 224 ≤ n ∧ n < 240) ∧
    (UInt8.ofNat n &&& 0xF8 = 0xF0 ↔ 240 ≤ n ∧ n < 248) := by
  decide +kernel

theorem mask_iff (byte : UInt8) :
    (byte &&& 0xC0 = 0x80 ↔ 128 ≤ byte.toNat ∧ byte.toNat < 192) ∧
    (byte &&& 0xE0 = 0xC0 ↔ 192 ≤ byte.toNat ∧ byte.toNat < 224) ∧
    (byte &&& 0xF0 = 0xE0 ↔ 224 ≤ byte.toNat ∧ byte.toNat < 240) ∧
    (byte &&& 0xF8 = 0xF0 ↔ 240 ≤ byte.toNat ∧ byte.toNat < 248) := by
  simpa using byte_masks byte.toNat byte.toNat_lt

/-- A mark and some bits of the codepoint. -/
theorem toNat_marked (mark shift mask codepoint : UInt32) {k : Nat} (hmask : mask.toNat = 2 ^ k - 1)
    (hmark : 2 ^ k ∣ mark.toNat) (hshift : shift.toNat < 32) :
    (mark ||| ((codepoint >>> shift) &&& mask)).toNat =
      mark.toNat + codepoint.toNat / 2 ^ shift.toNat % 2 ^ k := by
  have hbits : ((codepoint >>> shift) &&& mask).toNat =
      codepoint.toNat / 2 ^ shift.toNat % 2 ^ k := by
    rw [UInt32.toNat_and, hmask, Nat.and_two_pow_sub_one_eq_mod, UInt32.toNat_shiftRight,
      Nat.mod_eq_of_lt hshift, Nat.shiftRight_eq_div_pow]
  rw [toNat_or hmark, hbits]
  rw [hbits]
  exact Nat.mod_lt _ (Nat.two_pow_pos k)

/-! ## UTF-8 -/

/-- `utf8_encode` by arithmetic. -/
theorem utf8Encode_eq (v : UInt32) : utf8Encode v =
    if v.toNat ≤ 0x7F then [UInt8.ofNat v.toNat]
    else if v.toNat ≤ 0x7FF then
      [UInt8.ofNat (v.toNat / 64 % 32 + 0xC0), UInt8.ofNat (v.toNat % 64 + 0x80)]
    else if v.toNat ≤ 0xFFFF then
      [UInt8.ofNat (v.toNat / 4096 % 16 + 0xE0), UInt8.ofNat (v.toNat / 64 % 64 + 0x80),
        UInt8.ofNat (v.toNat % 64 + 0x80)]
    else if v.toNat ≤ 0x10FFFF then
      [UInt8.ofNat (v.toNat / 262144 % 8 + 0xF0), UInt8.ofNat (v.toNat / 4096 % 64 + 0x80),
        UInt8.ofNat (v.toNat / 64 % 64 + 0x80), UInt8.ofNat (v.toNat % 64 + 0x80)]
    else [] := by
  have hbyte : ∀ (mark shift mask : UInt32) {k : Nat}, mask.toNat = 2 ^ k - 1 → 2 ^ k ∣ mark.toNat →
      shift.toNat < 32 →
      (mark ||| ((v >>> shift) &&& mask)).toUInt8 =
        UInt8.ofNat (v.toNat / 2 ^ shift.toNat % 2 ^ k + mark.toNat) := by
    intro mark shift mask k hmask hmark hshift
    rw [← UInt8.toNat_inj, UInt32.toNat_toUInt8, toNat_marked mark shift mask v hmask hmark hshift,
      UInt8.toNat_ofNat', Nat.add_comm]
  have h7 := hbyte 0 0 0x7F (k := 7) rfl (by decide) (by decide)
  have h0 := hbyte 0x80 0 0x3F (k := 6) rfl (by decide) (by decide)
  have h6 := hbyte 0x80 6 0x3F (k := 6) rfl (by decide) (by decide)
  have h12 := hbyte 0x80 12 0x3F (k := 6) rfl (by decide) (by decide)
  have g6 := hbyte 0xC0 6 0x1F (k := 5) rfl (by decide) (by decide)
  have g12 := hbyte 0xE0 12 0x0F (k := 4) rfl (by decide) (by decide)
  have g18 := hbyte 0xF0 18 0x07 (k := 3) rfl (by decide) (by decide)
  simp only [utf8Encode, h7, h0, h6, h12, g6, g12, g18, UInt32.le_iff_toNat_le, UInt32.reduceToNat,
    Nat.reducePow, Nat.div_one, Nat.add_zero]
  split
  · next h => rw [Nat.mod_eq_of_lt (by omega)]
  · rfl

/-- `utf8_encode` is right for what is a character. -/
theorem utf8Encode_val (c : Char) : utf8Encode c.val = String.utf8EncodeChar c := by
  have hc : c.val.toNat ≤ 0x10FFFF := by
    have := c.valid
    rw [UInt32.isValidChar, Nat.isValidChar] at this
    omega
  rw [utf8Encode_eq, String.utf8EncodeChar]
  simp only [if_pos hc]

/-- A continuation byte. -/
def Tail (byte : Nat) : Prop := 128 ≤ byte ∧ byte < 192

instance (byte : Nat) : Decidable (Tail byte) := inferInstanceAs (Decidable (_ ∧ _))

/-! ### What is decoded -/

/-- The lower six bits of a continuation byte, moved up by `shift`. -/
theorem toNat_continuation (byte : UInt8) (shift : UInt32) (h : 6 + shift.toNat < 32) :
    (((byte &&& 0x3F).toUInt32) <<< shift).toNat = byte.toNat % 64 * 2 ^ shift.toNat :=
  toNat_bits byte 0x3F shift (k := 6) rfl h

theorem toNat_two (a b : UInt8) :
    (((a &&& 0x1F).toUInt32 <<< 6) ||| ((b &&& 0x3F).toUInt32 <<< 0)).toNat =
      a.toNat % 32 * 64 + b.toNat % 64 := by
  have ha : ((a &&& 0x1F).toUInt32 <<< 6).toNat = a.toNat % 32 * 64 :=
    toNat_bits a 0x1F 6 (k := 5) rfl (by decide)
  have hb : ((b &&& 0x3F).toUInt32 <<< 0).toNat = b.toNat % 64 :=
    (toNat_continuation b 0 (by decide)).trans (Nat.mul_one _)
  rw [toNat_or (i := 6), ha, hb]
  · rw [ha]
    omega
  · rw [hb]
    omega

theorem toNat_three (a b c : UInt8) :
    (((a &&& 0x0F).toUInt32 <<< 12) ||| ((b &&& 0x3F).toUInt32 <<< 6) |||
      ((c &&& 0x3F).toUInt32 <<< 0)).toNat =
        a.toNat % 16 * 4096 + b.toNat % 64 * 64 + c.toNat % 64 := by
  have ha : ((a &&& 0x0F).toUInt32 <<< 12).toNat = a.toNat % 16 * 4096 :=
    toNat_bits a 0x0F 12 (k := 4) rfl (by decide)
  have hb : ((b &&& 0x3F).toUInt32 <<< 6).toNat = b.toNat % 64 * 64 :=
    toNat_continuation b 6 (by decide)
  have hc : ((c &&& 0x3F).toUInt32 <<< 0).toNat = c.toNat % 64 :=
    (toNat_continuation c 0 (by decide)).trans (Nat.mul_one _)
  have hab : (((a &&& 0x0F).toUInt32 <<< 12) ||| ((b &&& 0x3F).toUInt32 <<< 6)).toNat =
      a.toNat % 16 * 4096 + b.toNat % 64 * 64 := by
    rw [toNat_or (i := 12), ha, hb]
    · rw [ha]
      omega
    · rw [hb]
      omega
  rw [toNat_or (i := 6), hab, hc]
  · rw [hab]
    omega
  · rw [hc]
    omega

theorem toNat_four (a b c d : UInt8) :
    (((a &&& 0x07).toUInt32 <<< 18) ||| ((b &&& 0x3F).toUInt32 <<< 12) |||
      ((c &&& 0x3F).toUInt32 <<< 6) ||| ((d &&& 0x3F).toUInt32 <<< 0)).toNat =
        a.toNat % 8 * 262144 + b.toNat % 64 * 4096 + c.toNat % 64 * 64 + d.toNat % 64 := by
  have ha : ((a &&& 0x07).toUInt32 <<< 18).toNat = a.toNat % 8 * 262144 :=
    toNat_bits a 0x07 18 (k := 3) rfl (by decide)
  have hb : ((b &&& 0x3F).toUInt32 <<< 12).toNat = b.toNat % 64 * 4096 :=
    toNat_continuation b 12 (by decide)
  have hc : ((c &&& 0x3F).toUInt32 <<< 6).toNat = c.toNat % 64 * 64 :=
    toNat_continuation c 6 (by decide)
  have hd : ((d &&& 0x3F).toUInt32 <<< 0).toNat = d.toNat % 64 :=
    (toNat_continuation d 0 (by decide)).trans (Nat.mul_one _)
  have hab : (((a &&& 0x07).toUInt32 <<< 18) ||| ((b &&& 0x3F).toUInt32 <<< 12)).toNat =
      a.toNat % 8 * 262144 + b.toNat % 64 * 4096 := by
    rw [toNat_or (i := 18), ha, hb]
    · rw [ha]
      omega
    · rw [hb]
      omega
  have habc : (((a &&& 0x07).toUInt32 <<< 18) ||| ((b &&& 0x3F).toUInt32 <<< 12) |||
      ((c &&& 0x3F).toUInt32 <<< 6)).toNat =
        a.toNat % 8 * 262144 + b.toNat % 64 * 4096 + c.toNat % 64 * 64 := by
    rw [toNat_or (i := 12), hab, hc]
    · rw [hab]
      omega
    · rw [hc]
      omega
  rw [toNat_or (i := 6), habc, hd]
  · rw [habc]
    omega
  · rw [hd]
    omega

/-- `utf8_decode` by arithmetic. -/
theorem utf8Decode_eq (text : List UInt8) (size : UInt8) {a b c d : Nat}
    (ha : a = (text.headD 0).toNat) (hb : b = (text.getD 1 0).toNat)
    (hc : c = (text.getD 2 0).toNat) (hd : d = (text.getD 3 0).toNat) : utf8Decode text size =
    if size.toNat = 0 then (0, 0)
    else if a < 128 then (1, UInt32.ofNat a)
    else if 192 ≤ a ∧ a < 224 then
      if size.toNat < 2 ∨ ¬ Tail b ∨ a % 32 * 64 + b % 64 < 0x80 then (0, 0)
      else (2, UInt32.ofNat (a % 32 * 64 + b % 64))
    else if 224 ≤ a ∧ a < 240 then
      if size.toNat < 3 ∨ ¬ Tail b ∨ ¬ Tail c then (0, 0)
      else if 0xD800 ≤ a % 16 * 4096 + b % 64 * 64 + c % 64 ∧
        a % 16 * 4096 + b % 64 * 64 + c % 64 ≤ 0xDFFF then (0, 0)
      else if a % 16 * 4096 + b % 64 * 64 + c % 64 < 0x800 then (0, 0)
      else (3, UInt32.ofNat (a % 16 * 4096 + b % 64 * 64 + c % 64))
    else if 240 ≤ a ∧ a < 248 then
      if size.toNat < 4 ∨ ¬ Tail b ∨ ¬ Tail c ∨ ¬ Tail d then (0, 0)
      else if a % 8 * 262144 + b % 64 * 4096 + c % 64 * 64 + d % 64 < 0x10000 then (0, 0)
      else (4, UInt32.ofNat (a % 8 * 262144 + b % 64 * 4096 + c % 64 * 64 + d % 64))
    else (0, 0) := by
  have hlead : (text.headD 0).toUInt32 = UInt32.ofNat (text.headD 0).toNat := by
    rw [← UInt8.toNat_toUInt32, UInt32.ofNat_toNat]
  rw [ha, hb, hc, hd, ← toNat_two, ← toNat_three, ← toNat_four]
  unfold utf8Decode Tail
  simp only [hlead, UInt32.lt_iff_toNat_lt, UInt32.le_iff_toNat_le, UInt8.lt_iff_toNat_lt,
    UInt8.le_iff_toNat_le, ← UInt8.toNat_inj (a := size), UInt32.ofNat_toNat, mask_iff,
    UInt32.reduceToNat, UInt8.reduceToNat, Nat.lt_succ_iff]

/-- The sequences that `utf8_decode` accepts, with their codepoints. -/
inductive Sequence : List UInt8 → Nat → Prop
  | one {a : UInt8} : a.toNat < 128 → Sequence [a] a.toNat
  | two {a b : UInt8} {v : Nat} : 192 ≤ a.toNat → a.toNat < 224 → Tail b.toNat →
      v = a.toNat % 32 * 64 + b.toNat % 64 → 0x80 ≤ v → Sequence [a, b] v
  | three {a b c : UInt8} {v : Nat} : 224 ≤ a.toNat → a.toNat < 240 → Tail b.toNat → Tail c.toNat →
      v = a.toNat % 16 * 4096 + b.toNat % 64 * 64 + c.toNat % 64 → 0x800 ≤ v →
      ¬ (0xD800 ≤ v ∧ v ≤ 0xDFFF) → Sequence [a, b, c] v
  | four {a b c d : UInt8} {v : Nat} : 240 ≤ a.toNat → a.toNat < 248 → Tail b.toNat →
      Tail c.toNat → Tail d.toNat →
      v = a.toNat % 8 * 262144 + b.toNat % 64 * 4096 + c.toNat % 64 * 64 + d.toNat % 64 →
      0x10000 ≤ v → Sequence [a, b, c, d] v

theorem Sequence.pos {seq : List UInt8} {v : Nat} (h : Sequence seq v) : 0 < seq.length := by
  cases h <;> exact Nat.succ_pos _

/-- A sequence at the front is accepted. -/
theorem Sequence.decode {seq : List UInt8} {v : Nat} (h : Sequence seq v) {text : List UInt8}
    {size : UInt8} (hseq : seq <+: text.take size.toNat) :
    utf8Decode text size = (seq.length, UInt32.ofNat v) := by
  have hlen : seq.length ≤ size.toNat := hseq.length_le.trans (List.length_take_le _ _)
  have hpos := h.pos
  obtain ⟨rest, rfl⟩ := hseq.trans <| List.take_prefix _ _
  cases h with
  | @one a ha =>
    rw [List.length_singleton] at hlen
    rw [utf8Decode_eq _ _ (a := a.toNat) rfl rfl rfl rfl, if_neg (by omega), if_pos ha]
    rfl
  | @two a b _ hlo hhi hb hv hmin =>
    have hsize : 2 ≤ size.toNat := hlen
    rw [utf8Decode_eq _ _ (a := a.toNat) (b := b.toNat) rfl rfl rfl rfl, if_neg (by omega),
      if_neg (by omega), if_pos ⟨hlo, hhi⟩, if_neg, ← hv]
    · rfl
    · rw [← hv]
      simp only [hb, not_true, false_or, not_or, Nat.not_lt]
      exact ⟨hsize, hmin⟩
  | @three a b c _ hlo hhi hb hc hv hmin hscalar =>
    have hsize : 3 ≤ size.toNat := hlen
    rw [utf8Decode_eq _ _ (a := a.toNat) (b := b.toNat) (c := c.toNat) rfl rfl rfl rfl,
      if_neg (by omega), if_neg (by omega), if_neg (by omega), if_pos ⟨hlo, hhi⟩, if_neg, ← hv,
      if_neg hscalar, if_neg (by omega)]
    · rfl
    · simp only [hb, hc, not_true, or_false, Nat.not_lt]
      exact hsize
  | @four a b c d _ hlo hhi hb hc hd hv hmin =>
    have hsize : 4 ≤ size.toNat := hlen
    rw [utf8Decode_eq _ _ (a := a.toNat) (b := b.toNat) (c := c.toNat) (d := d.toNat) rfl rfl rfl rfl,
      if_neg (by omega), if_neg (by omega), if_neg (by omega), if_neg (by omega),
      if_pos ⟨hlo, hhi⟩, if_neg, ← hv, if_neg (by omega)]
    · rfl
    · simp only [hb, hc, hd, not_true, or_false, Nat.not_lt]
      exact hsize

theorem Sequence.lt {seq : List UInt8} {v : Nat} (h : Sequence seq v) : v < 2 ^ 21 := by
  cases h <;> omega

/-- Behind the first byte there is no zero. -/
theorem Sequence.tail_ne_zero {seq : List UInt8} {v : Nat} (h : Sequence seq v) {i : Nat}
    (hpos : 0 < i) (hi : i < seq.length) : seq.getD i 0 ≠ 0 := by
  have htail {byte : UInt8} (h : Tail byte.toNat) : byte ≠ 0 := by
    rintro rfl
    exact absurd h.1 (by decide)
  cases h with
  | one => exact absurd hi (Nat.not_lt.mpr hpos)
  | two _ _ hb =>
    match i, hpos, hi with
    | 1, _, _ => exact htail hb
  | three _ _ hb hc =>
    match i, hpos, hi with
    | 1, _, _ => exact htail hb
    | 2, _, _ => exact htail hc
  | four _ _ hb hc hd =>
    match i, hpos, hi with
    | 1, _, _ => exact htail hb
    | 2, _, _ => exact htail hc
    | 3, _, _ => exact htail hd

/-- What is accepted is a sequence, of the bytes that were read. -/
theorem utf8Decode_reads {text : List UInt8} {size : UInt8} (h : (utf8Decode text size).1 ≠ 0) :
    ∃ seq v, Sequence seq v ∧ seq.length ≤ size.toNat ∧
      (∀ i < seq.length, text.getD i 0 = seq.getD i 0) ∧
      utf8Decode text size = (seq.length, UInt32.ofNat v) := by
  have hhead : text.getD 0 0 = text.headD 0 := by cases text <;> rfl
  generalize hr : utf8Decode text size = r at h ⊢
  rw [utf8Decode_eq _ _ rfl rfl rfl rfl] at hr
  -- the branches that return 0 are out
  have hzero : (0, 0) ≠ r := by
    rintro rfl
    exact h rfl
  have hgo {c : Prop} [Decidable c] {x : Nat × UInt32} (hr : (if c then (0, 0) else x) = r) :
      ¬ c ∧ x = r := by
    rw [ite_eq_iff, or_iff_right (fun hz => hzero hz.2)] at hr
    exact hr
  obtain ⟨hpos, hr⟩ := hgo hr
  split at hr
  · next ha =>
    refine ⟨[text.headD 0], _, .one ha, Nat.pos_of_ne_zero hpos, fun i hi => ?_, hr.symm⟩
    match i, hi with
    | 0, _ => exact hhead
  · split at hr
    · next ha =>
      obtain ⟨hb, hr⟩ := hgo hr
      simp only [not_or, not_not, Nat.not_lt] at hb
      obtain ⟨htwo, hb, hmin⟩ := hb
      refine ⟨[text.headD 0, text.getD 1 0], _, .two ha.1 ha.2 hb rfl hmin, htwo, fun i hi => ?_,
        hr.symm⟩
      match i, hi with
      | 0, _ => exact hhead
      | 1, _ => rfl
    · split at hr
      · next ha =>
        obtain ⟨hbc, hr⟩ := hgo hr
        simp only [not_or, not_not, Nat.not_lt] at hbc
        obtain ⟨hthree, hb, hc⟩ := hbc
        obtain ⟨hscalar, hr⟩ := hgo hr
        obtain ⟨hmin, hr⟩ := hgo hr
        refine ⟨[text.headD 0, text.getD 1 0, text.getD 2 0], _,
          .three ha.1 ha.2 hb hc rfl (Nat.not_lt.mp hmin) hscalar, hthree, fun i hi => ?_, hr.symm⟩
        match i, hi with
        | 0, _ => exact hhead
        | 1, _ => rfl
        | 2, _ => rfl
      · rw [ite_eq_iff, or_comm, or_iff_right (fun hz => hzero hz.2)] at hr
        obtain ⟨ha, hr⟩ := hr
        obtain ⟨hbcd, hr⟩ := hgo hr
        simp only [not_or, not_not, Nat.not_lt] at hbcd
        obtain ⟨hfour, hb, hc, hd⟩ := hbcd
        obtain ⟨hmin, hr⟩ := hgo hr
        refine ⟨[text.headD 0, text.getD 1 0, text.getD 2 0, text.getD 3 0], _,
          .four ha.1 ha.2 hb hc hd rfl (Nat.not_lt.mp hmin), hfour, fun i hi => ?_, hr.symm⟩
        match i, hi with
        | 0, _ => exact hhead
        | 1, _ => rfl
        | 2, _ => rfl
        | 3, _ => rfl

/-- It stands at the front of the text, if there is enough of that. -/
theorem utf8Decode_sequence {text : List UInt8} {size : UInt8} (hsize : size.toNat ≤ text.length)
    (h : (utf8Decode text size).1 ≠ 0) :
    ∃ seq v, Sequence seq v ∧ seq <+: text.take size.toNat ∧
      utf8Decode text size = (seq.length, UInt32.ofNat v) := by
  obtain ⟨seq, v, hseq, hlen, hbytes, hdec⟩ := utf8Decode_reads h
  refine ⟨seq, v, hseq, List.prefix_take_iff.mpr ⟨?_, hlen⟩, hdec⟩
  rw [List.prefix_iff_getElem?]
  intro i hi
  have hlt : i < text.length := lt_of_lt_of_le hi (hlen.trans hsize)
  have hbyte := hbytes i hi
  rw [List.getD_eq_getElem?_getD, List.getD_eq_getElem?_getD, List.getElem?_eq_getElem hlt,
    List.getElem?_eq_getElem hi] at hbyte
  rw [List.getElem?_eq_getElem hlt]
  exact congrArg some hbyte

/-- `utf8_encode` of a sequence's codepoint gives the sequence again, up to `0x10FFFF`. -/
theorem Sequence.encode {seq : List UInt8} {v : Nat} (h : Sequence seq v) (hv : v ≤ 0x10FFFF) :
    utf8Encode (UInt32.ofNat v) = seq := by
  have hbyte {n : Nat} {byte : UInt8} (hn : n = byte.toNat) : UInt8.ofNat n = byte := by
    rw [hn, UInt8.ofNat_toNat]
  rw [utf8Encode_eq, UInt32.toNat_ofNat_of_lt' (lt_of_le_of_lt hv (by decide))]
  cases h with
  | @one a ha => rw [if_pos (by omega), hbyte rfl]
  | @two a b _ hlo hhi hb hval hmin =>
    unfold Tail at hb
    rw [if_neg (by omega), if_pos (by omega), hbyte (by omega : _ = a.toNat),
      hbyte (by omega : _ = b.toNat)]
  | @three a b c _ hlo hhi hb hc hval hmin hscalar =>
    unfold Tail at hb hc
    rw [if_neg (by omega), if_neg (by omega), if_pos (by omega), hbyte (by omega : _ = a.toNat),
      hbyte (by omega : _ = b.toNat), hbyte (by omega : _ = c.toNat)]
  | @four a b c d _ hlo hhi hb hc hd hval hmin =>
    unfold Tail at hb hc hd
    rw [if_neg (by omega), if_neg (by omega), if_neg (by omega), if_pos hv,
      hbyte (by omega : _ = a.toNat), hbyte (by omega : _ = b.toNat), hbyte (by omega : _ = c.toNat),
      hbyte (by omega : _ = d.toNat)]

/-- The codepoint of a sequence is no surrogate. -/
theorem Sequence.isValidChar {seq : List UInt8} {v : Nat} (h : Sequence seq v)
    (hv : v ≤ 0x10FFFF) : (UInt32.ofNat v).isValidChar := by
  rw [UInt32.isValidChar, UInt32.toNat_ofNat_of_lt' (lt_of_le_of_lt hv (by decide)),
    Nat.isValidChar]
  cases h <;> omega

/-- `utf8_encode` of a character gives a sequence. -/
theorem sequence_utf8Encode {v : UInt32} (hv : v.isValidChar) : Sequence (utf8Encode v) v.toNat := by
  have hbyte {n : Nat} (hn : n < 256) : (UInt8.ofNat n).toNat = n := UInt8.toNat_ofNat_of_lt' hn
  rw [UInt32.isValidChar, Nat.isValidChar] at hv
  rw [utf8Encode_eq]
  split
  · have ha := hbyte (n := v.toNat) (by omega)
    have hone := Sequence.one (a := UInt8.ofNat v.toNat) (by omega)
    rwa [ha] at hone
  · split
    · have ha := hbyte (n := v.toNat / 64 % 32 + 0xC0) (by omega)
      have hb := hbyte (n := v.toNat % 64 + 0x80) (by omega)
      apply Sequence.two
      · omega
      · omega
      · exact ⟨by omega, by omega⟩
      · omega
      · omega
    · split
      · have ha := hbyte (n := v.toNat / 4096 % 16 + 0xE0) (by omega)
        have hb := hbyte (n := v.toNat / 64 % 64 + 0x80) (by omega)
        have hc := hbyte (n := v.toNat % 64 + 0x80) (by omega)
        apply Sequence.three
        · omega
        · omega
        · exact ⟨by omega, by omega⟩
        · exact ⟨by omega, by omega⟩
        · omega
        · omega
        · omega
      · rw [if_pos (by omega)]
        have ha := hbyte (n := v.toNat / 262144 % 8 + 0xF0) (by omega)
        have hb := hbyte (n := v.toNat / 4096 % 64 + 0x80) (by omega)
        have hc := hbyte (n := v.toNat / 64 % 64 + 0x80) (by omega)
        have hd := hbyte (n := v.toNat % 64 + 0x80) (by omega)
        apply Sequence.four
        · omega
        · omega
        · exact ⟨by omega, by omega⟩
        · exact ⟨by omega, by omega⟩
        · exact ⟨by omega, by omega⟩
        · omega
        · omega

/-- Four bytes of the right form at the front that stand for more than `0x10FFFF`. -/
def Beyond : List UInt8 → Prop
  | a :: b :: c :: d :: _ =>
    (a = 0xF4 ∧ 0x90 ≤ b ∧ b ≤ 0xBF ∨ 0xF5 ≤ a ∧ a ≤ 0xF7 ∧ 0x80 ≤ b ∧ b ≤ 0xBF) ∧
      (0x80 ≤ c ∧ c ≤ 0xBF) ∧ 0x80 ≤ d ∧ d ≤ 0xBF
  | _ => False

theorem beyond_cons {a b c d : UInt8} {rest : List UInt8} : Beyond (a :: b :: c :: d :: rest) ↔
    (a.toNat = 244 ∧ 144 ≤ b.toNat ∧ b.toNat ≤ 191 ∨
      245 ≤ a.toNat ∧ a.toNat ≤ 247 ∧ 128 ≤ b.toNat ∧ b.toNat ≤ 191) ∧
        (128 ≤ c.toNat ∧ c.toNat ≤ 191) ∧ 128 ≤ d.toNat ∧ d.toNat ≤ 191 := by
  simp only [Beyond, UInt8.le_iff_toNat_le, ← UInt8.toNat_inj, UInt8.reduceToNat]

theorem Beyond.exists_cons {text : List UInt8} (h : Beyond text) :
    ∃ a b c d rest, text = a :: b :: c :: d :: rest := by
  match text, h with
  | a :: b :: c :: d :: rest, _ => exact ⟨a, b, c, d, rest, rfl⟩

/-- Such bytes are accepted. -/
theorem Beyond.sequence {text : List UInt8} (h : Beyond text) :
    ∃ seq v, Sequence seq v ∧ seq <+: text ∧ 0x10FFFF < v := by
  obtain ⟨a, b, c, d, rest, rfl⟩ := h.exists_cons
  obtain ⟨hab, hc, hd⟩ := beyond_cons.mp h
  refine ⟨[a, b, c, d], _, Sequence.four ?_ ?_ ?_ ?_ ?_ rfl ?_, ⟨rest, rfl⟩, ?_⟩
  · omega
  · omega
  · exact ⟨by omega, by omega⟩
  · exact ⟨by omega, by omega⟩
  · exact ⟨by omega, by omega⟩
  · omega
  · omega

/-- A codepoint that is too large comes from such bytes. -/
theorem Sequence.beyond {seq : List UInt8} {v : Nat} (h : Sequence seq v) (hv : 0x10FFFF < v)
    {text : List UInt8} (hseq : seq <+: text) : Beyond text := by
  obtain ⟨rest, rfl⟩ := hseq
  cases h with
  | one ha => omega
  | two hlo hhi hb hval hmin => omega
  | three hlo hhi hb hc hval hmin hscalar => omega
  | four hlo hhi hb hc hd hval hmin =>
    unfold Tail at hb hc hd
    apply beyond_cons.mpr
    omega

/-! ### The decoder -/

/-- What is asked of `utf8_decode` on a text: it returns `k` exactly if the text starts with the
encoding of a character in `k` bytes, and `utf8_encode` gives these bytes back. -/
def DecodesRight (text : List UInt8) (size : UInt8) : Prop :=
  (∀ k ≠ 0, (utf8Decode text size).1 = k ↔
    ∃ c : Char, c.utf8Size = k ∧ String.utf8EncodeChar c <+: text.take size.toNat) ∧
  ((utf8Decode text size).1 ≠ 0 →
    utf8Encode (utf8Decode text size).2 = (text.take size.toNat).take (utf8Decode text size).1)

/-- A character at the front is found. -/
theorem utf8Decode_char {c : Char} {text : List UInt8} {size : UInt8}
    (h : String.utf8EncodeChar c <+: text.take size.toNat) :
    utf8Decode text size = (c.utf8Size, c.val) := by
  rw [← utf8Encode_val] at h
  rw [(sequence_utf8Encode c.valid).decode h, utf8Encode_val, String.length_utf8EncodeChar,
    UInt32.ofNat_toNat]

theorem decodesRight_iff {text : List UInt8} {size : UInt8} (hsize : size.toNat ≤ text.length) :
    DecodesRight text size ↔ ¬ Beyond (text.take size.toNat) := by
  constructor
  · intro hright hbeyond
    obtain ⟨seq, v, hseq, hfront, hv⟩ := hbeyond.sequence
    have hdec := hseq.decode hfront
    -- there would be a character, with the same codepoint
    obtain ⟨c, -, hc⟩ := (hright.1 seq.length hseq.pos.ne').mp (by rw [hdec])
    have hval : UInt32.ofNat v = c.val := by
      rw [utf8Decode_char hc] at hdec
      exact (Prod.mk.inj hdec).2.symm
    have hvalid : c.val.isValidChar := c.valid
    rw [← hval, UInt32.isValidChar, Nat.isValidChar,
      UInt32.toNat_ofNat_of_lt' (hseq.lt.trans (by decide))] at hvalid
    omega
  · intro hbeyond
    have hfound {k : Nat} (hk : k ≠ 0) (hdec : (utf8Decode text size).1 = k) :
        ∃ c : Char, c.utf8Size = k ∧ String.utf8EncodeChar c <+: text.take size.toNat := by
      obtain ⟨seq, v, hseq, hfront, hval⟩ := utf8Decode_sequence hsize (hdec ▸ hk)
      have hv : v ≤ 0x10FFFF := Nat.not_lt.mp fun hv => hbeyond (hseq.beyond hv hfront)
      refine ⟨⟨UInt32.ofNat v, hseq.isValidChar hv⟩, ?_, ?_⟩
      · rw [← String.length_utf8EncodeChar, ← utf8Encode_val, hseq.encode hv, ← hdec, hval]
      · rw [← utf8Encode_val, hseq.encode hv]
        exact hfront
    constructor
    · intro k hk
      refine ⟨hfound hk, ?_⟩
      rintro ⟨c, rfl, hc⟩
      rw [utf8Decode_char hc]
    · intro hk
      obtain ⟨c, hck, hc⟩ := hfound hk rfl
      rw [utf8Decode_char hc, utf8Encode_val, ← String.length_utf8EncodeChar]
      exact List.prefix_iff_eq_take.mp hc

/-! ## UTF-16 -/

theorem toNat_unitAt (text : List UInt8) (i : Nat) :
    (unitAt text i).toNat = (text.getD i 0).toNat + 256 * (text.getD (i + 1) 0).toNat := by
  have hlow := (text.getD i 0).toNat_lt
  have hhigh := (text.getD (i + 1) 0).toNat_lt
  rw [unitAt, UInt16.toNat_or, Nat.or_comm, UInt16.toNat_shiftLeft, UInt8.toNat_toUInt16,
    UInt8.toNat_toUInt16, Nat.shiftLeft_eq, show (8 : UInt16).toNat % 16 = 8 from rfl,
    Nat.mod_eq_of_lt (by omega), Nat.mul_comm, ← Nat.two_pow_add_eq_or_of_lt hlow, Nat.add_comm]

theorem unitAt_unitBytes (unit : UInt16) (rest : List UInt8) :
    unitAt (unitBytes unit ++ rest) 0 = unit := by
  rw [← UInt16.toNat_inj, toNat_unitAt]
  show unit.toUInt8.toNat + 256 * (unit >>> 8).toUInt8.toNat = unit.toNat
  have := unit.toNat_lt
  rw [UInt16.toNat_toUInt8, UInt16.toNat_toUInt8, UInt16.toNat_shiftRight, Nat.shiftRight_eq_div_pow,
    show (8 : UInt16).toNat % 16 = 8 from rfl]
  omega

theorem unitAt_append (front text : List UInt8) : unitAt (front ++ text) front.length = unitAt text 0 := by
  simp [unitAt, List.getD_eq_getElem?_getD, List.getElem?_append_right]

/-- The surrogates of `v`. -/
theorem surrogates {v : UInt32} (hlo : 0xFFFF < v.toNat) (hhi : v.toNat < 0x110000) :
    ((0xD800 : UInt32) ||| (((v - 0x10000) >>> 10) &&& 0x3FF)).toUInt16.toNat =
        0xD800 + (v.toNat - 0x10000) / 1024 ∧
      ((0xDC00 : UInt32) ||| ((v - 0x10000) &&& 0x3FF)).toUInt16.toNat =
        0xDC00 + (v.toNat - 0x10000) % 1024 := by
  have hsub : (v - 0x10000).toNat = v.toNat - 0x10000 := by
    rw [UInt32.toNat_sub_of_le]
    · rfl
    · exact UInt32.le_iff_toNat_le.mpr hlo
  have hhigh := toNat_marked 0xD800 10 0x3FF (v - 0x10000) (k := 10) rfl (by decide) (by decide)
  have hlow := toNat_marked 0xDC00 0 0x3FF (v - 0x10000) (k := 10) rfl (by decide) (by decide)
  rw [UInt32.shiftRight_zero] at hlow
  simp only [hsub, UInt32.reduceToNat, Nat.reducePow] at hhigh hlow
  rw [UInt32.toNat_toUInt16, UInt32.toNat_toUInt16, hhigh, hlow]
  constructor <;> omega

/-- Two units that are the surrogates of a codepoint. -/
theorem utf16Decode_pair {high low : UInt16} {v : UInt32} (hlo : 0xFFFF < v.toNat)
    (hhi : v.toNat < 0x110000) (hhigh : high.toNat = 0xD800 + (v.toNat - 0x10000) / 1024)
    (hlow : low.toNat = 0xDC00 + (v.toNat - 0x10000) % 1024) : utf16Decode high low = (4, v) := by
  have hval : ((((high.toUInt32 &&& 0x3FF) <<< 10) ||| (low.toUInt32 &&& 0x3FF)) + 0x10000) = v := by
    have h10 : ((high.toUInt32 &&& 0x3FF) <<< 10).toNat = high.toNat % 1024 * 1024 := by
      rw [UInt32.toNat_shiftLeft, UInt32.toNat_and, UInt16.toNat_toUInt32,
        show (0x3FF : UInt32).toNat = 2 ^ 10 - 1 from rfl, Nat.and_two_pow_sub_one_eq_mod,
        show (10 : UInt32).toNat % 32 = 10 from rfl, Nat.shiftLeft_eq]
      omega
    have h0 : (low.toUInt32 &&& 0x3FF).toNat = low.toNat % 1024 := by
      rw [UInt32.toNat_and, UInt16.toNat_toUInt32,
        show (0x3FF : UInt32).toNat = 2 ^ 10 - 1 from rfl, Nat.and_two_pow_sub_one_eq_mod]
    rw [← UInt32.toNat_inj, UInt32.toNat_add, toNat_or (i := 10), h10, h0,
      show (0x10000 : UInt32).toNat = 0x10000 from rfl]
    · omega
    · rw [h10]
      omega
    · rw [h0]
      omega
  rw [utf16Decode, if_neg, if_pos, hval]
  · simp only [UInt16.le_iff_toNat_le, UInt16.reduceToNat]
    omega
  · simp only [gt_iff_lt, UInt16.lt_iff_toNat_lt, UInt16.reduceToNat]
    omega

/-- `utf16_decode` finds what `utf16_encode` wrote. -/
theorem utf16DecodeText_utf16Encode {v : UInt32} (hv : v.isValidChar) {text : List UInt8}
    {size : UInt8} (h : utf16Encode v <+: text.take size.toNat) :
    utf16DecodeText text size = ((utf16Encode v).length, v) := by
  have hlen : (utf16Encode v).length ≤ size.toNat := h.length_le.trans (List.length_take_le _ _)
  obtain ⟨rest, rfl⟩ := h.trans <| List.take_prefix _ _
  rw [UInt32.isValidChar, Nat.isValidChar] at hv
  have hmax : ¬ v > 0x10FFFF := by
    simp only [gt_iff_lt, UInt32.lt_iff_toNat_lt, UInt32.reduceToNat]
    omega
  rw [utf16Encode, if_neg hmax] at hlen ⊢
  unfold utf16DecodeText
  split
  · next hsmall =>
    -- one unit
    have hsmall' : v.toNat ≤ 0xFFFF := UInt32.le_iff_toNat_le.mp hsmall
    rw [if_pos hsmall] at hlen
    have hunit : v.toUInt16.toNat = v.toNat := by
      rw [UInt32.toNat_toUInt16]
      omega
    have hplain : v.toUInt16 < 0xD800 ∨ v.toUInt16 > 0xDFFF := by
      simp only [gt_iff_lt, UInt16.lt_iff_toNat_lt, hunit, UInt16.reduceToNat]
      omega
    have hval : v.toUInt16.toUInt32 = v := by
      rw [← UInt32.toNat_inj, UInt16.toNat_toUInt32, hunit]
    rw [unitAt_unitBytes, if_neg, if_pos hplain, hval]
    · rfl
    · rw [UInt8.lt_iff_toNat_lt]
      exact Nat.not_lt.mpr hlen
  · next hlarge =>
    -- a pair of surrogates
    have hlarge' : 0xFFFF < v.toNat := by
      simpa only [UInt32.not_le, UInt32.lt_iff_toNat_lt, UInt32.reduceToNat] using hlarge
    rw [if_neg hlarge] at hlen
    have hsize : 4 ≤ size.toNat := hlen
    obtain ⟨hhigh, hlow⟩ := surrogates hlarge' (by omega)
    rw [List.append_assoc, unitAt_unitBytes, if_neg, if_neg, if_neg]
    · rw [show (2 : Nat) = (unitBytes _).length from rfl, unitAt_append, unitAt_unitBytes]
      exact utf16Decode_pair hlarge' (by omega) hhigh hlow
    · rw [UInt8.lt_iff_toNat_lt]
      exact Nat.not_lt.mpr hsize
    · simp only [gt_iff_lt, UInt16.lt_iff_toNat_lt, hhigh, UInt16.reduceToNat]
      omega
    · rw [UInt8.lt_iff_toNat_lt]
      exact Nat.not_lt.mpr (le_trans (by decide) hsize)

/-- What is asked of the encoders on a value: they encode it exactly if it is a character, and what
starts with the encoding is decoded as the value. -/
def EncodesRight (v : UInt32) : Prop :=
  (utf8Encode v ≠ [] ↔ v.isValidChar) ∧ (utf16Encode v ≠ [] ↔ v.isValidChar) ∧
  (utf8Encode v ≠ [] → ∀ text size, utf8Encode v <+: text.take size.toNat →
    utf8Decode text size = ((utf8Encode v).length, v)) ∧
  (utf16Encode v ≠ [] → ∀ text size, utf16Encode v <+: text.take size.toNat →
    utf16DecodeText text size = ((utf16Encode v).length, v))

/-! ### The lengths -/

theorem length_utf8Encode (v : UInt32) : (utf8Encode v).length = utf8Octets v := by
  unfold utf8Encode utf8Octets
  simp only [ge_iff_le, UInt32.le_iff_toNat_le, UInt32.reduceToNat]
  split_ifs <;> first | rfl | omega

theorem length_utf16Encode (v : UInt32) : (utf16Encode v).length = utf16Octets v := by
  unfold utf16Encode utf16Octets
  simp only [gt_iff_lt, UInt32.lt_iff_toNat_lt, UInt32.le_iff_toNat_le, UInt32.reduceToNat]
  split_ifs <;> first | rfl | omega

/-- A surrogate, which is no character. -/
def Surrogate (v : UInt32) : Prop := 0xD800 ≤ v ∧ v ≤ 0xDFFF

theorem isValidChar_iff (v : UInt32) : v.isValidChar ↔ v ≤ 0x10FFFF ∧ ¬ Surrogate v := by
  simp only [Surrogate, UInt32.isValidChar, Nat.isValidChar, UInt32.le_iff_toNat_le,
    UInt32.reduceToNat]
  omega

theorem utf8Encode_ne_nil_iff (v : UInt32) : utf8Encode v ≠ [] ↔ v ≤ 0x10FFFF := by
  rw [Ne, utf8Encode_eq_nil_iff, UInt32.not_lt]

theorem utf16Encode_ne_nil_iff (v : UInt32) : utf16Encode v ≠ [] ↔ v ≤ 0x10FFFF := by
  rw [← List.length_pos_iff, length_utf16Encode, utf16Octets]
  simp only [UInt32.le_iff_toNat_le, UInt32.reduceToNat]
  split_ifs <;> omega

theorem encodesRight_iff (v : UInt32) : EncodesRight v ↔ ¬ Surrogate v := by
  constructor
  · rintro ⟨h8, -⟩ hsurrogate
    have hmax : v ≤ 0x10FFFF := UInt32.le_trans hsurrogate.2 (by decide)
    rw [utf8Encode_ne_nil_iff, isValidChar_iff] at h8
    exact (h8.mp hmax).2 hsurrogate
  · intro hscalar
    have hvalid : v ≤ 0x10FFFF ↔ v.isValidChar := by
      rw [isValidChar_iff]
      exact (and_iff_left hscalar).symm
    refine ⟨(utf8Encode_ne_nil_iff v).trans hvalid, (utf16Encode_ne_nil_iff v).trans hvalid, ?_, ?_⟩
    · intro hne text size hfront
      have hv := hvalid.mp ((utf8Encode_ne_nil_iff v).mp hne)
      rw [(sequence_utf8Encode hv).decode hfront, UInt32.ofNat_toNat]
    · intro hne text size hfront
      have hv := hvalid.mp ((utf16Encode_ne_nil_iff v).mp hne)
      exact utf16DecodeText_utf16Encode hv hfront

/-! ## The codecs -/

/-- **The codecs are right except on two kinds of input**: `utf8_decode` accepts four bytes of the right
form for a codepoint beyond `0x10FFFF`, and the encoders accept surrogates. -/
theorem codecs_right_iff (text : List UInt8) (size : UInt8) (hsize : size.toNat ≤ text.length)
    (v : UInt32) :
    (DecodesRight text size ↔ ¬ Beyond (text.take size.toNat)) ∧
      (EncodesRight v ↔ ¬ Surrogate v) ∧
      (utf8Encode v).length = utf8Octets v ∧ (utf16Encode v).length = utf16Octets v :=
  ⟨decodesRight_iff hsize, encodesRight_iff v, length_utf8Encode v, length_utf16Encode v⟩

/-- The euro sign. -/
theorem codecs_right_euro : DecodesRight [0xE2, 0x82, 0xAC] 3 ∧ EncodesRight 0x20AC :=
  have h := codecs_right_iff [0xE2, 0x82, 0xAC] 3 (by decide) 0x20AC
  ⟨h.1.mpr (fun hbeyond => hbeyond), h.2.1.mpr (by unfold Surrogate; decide)⟩

/-- `F4 90 80 80` is decoded as `0x110000`, and `0xD800` is encoded. -/
theorem codecs_accept_illegal :
    ¬ DecodesRight [0xF4, 0x90, 0x80, 0x80] 4 ∧ ¬ EncodesRight 0xD800 := by
  constructor
  · rintro ⟨hlen, henc⟩
    have hdec : utf8Decode [0xF4, 0x90, 0x80, 0x80] 4 = (4, 0x110000) := by decide
    have := henc (by decide)
    rw [hdec] at this
    revert this
    decide
  · rintro ⟨h8, -⟩
    have := h8.mp (by decide)
    revert this
    decide

end WindowsLibc.Convert
