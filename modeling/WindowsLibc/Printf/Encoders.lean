import WindowsLibc.Lib.Block
import WindowsLibc.Printf.Grouped

/-!
# The arrays of the digit encoders (`internal/convert.c`)

`uint_to_hex_common` and its siblings stage the digits of a number in a local array of 32 bytes, the last one
first, and copy them to the buffer of the caller in reverse. Here the arrays and their indices are explicit, and
a byte that is not in them is a fault; the digits are those of `digitsFrom` and `decFrom` (`stageDigits_eq`,
`stageDec_eq`).

`encoders_iff`: every number of 64 bits has its digits written, but for `uint_to_bin_common`, whose local array
has 32 bytes as well, for at most 32 of them.
-/

namespace WindowsLibc.Printf.Encoders

open WindowsLibc.Lib

/-! ## The functions -/

/-- `temp` and `pos` -/
structure Staged where
  temp : List UInt8
  pos : UInt8

/-- `uint8_t temp[32] = {0}` and `pos = 0` -/
def Staged.fresh : Staged := ⟨List.replicate 32 0, 0⟩

/-- `temp[pos++] = byte` -/
def Staged.push (s : Staged) (byte : UInt8) : Option Staged :=
  (poke s.temp s.pos.toNat [byte]).map (fun temp => ⟨temp, s.pos + 1⟩)

/-- `do … while (x != 0)` in `uint_to_hex_common`, `uint_to_oct_common` and `uint_to_bin_common`: the digit of
`x & mask`, and `x >>= shift`. A number has at most 64 digits. -/
def stageDigits (mask shift : UInt64) (digit : UInt64 → UInt8) : Nat → UInt64 → Staged → Option Staged
  | 0, _, _ => none
  | turns + 1, x, s => do
    let s ← s.push (digit (x &&& mask))
    if x >>> shift ≠ 0 then stageDigits mask shift digit turns (x >>> shift) s else some s

/-- `temp[pos++] = ','` before every fourth digit -/
def Staged.separate (s : Staged) (groupDigits : Bool) (sep : Nat) : Option Staged :=
  if sep = 3 ∧ groupDigits then s.push 44 else some s

/-- `do … while (x != 0)` in `uint_to_dec_common`. -/
def stageDec (groupDigits : Bool) : Nat → UInt64 → Nat → Staged → Option Staged
  | 0, _, _, _ => none
  | turns + 1, x, sep, s => do
    let s ← s.separate groupDigits sep
    let s ← s.push (x % 10 + 48).toUInt8
    if x / 10 ≠ 0 then stageDec groupDigits turns (x / 10) ((if sep = 3 then 0 else sep) + 1) s else some s

/-- `for (uint8_t i = 0; i < pos; ++i)`, with so many bytes still to copy. -/
def copyOut (temp : List UInt8) (pos : Nat) : Nat → List UInt8 → Option (List UInt8)
  | 0, buffer => some buffer
  | left + 1, buffer => do
    let i := pos - (left + 1)
    let byte ← temp[pos - i - 1]?
    let buffer ← poke buffer i [byte]
    copyOut temp pos left buffer

/-- The end of the functions: the buffer, and `return pos`. -/
def copyDigits (staged : Option Staged) (buffer : List UInt8) : Option (List UInt8 × UInt32) := do
  let s ← staged
  let buffer ← copyOut s.temp s.pos.toNat s.pos.toNat buffer
  some (buffer, s.pos.toUInt32)

/-- `uint_to_hex_common` -/
def uintToHex (buffer : List.Vector UInt8 32) (upper : UInt8) (x : UInt64) : Option (List UInt8 × UInt32) :=
  let table := if upper ≠ 0 then hexUpperTable else hexLowerTable
  copyDigits (stageDigits 0x0F 4 (fun d => table.getD d.toNat 0) 64 x .fresh) buffer.toList

/-- `uint_to_oct_common` -/
def uintToOct (buffer : List.Vector UInt8 32) (x : UInt64) : Option (List UInt8 × UInt32) :=
  copyDigits (stageDigits 0x07 3 (fun d => (d + 48).toUInt8) 64 x .fresh) buffer.toList

/-- `uint_to_bin_common` -/
def uintToBin (buffer : List.Vector UInt8 64) (x : UInt64) : Option (List UInt8 × UInt32) :=
  copyDigits (stageDigits 0x1 1 (fun d => (d + 48).toUInt8) 64 x .fresh) buffer.toList

/-- `uint_to_dec_common` -/
def uintToDec (buffer : List.Vector UInt8 32) (x : UInt64) (flags : UInt32) :
    Option (List UInt8 × UInt32) :=
  copyDigits (stageDec (flags &&& 0x40 ≠ 0) 64 x 0 .fresh) buffer.toList

/-! ## What is wanted -/

/-- A text at the beginning of the buffer, and its length. -/
def Writes (text buffer : List UInt8) (r : Option (List UInt8 × UInt32)) : Prop :=
  text.length ≤ buffer.length ∧ r = some (text ++ buffer.drop text.length, UInt32.ofNat text.length)

/-- The digits of a number, most significant first. -/
def Encodes (base : Nat) (text : List Nat → List UInt8) (x : UInt64) (buffer : List UInt8)
    (r : Option (List UInt8 × UInt32)) : Prop :=
  ∃ ds, Canonical base x.toNat ds ∧ Writes (text ds) buffer r

/-! ## Staging -/

/-- The array holds a text from its end. -/
structure Staged.Holds (s : Staged) (text : List UInt8) : Prop where
  temp : s.temp.length = 32
  pos : s.pos.toNat = text.length
  stored : s.temp.take text.length = text.reverse

theorem Staged.holds_fresh : Staged.fresh.Holds [] := ⟨List.length_replicate, rfl, rfl⟩

namespace Staged.Holds

variable {s : Staged} {text : List UInt8}

theorem length_le (h : s.Holds text) : text.length ≤ 32 := by
  have hlength := congrArg List.length h.stored
  have htemp := h.temp
  rw [List.length_take, List.length_reverse] at hlength
  omega

theorem push (h : s.Holds text) (byte : UInt8) (hroom : text.length < 32) :
    ∃ s', s.push byte = some s' ∧ s'.Holds (byte :: text) := by
  have htemp := h.temp
  have hpos := h.pos
  have hfits : s.pos.toNat + [byte].length ≤ s.temp.length := by
    rw [List.length_singleton]
    omega
  obtain ⟨temp, hpoke⟩ := exists_poke hfits
  refine ⟨⟨temp, s.pos + 1⟩, by rw [Staged.push, hpoke]; rfl, ?_⟩
  constructor
  · exact (length_poke hpoke).trans htemp
  · change (s.pos + 1).toNat = _
    rw [UInt8.toNat_add, hpos]
    exact Nat.mod_eq_of_lt (by rw [UInt8.toNat_one]; omega)
  · obtain ⟨_, heq⟩ := poke_le hpoke
    change temp.take (text.length + 1) = _
    rw [heq, hpos, List.reverse_cons, ← h.stored]
    exact take_overwrite (by omega) [byte]

theorem push_full (h : s.Holds text) (byte : UInt8) (hfull : text.length = 32) : s.push byte = none := by
  have htemp := h.temp
  have hpos := h.pos
  rw [Staged.push, poke, if_neg (by rw [List.length_singleton]; omega)]
  rfl

end Staged.Holds

/-- What is staged, or a fault. -/
def StagesAs (r : Option Staged) : Option (List UInt8) → Prop
  | none => r = none
  | some text => ∃ s, r = some s ∧ s.Holds text

/-- `(x & mask) + '0'` and `(x % 10) + '0'` -/
theorem toUInt8_add (d : UInt64) : (d + 48).toUInt8 = digitChar d.toNat := by
  rw [digitChar, ← UInt8.toNat_inj, UInt64.toNat_toUInt8, UInt64.toNat_add, UInt8.toNat_ofNat']
  change (d.toNat + 48) % 2 ^ 64 % 2 ^ 8 = (d.toNat + 48) % 2 ^ 8
  omega

/-- The array has room for as many digits as `digitsFrom` is given. -/
theorem stageDigits_eq {base : Nat} {mask shift : UInt64} {digit : UInt64 → UInt8} {digit' : Nat → UInt8}
    (hdigit : ∀ x : UInt64, digit (x &&& mask) = digit' (x.toNat % base))
    (hshift : ∀ x : UInt64, (x >>> shift).toNat = x.toNat / base) {room turns : Nat} {x : UInt64}
    {s : Staged} {text : List UInt8} (h : s.Holds text) (hroom : text.length + room = 32)
    (hturns : room < turns) :
    StagesAs (stageDigits mask shift digit turns x s) (digitsFrom base digit' room x.toNat text) := by
  induction room generalizing turns x s text with
  | zero =>
    cases turns with
    | zero => exact absurd hturns (Nat.not_lt_zero _)
    | succ turns =>
      rw [digitsFrom, stageDigits, h.push_full _ hroom]
      rfl
  | succ room ih =>
    cases turns with
    | zero => exact absurd hturns (Nat.not_lt_zero _)
    | succ turns =>
      obtain ⟨s', hpush, hs'⟩ := h.push (digit (x &&& mask)) (by omega)
      have hzero : x >>> shift ≠ 0 ↔ x.toNat / base ≠ 0 := by
        rw [← hshift, ne_eq, ← UInt64.toNat_inj]
        rfl
      rw [digitsFrom, stageDigits, hpush, Option.bind_eq_bind, Option.bind_some]
      rw [hdigit] at hs'
      by_cases hmore : x.toNat / base ≠ 0
      · rw [if_pos hmore, if_pos (hzero.mpr hmore), ← hshift]
        exact ih hs' (by rw [List.length_cons]; omega) (by omega)
      · rw [if_neg hmore, if_neg (fun h => hmore (hzero.mp h))]
        exact ⟨s', rfl, hs'⟩

/-- And as many digits and separators as `decFrom` does. -/
theorem stageDec_eq {groupDigits : Bool} {turns turns' sep : Nat} {x : UInt64} {s : Staged}
    {text text' : List UInt8} (h : s.Holds text) (hturns : turns ≤ turns')
    (hdec : decFrom groupDigits turns x.toNat sep text = some text') :
    ∃ s', stageDec groupDigits turns' x sep s = some s' ∧ s'.Holds text' := by
  induction turns generalizing turns' x sep s text with
  | zero => cases hdec
  | succ turns ih =>
    cases turns' with
    | zero => exact absurd hturns (Nat.not_succ_le_zero _)
    | succ turns' =>
      have hdigit : (x % 10 + 48).toUInt8 = digitChar (x.toNat % 10) := toUInt8_add (x % 10)
      have hzero : x / 10 ≠ 0 ↔ x.toNat / 10 ≠ 0 := by
        rw [ne_eq, ← UInt64.toNat_inj, UInt64.toNat_div]
        rfl
      rw [decFrom] at hdec
      generalize hcomma : (if sep = 3 ∧ groupDigits = true then 44 :: text else text) = text₁ at hdec
      split at hdec
      · cases hdec
      · next hroom =>
        rw [List.length_cons] at hroom
        obtain ⟨s₁, hs₁, hholds₁⟩ : ∃ s₁, s.separate groupDigits sep = some s₁ ∧ s₁.Holds text₁ := by
          rw [Staged.separate]
          split at hcomma
          · next hsep =>
            rw [if_pos hsep, ← hcomma]
            refine h.push 44 ?_
            rw [← hcomma, List.length_cons] at hroom
            omega
          · next hsep =>
            rw [if_neg hsep, ← hcomma]
            exact ⟨s, rfl, h⟩
        obtain ⟨s₂, hs₂, hholds₂⟩ := hholds₁.push (digitChar (x.toNat % 10)) (by omega)
        simp only [stageDec, hs₁, hdigit, hs₂, Option.bind_eq_bind, Option.bind_some]
        split at hdec
        · next hmore =>
          rw [if_pos (hzero.mpr hmore)]
          refine ih hholds₂ (Nat.le_of_succ_le_succ hturns) ?_
          rw [UInt64.toNat_div]
          exact hdec
        · next hmore =>
          cases hdec
          rw [if_neg (fun hx => hmore (hzero.mp hx))]
          exact ⟨s₂, rfl, hholds₂⟩

/-! ## Copying -/

/-- What is left of the text is copied behind what has been. -/
theorem copyOut_append {temp : List UInt8} {text : List UInt8} (htemp : temp.take text.length = text.reverse)
    {left : Nat} {front middle back : List UInt8} (hfront : text = front ++ middle)
    (hleft : middle.length = left) (hback : left ≤ back.length) :
    copyOut temp text.length left (front ++ back) = some (text ++ back.drop left) := by
  induction left generalizing front middle back with
  | zero =>
    rw [List.length_eq_zero_iff] at hleft
    rw [copyOut, hfront, hleft, List.append_nil, List.drop_zero]
  | succ left ih =>
    obtain ⟨c, middle, rfl⟩ := List.exists_cons_of_length_eq_add_one hleft
    obtain ⟨b, back, rfl⟩ := List.exists_cons_of_ne_nil (List.ne_nil_of_length_pos (Nat.lt_of_lt_of_le
      (Nat.succ_pos left) hback))
    have hlength : text.length = front.length + (left + 1) := by
      rw [hfront, List.length_append, hleft]
    have hindex : text.length - (left + 1) = front.length := by omega
    have hbyte : temp[text.length - front.length - 1]? = some c := by
      have hlt : text.length - front.length - 1 < text.length := by omega
      rw [← List.getElem?_take_of_lt hlt, htemp, List.getElem?_reverse hlt]
      have hplace : text.length - 1 - (text.length - front.length - 1) = front.length := by omega
      rw [hplace, hfront, List.getElem?_append_right (Nat.le_refl _), Nat.sub_self]
      rfl
    have hpoke : poke (front ++ b :: back) front.length [c] = some (front ++ [c] ++ back) := by
      rw [List.append_cons]
      exact poke_append front back rfl
    rw [copyOut]
    simp only [hindex, hbyte, hpoke, Option.bind_eq_bind, Option.bind_some]
    exact ih (hfront.trans (List.append_cons front c middle)) (Nat.succ.inj hleft)
      (Nat.le_of_succ_le_succ hback)

theorem Staged.Holds.writes {s : Staged} {text buffer : List UInt8} (h : s.Holds text)
    (hbuffer : text.length ≤ buffer.length) : Writes text buffer (copyDigits (some s) buffer) := by
  have hcopy := @copyOut_append s.temp text h.stored text.length [] text buffer rfl rfl hbuffer
  rw [List.nil_append] at hcopy
  have hpos : s.pos.toUInt32 = UInt32.ofNat text.length := by
    have hlt := s.pos.toNat_lt
    rw [← h.pos, ← UInt32.toNat_inj, UInt8.toNat_toUInt32, UInt32.toNat_ofNat', Nat.mod_eq_of_lt (by omega)]
  refine ⟨hbuffer, ?_⟩
  rw [copyDigits, Option.bind_eq_bind, Option.bind_some, h.pos, hcopy, Option.bind_eq_bind, Option.bind_some,
    hpos]

/-! ## The encoders -/

/-- A base whose digits fit in the array. -/
theorem encodes_of_isSome {base : Nat} (hbase : 1 < base) {mask shift : UInt64} {digit : UInt64 → UInt8}
    {digit' : Nat → UInt8} (hdigit : ∀ x : UInt64, digit (x &&& mask) = digit' (x.toNat % base))
    (hshift : ∀ x : UInt64, (x >>> shift).toNat = x.toNat / base) {x : UInt64}
    (hsome : (digitsFrom base digit' 32 x.toNat []).isSome) {buffer : List UInt8}
    (hbuffer : 32 ≤ buffer.length) :
    Encodes base (List.map digit') x buffer (copyDigits (stageDigits mask shift digit 64 x .fresh) buffer) := by
  obtain ⟨text, htext⟩ := Option.isSome_iff_exists.mp hsome
  have hstages : StagesAs (stageDigits mask shift digit 64 x .fresh) (digitsFrom base digit' 32 x.toNat []) :=
    stageDigits_eq hdigit hshift Staged.holds_fresh rfl (by decide)
  rw [htext] at hstages
  obtain ⟨s, hs, hholds⟩ := hstages
  have hdigits := digitsFrom_eq hbase htext
  rw [List.append_nil] at hdigits
  rw [hdigits] at hholds
  refine ⟨_, canonical_digitsOf hbase x.toNat, ?_⟩
  rw [hs]
  exact hholds.writes (Nat.le_trans hholds.length_le hbuffer)

/-- One whose digits do not. -/
theorem copyDigits_of_isNone {base : Nat} {mask shift : UInt64} {digit : UInt64 → UInt8} {digit' : Nat → UInt8}
    (hdigit : ∀ x : UInt64, digit (x &&& mask) = digit' (x.toNat % base))
    (hshift : ∀ x : UInt64, (x >>> shift).toNat = x.toNat / base) {x : UInt64}
    (hnone : digitsFrom base digit' 32 x.toNat [] = none) (buffer : List UInt8) :
    copyDigits (stageDigits mask shift digit 64 x .fresh) buffer = none := by
  have hstages : StagesAs (stageDigits mask shift digit 64 x .fresh) (digitsFrom base digit' 32 x.toNat []) :=
    stageDigits_eq hdigit hshift Staged.holds_fresh rfl (by decide)
  rw [hnone] at hstages
  rw [show stageDigits mask shift digit 64 x .fresh = none from hstages]
  rfl

theorem toNat_and_ones {k : Nat} {mask x : UInt64} (h : mask.toNat = 2 ^ k - 1) :
    (x &&& mask).toNat = x.toNat % 2 ^ k := by
  rw [UInt64.toNat_and, h, Nat.and_two_pow_sub_one_eq_mod]

theorem toNat_shiftRight {k : Nat} (hk : k < 64) {shift x : UInt64} (h : shift.toNat = k) :
    (x >>> shift).toNat = x.toNat / 2 ^ k := by
  rw [UInt64.toNat_shiftRight, h, Nat.mod_eq_of_lt hk, Nat.shiftRight_eq_div_pow]

theorem uintToHex_encodes (buffer : List.Vector UInt8 32) (upper : UInt8) (x : UInt64) :
    Encodes 16 (List.map (fun d => (if upper ≠ 0 then hexUpperTable else hexLowerTable).getD d 0)) x
      buffer.toList (uintToHex buffer upper x) := by
  have hmask (x : UInt64) : (x &&& 0x0F).toNat = x.toNat % 16 := @toNat_and_ones 4 0x0F x rfl
  have hshift (x : UInt64) : (x >>> 4).toNat = x.toNat / 16 := @toNat_shiftRight 4 (by decide) 4 x rfl
  refine encodes_of_isSome (by decide) (fun x => by rw [hmask]) hshift ?_ buffer.toList_length.ge
  exact (digitsFrom_isSome_iff (by decide) _ 31 x.toNat []).mpr (lt_of_lt_of_le x.toNat_lt (by decide))

theorem uintToOct_encodes (buffer : List.Vector UInt8 32) (x : UInt64) :
    Encodes 8 (List.map digitChar) x buffer.toList (uintToOct buffer x) := by
  have hmask (x : UInt64) : (x &&& 0x07).toNat = x.toNat % 8 := @toNat_and_ones 3 0x07 x rfl
  have hdigit (x : UInt64) : ((x &&& 0x07) + 48).toUInt8 = digitChar (x.toNat % 8) := by
    rw [toUInt8_add, hmask]
  have hshift (x : UInt64) : (x >>> 3).toNat = x.toNat / 8 := @toNat_shiftRight 3 (by decide) 3 x rfl
  exact encodes_of_isSome (by decide) hdigit hshift (uintToOctCommon_isSome x.toNat_lt)
    buffer.toList_length.ge

theorem uintToBin_encodes_iff (buffer : List.Vector UInt8 64) (x : UInt64) :
    Encodes 2 (List.map digitChar) x buffer.toList (uintToBin buffer x) ↔ x.toNat < 2 ^ 32 := by
  have hmask (x : UInt64) : (x &&& 0x1).toNat = x.toNat % 2 := @toNat_and_ones 1 0x1 x rfl
  have hdigit (x : UInt64) : ((x &&& 0x1) + 48).toUInt8 = digitChar (x.toNat % 2) := by
    rw [toUInt8_add, hmask]
  have hshift (x : UInt64) : (x >>> 1).toNat = x.toNat / 2 := @toNat_shiftRight 1 (by decide) 1 x rfl
  have hsome := uintToBinCommon_isSome_iff x.toNat
  constructor
  · rintro ⟨ds, _, _, hwrites⟩
    by_contra hge
    have hnone : digitsFrom 2 digitChar 32 x.toNat [] = none :=
      Option.not_isSome_iff_eq_none.mp (fun h => hge (hsome.mp h))
    have hfault := @copyDigits_of_isNone 2 1 1 (fun d => (d + 48).toUInt8) digitChar hdigit hshift x hnone
      buffer.toList
    rw [uintToBin, hfault] at hwrites
    cases hwrites
  · intro hlt
    refine encodes_of_isSome (by decide) hdigit hshift (hsome.mpr hlt) ?_
    rw [buffer.toList_length]
    decide

theorem uintToDec_encodes (buffer : List.Vector UInt8 32) (x : UInt64) (flags : UInt32) :
    Encodes 10 (if flags &&& 0x40 ≠ 0 then grouped 0 else List.map digitChar) x buffer.toList
      (uintToDec buffer x flags) := by
  obtain ⟨text, htext⟩ := Option.isSome_iff_exists.mp
    (uintToDecCommon_isSome x.toNat_lt (flags &&& 0x40 ≠ 0))
  obtain ⟨s, hs, hholds⟩ := @stageDec_eq _ _ 64 _ _ _ _ _ Staged.holds_fresh (by decide) htext
  refine ⟨_, canonical_digitsOf (by decide) x.toNat, ?_⟩
  have hdigits :
      text = (if flags &&& 0x40 ≠ 0 then grouped 0 else List.map digitChar) (digitsOf 10 x.toNat) := by
    by_cases hgroup : flags &&& 0x40 ≠ 0
    · rw [if_pos hgroup]
      rw [decide_eq_true hgroup] at htext
      exact uintToDecCommon_grouped htext
    · rw [if_neg hgroup]
      rw [decide_eq_false hgroup] at htext
      exact uintToDecCommon_eq htext
  rw [uintToDec, hs, ← hdigits]
  exact hholds.writes (Nat.le_trans hholds.length_le buffer.toList_length.ge)

/-- For every number of 64 bits: the arrays hold its digits in hexadecimal, octal and decimal, with the
separators or without, and in binary exactly if there are no more than 32 of them. -/
theorem encoders_iff (x : UInt64) (buffer : List.Vector UInt8 32) (buffer' : List.Vector UInt8 64)
    (upper : UInt8) (flags : UInt32) :
    Encodes 16 (List.map (fun d => (if upper ≠ 0 then hexUpperTable else hexLowerTable).getD d 0)) x
      buffer.toList (uintToHex buffer upper x) ∧
    Encodes 8 (List.map digitChar) x buffer.toList (uintToOct buffer x) ∧
    Encodes 10 (if flags &&& 0x40 ≠ 0 then grouped 0 else List.map digitChar) x buffer.toList
      (uintToDec buffer x flags) ∧
    (Encodes 2 (List.map digitChar) x buffer'.toList (uintToBin buffer' x) ↔ x.toNat < 2 ^ 32) :=
  ⟨uintToHex_encodes buffer upper x, uintToOct_encodes buffer x, uintToDec_encodes buffer x flags,
    uintToBin_encodes_iff buffer' x⟩

/-- The number `2 ^ 32` has 33 binary digits. -/
theorem not_encodes_bin : ¬ Encodes 2 (List.map digitChar) 0x100000000 (List.Vector.replicate 64 0).toList
    (uintToBin (List.Vector.replicate 64 0) 0x100000000) := fun h =>
  absurd ((uintToBin_encodes_iff _ _).mp h) (by decide)

end WindowsLibc.Printf.Encoders
