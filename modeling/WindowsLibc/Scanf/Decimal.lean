import WindowsLibc.Scanf.Grouped

/-!
# Decimal numbers, there and back (`internal/convert.c`)

What `int_to_dec_common` and `uint_to_dec_common` make of a number is read as that number, with and without
groups.

* `accepted_digits` and `accepted_grouped`: all that is printed is taken, up to a byte that cannot belong to it.
* `intFromDecWith` and `uintFromDecWith` are the readers with any accumulator. `intAccumulators` and
  `uintAccumulators` are the values it has, in numbers that do not wrap around.
* `decimal_round_trip`: the number comes back, and no accumulator leaves the range of 64 bits.
-/

namespace WindowsLibc.Scanf

open WindowsLibc.Lib WindowsLibc.Printf

/-! ## What is taken of a printed number -/

/-- No number goes on with `text`. -/
def EndsNumber (text : List UInt8) : Prop := ¬ isDigit (text.headD 0) ∧ text.headD 0 ≠ 44

instance (text : List UInt8) : Decidable (EndsNumber text) := inferInstanceAs (Decidable (_ ∧ _))

variable {tail : List UInt8}

theorem lastComma_end (h : EndsNumber tail) : lastComma tail = [] := if_neg fun hlast => h.2 hlast.1

theorem behindDigits_end (h : EndsNumber tail) : behindDigits tail = [] := by
  have hnil : groups tail = [] := by
    match tail, h with
    | [], _ | [_], _ | [_, _], _ | [_, _, _], _ => rfl
    | c :: _ :: _ :: _ :: _, h => exact if_neg fun hall => h.2 hall.1
  rw [behindDigits_eq hnil, lastComma_end h]

theorem accepted_end (h : EndsNumber tail) (period : UInt8) : accepted period tail = [] := by
  cases tail with
  | nil => rfl
  | cons c tail =>
    have hc : ¬ isDigit c := h.1
    rw [accepted, if_neg hc, behindDigits_end h, lastComma_end h, ite_self]

/-- Digits without commas. -/
theorem accepted_digits (h : EndsNumber tail) {run : List UInt8} (hrun : ∀ c ∈ run, isDigit c)
    (period : UInt8) : accepted period (run ++ tail) = run := by
  induction run generalizing period with
  | nil => exact accepted_end h period
  | cons c run ih =>
    rw [List.cons_append, accepted, if_pos (hrun c List.mem_cons_self),
      ih (fun c hc => hrun c (List.mem_cons_of_mem _ hc))]

variable {ds : List Nat}

/-- Whole groups, each behind a comma. -/
def moreGroups (ds : List Nat) : List UInt8 := if ds = [] then [] else 44 :: grouped 0 ds

theorem moreGroups_three {d e f : Nat} (hlength : ds.length % 3 = 0) :
    moreGroups (d :: e :: f :: ds) = 44 :: digitChar d :: digitChar e :: digitChar f :: moreGroups ds := by
  have hpos : ds.length ≠ 0 ↔ ds ≠ [] := by rw [ne_eq, List.length_eq_zero_iff]
  rw [moreGroups, if_neg (List.cons_ne_nil _ _), grouped, if_neg (by simp only [List.length_cons]; omega),
    grouped, if_neg (by simp only [List.length_cons]; omega), grouped, Nat.add_zero, moreGroups]
  by_cases hnil : ds = []
  · rw [if_neg (fun hcomma => hpos.mp hcomma.2 hnil), if_pos hnil, hnil]
    rfl
  · rw [if_pos ⟨hlength, hpos.mpr hnil⟩, if_neg hnil]

theorem behindDigits_moreGroups (h : EndsNumber tail) (hds : ∀ d ∈ ds, d < 10) {n : Nat}
    (hlength : ds.length = 3 * n) : behindDigits (moreGroups ds ++ tail) = moreGroups ds := by
  induction n generalizing ds with
  | zero =>
    rw [List.length_eq_zero_iff.mp hlength]
    exact behindDigits_end h
  | succ n ih =>
    match ds, hlength with
    | d :: e :: f :: ds, hlength =>
      have hdigit := fun x hx => isDigit_digitChar (hds x hx)
      have hthree := And.intro (hdigit d (by simp)) (And.intro (hdigit e (by simp)) (hdigit f (by simp)))
      have hrest : ds.length = 3 * n := by
        simp only [List.length_cons] at hlength
        omega
      rw [moreGroups_three (by omega)]
      have hgroups := ih (fun x hx => hds x (by simp [hx])) hrest
      have hfront := @behindDigits_group (moreGroups ds ++ tail) _ _ _ hthree
      rw [hgroups] at hfront
      exact hfront

/-- A number in groups, of which the first has three digits at most. -/
theorem accepted_grouped (h : EndsNumber tail) (hds : ∀ d ∈ ds, d < 10) {period : UInt8}
    (hperiod : ds ≠ [] → period.toNat + (ds.length - 1) % 3 < 3) :
    accepted period (grouped 0 ds ++ tail) = grouped 0 ds := by
  induction ds generalizing period with
  | nil => exact accepted_end h period
  | cons d ds ih =>
    have hrest : ∀ x ∈ ds, x < 10 := fun x hx => hds x (List.mem_cons_of_mem _ hx)
    have hlt := hperiod (List.cons_ne_nil _ _)
    rw [List.length_cons, Nat.add_sub_cancel] at hlt
    have hnext : (period + 1).toNat = period.toNat + 1 := by
      rw [UInt8.toNat_add]
      exact Nat.mod_eq_of_lt (show period.toNat + 1 < 256 by omega)
    rw [grouped, List.cons_append, accepted, if_pos (isDigit_digitChar (hds d List.mem_cons_self))]
    split
    · next hcomma =>
      have hle : period + 1 ≤ 3 := by
        rw [UInt8.le_iff_toNat_le, hnext]
        show period.toNat + 1 ≤ 3
        omega
      rw [List.cons_append, accepted, if_neg (by decide), if_pos hle]
      have hne : ds ≠ [] := fun hnil => hcomma.2 (by rw [hnil]; rfl)
      have hmore : moreGroups ds = 44 :: grouped 0 ds := if_neg hne
      have hbehind := behindDigits_moreGroups h hrest (Nat.mul_div_cancel' (Nat.dvd_of_mod_eq_zero hcomma.1)).symm
      rw [hmore] at hbehind
      exact congrArg _ hbehind
    · next hcomma =>
      rw [ih hrest fun hne => ?_]
      have hpos : 0 < ds.length := List.length_pos_iff.mpr hne
      rw [hnext]
      omega

variable {b : Buffer} {count : UInt32} {groupDigits : Bool} {text : List UInt8} {x : Nat}

/-- What is printed for the digits `ds`; the least number has no groups. -/
def Printed (groupDigits : Bool) (ds : List Nat) (text : List UInt8) : Prop :=
  text = ds.map digitChar ∨ groupDigits = true ∧ text = grouped 0 ds

theorem uintToDecCommon_printed (h : uintToDecCommon x groupDigits = some text) :
    ∃ ds, Numeral 10 x ds ∧ Printed groupDigits ds text := by
  refine ⟨_, numeral_digitsOf (by decide) x, ?_⟩
  cases groupDigits with
  | false => exact .inl (uintToDecCommon_eq h)
  | true => exact .inr ⟨rfl, uintToDecCommon_grouped h⟩

/-- A printed number is read digit by digit. -/
theorem readDigits_printed {α : Type} (add : α → UInt8 → α) {v : α} (hds : Numeral 10 x ds)
    (htext : Printed groupDigits ds text) (h : Reads b (text ++ tail)) (htail : EndsNumber tail) :
    readDigits add { groupDigits := groupDigits } v count b =
      ⟨ds.foldl (fun v d => add v (digitChar d)) v, count + UInt32.ofNat text.length, b.advance text.length⟩ := by
  have hrun : ∀ c ∈ ds.map digitChar, isDigit c := by
    intro c hc
    obtain ⟨d, hd, rfl⟩ := List.mem_map.mp hc
    exact isDigit_digitChar (hds.digit d hd)
  cases groupDigits with
  | false =>
    rcases htext with rfl | ⟨hflag, -⟩
    · rw [readDigits_numeral add hds h htail.1, List.length_map]
    · exact absurd hflag Bool.false_ne_true
  | true =>
    have hall : accepted 0 (text ++ tail) = text ∧ text.filter isDigit = ds.map digitChar := by
      rcases htext with rfl | ⟨-, rfl⟩
      · exact ⟨accepted_digits htail hrun 0, List.filter_eq_self.mpr hrun⟩
      · refine ⟨accepted_grouped htail hds.digit fun _ => ?_, filter_grouped hds.digit⟩
        rw [show (0 : UInt8).toNat = 0 from rfl, Nat.zero_add]
        exact Nat.mod_lt _ (by decide)
    rw [readDigits_accepted add v count h, hall.1, hall.2, List.foldl_map]

/-! ## Accumulators -/

/-- `uint_from_dec_common` with any accumulator. -/
def uintFromDecWith {α : Type} (plus : α → UInt8 → α) (zero : α) (groupDigits : Bool) (b : Buffer) : Taken α :=
  if b.peekbyte 0 = 43 then readDigits plus { groupDigits := groupDigits } zero 1 b.next
  else readDigits plus { groupDigits := groupDigits } zero 0 b

/-- `int_from_dec_common` with any accumulator. -/
def intFromDecWith {α : Type} (plus minus : α → UInt8 → α) (zero : α) (groupDigits : Bool) (b : Buffer) :
    Taken α :=
  if b.peekbyte 0 = 45 then readDigits minus { groupDigits := groupDigits } zero 1 b.next
  else uintFromDecWith plus zero groupDigits b

theorem uintFromDecCommon_eq (groupDigits : Bool) (b : Buffer) :
    uintFromDecCommon groupDigits b =
      uintFromDecWith (fun value byte => value * 10 + (byte - 48).toUInt64) 0 groupDigits b := rfl

theorem intFromDecCommon_eq (groupDigits : Bool) (b : Buffer) :
    intFromDecCommon groupDigits b =
      intFromDecWith (fun value byte => value * 10 + Int64.ofInt (byte.toNat - 48))
        (fun value byte => value * 10 - Int64.ofInt (byte.toNat - 48)) 0 groupDigits b := rfl

/-- An accumulator that remembers every value it has had, the last first: a digit is added to ten times the
value before. -/
def remember (add : Int → Int → Int) (values : List Int) (byte : UInt8) : List Int :=
  add (values.headD 0 * 10) (byte.toNat - 48) :: values.headD 0 * 10 :: values

/-- The values that `*value` and `*value * 10` have in `uint_from_dec_common`. -/
def uintAccumulators (groupDigits : Bool) (b : Buffer) : List Int :=
  (uintFromDecWith (remember (· + ·)) [] groupDigits b).value

/-- The values that `*value` and `*value * 10` have in `int_from_dec_common`. -/
def intAccumulators (groupDigits : Bool) (b : Buffer) : List Int :=
  (intFromDecWith (remember (· + ·)) (remember (· - ·)) [] groupDigits b).value

/-- `parse_digits` returns digits. -/
theorem isDigit_parseDigitsFrom {fuel : Nat} {state : DigitParseState}
    {r : UInt8 × DigitParseState × UInt32 × Buffer} (hr : parseDigitsFrom fuel state count b = r)
    (hbyte : r.1 ≠ 0) : isDigit r.1 := by
  induction fuel generalizing state count b with
  | zero =>
    subst hr
    exact absurd rfl hbyte
  | succ fuel ih =>
    rw [parseDigitsFrom] at hr
    by_cases hzero : b.peekbyte 0 = 0
    · rw [if_pos hzero] at hr
      exact absurd (congrArg Prod.fst hr).symm hbyte
    by_cases hdigit : isDigit (b.peekbyte 0)
    · rw [if_neg hzero, if_pos hdigit] at hr
      split at hr
      · exact absurd (congrArg Prod.fst hr).symm hbyte
      · rw [← hr]
        exact hdigit
    · rw [if_neg hzero, if_neg hdigit] at hr
      -- Behind a comma the search goes on, or nothing is found.
      repeat' split at hr
      all_goals first
        | exact ih hr
        | exact absurd (congrArg Prod.fst hr).symm hbyte

/-- Digits are read alike into accumulators that agree. -/
theorem digitsLoop_hom {α β : Type} {add : α → UInt8 → α} {add' : β → UInt8 → β} (f : α → β)
    (hadd : ∀ v c, isDigit c → f (add v c) = add' (f v) c) (fuel : Nat) (state : DigitParseState) (v : α)
    (count : UInt32) (b : Buffer) :
    f (digitsLoop add fuel state v count b).value = (digitsLoop add' fuel state (f v) count b).value := by
  induction fuel generalizing state v count b with
  | zero => rfl
  | succ fuel ih =>
    rw [digitsLoop, digitsLoop]
    dsimp only
    by_cases hbyte : (parseDigits state count b).1 = 0
    · rw [if_pos hbyte, if_pos hbyte]
    · have hdigit : isDigit (parseDigits state count b).1 := isDigit_parseDigitsFrom rfl hbyte
      rw [if_neg hbyte, if_neg hbyte, ← hadd _ _ hdigit]
      exact ih _ _ _ _

/-- The words are the last accumulators, modulo `2 ^ 64`. -/
theorem intFromDecCommon_accumulators (groupDigits : Bool) (b : Buffer) :
    Int64.ofInt ((intAccumulators groupDigits b).headD 0) = (intFromDecCommon groupDigits b).value := by
  have hplus := @digitsLoop_hom _ _ (remember (· + ·))
    (fun value byte => value * 10 + Int64.ofInt (byte.toNat - 48)) (fun values => Int64.ofInt (values.headD 0))
    (fun _ _ _ => (Int64.ofInt_add _ _).trans (congrArg (· + _) (Int64.ofInt_mul _ 10)))
  have hminus := @digitsLoop_hom _ _ (remember (· - ·))
    (fun value byte => value * 10 - Int64.ofInt (byte.toNat - 48)) (fun values => Int64.ofInt (values.headD 0))
    (fun _ _ _ => (Int64.ofInt_sub _ _).trans (congrArg (· - _) (Int64.ofInt_mul _ 10)))
  rw [intFromDecCommon_eq, intAccumulators, intFromDecWith, intFromDecWith, uintFromDecWith, uintFromDecWith]
  split
  · exact hminus _ _ [] _ _
  · split
    · exact hplus _ _ [] _ _
    · exact hplus _ _ [] _ _

theorem uintFromDecCommon_accumulators (groupDigits : Bool) (b : Buffer) :
    UInt64.ofInt ((uintAccumulators groupDigits b).headD 0) = (uintFromDecCommon groupDigits b).value := by
  have hdigit : ∀ byte : UInt8, isDigit byte → UInt64.ofInt (byte.toNat - 48) = (byte - 48).toUInt64 := by
    intro byte hbyte
    obtain ⟨d, hd, rfl⟩ := exists_digitChar hbyte
    rw [(digitChar_sub hd).1, (digitChar_sub hd).2]
    show UInt64.ofNat ((d : Int) % 2 ^ 64).toNat = UInt64.ofNat d
    have hmod : ((d : Int) % 2 ^ 64).toNat = d := by omega
    rw [hmod]
  have hplus := @digitsLoop_hom _ _ (remember (· + ·))
    (fun value byte => value * 10 + (byte - 48).toUInt64) (fun values => UInt64.ofInt (values.headD 0))
    (fun _ _ hbyte => (UInt64.ofInt_add _ _).trans
      (congrArg₂ (· + ·) (UInt64.ofInt_mul _ 10) (hdigit _ hbyte)))
  rw [uintFromDecCommon_eq, uintAccumulators, uintFromDecWith, uintFromDecWith]
  split
  · exact hplus _ _ [] _ _
  · exact hplus _ _ [] _ _

/-! ## The range of the accumulators -/

theorem le_numeral {base : Nat} (hbase : 0 < base) (v : Nat) (ds : List Nat) : v ≤ numeral base v ds := by
  induction ds generalizing v with
  | nil => exact Nat.le_refl _
  | cons d ds ih =>
    have hmul := Nat.le_mul_of_pos_right v hbase
    exact Nat.le_trans (by omega) (ih (v * base + d))

/-- No value on the way is further from 0 than the number `x`. -/
theorem mem_remember {sign : Int} {add : Int → Int → Int} (hadd : ∀ v d : Nat, add (sign * v) d = sign * (v + d : Nat))
    {values : List Int} {v : Nat} (hhead : values.headD 0 = sign * v) (hds : ∀ d ∈ ds, d < 10)
    (hx : numeral 10 v ds ≤ x) (hall : ∀ a ∈ values, ∃ n ≤ x, a = sign * n) :
    ∀ a ∈ ds.foldl (fun values d => remember add values (digitChar d)) values, ∃ n ≤ x, a = sign * n := by
  induction ds generalizing values v with
  | nil => exact hall
  | cons d ds ih =>
    have hle := Nat.le_trans (le_numeral (by decide) (v * 10 + d) ds) hx
    have hten : values.headD 0 * 10 = sign * (v * 10 : Nat) := by
      rw [hhead, Int.natCast_mul, Int.mul_assoc]
      rfl
    have hnext : add (values.headD 0 * 10) ((digitChar d).toNat - 48) = sign * (v * 10 + d : Nat) := by
      rw [(digitChar_sub (hds d List.mem_cons_self)).2, hten, hadd]
    exact ih hnext (fun e he => hds e (List.mem_cons_of_mem _ he)) hx <| List.forall_mem_cons.mpr
      ⟨⟨_, hle, hnext⟩, List.forall_mem_cons.mpr ⟨⟨_, by omega, hten⟩, hall⟩⟩

/-- The accumulators of a number, with its sign. -/
theorem mem_remember_numeral {sign : Int} {add : Int → Int → Int}
    (hadd : ∀ v d : Nat, add (sign * v) d = sign * (v + d : Nat)) (hds : Numeral 10 x ds) :
    ∀ a ∈ ds.foldl (fun values d => remember add values (digitChar d)) [], ∃ n ≤ x, a = sign * n :=
  mem_remember hadd (Int.mul_zero sign).symm hds.digit (Nat.le_of_eq hds.value) (by simp)

/-! ## There and back -/

theorem peekbyte_printed (hds : Numeral 10 x ds) (htext : Printed groupDigits ds text)
    (h : Reads b (text ++ tail)) : b.peekbyte 0 ≠ 43 ∧ b.peekbyte 0 ≠ 45 := by
  match ds, hds.ne_nil with
  | d :: ds, _ =>
    have hpeek : b.peekbyte 0 = digitChar d := by
      rw [h.peek]
      rcases htext with rfl | ⟨-, rfl⟩ <;> rfl
    rw [hpeek]
    exact digitChar_ne_sign (hds.digit d List.mem_cons_self)

variable {α : Type} {front : List UInt8}

/-- Behind a plus, or no sign. -/
theorem uintFromDecWith_printed (plus : α → UInt8 → α) (zero : α) (hfront : front = [] ∨ front = [43])
    (hds : Numeral 10 x ds) (htext : Printed groupDigits ds text) (h : Reads b (front ++ (text ++ tail)))
    (htail : EndsNumber tail) :
    uintFromDecWith plus zero groupDigits b =
      ⟨ds.foldl (fun v d => plus v (digitChar d)) zero, UInt32.ofNat (front ++ text).length,
        b.advance (front ++ text).length⟩ := by
  rcases hfront with rfl | rfl
  · rw [uintFromDecWith, if_neg (peekbyte_printed hds htext h).1, readDigits_printed plus hds htext h htail,
      UInt32.zero_add]
    rfl
  · have hpeek : b.peekbyte 0 = 43 := h.peek
    rw [uintFromDecWith, if_pos hpeek, readDigits_printed plus hds htext h.next htail, h.next_advance,
      count_front 43]
    rfl

theorem intFromDecWith_printed (plus minus : α → UInt8 → α) (zero : α) (hfront : front = [] ∨ front = [43])
    (hds : Numeral 10 x ds) (htext : Printed groupDigits ds text) (h : Reads b (front ++ (text ++ tail)))
    (htail : EndsNumber tail) :
    intFromDecWith plus minus zero groupDigits b =
      ⟨ds.foldl (fun v d => plus v (digitChar d)) zero, UInt32.ofNat (front ++ text).length,
        b.advance (front ++ text).length⟩ := by
  have hminus : b.peekbyte 0 ≠ 45 := by
    rcases hfront with rfl | rfl
    · exact (peekbyte_printed hds htext h).2
    · rw [h.peek]
      exact (by decide : (43 : UInt8) ≠ 45)
  rw [intFromDecWith, if_neg hminus, uintFromDecWith_printed plus zero hfront hds htext h htail]

/-- Behind a minus. -/
theorem intFromDecWith_minus (plus minus : α → UInt8 → α) (zero : α) (hds : Numeral 10 x ds)
    (htext : Printed groupDigits ds text) (h : Reads b (45 :: (text ++ tail))) (htail : EndsNumber tail) :
    intFromDecWith plus minus zero groupDigits b =
      ⟨ds.foldl (fun v d => minus v (digitChar d)) zero, UInt32.ofNat (45 :: text).length,
        b.advance (45 :: text).length⟩ := by
  have hpeek : b.peekbyte 0 = 45 := h.peek
  rw [intFromDecWith, if_pos hpeek, readDigits_printed minus hds htext h.next htail, h.next_advance,
    count_front 45]
  rfl

/-- What `int_to_dec_common` prints: a sign and a number. -/
theorem intToDecCommon_printed {x : Int} {forceSign : Bool} (h : intToDecCommon x forceSign groupDigits = some text) :
    ∃ front digits ds, text = front ++ digits ∧ Numeral 10 x.natAbs ds ∧ Printed groupDigits ds digits ∧
      (x < 0 ∧ front = [45] ∨ 0 ≤ x ∧ (front = [] ∨ front = [43])) := by
  rw [intToDecCommon] at h
  split at h
  · next hmin =>
    cases h
    subst hmin
    exact ⟨[45], _, [9, 2, 2, 3, 3, 7, 2, 0, 3, 6, 8, 5, 4, 7, 7, 5, 8, 0, 8], rfl,
      ⟨by decide, by decide, by decide⟩, .inl rfl, .inl ⟨by decide, rfl⟩⟩
  · split at h
    · next hneg =>
      obtain ⟨digits, hdigits, rfl⟩ := Option.map_eq_some_iff.mp h
      obtain ⟨ds, hds, htext⟩ := uintToDecCommon_printed hdigits
      rw [show (-x).toNat = x.natAbs by omega] at hds
      exact ⟨[45], digits, ds, rfl, hds, htext, .inl ⟨hneg, rfl⟩⟩
    · next hneg =>
      have hnonneg := Int.not_lt.mp hneg
      split at h
      · obtain ⟨digits, hdigits, rfl⟩ := Option.map_eq_some_iff.mp h
        obtain ⟨ds, hds, htext⟩ := uintToDecCommon_printed hdigits
        rw [show x.toNat = x.natAbs by omega] at hds
        exact ⟨[43], digits, ds, rfl, hds, htext, .inr ⟨hnonneg, .inr rfl⟩⟩
      · obtain ⟨ds, hds, htext⟩ := uintToDecCommon_printed h
        rw [show x.toNat = x.natAbs by omega] at hds
        exact ⟨[], text, ds, rfl, hds, htext, .inr ⟨hnonneg, .inl rfl⟩⟩

/-- A signed number comes back, and no accumulator is further from 0 than it is. -/
theorem int_round_trip {x : Int} {forceSign : Bool} (htext : intToDecCommon x forceSign groupDigits = some text)
    (h : Reads b (text ++ tail)) (htail : EndsNumber tail) :
    intFromDecCommon groupDigits b = ⟨Int64.ofInt x, UInt32.ofNat text.length, b.advance text.length⟩ ∧
      ∀ a ∈ intAccumulators groupDigits b, ∃ n ≤ x.natAbs, x < 0 ∧ a = -(n : Int) ∨ 0 ≤ x ∧ a = n := by
  obtain ⟨front, digits, ds, rfl, hds, hdigits, ⟨hneg, rfl⟩ | ⟨hnonneg, hfront⟩⟩ := intToDecCommon_printed htext
  · have hvalue := foldl_signed hds (-1)
    simp only [Int.neg_mul, Int.one_mul, Int64.ofInt_neg, ← Int64.sub_eq_add_neg] at hvalue
    constructor
    · rw [intFromDecCommon_eq, intFromDecWith_minus _ _ _ hds hdigits h htail, hvalue, ← Int64.ofInt_neg,
        show -(x.natAbs : Int) = x by omega]
      rfl
    · rw [intAccumulators, intFromDecWith_minus _ _ _ hds hdigits h htail]
      intro a ha
      obtain ⟨n, hn, rfl⟩ := @mem_remember_numeral ds x.natAbs (-1) (· - ·)
        (fun v d => by simp only [Int.natCast_add]; omega) hds a ha
      exact ⟨n, hn, .inl ⟨hneg, by omega⟩⟩
  · rw [List.append_assoc] at h
    have hvalue := foldl_signed hds 1
    simp only [Int.one_mul] at hvalue
    constructor
    · rw [intFromDecCommon_eq, intFromDecWith_printed _ _ _ hfront hds hdigits h htail, hvalue,
        show (x.natAbs : Int) = x by omega]
    · rw [intAccumulators, intFromDecWith_printed _ _ _ hfront hds hdigits h htail]
      intro a ha
      obtain ⟨n, hn, rfl⟩ := @mem_remember_numeral ds x.natAbs 1 (· + ·)
        (fun v d => by simp only [Int.natCast_add]; omega) hds a ha
      exact ⟨n, hn, .inr ⟨hnonneg, by omega⟩⟩

/-- An unsigned one comes back as well. -/
theorem uint_round_trip (htext : uintToDecCommon x groupDigits = some text) (h : Reads b (text ++ tail))
    (htail : EndsNumber tail) :
    uintFromDecCommon groupDigits b = ⟨UInt64.ofNat x, UInt32.ofNat text.length, b.advance text.length⟩ ∧
      ∀ a ∈ uintAccumulators groupDigits b, ∃ n ≤ x, a = (n : Int) := by
  obtain ⟨ds, hds, hdigits⟩ := uintToDecCommon_printed htext
  constructor
  · rw [uintFromDecCommon_eq, uintFromDecWith_printed _ _ (.inl rfl) hds hdigits h htail, foldl_unsigned hds]
    rfl
  · rw [uintAccumulators, uintFromDecWith_printed _ _ (.inl rfl) hds hdigits h htail]
    have hall := @mem_remember_numeral ds x 1 (· + ·) (fun v d => by simp only [Int.natCast_add]; omega) hds
    simpa only [Int.one_mul] using hall

/-- **Decimal numbers come back.** What is printed for a number of 64 bits is read as that number, up to a byte
that cannot belong to it, and no accumulator leaves the range on the way. -/
theorem decimal_round_trip (forceSign groupDigits : Bool) {tail : List UInt8} (htail : EndsNumber tail) :
    (∀ x : Int64, ∃ text, intToDecCommon x.toInt forceSign groupDigits = some text ∧
      ∀ b, Reads b (text ++ tail) →
        intFromDecCommon groupDigits b = ⟨x, UInt32.ofNat text.length, b.advance text.length⟩ ∧
        ∀ a ∈ intAccumulators groupDigits b, -2 ^ 63 ≤ a ∧ a < 2 ^ 63) ∧
    (∀ x : UInt64, ∃ text, uintToDecCommon x.toNat groupDigits = some text ∧
      ∀ b, Reads b (text ++ tail) →
        uintFromDecCommon groupDigits b = ⟨x, UInt32.ofNat text.length, b.advance text.length⟩ ∧
        ∀ a ∈ uintAccumulators groupDigits b, 0 ≤ a ∧ a < 2 ^ 64) := by
  constructor
  · intro x
    have hlo : -2 ^ 63 ≤ x.toInt := x.le_toInt
    have hhi : x.toInt < 2 ^ 63 := x.toInt_lt
    obtain ⟨text, htext⟩ := Option.isSome_iff_exists.mp (intToDecCommon_isSome hlo hhi forceSign groupDigits)
    refine ⟨text, htext, fun b hb => ?_⟩
    obtain ⟨hread, hall⟩ := int_round_trip htext hb htail
    rw [Int64.ofInt_toInt] at hread
    refine ⟨hread, fun a ha => ?_⟩
    obtain ⟨n, hn, ⟨_, rfl⟩ | ⟨_, rfl⟩⟩ := hall a ha <;> omega
  · intro x
    have hlt : x.toNat < 2 ^ 64 := x.toNat_lt
    obtain ⟨text, htext⟩ := Option.isSome_iff_exists.mp (uintToDecCommon_isSome hlt groupDigits)
    refine ⟨text, htext, fun b hb => ?_⟩
    obtain ⟨hread, hall⟩ := uint_round_trip htext hb htail
    rw [UInt64.ofNat_toNat] at hread
    refine ⟨hread, fun a ha => ?_⟩
    obtain ⟨n, hn, rfl⟩ := hall a ha
    omega

theorem decimal_round_trip_at_end :
    EndsNumber [] ∧
    (∀ x : Int64, ∃ text, intToDecCommon x.toInt true true = some text ∧
      ∀ b, Reads b (text ++ []) →
        intFromDecCommon true b = ⟨x, UInt32.ofNat text.length, b.advance text.length⟩ ∧
        ∀ a ∈ intAccumulators true b, -2 ^ 63 ≤ a ∧ a < 2 ^ 63) ∧
    (∀ x : UInt64, ∃ text, uintToDecCommon x.toNat true = some text ∧
      ∀ b, Reads b (text ++ []) →
        uintFromDecCommon true b = ⟨x, UInt32.ofNat text.length, b.advance text.length⟩ ∧
        ∀ a ∈ uintAccumulators true b, 0 ≤ a ∧ a < 2 ^ 64) :=
  ⟨by decide, decimal_round_trip true true (by decide)⟩

end WindowsLibc.Scanf
