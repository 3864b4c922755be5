import Mathlib.Data.Nat.Digits.Lemmas

/-!
# Numerals

A list of digits, most significant first, stands for a number. Whoever reads it from the left has the
number of the digits so far, and makes of it `v * base + d` with the next one.

* `numeral` is that number. Leading zeros do not change it (`numeral_zeros`).
* `Numeral base x ds` says that `ds` is a numeral for `x`. Dividing by the base gives the last digit
  and a numeral for the rest (`Numeral.snoc`).
* `digitsOf base x` is the shortest one: its length is the number of digits that `x` has (`lt_pow_digitsOf`,
  `pow_digitsOf_le`, `Numeral.length_le`).
* A numeral without a zero in front is `Canonical`.
* A reader may keep the number in words that wrap around, or with a sign: `foldl_numeral` is what it
  ends with, from what it does with one digit.
-/

namespace WindowsLibc.Lib

/-- The number of the digits `ds` behind those of `v`. -/
def numeral (base v : Nat) (ds : List Nat) : Nat := ds.foldl (fun v d => v * base + d) v

variable {base x : Nat} {ds : List Nat}

theorem numeral_append (v : Nat) (ds es : List Nat) :
    numeral base v (ds ++ es) = numeral base (numeral base v ds) es := List.foldl_append

theorem numeral_zeros (n : Nat) (ds : List Nat) :
    numeral base 0 (List.replicate n 0 ++ ds) = numeral base 0 ds := by
  induction n with
  | zero => rfl
  | succ n ih =>
    rw [List.replicate_succ, List.cons_append, numeral, List.foldl_cons, Nat.zero_mul]
    exact ih

/-- Zeros at the end multiply. -/
theorem numeral_append_zeros (v : Nat) (ds : List Nat) (n : Nat) :
    numeral base v (ds ++ List.replicate n 0) = numeral base v ds * base ^ n := by
  induction n with
  | zero => rw [List.replicate_zero, List.append_nil, pow_zero, Nat.mul_one]
  | succ n ih =>
    rw [List.replicate_succ', ← List.append_assoc, numeral_append, ih, pow_succ, ← Nat.mul_assoc]
    exact Nat.add_zero _

theorem numeral_lt (hds : ∀ d ∈ ds, d < base) : numeral base 0 ds < base ^ ds.length := by
  induction ds using List.reverseRecOn with
  | nil => exact Nat.one_pos
  | append_singleton ds d ih =>
    have hfront := ih fun e he => hds e (List.mem_append_left _ he)
    have hlast := hds d (List.mem_append_right _ (List.mem_singleton_self d))
    have hmul := Nat.mul_le_mul_right base (Nat.succ_le_of_lt hfront)
    rw [numeral_append, List.length_append, List.length_singleton, pow_succ]
    show numeral base 0 ds * base + d < _
    rw [Nat.succ_mul] at hmul
    omega

/-- A reader that keeps the number `v` as `cast v`. -/
theorem foldl_numeral {R : Type} {cast : Nat → R} {read : R → Nat → R}
    (hread : ∀ v d, read (cast v) d = cast (v * base + d)) (v : Nat) (ds : List Nat) :
    ds.foldl read (cast v) = cast (numeral base v ds) :=
  List.foldl_hom cast hread

/-- `ds` is a numeral for `x`. -/
structure Numeral (base x : Nat) (ds : List Nat) : Prop where
  digit : ∀ d ∈ ds, d < base
  value : numeral base 0 ds = x
  ne_nil : ds ≠ []

theorem Numeral.singleton {d : Nat} (h : d < base) : Numeral base d [d] where
  digit e he := by
    rw [List.mem_singleton] at he
    exact he ▸ h
  value := by
    show 0 * base + d = d
    rw [Nat.zero_mul, Nat.zero_add]
  ne_nil := List.cons_ne_nil _ _

theorem Numeral.snoc (h : Numeral base (x / base) ds) (hbase : 0 < base) :
    Numeral base x (ds ++ [x % base]) where
  digit d hd := by
    rcases List.mem_append.mp hd with hd | hd
    · exact h.digit d hd
    · rw [List.mem_singleton.mp hd]
      exact Nat.mod_lt x hbase
  value := by
    rw [numeral_append, h.value]
    show x / base * base + x % base = x
    exact Nat.div_add_mod' x base
  ne_nil := by simp

theorem Numeral.zeros (h : Numeral base x ds) (hbase : 0 < base) (n : Nat) :
    Numeral base x (List.replicate n 0 ++ ds) where
  digit d hd := by
    rcases List.mem_append.mp hd with hd | hd
    · rw [List.eq_of_mem_replicate hd]
      exact hbase
    · exact h.digit d hd
  value := (numeral_zeros n ds).trans h.value
  ne_nil := by simp [h.ne_nil]

/-! ## The shortest numeral -/

/-- The digits of `x`; that of 0 is a zero. -/
def digitsOf (base x : Nat) : List Nat := if x = 0 then [0] else (Nat.digits base x).reverse

theorem digitsOf_of_lt (h : x < base) : digitsOf base x = [x] := by
  rw [digitsOf]
  split
  · next hzero => rw [hzero]
  · next hzero => rw [Nat.digits_of_lt base x hzero h, List.reverse_singleton]

theorem digitsOf_of_le (hbase : 1 < base) (h : base ≤ x) :
    digitsOf base x = digitsOf base (x / base) ++ [x % base] := by
  have hpos : 0 < x := Nat.lt_of_lt_of_le (by omega) h
  have hdiv : x / base ≠ 0 := Nat.div_ne_zero_iff.mpr ⟨by omega, h⟩
  rw [digitsOf, if_neg hpos.ne', digitsOf, if_neg hdiv, Nat.digits_def' hbase hpos, List.reverse_cons]

theorem numeral_digitsOf (hbase : 1 < base) (x : Nat) : Numeral base x (digitsOf base x) := by
  induction x using Nat.strong_induction_on with
  | _ x ih =>
    by_cases hlt : x < base
    · rw [digitsOf_of_lt hlt]
      exact .singleton hlt
    · have hle := Nat.not_lt.mp hlt
      rw [digitsOf_of_le hbase hle]
      exact (ih (x / base) (Nat.div_lt_self (by omega) hbase)).snoc (by omega)

theorem length_digitsOf_pos (hbase : 1 < base) (x : Nat) : 0 < (digitsOf base x).length :=
  List.length_pos_iff.mpr (numeral_digitsOf hbase x).ne_nil

theorem lt_pow_digitsOf (hbase : 1 < base) (x : Nat) : x < base ^ (digitsOf base x).length := by
  rw [digitsOf]
  split
  · next hzero =>
    rw [hzero]
    exact Nat.pow_pos (by omega)
  · rw [List.length_reverse]
    exact Nat.lt_base_pow_length_digits hbase

theorem pow_digitsOf_le (hbase : 1 < base) (h : x ≠ 0) : base ^ ((digitsOf base x).length - 1) ≤ x := by
  have hpos := length_digitsOf_pos hbase x
  rw [digitsOf, if_neg h, List.length_reverse] at hpos ⊢
  exact (Nat.lt_digits_length_iff hbase x).mp (by omega)

theorem length_digitsOf_le (hbase : 1 < base) {n : Nat} (hn : 0 < n) (h : x < base ^ n) :
    (digitsOf base x).length ≤ n := by
  by_cases hzero : x = 0
  · rw [hzero, digitsOf_of_lt (Nat.zero_lt_of_lt hbase)]
    exact hn
  · have hlt := Nat.lt_of_le_of_lt (pow_digitsOf_le hbase hzero) h
    have hexp := (Nat.pow_lt_pow_iff_right hbase).mp hlt
    omega

/-- A numeral without a zero in front, unless that is all of it. -/
structure Canonical (base x : Nat) (ds : List Nat) : Prop extends Numeral base x ds where
  lead : ds.head? = some 0 → ds = [0]

theorem canonical_digitsOf (hbase : 1 < base) (x : Nat) : Canonical base x (digitsOf base x) where
  toNumeral := numeral_digitsOf hbase x
  lead h := by
    rw [digitsOf] at h ⊢
    split at h
    · next hzero => rw [if_pos hzero]
    · next hne =>
      have hnil : Nat.digits base x ≠ [] := Nat.digits_ne_nil_iff_ne_zero.mpr hne
      rw [List.head?_reverse, List.getLast?_eq_some_getLast hnil] at h
      exact absurd (Option.some.inj h) (Nat.getLast_digit_ne_zero base hne)

/-- No numeral is shorter. -/
theorem Numeral.length_le (h : Numeral base x ds) (hbase : 1 < base) : (digitsOf base x).length ≤ ds.length := by
  have hlt : x < base ^ ds.length := h.value ▸ numeral_lt h.digit
  rw [digitsOf]
  split
  · exact List.length_pos_iff.mpr h.ne_nil
  · rw [List.length_reverse]
    exact (Nat.digits_length_le_iff hbase x).mpr hlt

end WindowsLibc.Lib
