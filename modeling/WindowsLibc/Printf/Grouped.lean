import WindowsLibc.Printf.Text

/-!
# Digits in groups

With `CONVERT_GROUP_DIGITS` the digits are staged from the right with a comma before every fourth one.

* `grouped` is the text, read from the left: a comma stands where a multiple of three digits follows.
* `uintToDecCommon_grouped`: this is what `uint_to_dec_common` makes of a number.
* `length_grouped` counts the commas.
-/

namespace WindowsLibc.Printf

open WindowsLibc.Lib

/-- The digits in groups of three, counted from the right, when `behind` digits more follow. -/
def grouped (behind : Nat) : List Nat → List UInt8
  | [] => []
  | d :: ds =>
    digitChar d ::
      if (ds.length + behind) % 3 = 0 ∧ ds.length + behind ≠ 0 then 44 :: grouped behind ds
      else grouped behind ds

/-- One digit more on the right. -/
theorem grouped_snoc (behind : Nat) (ds : List Nat) (d : Nat) :
    grouped behind (ds ++ [d]) =
      grouped (behind + 1) ds ++
        digitChar d :: if behind % 3 = 0 ∧ behind ≠ 0 then [44] else [] := by
  induction ds with
  | nil =>
    simp only [List.nil_append, grouped, List.length_nil, Nat.zero_add]
  | cons e ds ih =>
    have hlength : (ds ++ [d]).length + behind = ds.length + (behind + 1) := by
      rw [List.length_append, List.length_singleton]
      omega
    rw [List.cons_append, grouped, grouped, hlength, ih]
    split <;> rfl

/-- What the loop stages: the separator counts the digits behind, up to three. -/
theorem decFrom_grouped {turns x sep behind : Nat} {temp text : List UInt8} (hsep : sep ≤ 3)
    (hmod : sep % 3 = behind % 3) (hzero : sep = 0 ↔ behind = 0)
    (h : decFrom true turns x sep temp = some text) : text = grouped behind (digitsOf 10 x) ++ temp := by
  induction turns generalizing x sep behind temp with
  | zero => cases h
  | succ turns ih =>
    have hcomma : (sep = 3) = (behind % 3 = 0 ∧ behind ≠ 0) := by
      rw [eq_iff_iff]
      omega
    obtain ⟨last, hlast⟩ : ∃ last, last =
      digitChar (x % 10) :: if behind % 3 = 0 ∧ behind ≠ 0 then [44] else [] := ⟨_, rfl⟩
    have hstaged : digitChar (x % 10) :: (if sep = 3 then 44 :: temp else temp) = last ++ temp := by
      simp only [hcomma, hlast]
      split <;> rfl
    simp only [decFrom, and_true] at h
    rw [hstaged] at h
    split at h
    · cases h
    · split at h
      · next hdiv =>
        have hle : 10 ≤ x := (Nat.div_ne_zero_iff.mp hdiv).2
        have hrest := @ih (x / 10) ((if sep = 3 then 0 else sep) + 1) (behind + 1) _
          (by split <;> omega) (by split <;> omega) (by split <;> omega) h
        rw [hrest, digitsOf_of_le (by decide) hle, grouped_snoc, ← hlast, List.append_assoc]
      · cases h
        have hlt : x < 10 := by omega
        rw [hlast, digitsOf_of_lt hlt, Nat.mod_eq_of_lt hlt]
        exact congrArg (· ++ temp) (grouped_snoc behind [] x).symm

theorem uintToDecCommon_grouped {x : Nat} {text : List UInt8} (h : uintToDecCommon x true = some text) :
    text = grouped 0 (digitsOf 10 x) :=
  (decFrom_grouped (Nat.zero_le 3) rfl Iff.rfl h).trans (List.append_nil _)

/-- A comma for every three digits behind the first one. -/
theorem length_grouped (ds : List Nat) : (grouped 0 ds).length = ds.length + (ds.length - 1) / 3 := by
  induction ds with
  | nil => rfl
  | cons d ds ih =>
    rw [grouped, List.length_cons, List.length_cons]
    split
    · rw [List.length_cons, ih]
      omega
    · rw [ih]
      omega

end WindowsLibc.Printf
