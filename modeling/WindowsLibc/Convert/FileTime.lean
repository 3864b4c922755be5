import Mathlib.Data.Int.Basic

/-!
# File times (`internal/convert.c`)

A file time counts intervals of 100 nanoseconds since 1601, a `struct timespec` seconds and nanoseconds since
1970. `/` and `%` truncate toward zero, so before 1970 the nanoseconds are negative.

`normalised_iff`: they are what they should be from 1970 on, and for whole seconds. The conversion back and the
order of the times are right on both sides of 1970.
-/

namespace WindowsLibc.Convert

/-- `struct timespec`: a `time_t` and a `long` -/
structure Timespec where
  tvSec : Int64
  tvNsec : Int32
  deriving DecidableEq

/-- The number of 100 nanosecond intervals from January 1st 1601 to January 1st 1970 (UTC). -/
def unixEpoch : Int64 := 116444736000000000

/-- `LARGE_INTEGER_to_timespec` -/
def largeIntegerToTimespec (lt : Int64) : Timespec :=
  let epoch := lt - unixEpoch
  ⟨epoch / 10000000, (epoch % 10000000 * 100).toInt32⟩

/-- `timespec_to_LARGE_INTEGER` -/
def timespecToLargeInteger (time : Timespec) : Int64 :=
  time.tvSec * 10000000 + (time.tvNsec / 100).toInt64 + unixEpoch

/-! ## What is wanted -/

def Timespec.Normalised (time : Timespec) : Prop := 0 ≤ time.tvNsec ∧ time.tvNsec < 1000000000

/-- The order of times, first by seconds. -/
def Timespec.Before (time time' : Timespec) : Prop :=
  time.tvSec < time'.tvSec ∨ time.tvSec = time'.tvSec ∧ time.tvNsec < time'.tvNsec

instance (time : Timespec) : Decidable time.Normalised := inferInstanceAs (Decidable (_ ∧ _))

/-! ## As integers -/

/-- The intervals since 1970. -/
def sinceEpoch (lt : Int64) : Int := lt.toInt - 116444736000000000

variable {lt lt' : Int64}

theorem toInt_sub_unixEpoch (h : 0 ≤ lt) : (lt - unixEpoch).toInt = sinceEpoch lt := by
  have hle : 0 ≤ lt.toInt := Int64.le_iff_toInt_le.mp h
  have hlt := lt.toInt_lt
  have hepoch : unixEpoch.toInt = 116444736000000000 := rfl
  rw [Int64.toInt_sub, hepoch, sinceEpoch]
  exact Int.bmod_eq_of_le (by omega) (by omega)

theorem toInt_tvSec (h : 0 ≤ lt) :
    (largeIntegerToTimespec lt).tvSec.toInt = (sinceEpoch lt).tdiv 10000000 := by
  rw [largeIntegerToTimespec, Int64.toInt_div_of_ne_right _ _ (by decide), toInt_sub_unixEpoch h]
  rfl

/-- The nanoseconds are less than a second, with the sign of the intervals since 1970. -/
theorem toInt_tvNsec (h : 0 ≤ lt) :
    (largeIntegerToTimespec lt).tvNsec.toInt = (sinceEpoch lt).tmod 10000000 * 100 := by
  have hlow := Int.lt_tmod_of_pos (sinceEpoch lt) (b := 10000000) (by decide)
  have hhigh := Int.tmod_lt_of_pos (sinceEpoch lt) (b := 10000000) (by decide)
  have hmod : ((lt - unixEpoch) % 10000000).toInt = (sinceEpoch lt).tmod 10000000 := by
    rw [Int64.toInt_mod, toInt_sub_unixEpoch h]
    rfl
  have hmul : ((lt - unixEpoch) % 10000000 * 100).toInt = (sinceEpoch lt).tmod 10000000 * 100 := by
    rw [Int64.toInt_mul, hmod, show (100 : Int64).toInt = 100 from rfl]
    exact Int.bmod_eq_of_le (by omega) (by omega)
  rw [largeIntegerToTimespec, Int64.toInt_toInt32, hmul]
  exact Int.bmod_eq_of_le (by omega) (by omega)

theorem le_sinceEpoch (h : 0 ≤ lt) :
    -116444736000000000 ≤ sinceEpoch lt ∧ sinceEpoch lt < 9106927300854775808 := by
  have hle : 0 ≤ lt.toInt := Int64.le_iff_toInt_le.mp h
  have hlt := lt.toInt_lt
  rw [sinceEpoch]
  omega

/-! ## The conversions -/

/-- Truncation makes the nanoseconds negative before 1970, but for whole seconds. -/
theorem normalised_iff_sinceEpoch (h : 0 ≤ lt) :
    (largeIntegerToTimespec lt).Normalised ↔ 0 ≤ sinceEpoch lt ∨ sinceEpoch lt % 10000000 = 0 := by
  have hhigh := Int.tmod_lt_of_pos (sinceEpoch lt) (b := 10000000) (by decide)
  have hmod := Int.tmod_eq_emod (a := sinceEpoch lt) (b := 10000000)
  rw [Timespec.Normalised, Int32.le_iff_toInt_le, Int32.lt_iff_toInt_lt, toInt_tvNsec h]
  change 0 ≤ _ ∧ _ < 1000000000 ↔ _
  split at hmod
  · next hcase =>
    rw [Int.dvd_iff_emod_eq_zero] at hcase
    omega
  · next hcase =>
    rw [Int.dvd_iff_emod_eq_zero] at hcase
    omega

/-- The way back. -/
theorem timespecToLargeInteger_of_nonneg (h : 0 ≤ lt) :
    timespecToLargeInteger (largeIntegerToTimespec lt) = lt := by
  have hsum := Int.mul_tdiv_add_tmod (sinceEpoch lt) 10000000
  have hlow := Int.lt_tmod_of_pos (sinceEpoch lt) (b := 10000000) (by decide)
  have hhigh := Int.tmod_lt_of_pos (sinceEpoch lt) (b := 10000000) (by decide)
  have hbounds := le_sinceEpoch h
  have hsec : ((largeIntegerToTimespec lt).tvSec * 10000000).toInt =
      (sinceEpoch lt).tdiv 10000000 * 10000000 := by
    rw [Int64.toInt_mul, toInt_tvSec h, show (10000000 : Int64).toInt = 10000000 from rfl]
    exact Int.bmod_eq_of_le (by omega) (by omega)
  have hnsec : ((largeIntegerToTimespec lt).tvNsec / 100).toInt64.toInt =
      (sinceEpoch lt).tmod 10000000 := by
    rw [Int32.toInt_toInt64, Int32.toInt_div_of_ne_right _ _ (by decide), toInt_tvNsec h]
    exact Int.mul_tdiv_cancel _ (by decide)
  have htime : ((largeIntegerToTimespec lt).tvSec * 10000000 +
      ((largeIntegerToTimespec lt).tvNsec / 100).toInt64).toInt = sinceEpoch lt := by
    rw [Int64.toInt_add, hsec, hnsec]
    exact (Int.bmod_eq_of_le (by omega) (by omega)).trans (by omega)
  have hepoch : unixEpoch.toInt = 116444736000000000 := rfl
  rw [← Int64.toInt_inj, timespecToLargeInteger, Int64.toInt_add, htime, hepoch]
  refine (Int.bmod_eq_of_le (by omega) (by omega)).trans ?_
  rw [sinceEpoch]
  omega

/-- Truncation keeps the order: the seconds do not go back, and within one the nanoseconds go on. -/
theorem before_of_lt (h : 0 ≤ lt) (hlt : lt < lt') :
    (largeIntegerToTimespec lt).Before (largeIntegerToTimespec lt') := by
  have hint : lt.toInt < lt'.toInt := Int64.lt_iff_toInt_lt.mp hlt
  have h' : 0 ≤ lt' := Int64.le_iff_toInt_le.mpr
    (Int.le_trans (Int64.le_iff_toInt_le.mp h) (Int.le_of_lt hint))
  have hsince : sinceEpoch lt < sinceEpoch lt' := Int.sub_lt_sub_right hint _
  have hsum := Int.mul_tdiv_add_tmod (sinceEpoch lt) 10000000
  have hsum' := Int.mul_tdiv_add_tmod (sinceEpoch lt') 10000000
  have hdiv := Int.tdiv_le_tdiv (c := 10000000) (by decide) (Int.le_of_lt hsince)
  rw [Timespec.Before, Int64.lt_iff_toInt_lt, ← Int64.toInt_inj, Int32.lt_iff_toInt_lt, toInt_tvSec h,
    toInt_tvSec h', toInt_tvNsec h, toInt_tvNsec h']
  rcases Int.lt_or_eq_of_le hdiv with hless | heq
  · exact .inl hless
  · exact .inr ⟨heq, by omega⟩

/-- For every file time: the nanoseconds are normalised exactly from 1970 on and for whole seconds; the time is
the one that is converted back, and every later one comes behind it. -/
theorem normalised_iff (h : 0 ≤ lt) :
    ((largeIntegerToTimespec lt).Normalised ↔ unixEpoch ≤ lt ∨ lt % 10000000 = 0) ∧
      timespecToLargeInteger (largeIntegerToTimespec lt) = lt ∧
      ∀ lt', lt < lt' → (largeIntegerToTimespec lt).Before (largeIntegerToTimespec lt') := by
  refine ⟨?_, timespecToLargeInteger_of_nonneg h, fun lt' hlt => before_of_lt h hlt⟩
  have hle : 0 ≤ lt.toInt := Int64.le_iff_toInt_le.mp h
  have hepoch : unixEpoch.toInt = 116444736000000000 := rfl
  rw [normalised_iff_sinceEpoch h, Int64.le_iff_toInt_le, hepoch, ← Int64.toInt_inj, Int64.toInt_mod]
  change _ ↔ _ ∨ lt.toInt.tmod 10000000 = 0
  rw [Int.tmod_eq_emod_of_nonneg hle, sinceEpoch]
  omega

/-- A time in 1970, and one in 1969. -/
theorem normalised_unixEpoch : (largeIntegerToTimespec (unixEpoch + 1)).Normalised ∧
    timespecToLargeInteger (largeIntegerToTimespec (unixEpoch - 1)) = unixEpoch - 1 ∧
    (largeIntegerToTimespec (unixEpoch - 1)).Before (largeIntegerToTimespec unixEpoch) :=
  have hafter := @normalised_iff (unixEpoch + 1) (by decide)
  have hbefore := @normalised_iff (unixEpoch - 1) (by decide)
  ⟨hafter.1.mpr (.inl (by decide)), hbefore.2.1, hbefore.2.2 unixEpoch (by decide)⟩

/-- One interval before 1970, there are -100 nanoseconds. -/
theorem not_normalised : ∃ lt : Int64, 0 ≤ lt ∧ ¬ (largeIntegerToTimespec lt).Normalised :=
  ⟨unixEpoch - 1, by decide, by decide⟩

end WindowsLibc.Convert
