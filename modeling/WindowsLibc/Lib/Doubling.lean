import Mathlib.Algebra.Order.Ring.Nat
import Mathlib.Tactic.Ring

/-!
# Sizes that double

A buffer that is too small is doubled until it is large enough. Sizes that start from a power of two stay powers
of two, so that the smallest need that is not met yet decides the size (`Doubled`).
-/

namespace WindowsLibc.Lib

/-- Doubled while it is not larger than what is needed. -/
def keepDoubling (needed size : Nat) : Nat :=
  if 0 < size ∧ size ≤ needed then keepDoubling needed (2 * size) else size
termination_by needed + 1 - size

theorem keepDoubling_of_lt {needed size : Nat} (h : needed < size) : keepDoubling needed size = size := by
  rw [keepDoubling, if_neg (fun hle => Nat.not_lt.mpr hle.2 h)]

theorem keepDoubling_of_le {needed size : Nat} (hpos : 0 < size) (h : size ≤ needed) :
    keepDoubling needed size = keepDoubling needed (2 * size) := by
  rw [keepDoubling, if_pos ⟨hpos, h⟩]

/-- The size is large enough then, and no larger than it has to be. -/
theorem keepDoubling_cases {needed size : Nat} (hpos : 0 < size) : needed < keepDoubling needed size ∧
    (∃ k, keepDoubling needed size = 2 ^ k * size) ∧
    (keepDoubling needed size = size ∨ keepDoubling needed size ≤ 2 * needed) := by
  induction hn : needed + 1 - size using Nat.strong_induction_on generalizing size with
  | _ n ih =>
    rcases Nat.lt_or_ge needed size with hlt | hle
    · rw [keepDoubling_of_lt hlt]
      exact ⟨hlt, ⟨0, by rw [pow_zero, one_mul]⟩, .inl rfl⟩
    · rw [keepDoubling_of_le hpos hle]
      obtain ⟨henough, ⟨k, hk⟩, hsmall⟩ := ih (needed + 1 - 2 * size) (by omega) (by omega) rfl
      refine ⟨henough, ⟨k + 1, by rw [hk, pow_succ, mul_assoc]⟩, .inr ?_⟩
      rcases hsmall with heq | hle'
      · omega
      · exact hle'

/-- A size that has been doubled from `base` for these needs. -/
structure Doubled (base : Nat) (needs : List Nat) (size : Nat) : Prop where
  power : ∃ k, size = 2 ^ k * base
  met : ∀ needed ∈ needs, needed < size
  least : size = base ∨ ∃ needed ∈ needs, size ≤ 2 * needed

variable {base needed size : Nat} {needs : List Nat}

theorem doubled_nil : Doubled base [] base where
  power := ⟨0, by rw [pow_zero, one_mul]⟩
  met _ h := absurd h List.not_mem_nil
  least := .inl rfl

/-- One more need. -/
theorem Doubled.keepDoubling (hpos : 0 < base) (h : Doubled base needs size) (needed : Nat) :
    Doubled base (needs ++ [needed]) (keepDoubling needed size) := by
  obtain ⟨k, hk⟩ := h.power
  have hsize : 0 < size := by
    rw [hk]
    exact Nat.mul_pos (Nat.two_pow_pos k) hpos
  obtain ⟨henough, ⟨k', hk'⟩, hsmall⟩ := @keepDoubling_cases needed _ hsize
  refine ⟨⟨k' + k, by rw [hk', hk, pow_add, mul_assoc]⟩, ?_, ?_⟩
  · intro n hn
    rcases List.mem_append.mp hn with hold | hnew
    · have hmet := h.met n hold
      have hgrow : size ≤ 2 ^ k' * size := Nat.le_mul_of_pos_left size (Nat.two_pow_pos k')
      omega
    · rw [List.mem_singleton.mp hnew]
      exact henough
  · rcases hsmall with hsame | hle
    · rcases h.least with hbase | ⟨n, hn, hle⟩
      · exact .inl (hsame.trans hbase)
      · exact .inr ⟨n, List.mem_append_left _ hn, hsame.le.trans hle⟩
    · exact .inr ⟨needed, List.mem_append_right _ (List.mem_singleton_self needed), hle⟩

/-- The last need falls short of the size by one exactly if it comes to one less than a power, and to the
largest need so far. -/
theorem Doubled.eq_succ_iff (h : Doubled base (needs ++ [needed]) size) :
    needed + 1 = size ↔ (∃ k, needed + 1 = 2 ^ k * base) ∧ ∀ n ∈ needs, n ≤ needed := by
  obtain ⟨k, hk⟩ := h.power
  have hmet := h.met needed (List.mem_append_right _ (List.mem_singleton_self needed))
  constructor
  · intro heq
    refine ⟨⟨k, heq.trans hk⟩, fun n hn => ?_⟩
    have hn := h.met n (List.mem_append_left _ hn)
    omega
  · rintro ⟨⟨m, hm⟩, hlargest⟩
    refine Nat.le_antisymm hmet ?_
    by_contra hlt
    -- The next power is twice as large, and nothing has asked for it.
    have hpowers : 2 ^ m < 2 ^ k := by
      refine Nat.lt_of_mul_lt_mul_right (a := base) ?_
      omega
    have hnext : 2 ^ (m + 1) ≤ 2 ^ k :=
      Nat.pow_le_pow_right (by omega) ((Nat.pow_lt_pow_iff_right (by omega)).mp hpowers)
    have htwice : 2 * (needed + 1) ≤ size := by
      rw [hm, hk, ← mul_assoc, ← pow_succ']
      exact Nat.mul_le_mul_right base hnext
    rcases h.least with hbase | ⟨n, hn, hle⟩
    · have hge : base ≤ 2 ^ m * base := Nat.le_mul_of_pos_left base (Nat.two_pow_pos m)
      omega
    · rcases List.mem_append.mp hn with hold | hnew
      · have hn := hlargest n hold
        omega
      · have hn := List.mem_singleton.mp hnew
        omega

end WindowsLibc.Lib
