import WindowsLibc.Lib.Machine

/-!
# What is seen of a run

The outputs of a run, and something of the state it ends in. Two states are as good as each other to
somebody who sees no more than that if all their runs look the same.

* `Machine.observe_eq` is the rule that shows it: a relation that the steps keep, whose states are seen
  alike. It compares the runs of two machines, so that it is also the rule for an abstraction.
* `Machine.eq_of_observe` goes the other way, for a single step that would tell two states apart.
-/

namespace WindowsLibc.Lib

namespace Machine

variable {σ τ ι ο φ : Type*} {M : Machine σ ι ο} {N : Machine τ ι ο} {seen : σ → φ} {seen' : τ → φ}

/-- The outputs of a run, and what is seen of the state it ends in. -/
def observe (M : Machine σ ι ο) (seen : σ → φ) (s : σ) (is : List ι) : Option (List ο × φ) :=
  (M.run s is).map (fun r => (r.2, seen r.1))

@[simp] theorem observe_nil (s : σ) : M.observe seen s [] = some ([], seen s) := rfl

theorem observe_cons {s s' : σ} {i : ι} {o : ο} (h : M.step s i = some (s', o)) (is : List ι) :
    M.observe seen s (i :: is) = (M.observe seen s' is).map (fun r => (o :: r.1, r.2)) := by
  rw [observe, run_cons h, observe, Option.map_map, Option.map_map]
  rfl

theorem observe_fault {s : σ} {i : ι} (h : M.step s i = none) (is : List ι) :
    M.observe seen s (i :: is) = none := by
  rw [observe, run, h, Option.map_none]

/-- **Runs that look the same.** Related states fault on the same inputs, or give the same output and stay
related; and they are seen alike. -/
theorem observe_eq {R : σ → τ → Prop} {P : ι → Prop} (hseen : ∀ s t, R s t → seen s = seen' t)
    (hstep : ∀ s t i, R s t → P i → (M.step s i = none ∧ N.step t i = none) ∨
      ∃ s' t' o, M.step s i = some (s', o) ∧ N.step t i = some (t', o) ∧ R s' t') :
    ∀ (is : List ι) {s : σ} {t : τ}, R s t → (∀ i ∈ is, P i) →
      M.observe seen s is = N.observe seen' t is := by
  intro is
  induction is with
  | nil =>
    intro s t hR _
    rw [observe_nil, observe_nil, hseen s t hR]
  | cons i is ih =>
    intro s t hR hP
    rcases hstep s t i hR (hP i List.mem_cons_self) with ⟨hM, hN⟩ | ⟨s', t', o, hM, hN, hR'⟩
    · rw [observe_fault hM, observe_fault hN]
    · rw [observe_cons hM, observe_cons hN, ih hR' (fun j hj => hP j (List.mem_cons_of_mem i hj))]

/-- One step that would look different tells two states apart. -/
theorem eq_of_observe {s s' : σ} {t t' : τ} {i : ι} {o o' : ο} (hM : M.step s i = some (s', o))
    (hN : N.step t i = some (t', o')) (h : M.observe seen s [i] = N.observe seen' t [i]) :
    o = o' ∧ seen s' = seen' t' := by
  rw [observe_cons hM, observe_cons hN] at h
  simp only [observe_nil, Option.map_some, Option.some.injEq, Prod.mk.injEq, List.cons.injEq,
    and_true] at h
  exact h

end Machine

end WindowsLibc.Lib
