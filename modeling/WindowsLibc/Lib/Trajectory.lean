import Mathlib.Logic.Function.Iterate

/-!
# Systems that run by themselves

A function that is applied again and again.

* `Leads f P s s'` says that the steps lead from `s` to `s'`, and that `P` holds of every state on the way, both
  ends included. Ways are joined with `Leads.trans`.
* `Always f P s` says that `P` holds of every state that ever comes. A way to a state that stays as it is says all
  about that (`Leads.always`), and a way to a state without `P` refutes it (`Leads.not_always`).
-/

namespace WindowsLibc.Lib

variable {σ : Type*} {f : σ → σ} {P : σ → Prop} {s s' s'' : σ}

/-- The steps lead from one state to another, past states with `P` only. -/
inductive Leads (f : σ → σ) (P : σ → Prop) : σ → σ → Prop
  | refl {s : σ} (h : P s) : Leads f P s s
  | step {s s' : σ} (h : P s) (hrest : Leads f P (f s) s') : Leads f P s s'

/-- `P` holds now and ever after. -/
def Always (f : σ → σ) (P : σ → Prop) (s : σ) : Prop := ∀ n, P (f^[n] s)

theorem Leads.head (h : Leads f P s s') : P s := by
  cases h with
  | refl h => exact h
  | step h _ => exact h

theorem Leads.last (h : Leads f P s s') : P s' := by
  induction h with
  | refl h => exact h
  | step _ _ ih => exact ih

theorem Leads.trans (h : Leads f P s s') (h' : Leads f P s' s'') : Leads f P s s'' := by
  induction h with
  | refl _ => exact h'
  | step hs _ ih => exact .step hs (ih h')

theorem Leads.cons (h : P s) (hstep : f s = s') (hrest : Leads f P s' s'') : Leads f P s s'' :=
  .step h (hstep ▸ hrest)

theorem Leads.mono {Q : σ → Prop} (h : Leads f P s s') (hPQ : ∀ s, P s → Q s) : Leads f Q s s' := by
  induction h with
  | refl hs => exact .refl (hPQ _ hs)
  | step hs _ ih => exact .step (hPQ _ hs) ih

theorem Leads.exists_iterate (h : Leads f P s s') : ∃ n, f^[n] s = s' := by
  induction h with
  | refl _ => exact ⟨0, rfl⟩
  | step _ _ ih =>
    obtain ⟨n, hn⟩ := ih
    exact ⟨n + 1, hn⟩

theorem Always.next (h : Always f P s) : Always f P (f s) := fun n => h (n + 1)

/-- What stays as it is ends a way on which `P` always holds. -/
theorem Leads.always (h : Leads f P s s') (hfix : f s' = s') : Always f P s := by
  induction h with
  | refl hs =>
    intro n
    rwa [Function.iterate_fixed hfix]
  | step hs _ ih =>
    intro n
    cases n with
    | zero => exact hs
    | succ n => exact ih hfix n

theorem Leads.not_always {Q : σ → Prop} (h : Leads f Q s s') (hnot : ¬ P s') : ¬ Always f P s := by
  induction h with
  | refl _ => exact fun halways => hnot (halways 0)
  | step _ _ ih => exact fun halways => ih hnot halways.next

end WindowsLibc.Lib
