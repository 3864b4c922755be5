import Mathlib.Algebra.Order.Ring.Nat
import Mathlib.Data.List.Basic

/-!
# Partial machines and their runs

A deterministic machine with inputs and outputs. A step may *fault* (`none`): an access outside an
array, say. Nothing in this module knows what is being modelled.

* `Machine.run` feeds a list of inputs, and faults as soon as one step does.
* `Machine.Along P` says that every step of a run is taken in a state, and on an input, of which
  `P` holds: the side conditions of a run, read off the state *before* each step.
* `Machine.run_invariant` is the rule for invariants of runs, and `Machine.along_iff` compares two
  side conditions under one.
* `Machine.run_sim` is forward simulation: step by step agreement with another machine gives
  agreement of whole runs, with the same outputs.
* `Machine.drive` feeds one input again and again until an output says that it is enough, and
  `Machine.exists_drives` is the rule for its end: an invariant, and a measure that every other
  step makes smaller.
-/

namespace WindowsLibc.Lib

/-- A machine over states `σ`, inputs `ι` and outputs `ο`. -/
structure Machine (σ ι ο : Type*) where
  /-- One step; `none` is a fault. -/
  step : σ → ι → Option (σ × ο)

namespace Machine

variable {σ τ ι ο : Type*}

/-- Feed the inputs one by one and collect the outputs. -/
@[grind =]
def run (M : Machine σ ι ο) : σ → List ι → Option (σ × List ο)
  | s, [] => some (s, [])
  | s, i :: is =>
    match M.step s i with
    | none => none
    | some (s', o) => (M.run s' is).map (fun r => (r.1, o :: r.2))

/-- Every step of the run from `s` is taken where `P` holds. -/
def Along (M : Machine σ ι ο) (P : σ → ι → Prop) : σ → List ι → Prop
  | _, [] => True
  | s, i :: is => P s i ∧ ∀ s' o, M.step s i = some (s', o) → M.Along P s' is

/-- A condition that can be decided can be decided along a run. -/
instance decidableAlong (M : Machine σ ι ο) (P : σ → ι → Prop) [∀ s i, Decidable (P s i)] :
    (s : σ) → (is : List ι) → Decidable (M.Along P s is)
  | _, [] => .isTrue trivial
  | s, i :: is =>
    match h : M.step s i with
    | none => decidable_of_iff (P s i) ⟨fun hP => ⟨hP, fun _ _ h' => by cases h.symm.trans h'⟩, And.left⟩
    | some (s', o) =>
      have := decidableAlong M P s' is
      decidable_of_iff (P s i ∧ M.Along P s' is)
        ⟨fun ⟨hP, hrest⟩ => ⟨hP, fun _ _ h' => by cases h.symm.trans h'; exact hrest⟩,
          fun ⟨hP, hrest⟩ => ⟨hP, hrest s' o h⟩⟩

theorem run_cons {M : Machine σ ι ο} {s s' : σ} {i : ι} {o : ο} (h : M.step s i = some (s', o))
    (is : List ι) : M.run s (i :: is) = (M.run s' is).map (fun r => (r.1, o :: r.2)) := by
  simp only [run, h]

theorem along_cons {M : Machine σ ι ο} {P : σ → ι → Prop} {s s' : σ} {i : ι} {o : ο}
    (h : M.step s i = some (s', o)) (is : List ι) : M.Along P s (i :: is) ↔ P s i ∧ M.Along P s' is := by
  constructor
  · rintro ⟨hP, hrest⟩
    exact ⟨hP, hrest s' o h⟩
  · rintro ⟨hP, hrest⟩
    refine ⟨hP, ?_⟩
    intro s'' o' h'
    cases h.symm.trans h'
    exact hrest

/-- A run goes on where its first part ended. -/
theorem run_append {M : Machine σ ι ο} {s s' : σ} {is : List ι} {os : List ο}
    (h : M.run s is = some (s', os)) (js : List ι) :
    M.run s (is ++ js) = (M.run s' js).map (fun r => (r.1, os ++ r.2)) := by
  induction is generalizing s os with
  | nil =>
    cases h
    simp
  | cons i is ih =>
    simp only [run] at h
    split at h
    · contradiction
    · rename_i s₁ o hstep
      obtain ⟨⟨s₂, os₁⟩, hrun, hr⟩ := Option.map_eq_some_iff.mp h
      cases hr
      rw [List.cons_append, run_cons hstep, ih hrun, Option.map_map]
      rfl

theorem length_run {M : Machine σ ι ο} {s s' : σ} {is : List ι} {os : List ο}
    (h : M.run s is = some (s', os)) : os.length = is.length := by
  induction is generalizing s os with
  | nil =>
    cases h
    rfl
  | cons i is ih =>
    simp only [run] at h
    split at h
    · contradiction
    · obtain ⟨⟨s₂, os₁⟩, hrun, hr⟩ := Option.map_eq_some_iff.mp h
      cases hr
      rw [List.length_cons, List.length_cons, ih hrun]

/-- A condition along a run is one along its beginnings. -/
theorem Along.take {M : Machine σ ι ο} {P : σ → ι → Prop} {s : σ} {is : List ι} (h : M.Along P s is)
    (k : Nat) : M.Along P s (is.take k) := by
  induction is generalizing s k with
  | nil =>
    rw [List.take_nil]
    exact h
  | cons i is ih =>
    cases k with
    | zero => exact trivial
    | succ k => exact ⟨h.1, fun s' o hstep => ih (h.2 s' o hstep) k⟩

/-- What holds along a run holds along what is left of it. -/
theorem Along.drop {M : Machine σ ι ο} {P : σ → ι → Prop} {s s' : σ} {is js : List ι} {os : List ο}
    (h : M.Along P s (is ++ js)) (hrun : M.run s is = some (s', os)) : M.Along P s' js := by
  induction is generalizing s os with
  | nil =>
    cases hrun
    exact h
  | cons i is ih =>
    rw [run] at hrun
    split at hrun
    · contradiction
    · next s₁ o hstep =>
      obtain ⟨⟨s₂, os₁⟩, hrun₁, heq⟩ := Option.map_eq_some_iff.mp hrun
      cases heq
      exact ih (h.2 s₁ o hstep) hrun₁

theorem Along.and {M : Machine σ ι ο} {P Q : σ → ι → Prop} {s : σ} {is : List ι} (hP : M.Along P s is)
    (hQ : M.Along Q s is) : M.Along (fun s i => P s i ∧ Q s i) s is := by
  induction is generalizing s with
  | nil => trivial
  | cons i is ih => exact ⟨⟨hP.1, hQ.1⟩, fun s' o hstep => ih (hP.2 s' o hstep) (hQ.2 s' o hstep)⟩

/-- A condition that always holds, holds along every run. -/
theorem along_of_forall {M : Machine σ ι ο} {P : σ → ι → Prop} (h : ∀ s i, P s i) (is : List ι) :
    ∀ s, M.Along P s is := by
  induction is with
  | nil => exact fun _ => trivial
  | cons i is ih => exact fun s => ⟨h s i, fun s' _ _ => ih s'⟩

/-- A condition on the inputs alone. -/
theorem along_of_mem {M : Machine σ ι ο} {P : ι → Prop} {is : List ι} (h : ∀ i ∈ is, P i) :
    ∀ s, M.Along (fun _ i => P i) s is := by
  induction is with
  | nil => exact fun _ => trivial
  | cons i is ih =>
    intro s
    exact ⟨h i List.mem_cons_self, fun s' _ _ => ih (fun j hj => h j (List.mem_cons_of_mem i hj)) s'⟩

/-- **Invariants.** What every step that `P` allows preserves, every run whose steps `P` allows
preserves. -/
theorem run_invariant {M : Machine σ ι ο} {I : σ → Prop} {P : σ → ι → Prop}
    (hstep : ∀ s i, I s → P s i → ∃ s' o, M.step s i = some (s', o) ∧ I s') :
    ∀ (is : List ι) {s : σ}, I s → M.Along P s is → ∃ s' os, M.run s is = some (s', os) ∧ I s' := by
  intro is
  induction is with
  | nil =>
    intro s hI _
    exact ⟨s, [], rfl, hI⟩
  | cons i is ih =>
    intro s hI hP
    obtain ⟨s₁, o, hM, hI₁⟩ := hstep s i hI hP.1
    obtain ⟨s₂, os, hrun, hI₂⟩ := ih hI₁ (hP.2 s₁ o hM)
    exact ⟨s₂, o :: os, by rw [run_cons hM, hrun]; rfl, hI₂⟩

/-- What every step that is possible preserves, holds wherever a run leads. -/
theorem run_keeps {M : Machine σ ι ο} {I : σ → Prop}
    (hstep : ∀ s i s' o, I s → M.step s i = some (s', o) → I s') :
    ∀ (is : List ι) {s s' : σ} {os : List ο}, I s → M.run s is = some (s', os) → I s' := by
  intro is
  induction is with
  | nil =>
    intro s s' os hI hrun
    cases hrun
    exact hI
  | cons i is ih =>
    intro s s' os hI hrun
    rw [run] at hrun
    split at hrun
    · contradiction
    · next s₁ o hM =>
      obtain ⟨⟨s₂, os₂⟩, hrun₂, heq⟩ := Option.map_eq_some_iff.mp hrun
      cases heq
      exact ih (hstep s i s₁ o hI hM) hrun₂

/-- What every step that `P` allows preserves, holds wherever a run leads along which `P` does. -/
theorem Along.keeps {M : Machine σ ι ο} {I : σ → Prop} {P : σ → ι → Prop}
    (hstep : ∀ s i s' o, I s → P s i → M.step s i = some (s', o) → I s') :
    ∀ {is : List ι} {s s' : σ} {os : List ο}, M.Along P s is → I s → M.run s is = some (s', os) → I s' := by
  intro is
  induction is with
  | nil =>
    intro s s' os _ hI hrun
    cases hrun
    exact hI
  | cons i is ih =>
    rintro s s' os ⟨hP, hrest⟩ hI hrun
    rw [run] at hrun
    split at hrun
    · contradiction
    · next s₁ o hM =>
      obtain ⟨⟨s₂, os₂⟩, hrun₂, heq⟩ := Option.map_eq_some_iff.mp hrun
      cases heq
      exact ih (hrest s₁ o hM) (hstep s i s₁ o hI hP hM) hrun₂

/-- What an invariant makes of a condition holds along every run along which the condition does. -/
theorem along_of_along {M : Machine σ ι ο} {I : σ → Prop} {P Q : σ → ι → Prop}
    (hstep : ∀ s i, I s → P s i → Q s i ∧ ∀ s' o, M.step s i = some (s', o) → I s') :
    ∀ (is : List ι) {s : σ}, I s → M.Along P s is → M.Along Q s is := by
  intro is
  induction is with
  | nil => exact fun _ _ => trivial
  | cons i is ih =>
    rintro s hI ⟨hP, hrest⟩
    obtain ⟨hQ, hkeep⟩ := hstep s i hI hP
    exact ⟨hQ, fun s' o hM => ih (hkeep s' o hM) (hrest s' o hM)⟩

/-- Conditions that agree wherever an invariant holds, which the steps they allow keep, agree along
every run. -/
theorem along_iff {M : Machine σ ι ο} {I : σ → Prop} {P Q : σ → ι → Prop}
    (hiff : ∀ s i, I s → (P s i ↔ Q s i))
    (hkeep : ∀ s i s' o, I s → Q s i → M.step s i = some (s', o) → I s') :
    ∀ (is : List ι) {s : σ}, I s → (M.Along P s is ↔ M.Along Q s is) := by
  intro is
  induction is with
  | nil => exact fun _ => Iff.rfl
  | cons i is ih =>
    intro s hI
    constructor
    · rintro ⟨hP, hrest⟩
      have hQ := (hiff s i hI).mp hP
      exact ⟨hQ, fun s' o hstep => (ih (hkeep s i s' o hI hQ hstep)).mp (hrest s' o hstep)⟩
    · rintro ⟨hQ, hrest⟩
      exact ⟨(hiff s i hI).mpr hQ,
        fun s' o hstep => (ih (hkeep s i s' o hI hQ hstep)).mpr (hrest s' o hstep)⟩

/-- **Forward simulation.** If every step of `M` that `P` allows is matched by a step of `N` with
the same output, then so is every run whose steps `P` allows. -/
theorem run_sim {M : Machine σ ι ο} {N : Machine τ ι ο} {R : σ → τ → Prop} {P : σ → ι → Prop}
    (hstep : ∀ s t i, R s t → P s i →
      ∃ s' t' o, M.step s i = some (s', o) ∧ N.step t i = some (t', o) ∧ R s' t') :
    ∀ (is : List ι) {s : σ} {t : τ}, R s t → M.Along P s is →
      ∃ s' t' os, M.run s is = some (s', os) ∧ N.run t is = some (t', os) ∧ R s' t' := by
  intro is
  induction is with
  | nil =>
    intro s t hR _
    exact ⟨s, t, [], rfl, rfl, hR⟩
  | cons i is ih =>
    intro s t hR hP
    obtain ⟨s₁, t₁, o, hM, hN, hR₁⟩ := hstep s t i hR hP.1
    obtain ⟨s₂, t₂, os, hM₂, hN₂, hR₂⟩ := ih hR₁ (hP.2 s₁ o hM)
    refine ⟨s₂, t₂, o :: os, ?_, ?_, hR₂⟩
    · rw [run_cons hM, hM₂]; rfl
    · rw [run_cons hN, hN₂]; rfl

/-! ## Feeding one input until it is enough -/

/-- `while (!stop(o = step(i)))`, for at most so many steps: the outputs before the last one, each
with the state it leaves, and the last one. -/
def drive (M : Machine σ ι ο) (i : ι) (stop : ο → Bool) :
    Nat → σ → Option (List (ο × σ) × (ο × σ))
  | 0, _ => none
  | n + 1, s =>
    match M.step s i with
    | none => none
    | some (s', o) =>
      if stop o then some ([], (o, s'))
      else (M.drive i stop n s').map (fun r => ((o, s') :: r.1, r.2))

/-- The same as a relation, without a bound. -/
inductive Drives (M : Machine σ ι ο) (i : ι) (stop : ο → Bool) :
    σ → List (ο × σ) → ο × σ → Prop
  | last {s s' : σ} {o : ο} : M.step s i = some (s', o) → stop o = true → Drives M i stop s [] (o, s')
  | more {s s' : σ} {o : ο} {os : List (ο × σ)} {last : ο × σ} :
      M.step s i = some (s', o) → stop o = false → Drives M i stop s' os last →
      Drives M i stop s ((o, s') :: os) last

/-- Only the first step knows where a drive starts. -/
theorem Drives.of_step_eq {M : Machine σ ι ο} {i : ι} {stop : ο → Bool} {s t : σ}
    {os : List (ο × σ)} {last : ο × σ} (h : M.Drives i stop t os last)
    (hstep : M.step s i = M.step t i) : M.Drives i stop s os last := by
  cases h with
  | last ht hstop => exact .last (hstep.trans ht) hstop
  | more ht hstop hrest => exact .more (hstep.trans ht) hstop hrest

/-- What every step preserves holds all along a drive. -/
theorem Drives.invariant {M : Machine σ ι ο} {i : ι} {stop : ο → Bool} {I : σ → Prop}
    (hstep : ∀ s s' o, I s → M.step s i = some (s', o) → I s') {s : σ}
    {os : List (ο × σ)} {last : ο × σ} (h : M.Drives i stop s os last) (hI : I s) :
    ∀ p ∈ os ++ [last], I p.2 := by
  induction h with
  | last hM _ =>
    intro p hp
    rw [List.nil_append, List.mem_singleton] at hp
    rw [hp]
    exact hstep _ _ _ hI hM
  | more hM _ _ ih =>
    have hI' := hstep _ _ _ hI hM
    intro p hp
    rcases List.mem_cons.mp hp with rfl | hp
    · exact hI'
    · exact ih hI' p hp

/-- A drive goes one way. -/
theorem Drives.unique {M : Machine σ ι ο} {i : ι} {stop : ο → Bool} {s : σ}
    {os os' : List (ο × σ)} {last last' : ο × σ} (h : M.Drives i stop s os last)
    (h' : M.Drives i stop s os' last') : os = os' ∧ last = last' := by
  induction h generalizing os' with
  | last hM hstop =>
    cases h' with
    | last hM' _ =>
      cases hM.symm.trans hM'
      exact ⟨rfl, rfl⟩
    | more hM' hstop' _ =>
      cases hM.symm.trans hM'
      rw [hstop] at hstop'
      contradiction
  | more hM hstop _ ih =>
    cases h' with
    | last hM' hstop' =>
      cases hM.symm.trans hM'
      rw [hstop] at hstop'
      contradiction
    | more hM' _ hrest =>
      cases hM.symm.trans hM'
      obtain ⟨rfl, rfl⟩ := ih hrest
      exact ⟨rfl, rfl⟩

theorem Drives.drive_eq {M : Machine σ ι ο} {i : ι} {stop : ο → Bool} {s : σ}
    {os : List (ο × σ)} {last : ο × σ} (h : M.Drives i stop s os last) {n : Nat}
    (hn : os.length < n) : M.drive i stop n s = some (os, last) := by
  induction h generalizing n with
  | last hstep hstop =>
    cases n with
    | zero => exact absurd hn (Nat.not_lt_zero _)
    | succ n => simp [drive, hstep, hstop]
  | more hstep hstop _ ih =>
    cases n with
    | zero => exact absurd hn (Nat.not_lt_zero _)
    | succ n =>
      rw [List.length_cons] at hn
      simp [drive, hstep, hstop, ih (Nat.lt_of_succ_lt_succ hn)]

/-- A run on one input whose last output is the first one that is enough, is a drive. -/
theorem drives_of_run {M : Machine σ ι ο} {i : ι} {stop : ο → Bool} {o : ο} (ho : stop o = true)
    {os : List ο} (hos : ∀ o' ∈ os, stop o' = false) {s s' : σ}
    (h : M.run s (List.replicate (os.length + 1) i) = some (s', os ++ [o])) :
    ∃ outs, M.Drives i stop s outs (o, s') ∧ outs.map Prod.fst = os := by
  induction os generalizing s with
  | nil =>
    rw [List.length_nil, List.replicate_succ, run] at h
    split at h
    · contradiction
    · next s₁ o₁ hstep =>
      cases h
      exact ⟨[], .last hstep ho, rfl⟩
  | cons o₁ os ih =>
    rw [List.length_cons, List.replicate_succ, run] at h
    split at h
    · contradiction
    · next s₁ o₂ hstep =>
      obtain ⟨⟨s₂, os₂⟩, hrun, heq⟩ := Option.map_eq_some_iff.mp h
      cases heq
      obtain ⟨outs, hdrives, houts⟩ := ih (fun o' ho' => hos o' (List.mem_cons_of_mem _ ho')) hrun
      exact ⟨(o₁, s₁) :: outs, .more hstep (hos o₁ List.mem_cons_self) hdrives,
        by rw [List.map_cons, houts]⟩

/-- **The end of a drive.** Where an invariant holds, every step is possible and keeps it, and a step
that is not the last makes `measure` smaller. -/
theorem exists_drives {M : Machine σ ι ο} {i : ι} {stop : ο → Bool} {I : σ → Prop}
    {measure : σ → Nat}
    (hstep : ∀ s, I s → ∃ s' o, M.step s i = some (s', o) ∧ I s' ∧
      (stop o = false → measure s' < measure s)) :
    ∀ s, I s → ∃ os last, M.Drives i stop s os last ∧ os.length ≤ measure s := by
  intro s hI
  induction hn : measure s using Nat.strongRecOn generalizing s with
  | _ n ih =>
    obtain ⟨s', o, hM, hI', hless⟩ := hstep s hI
    cases hstop : stop o with
    | true => exact ⟨[], (o, s'), .last hM hstop, Nat.zero_le _⟩
    | false =>
      have hlt := hless hstop
      obtain ⟨os, last, hdrives, hle⟩ := ih (measure s') (hn ▸ hlt) s' hI' rfl
      refine ⟨(o, s') :: os, last, .more hM hstop hdrives, ?_⟩
      rw [List.length_cons]
      omega

end Machine

end WindowsLibc.Lib
