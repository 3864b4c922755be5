import Mathlib.Algebra.BigOperators.Pi
import Mathlib.Algebra.Order.BigOperators.Group.Finset
import WindowsLibc.Thread.Relock.Returns

/-!
# The fields of a mutex (`thread/mutex.c`)

A mutex remembers who has the mutant, and how often, in fields of its own. A thread writes them behind
`NtWaitForSingleObject` and behind `NtReleaseMutant`, in two steps each, and between these others lock and unlock.

* `Change` lists what a step of a thread can do to the mutex, conditional waits included.
* `count_balanced`: the count is the depth of the mutant, and one more for each thread that is on its way out, and
  one less for each that is on its way in, along every run.
* `owner_exact`: where a thread is only given a free mutant whose fields have been cleared, the owner is right. A
  lock is refused as a deadlock if the thread has the mutex, and only then.
* Without that the owner can be lost, and a mutex that is not recursive be locked twice.
-/

namespace WindowsLibc.Thread

open WindowsLibc.Lib

/-- In none of the steps that change the mutex. -/
def Stage.AtRest : Stage → Prop
  | .released _ | .disowning _ | .owning _ | .counting _ => False
  | _ => True

/-- How often the mutant has been taken. -/
def Mutex.depth (m : Mutex) : Int :=
  match m.mutant with
  | some (_, depth) => depth
  | none => 0

/-- What a thread that steps to a stage does to the mutex. -/
inductive Change (s : System) (move : Move) (t : Nat) : Stage → Mutex → Prop
  | still {stage : Stage} (hold : (s.stage t).AtRest) (hnew : stage.AtRest)
      (hlock : ∀ wait, stage = .acquiring wait → s.mutex.recursive = true ∨ s.mutex.owner ≠ t) :
      Change s move t stage s.mutex
  | release {wait : Bool} {mutex : Mutex} (hold : s.stage t = .out) (hrelease : s.mutex.release t = some mutex) :
      Change s move t (.released wait) mutex
  | discount {wait : Bool} (hold : s.stage t = .released wait) :
      Change s move t (if s.mutex.count - 1 = 0 then .disowning wait else System.afterUnlock wait)
        { s.mutex with count := s.mutex.count - 1 }
  | disown {wait : Bool} (hold : s.stage t = .disowning wait) :
      Change s move t (System.afterUnlock wait) { s.mutex with owner := 0 }
  | acquire {wait : Bool} {mutex : Mutex} (hmove : move = .next t .success) (hold : s.stage t = .acquiring wait)
      (hacquire : s.mutex.acquire t = some mutex) : Change s move t (.owning wait) mutex
  | own {wait : Bool} (hold : s.stage t = .owning wait) : Change s move t (.counting wait) { s.mutex with owner := t }
  | count {wait : Bool} (hold : s.stage t = .counting wait) :
      Change s move t .out { s.mutex with count := s.mutex.count + 1 }

/-- What a step of the system does to the mutex. -/
def Changes (s : System) (move : Move) (s' : System) : Prop :=
  s'.stage = s.stage ∧ s'.mutex = s.mutex ∨
    ∃ t stage, t ≠ 0 ∧ s'.stage = Function.update s.stage t stage ∧ Change s move t stage s'.mutex

/-- `NtWaitForSingleObject` is next. -/
def Stage.Asks : Stage → Prop
  | .acquiring _ => True
  | _ => False

/-- The thread that gets the mutant is not told that another one has left it behind. -/
def NoneGone (s : System) : Move → Prop
  | .next t status => (s.stage t).Asks → status ≠ .abandoned
  | _ => True

variable {s s' : System} {move : Move} {t : Nat}

theorem afterUnlock_atRest (wait : Bool) : (System.afterUnlock wait).AtRest := by
  cases wait with
  | false => trivial
  | true => trivial

/-- A thread goes on, and leaves the mutex. -/
theorem Changes.still (ht : t ≠ 0) (stage : Stage) (hold : (s.stage t).AtRest) (hnew : stage.AtRest)
    (hlock : ∀ wait, stage ≠ .acquiring wait) (hstages : s'.stage = Function.update s.stage t stage)
    (hmutex : s'.mutex = s.mutex) : Changes s move s' := by
  refine .inr ⟨t, stage, ht, hstages, hmutex ▸ ?_⟩
  exact .still hold hnew fun wait heq => absurd heq (hlock wait)

theorem changes_next (hzero : s.stage 0 = .out) {status : Status} {r : System × Option (Nat × Int)}
    (hgone : NoneGone s (.next t status)) (hstep : s.next t status = some r) : Changes s (.next t status) r.1 := by
  have hne : s.stage t ≠ .out → t ≠ 0 := by
    rintro hout rfl
    exact hout hzero
  rw [System.next] at hstep
  cases hstage : s.stage t with
  | out =>
    simp only [hstage] at hstep
    cases hstep
    exact .inl ⟨rfl, rfl⟩
  | released wait =>
    simp only [hstage] at hstep
    cases hstep
    exact .inr ⟨t, _, hne (by simp [hstage]), rfl, .discount hstage⟩
  | disowning wait =>
    simp only [hstage] at hstep
    cases hstep
    exact .inr ⟨t, _, hne (by simp [hstage]), rfl, .disown hstage⟩
  | entering =>
    simp only [hstage] at hstep
    obtain ⟨⟨c, index⟩, _, rfl⟩ := Option.map_eq_some_iff.mp hstep
    exact .inr ⟨t, _, hne (by simp [hstage]), rfl, .still (by simp [hstage, Stage.AtRest]) trivial (by simp)⟩
  | blocked index =>
    have hrest : (s.stage t).AtRest := by
      rw [hstage]
      trivial
    have ht := hne (by simp [hstage])
    simp only [hstage] at hstep
    cases status with
    | success =>
      simp only at hstep
      split at hstep
      · cases hstep
        exact .still ht (.locking true) hrest trivial (by simp) rfl rfl
      · cases hstep
        exact .inl ⟨rfl, rfl⟩
    | timeout =>
      cases hstep
      exact .still ht (.removing index) hrest trivial (by simp) rfl rfl
    | abandoned =>
      cases hstep
      exact .still ht .out hrest trivial (by simp) rfl rfl
    | other =>
      cases hstep
      exact .still ht .out hrest trivial (by simp) rfl rfl
  | removing index =>
    simp only [hstage] at hstep
    obtain ⟨c, _, rfl⟩ := Option.map_eq_some_iff.mp hstep
    exact .inr ⟨t, _, hne (by simp [hstage]), rfl, .still (by simp [hstage, Stage.AtRest]) trivial (by simp)⟩
  | locking wait =>
    simp only [hstage] at hstep
    split at hstep
    · cases hstep
      exact .inr ⟨t, _, hne (by simp [hstage]), rfl, .still (by simp [hstage, Stage.AtRest]) trivial (by simp)⟩
    · next hdead =>
      cases hstep
      refine .inr ⟨t, _, hne (by simp [hstage]), rfl, .still (by simp [hstage, Stage.AtRest]) trivial ?_⟩
      intro wait' _
      by_cases hrecursive : s.mutex.recursive = true
      · exact .inl hrecursive
      · right
        intro howner
        exact hdead ⟨by simpa using hrecursive, howner⟩
  | acquiring wait =>
    have hrest : (s.stage t).AtRest := by
      rw [hstage]
      trivial
    have ht := hne (by simp [hstage])
    simp only [hstage] at hstep
    cases status with
    | success =>
      simp only at hstep
      split at hstep
      · next mutex hacquire =>
        cases hstep
        exact .inr ⟨t, _, hne (by simp [hstage]), rfl, .acquire rfl hstage hacquire⟩
      · cases hstep
        exact .inl ⟨rfl, rfl⟩
    | abandoned =>
      refine absurd rfl (hgone ?_)
      rw [hstage]
      trivial
    | timeout =>
      cases hstep
      exact .still ht .out hrest trivial (by simp) rfl rfl
    | other =>
      cases hstep
      exact .still ht .out hrest trivial (by simp) rfl rfl
  | owning wait =>
    simp only [hstage] at hstep
    cases hstep
    exact .inr ⟨t, _, hne (by simp [hstage]), rfl, .own hstage⟩
  | counting wait =>
    simp only [hstage] at hstep
    cases hstep
    exact .inr ⟨t, _, hne (by simp [hstage]), rfl, .count hstage⟩
  | alerting id =>
    have hrest : (s.stage t).AtRest := by
      rw [hstage]
      trivial
    have ht := hne (by simp [hstage])
    simp only [hstage] at hstep
    cases status with
    | success =>
      cases hstep
      exact .still ht .out hrest trivial (by simp) rfl rfl
    | timeout =>
      cases hstep
      exact .still ht .out hrest trivial (by simp) rfl rfl
    | abandoned =>
      cases hstep
      exact .still ht .out hrest trivial (by simp) rfl rfl
    | other =>
      cases hstep
      exact .still ht .out hrest trivial (by simp) rfl rfl

theorem changes_unlock (hcalls : s.calls t = true) (wait : Bool) : Changes s move (s.unlock t wait) := by
  rw [System.unlock]
  split
  · next mutex hrelease =>
    exact .inr ⟨t, _, System.calls_ne hcalls, rfl, .release (System.calls_out hcalls) hrelease⟩
  · exact .inl ⟨rfl, rfl⟩

/-- Every step changes the mutex in one of these ways, or leaves it. -/
theorem systemStep_changes (hzero : s.stage 0 = .out) {r : System × Option (Nat × Int)}
    (hgone : NoneGone s move) (hstep : systemStep s move = some r) : Changes s move r.1 := by
  have hrest : ∀ {t : Nat}, s.calls t = true → (s.stage t).AtRest := by
    intro t hcalls
    rw [System.calls_out hcalls]
    trivial
  cases move with
  | lock t =>
    rw [systemStep] at hstep
    split at hstep
    · next hcalls =>
      cases hstep
      exact .still (System.calls_ne hcalls) (.locking false) (hrest hcalls) trivial (by simp) rfl rfl
    · cases hstep
      exact .inl ⟨rfl, rfl⟩
  | unlock t =>
    rw [systemStep] at hstep
    split at hstep
    · next hcalls =>
      cases hstep
      exact changes_unlock hcalls false
    · cases hstep
      exact .inl ⟨rfl, rfl⟩
  | wait t =>
    rw [systemStep] at hstep
    split at hstep
    · next hcalls =>
      cases hstep
      exact changes_unlock hcalls true
    · cases hstep
      exact .inl ⟨rfl, rfl⟩
  | signal t =>
    rw [systemStep] at hstep
    split at hstep
    · next hcalls =>
      obtain ⟨⟨c, id⟩, _, rfl⟩ := Option.map_eq_some_iff.mp hstep
      refine .still (System.calls_ne hcalls) (if id ≠ 0 then .alerting id else .out) (hrest hcalls) ?_ ?_ rfl rfl
      · split
        · trivial
        · trivial
      · intro wait
        split
        · simp
        · simp
    · cases hstep
      exact .inl ⟨rfl, rfl⟩
  | broadcast t =>
    rw [systemStep] at hstep
    split at hstep
    · obtain ⟨⟨c, ids⟩, _, rfl⟩ := Option.map_eq_some_iff.mp hstep
      exact .inl ⟨rfl, rfl⟩
    · cases hstep
      exact .inl ⟨rfl, rfl⟩
  | next t status => exact changes_next hzero hgone hstep

/-! ## The count -/

/-- What a thread has still to do to the count. -/
def Stage.owes : Stage → Int
  | .released _ => 1
  | .owning _ | .counting _ => -1
  | _ => 0

theorem Stage.AtRest.owes {stage : Stage} (h : stage.AtRest) : stage.owes = 0 := by
  cases stage with
  | released _ | disowning _ | owning _ | counting _ => exact h.elim
  | _ => rfl

/-- The count is what the mutant says, but for the threads that are on their way. Only so many threads are in a
call. -/
structure Balanced (s : System) : Prop where
  zero : s.stage 0 = .out
  deep : ∀ t depth, s.mutex.mutant = some (t, depth) → 1 ≤ depth
  count : ∃ T : Finset Nat, (∀ t ∉ T, s.stage t = .out) ∧ s.mutex.count = s.mutex.depth + ∑ t ∈ T, (s.stage t).owes

theorem balanced_init (recursive : Bool) (heap : Nat → Nat) : Balanced (System.init recursive heap) where
  zero := rfl
  deep := fun _ _ h => by cases h
  count := ⟨∅, fun _ _ => rfl, rfl⟩

theorem Mutex.release_depth {m m' : Mutex} (h : m.release t = some m')
    (hdeep : ∀ t depth, m.mutant = some (t, depth) → 1 ≤ depth) :
    m'.depth = m.depth - 1 ∧ m'.count = m.count ∧ ∀ t depth, m'.mutant = some (t, depth) → 1 ≤ depth := by
  rw [Mutex.release] at h
  split at h
  · next u depth hmutant =>
    have hpos := hdeep u depth hmutant
    split at h
    · next hu =>
      cases h
      by_cases hone : depth ≤ 1
      · refine ⟨?_, rfl, ?_⟩
        · simp only [Mutex.depth, hmutant, if_pos hone]
          omega
        · intro v d heq
          simp only [if_pos hone] at heq
          cases heq
      · refine ⟨?_, rfl, ?_⟩
        · simp only [Mutex.depth, hmutant, if_neg hone]
          omega
        · intro v d heq
          simp only [if_neg hone] at heq
          cases heq
          omega
    · cases h
  · cases h

theorem Mutex.acquire_depth {m m' : Mutex} (h : m.acquire t = some m') :
    m'.depth = m.depth + 1 ∧ m'.count = m.count ∧ ∀ u depth, m'.mutant = some (u, depth) → 1 ≤ depth := by
  rw [Mutex.acquire] at h
  split at h
  · next u depth hmutant =>
    split at h
    · cases h
      refine ⟨?_, rfl, ?_⟩
      · simp only [Mutex.depth, hmutant]
        omega
      · intro v d heq
        cases heq
        omega
    · cases h
  · next hmutant =>
    cases h
    refine ⟨?_, rfl, ?_⟩
    · simp only [Mutex.depth, hmutant]
      omega
    · intro v d heq
      cases heq
      omega

/-- What a thread does to the count and to the mutant, it owes no longer. -/
theorem Change.owes {stage : Stage} {mutex : Mutex} (h : Change s move t stage mutex)
    (hdeep : ∀ t depth, s.mutex.mutant = some (t, depth) → 1 ≤ depth) :
    mutex.count - mutex.depth - stage.owes = s.mutex.count - s.mutex.depth - (s.stage t).owes ∧
      ∀ t depth, mutex.mutant = some (t, depth) → 1 ≤ depth := by
  cases h with
  | still hold hnew _ =>
    rw [hold.owes, hnew.owes]
    exact ⟨rfl, hdeep⟩
  | release hold hrelease =>
    obtain ⟨hdepth, hcount, hdeep'⟩ := Mutex.release_depth hrelease hdeep
    refine ⟨?_, hdeep'⟩
    rw [hold, hdepth, hcount]
    simp only [Stage.owes]
    omega
  | discount hold =>
    refine ⟨?_, hdeep⟩
    have howes : ∀ wait,
        (if s.mutex.count - 1 = 0 then Stage.disowning wait else System.afterUnlock wait).owes = 0 := by
      intro wait
      split
      · rfl
      · exact (afterUnlock_atRest wait).owes
    rw [hold, howes]
    simp only [Stage.owes, Mutex.depth]
    omega
  | disown hold =>
    refine ⟨?_, hdeep⟩
    rw [hold, (afterUnlock_atRest _).owes]
    rfl
  | acquire hmove hold hacquire =>
    obtain ⟨hdepth, hcount, hdeep'⟩ := Mutex.acquire_depth hacquire
    refine ⟨?_, hdeep'⟩
    rw [hold, hdepth, hcount]
    simp only [Stage.owes]
    omega
  | own hold =>
    refine ⟨?_, hdeep⟩
    rw [hold]
    rfl
  | count hold =>
    refine ⟨?_, hdeep⟩
    rw [hold]
    simp only [Stage.owes, Mutex.depth]
    omega

/-- The sum over the threads, when one of them goes on. -/
theorem sum_owes_update {T : Finset Nat} (ht : t ∈ T) (stages : Nat → Stage) (stage : Stage) :
    ∑ u ∈ T, (Function.update stages t stage u).owes = ∑ u ∈ T, (stages u).owes + (stage.owes - (stages t).owes) := by
  rw [← Finset.add_sum_erase T _ ht, ← Finset.add_sum_erase T (fun u => (stages u).owes) ht, Function.update_self]
  have hothers : ∑ u ∈ T.erase t, (Function.update stages t stage u).owes = ∑ u ∈ T.erase t, (stages u).owes := by
    apply Finset.sum_congr rfl
    intro u hu
    rw [Function.update_of_ne (Finset.ne_of_mem_erase hu)]
  rw [hothers]
  omega

theorem Balanced.changes (h : Balanced s) (hchanges : Changes s move s') : Balanced s' := by
  rcases hchanges with ⟨hstages, hmutex⟩ | ⟨t, stage, ht, hstages, hchange⟩
  · refine ⟨?_, ?_, ?_⟩
    · rw [hstages]
      exact h.zero
    · rw [hmutex]
      exact h.deep
    · rw [hstages, hmutex]
      exact h.count
  · obtain ⟨howes, hdeep⟩ := hchange.owes h.deep
    obtain ⟨T, hout, hcount⟩ := h.count
    refine ⟨?_, hdeep, insert t T, ?_, ?_⟩
    · rw [hstages, Function.update_of_ne (Ne.symm ht)]
      exact h.zero
    · intro u hu
      rw [Finset.mem_insert, not_or] at hu
      rw [hstages, Function.update_of_ne hu.1]
      exact hout u hu.2
    · rw [hstages, sum_owes_update (Finset.mem_insert_self t T)]
      have hsum : ∑ u ∈ insert t T, (s.stage u).owes = ∑ u ∈ T, (s.stage u).owes := by
        by_cases htT : t ∈ T
        · rw [Finset.insert_eq_of_mem htT]
        · rw [Finset.sum_insert htT, hout t htT]
          exact zero_add _
      rw [hsum]
      omega

/-- **The count is balanced.** Along every run it is the depth of the mutant, but for what the threads that are on
their way still owe; when none is, it is the depth. -/
theorem count_balanced {recursive : Bool} {heap : Nat → Nat} {moves : List Move} {outs : List (Option (Nat × Int))}
    (h : systemMachine.Along NoneGone (System.init recursive heap) moves)
    (hrun : systemMachine.run (System.init recursive heap) moves = some (s, outs)) :
    (∃ T : Finset Nat, (∀ t ∉ T, s.stage t = .out) ∧
      s.mutex.count = s.mutex.depth + ∑ t ∈ T, (s.stage t).owes) ∧
    ((∀ t, (s.stage t).AtRest) → s.mutex.count = s.mutex.depth) := by
  have hbalanced : Balanced s := by
    refine h.keeps ?_ (balanced_init recursive heap) hrun
    intro s move s' out hinv hgone hstep
    exact hinv.changes (systemStep_changes hinv.zero hgone hstep)
  refine ⟨hbalanced.count, ?_⟩
  intro hrest
  obtain ⟨T, _, hcount⟩ := hbalanced.count
  rw [hcount, Finset.sum_eq_zero fun t _ => (hrest t).owes, add_zero]

instance : (stage : Stage) → Decidable stage.Asks
  | .acquiring _ => .isTrue trivial
  | .out | .released _ | .disowning _ | .entering | .blocked _ | .removing _ | .locking _ | .owning _ | .counting _
  | .alerting _ => .isFalse id

instance (s : System) : (move : Move) → Decidable (NoneGone s move)
  | .next _ _ => inferInstanceAs (Decidable (_ → _))
  | .lock _ | .unlock _ | .wait _ | .signal _ | .broadcast _ => .isTrue trivial

/-- Thread 8 has locked a mutex that thread 4 unlocks, and counts before it. -/
def halfUnlocked : List Move :=
  List.flatten [[Move.lock 4], steps 4 4, [Move.unlock 4, Move.lock 8], steps 8 3, steps 4 1, steps 8 1, steps 4 1]

theorem count_balanced_halfUnlocked :
    ∃ s outs, systemMachine.run (System.init false fun _ => 0) halfUnlocked = some (s, outs) ∧
      (∃ T : Finset Nat, (∀ t ∉ T, s.stage t = .out) ∧
        s.mutex.count = s.mutex.depth + ∑ t ∈ T, (s.stage t).owes) ∧
      ((∀ t, (s.stage t).AtRest) → s.mutex.count = s.mutex.depth) :=
  have hgone : systemMachine.Along NoneGone (System.init false fun _ => 0) halfUnlocked := by decide +kernel
  ⟨_, _, rfl, count_balanced hgone rfl⟩

/-! ## The owner -/

/-- The fields of a mutex that nobody is working at. -/
def Rest (m : Mutex) : Prop :=
  m.mutant = none ∧ m.count = 0 ∧ m.owner = 0 ∨
    ∃ u depth : Nat, m.mutant = some (u, depth + 1) ∧ m.count = depth + 1 ∧ m.owner = u

/-- Which fields go with the mutant while a thread is at a stage and the others are at rest. -/
def Fields (m : Mutex) (t : Nat) : Stage → Prop
  | .released _ => m.owner = t ∧ (m.mutant = none ∧ m.count = 1 ∨
      ∃ depth : Nat, m.mutant = some (t, depth + 1) ∧ m.count = depth + 2)
  | .disowning _ => m.owner = t ∧ m.mutant = none ∧ m.count = 0
  | .owning _ => ∃ depth : Nat, m.mutant = some (t, depth + 1) ∧ m.count = depth ∧ (m.owner = t ∨ m.owner = 0)
  | .counting _ => ∃ depth : Nat, m.mutant = some (t, depth + 1) ∧ m.count = depth ∧ m.owner = t
  | _ => Rest m

theorem Stage.AtRest.fields {stage : Stage} (h : stage.AtRest) {m : Mutex} : Fields m t stage ↔ Rest m := by
  cases stage with
  | released _ | disowning _ | owning _ | counting _ => exact h.elim
  | _ => exact Iff.rfl

/-- Only one thread is not at rest, and the fields are right but for what it still has to do. -/
structure Owned (s : System) : Prop where
  zero : s.stage 0 = .out
  fields : ∃ t, (∀ u, u ≠ t → (s.stage u).AtRest) ∧ Fields s.mutex t (s.stage t)

/-- A mutant that is free is only given to a thread when the fields have been cleared. -/
def GivenClear (s : System) : Move → Prop
  | .next t status => (s.stage t).Asks → status = .success → s.mutex.mutant = none →
      s.mutex.count = 0 ∧ s.mutex.owner = 0
  | _ => True

theorem owned_init (recursive : Bool) (heap : Nat → Nat) : Owned (System.init recursive heap) where
  zero := rfl
  fields := ⟨0, fun _ _ => trivial, .inl ⟨rfl, rfl, rfl⟩⟩

/-- A thread that is not at rest is the only one that can have the mutant. -/
theorem Fields.mutant {m : Mutex} {stage : Stage} (h : Fields m t stage) (hrest : ¬ stage.AtRest) {u depth : Nat}
    (hmutant : m.mutant = some (u, depth)) : u = t := by
  cases stage with
  | released wait =>
    obtain ⟨_, ⟨hnone, _⟩ | ⟨d, hsome, _⟩⟩ := h
    · cases hnone.symm.trans hmutant
    · cases hsome.symm.trans hmutant
      rfl
  | disowning wait => cases h.2.1.symm.trans hmutant
  | owning wait =>
    obtain ⟨d, hsome, _⟩ := h
    cases hsome.symm.trans hmutant
    rfl
  | counting wait =>
    obtain ⟨d, hsome, _⟩ := h
    cases hsome.symm.trans hmutant
    rfl
  | _ => exact absurd trivial hrest

/-- Seen from a thread at rest that has the mutant, everybody is at rest. -/
theorem Owned.rest_of_mutant (h : Owned s) (hrest : (s.stage t).AtRest) {depth : Nat}
    (hmutant : s.mutex.mutant = some (t, depth)) : (∀ u, (s.stage u).AtRest) ∧ Rest s.mutex := by
  obtain ⟨v, hothers, hfields⟩ := h.fields
  by_cases hv : (s.stage v).AtRest
  · refine ⟨fun u => ?_, hv.fields.mp hfields⟩
    by_cases hu : u = v
    · exact hu ▸ hv
    · exact hothers u hu
  · have htv := hfields.mutant hv hmutant
    exact absurd (htv ▸ hrest) hv

/-- Seen from a mutex whose fields are clear, everybody is at rest. -/
theorem Owned.rest_of_clear (h : Owned s) (hmutant : s.mutex.mutant = none) (hcount : s.mutex.count = 0)
    (howner : s.mutex.owner = 0) : ∀ u, (s.stage u).AtRest := by
  obtain ⟨v, hothers, hfields⟩ := h.fields
  have hv : (s.stage v).AtRest := by
    cases hstage : s.stage v with
    | released wait =>
      rw [hstage] at hfields
      obtain ⟨_, ⟨_, hone⟩ | ⟨d, hsome, _⟩⟩ := hfields
      · omega
      · cases hmutant.symm.trans hsome
    | disowning wait =>
      rw [hstage] at hfields
      have hzero : v = 0 := hfields.1.symm.trans howner
      rw [hzero, h.zero] at hstage
      cases hstage
    | owning wait =>
      rw [hstage] at hfields
      obtain ⟨d, hsome, _⟩ := hfields
      cases hmutant.symm.trans hsome
    | counting wait =>
      rw [hstage] at hfields
      obtain ⟨d, hsome, _⟩ := hfields
      cases hmutant.symm.trans hsome
    | _ => trivial
  intro u
  by_cases hu : u = v
  · exact hu ▸ hv
  · exact hothers u hu

/-- The thread that is not at rest. -/
theorem Owned.active (h : Owned s) (hrest : ¬ (s.stage t).AtRest) :
    (∀ u, u ≠ t → (s.stage u).AtRest) ∧ Fields s.mutex t (s.stage t) := by
  obtain ⟨v, hothers, hfields⟩ := h.fields
  by_cases htv : t = v
  · subst htv
    exact ⟨hothers, hfields⟩
  · exact absurd (hothers t htv) hrest

theorem Mutex.release_of {m m' : Mutex} (h : m.release t = some m') :
    ∃ depth, m.mutant = some (t, depth) ∧
      m' = { m with mutant := if depth ≤ 1 then none else some (t, depth - 1) } := by
  rw [Mutex.release] at h
  split at h
  · next u depth hmutant =>
    split at h
    · next hu =>
      subst hu
      exact ⟨depth, hmutant, (Option.some.inj h).symm⟩
    · cases h
  · cases h

theorem Mutex.acquire_of {m m' : Mutex} (h : m.acquire t = some m') :
    m.mutant = none ∧ m' = { m with mutant := some (t, 1) } ∨
      ∃ depth, m.mutant = some (t, depth) ∧ m' = { m with mutant := some (t, depth + 1) } := by
  rw [Mutex.acquire] at h
  split at h
  · next u depth hmutant =>
    split at h
    · next hu =>
      subst hu
      exact .inr ⟨depth, hmutant, (Option.some.inj h).symm⟩
    · cases h
  · next hmutant => exact .inl ⟨hmutant, (Option.some.inj h).symm⟩

/-- A mutex that is at rest, seen from a thread that has the mutant. -/
theorem Rest.of_mutant {m : Mutex} (h : Rest m) {depth : Nat} (hmutant : m.mutant = some (t, depth)) :
    m.owner = t ∧ m.count = depth ∧ 1 ≤ depth := by
  rcases h with ⟨hnone, _⟩ | ⟨u, d, hsome, hcount, howner⟩
  · cases hnone.symm.trans hmutant
  · cases hsome.symm.trans hmutant
    refine ⟨howner, ?_, by omega⟩
    rw [hcount]
    rfl

/-- A thread steps, and it is the one that is not at rest, before the step or behind it. -/
theorem fields_update {stage : Stage} {mutex : Mutex} (hothers : ∀ u, u ≠ t → (s.stage u).AtRest)
    (hfields : Fields mutex t stage) :
    ∃ v, (∀ u, u ≠ v → (Function.update s.stage t stage u).AtRest) ∧
      Fields mutex v (Function.update s.stage t stage v) := by
  refine ⟨t, fun u hu => ?_, ?_⟩
  · rw [Function.update_of_ne hu]
    exact hothers u hu
  · rw [Function.update_self]
    exact hfields

theorem Owned.change (h : Owned s) {stage : Stage} {mutex : Mutex} (hchange : Change s move t stage mutex)
    (hclear : GivenClear s move) :
    ∃ v, (∀ u, u ≠ v → (Function.update s.stage t stage u).AtRest) ∧
      Fields mutex v (Function.update s.stage t stage v) := by
  cases hchange with
  | still hold hnew _ =>
    obtain ⟨v, hothers, hfields⟩ := h.fields
    by_cases hv : v = t
    · subst hv
      exact fields_update hothers (hnew.fields.mpr (hold.fields.mp hfields))
    · refine ⟨v, fun u hu => ?_, ?_⟩
      · by_cases hut : u = t
        · subst hut
          rw [Function.update_self]
          exact hnew
        · rw [Function.update_of_ne hut]
          exact hothers u hu
      · rw [Function.update_of_ne hv]
        exact hfields
  | release hold hrelease =>
    obtain ⟨depth, hmutant, rfl⟩ := Mutex.release_of hrelease
    have hrest : (s.stage t).AtRest := by
      rw [hold]
      trivial
    obtain ⟨hothers, hfields⟩ := h.rest_of_mutant hrest hmutant
    obtain ⟨howner, hcount, hpos⟩ := hfields.of_mutant hmutant
    apply fields_update fun u _ => hothers u
    refine ⟨howner, ?_⟩
    by_cases hone : depth ≤ 1
    · left
      refine ⟨if_pos hone, ?_⟩
      change s.mutex.count = 1
      omega
    · right
      refine ⟨depth - 2, ?_, ?_⟩
      · change (if depth ≤ 1 then none else some (t, depth - 1)) = some (t, depth - 2 + 1)
        rw [if_neg hone]
        congr 2
        omega
      · change s.mutex.count = ((depth - 2 : Nat) : Int) + 2
        omega
  | discount hold =>
    obtain ⟨hothers, hfields⟩ := h.active (t := t) (by simp [hold, Stage.AtRest])
    rw [hold] at hfields
    obtain ⟨howner, ⟨hnone, hcount⟩ | ⟨depth, hsome, hcount⟩⟩ := hfields
    · rw [if_pos (by omega)]
      exact fields_update hothers ⟨howner, hnone, by simp [hcount]⟩
    · rw [if_neg (by omega)]
      refine fields_update hothers ((afterUnlock_atRest _).fields.mpr (.inr ⟨t, depth, hsome, ?_, howner⟩))
      change s.mutex.count - 1 = depth + 1
      omega
  | disown hold =>
    obtain ⟨hothers, hfields⟩ := h.active (t := t) (by simp [hold, Stage.AtRest])
    rw [hold] at hfields
    obtain ⟨_, hnone, hcount⟩ := hfields
    exact fields_update hothers ((afterUnlock_atRest _).fields.mpr (.inl ⟨hnone, hcount, rfl⟩))
  | acquire hmove hold hacquire =>
    have hrest : (s.stage t).AtRest := by
      rw [hold]
      trivial
    rcases Mutex.acquire_of hacquire with ⟨hnone, rfl⟩ | ⟨depth, hmutant, rfl⟩
    · subst hmove
      have hasks : (s.stage t).Asks := by
        rw [hold]
        trivial
      obtain ⟨hcount, howner⟩ := hclear hasks rfl hnone
      exact fields_update (fun u _ => h.rest_of_clear hnone hcount howner u) ⟨0, rfl, hcount, .inr howner⟩
    · obtain ⟨hothers, hfields⟩ := h.rest_of_mutant hrest hmutant
      obtain ⟨howner, hcount, _⟩ := hfields.of_mutant hmutant
      exact fields_update (fun u _ => hothers u) ⟨depth, rfl, hcount, .inl howner⟩
  | own hold =>
    obtain ⟨hothers, hfields⟩ := h.active (t := t) (by simp [hold, Stage.AtRest])
    rw [hold] at hfields
    obtain ⟨depth, hsome, hcount, _⟩ := hfields
    exact fields_update hothers ⟨depth, hsome, hcount, rfl⟩
  | count hold =>
    obtain ⟨hothers, hfields⟩ := h.active (t := t) (by simp [hold, Stage.AtRest])
    rw [hold] at hfields
    obtain ⟨depth, hsome, hcount, howner⟩ := hfields
    refine fields_update hothers (show Rest _ from .inr ⟨t, depth, hsome, ?_, howner⟩)
    change s.mutex.count + 1 = depth + 1
    omega

/-- A thread at rest is the owner if it has the mutant, and only then. -/
theorem Owned.owner_iff (h : Owned s) (hrest : (s.stage t).AtRest) (ht : t ≠ 0) :
    s.mutex.owner = t ↔ s.mutex.HeldBy t := by
  constructor
  · intro howner
    obtain ⟨v, hothers, hfields⟩ := h.fields
    have hne : ¬ (s.stage v).AtRest → v ≠ t := by
      rintro hv rfl
      exact hv hrest
    cases hstage : s.stage v with
    | released wait =>
      rw [hstage] at hfields
      exact absurd (hfields.1.symm.trans howner) (hne (by simp [hstage, Stage.AtRest]))
    | disowning wait =>
      rw [hstage] at hfields
      exact absurd (hfields.1.symm.trans howner) (hne (by simp [hstage, Stage.AtRest]))
    | owning wait =>
      rw [hstage] at hfields
      obtain ⟨depth, _, _, hv | hzero⟩ := hfields
      · exact absurd (hv.symm.trans howner) (hne (by simp [hstage, Stage.AtRest]))
      · exact absurd (howner.symm.trans hzero) ht
    | counting wait =>
      rw [hstage] at hfields
      obtain ⟨depth, _, _, hv⟩ := hfields
      exact absurd (hv.symm.trans howner) (hne (by simp [hstage, Stage.AtRest]))
    | _ =>
      rw [hstage] at hfields
      rcases hfields with ⟨_, _, hzero⟩ | ⟨u, depth, hsome, _, hu⟩
      · exact absurd (howner.symm.trans hzero) ht
      · exact ⟨depth + 1, (hu.symm.trans howner) ▸ hsome⟩
  · rintro ⟨depth, hmutant⟩
    exact ((h.rest_of_mutant hrest hmutant).2.of_mutant hmutant).1

/-- A mutex that is not recursive is locked once, and by no thread that asks for it. -/
def Single (s : System) : Prop :=
  s.mutex.recursive = false →
    (∀ t depth, s.mutex.mutant = some (t, depth) → depth = 1) ∧
    ∀ t wait, s.stage t = .acquiring wait → ¬ s.mutex.HeldBy t

theorem Single.change (h : Single s) (howned : Owned s) (ht : t ≠ 0) {stage : Stage} {mutex : Mutex}
    (hchange : Change s move t stage mutex) (hrecursive : mutex.recursive = false) :
    (∀ u depth, mutex.mutant = some (u, depth) → depth = 1) ∧
      ∀ u wait, Function.update s.stage t stage u = .acquiring wait → ¬ mutex.HeldBy u := by
  -- the other threads ask for the mutex as before, and have it as before
  have hkeep : ∀ {stage : Stage}, s.mutex.recursive = false → (∀ wait, stage ≠ .acquiring wait) →
      ∀ u wait, Function.update s.stage t stage u = .acquiring wait → ¬ s.mutex.HeldBy u := by
    intro stage hrecursive hne u wait hu
    by_cases hut : u = t
    · subst hut
      rw [Function.update_self] at hu
      exact absurd hu (hne wait)
    · rw [Function.update_of_ne hut] at hu
      exact (h hrecursive).2 u wait hu
  cases hchange with
  | still hold hnew hlock =>
    refine ⟨(h hrecursive).1, fun u wait hu => ?_⟩
    by_cases hut : u = t
    · subst hut
      rw [Function.update_self] at hu
      rcases hlock wait hu with htrue | howner
      · rw [hrecursive] at htrue
        cases htrue
      · exact fun hheld => howner ((howned.owner_iff hold ht).mpr hheld)
    · rw [Function.update_of_ne hut] at hu
      exact (h hrecursive).2 u wait hu
  | release hold hrelease =>
    obtain ⟨depth, hmutant, rfl⟩ := Mutex.release_of hrelease
    have hone : depth ≤ 1 := Nat.le_of_eq ((h hrecursive).1 t depth hmutant)
    constructor
    · intro u d heq
      simp only [if_pos hone] at heq
      cases heq
    · rintro u wait _ ⟨d, heq⟩
      simp only [if_pos hone] at heq
      cases heq
  | discount hold =>
    refine ⟨(h hrecursive).1, hkeep hrecursive fun wait => ?_⟩
    split
    · simp
    · next w _ =>
      cases w with
      | false => simp [System.afterUnlock]
      | true => simp [System.afterUnlock]
  | disown hold =>
    refine ⟨(h hrecursive).1, hkeep hrecursive fun wait => ?_⟩
    next w =>
    cases w with
    | false => simp [System.afterUnlock]
    | true => simp [System.afterUnlock]
  | acquire hmove hold hacquire =>
    rcases Mutex.acquire_of hacquire with ⟨_, rfl⟩ | ⟨depth, hmutant, rfl⟩
    · constructor
      · intro u d heq
        cases heq
        rfl
      · rintro u wait hu ⟨d, heq⟩
        cases heq
        rw [Function.update_self] at hu
        cases hu
    · exact absurd ⟨depth, hmutant⟩ ((h hrecursive).2 t _ hold)
  | own hold => exact ⟨(h hrecursive).1, hkeep hrecursive (by simp)⟩
  | count hold => exact ⟨(h hrecursive).1, hkeep hrecursive (by simp)⟩

theorem Owned.changes (h : Owned s) (hsingle : Single s) (hchanges : Changes s move s')
    (hclear : GivenClear s move) : Owned s' ∧ Single s' := by
  rcases hchanges with ⟨hstages, hmutex⟩ | ⟨t, stage, ht, hstages, hchange⟩
  · refine ⟨⟨?_, ?_⟩, ?_⟩
    · rw [hstages]
      exact h.zero
    · rw [hstages, hmutex]
      exact h.fields
    · rw [Single, hstages, hmutex]
      exact hsingle
  · refine ⟨⟨?_, ?_⟩, ?_⟩
    · rw [hstages, Function.update_of_ne (Ne.symm ht)]
      exact h.zero
    · rw [hstages]
      exact h.change hchange hclear
    · rw [Single, hstages]
      exact hsingle.change h ht hchange

/-- **The owner is right**, along every run in which a free mutant is only given to a thread when the fields have been
cleared: a thread that is about to lock is the owner if it has the mutex, and only then, and a mutex that is not
recursive is never locked twice. -/
theorem owner_exact {recursive : Bool} {heap : Nat → Nat} {moves : List Move} {outs : List (Option (Nat × Int))}
    (hgone : systemMachine.Along NoneGone (System.init recursive heap) moves)
    (hclear : systemMachine.Along GivenClear (System.init recursive heap) moves)
    (hrun : systemMachine.run (System.init recursive heap) moves = some (s, outs)) :
    (∀ t wait, s.stage t = .locking wait → (s.mutex.owner = t ↔ s.mutex.HeldBy t)) ∧
      (s.mutex.recursive = false → ∀ t depth, s.mutex.mutant = some (t, depth) → depth = 1) := by
  have hinit : Owned (System.init recursive heap) ∧ Single (System.init recursive heap) :=
    ⟨owned_init recursive heap, fun _ => ⟨fun _ _ h => (by cases h), fun _ _ h => (by cases h)⟩⟩
  have hinv : Owned s ∧ Single s := by
    refine (hgone.and hclear).keeps (I := fun s => Owned s ∧ Single s) ?_ hinit hrun
    rintro s move s' out ⟨howned, hsingle⟩ ⟨hgone, hclear⟩ hstep
    exact howned.changes hsingle (systemStep_changes howned.zero hgone hstep) hclear
  refine ⟨fun t wait hstage => ?_, fun hrecursive => (hinv.2 hrecursive).1⟩
  apply hinv.1.owner_iff
  · rw [hstage]
    trivial
  · rintro rfl
    rw [hinv.1.zero] at hstage
    cases hstage

instance (s : System) : (move : Move) → Decidable (GivenClear s move)
  | .next _ _ => inferInstanceAs (Decidable (_ → _))
  | .lock _ | .unlock _ | .wait _ | .signal _ | .broadcast _ => .isTrue trivial

theorem owner_exact_signalled :
    ∃ s outs, systemMachine.run (System.init false fun _ => 0) signalled = some (s, outs) ∧
      (∀ t wait, s.stage t = .locking wait → (s.mutex.owner = t ↔ s.mutex.HeldBy t)) ∧
      (s.mutex.recursive = false → ∀ t depth, s.mutex.mutant = some (t, depth) → depth = 1) :=
  have hgone : systemMachine.Along NoneGone (System.init false fun _ => 0) signalled := by decide +kernel
  have hclear : systemMachine.Along GivenClear (System.init false fun _ => 0) signalled := by decide +kernel
  ⟨_, _, rfl, owner_exact hgone hclear rfl⟩

/-- Behind `halfUnlocked`, thread 8 has the mutex and is not its owner, and is given it again. -/
theorem not_owner_exact :
    ∃ s outs, systemMachine.run (System.init false fun _ => 0) (halfUnlocked ++ .lock 8 :: steps 8 4) = some (s, outs) ∧
      s.mutex.recursive = false ∧ s.mutex.mutant = some (8, 2) :=
  ⟨_, _, rfl, rfl, rfl⟩

end WindowsLibc.Thread
