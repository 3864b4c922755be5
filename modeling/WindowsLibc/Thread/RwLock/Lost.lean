import WindowsLibc.Thread.RwLock

/-!
# Read-write locks that are lost (`thread/rwlock.c`)

`wlibc_rwlock_unlock` clears the field behind its release, if it finds the lock free then. A writer may have taken
the lock and written the field between the two.

* `rwlock_lost`: the lock is this writer's from then on, for good.
-/

namespace WindowsLibc.Thread.RwLock

open WindowsLibc.Lib

variable {late : Prop} {s s' : State} {t : Nat} {mode : Mode}

/-- Not on the way out of a lock or an unlock. -/
def Stage.Before : Stage → Prop
  | .out | .acquiring _ _ | .pausing _ _ | .testing | .reading => True
  | _ => False

/-- A thread has the lock exclusively, and the field has been cleared under it. -/
structure Lost (t : Nat) (s : State) : Prop where
  writer : s.writer = some t
  lock : s.lock = .notLocked
  stage : (s.stage t).Before

/-- Nobody else has anything of the lock. -/
theorem Lost.owner (h : Lost t s) (hinv : Inv late s) {u : Nat} (howns : Owns s u mode) : u = t := by
  cases mode with
  | shared =>
    rw [Owns, hinv.alone t h.writer] at howns
    cases howns
  | exclusive => exact Option.some.inj (howns.symm.trans h.writer)

theorem Lost.moveTo (h : Lost t s) {u : Nat} {stage : Stage} (hstage : u = t → stage.Before) :
    Lost t (s.moveTo u stage) := by
  refine ⟨h.writer, h.lock, ?_⟩
  by_cases hu : u = t
  · subst hu
    rw [moveTo_stage_self]
    exact hstage rfl
  · rw [moveTo_stage_of_ne stage (Ne.symm hu)]
    exact h.stage

/-- The lock is lost, and the thread that has it was not told otherwise. -/
def LostAfter (t : Nat) (r : State × Option (Nat × Outcome)) : Prop := Lost t r.1 ∧ r.2 ≠ some (t, .ok)

theorem Lost.call (h : Lost t s) (u : Nat) {stage : Stage} (hstage : stage.Before) :
    LostAfter t (s.call u stage) := by
  rw [State.call]
  split
  · split
    · next hdestroyed =>
      rw [h.lock] at hdestroyed
      cases hdestroyed
    · exact ⟨h.moveTo fun _ => hstage, by simp⟩
  · exact ⟨h, by simp⟩

theorem Lost.refuse (h : Lost t s) (u : Nat) (mode : Mode) (patience : Patience) :
    LostAfter t (s.refuse u mode patience) := by
  cases patience with
  | forever => exact ⟨h, by simp [State.refuse]⟩
  | once => exact ⟨h.moveTo fun _ => trivial, by simp [State.refuse, State.leave]⟩
  | timed duetime => exact ⟨h.moveTo fun _ => trivial, by simp [State.refuse]⟩

theorem Lost.next (h : Lost t s) (hinv : Inv True s) {u : Nat} {answer : Answer}
    {r : State × Option (Nat × Outcome)} (hstep : s.next u answer = some r) : LostAfter t r := by
  have howns := hinv.stage u
  have hbefore := h.stage
  rw [State.next] at hstep
  cases hstage : s.stage u with
  | out =>
    simp only [hstage] at hstep
    cases hstep
    exact ⟨h, by simp⟩
  | acquiring mode patience =>
    have hnone : s.srw.acquire mode = none := by
      rw [hinv.srw, h.writer]
      cases mode with
      | shared => rfl
      | exclusive => rfl
    simp only [hstage, hnone, ite_self] at hstep
    cases hstep
    exact h.refuse u mode patience
  | pausing mode duetime =>
    simp only [hstage] at hstep
    split at hstep
    · cases hstep
      exact ⟨h.moveTo fun _ => trivial, by simp⟩
    · cases hstep
      exact ⟨h.moveTo fun _ => trivial, by simp [State.leave]⟩
  | marking mode =>
    rw [hstage] at howns
    rw [h.owner hinv howns] at hstage
    rw [hstage] at hbefore
    exact hbefore.elim
  | testing =>
    have htaken : ¬ (s.srw = .free ∧ answer.queued = false) := by
      rw [hinv.srw, h.writer]
      exact fun hzero => by cases hzero.1
    simp only [hstage, if_neg htaken] at hstep
    cases hstep
    exact ⟨h.moveTo fun _ => trivial, by simp⟩
  | reading =>
    simp only [hstage, h.lock] at hstep
    cases hstep
    exact ⟨h.moveTo fun _ => trivial, by simp [State.leave]⟩
  | releasing mode =>
    rw [hstage] at howns
    rw [h.owner hinv howns] at hstage
    rw [hstage] at hbefore
    exact hbefore.elim
  | retesting =>
    have hut : u ≠ t := by
      rintro rfl
      rw [hstage] at hbefore
      exact hbefore
    simp only [hstage] at hstep
    split at hstep
    · cases hstep
      exact ⟨h.moveTo fun heq => absurd heq hut, by simp⟩
    · cases hstep
      exact ⟨h.moveTo fun heq => absurd heq hut, by simp [State.leave, hut]⟩
  | clearing outcome =>
    have hut : u ≠ t := by
      rintro rfl
      rw [hstage] at hbefore
      exact hbefore
    simp only [hstage] at hstep
    cases hstep
    have hmoved := h.moveTo (u := u) (show u = t → Stage.out.Before from fun heq => absurd heq hut)
    exact ⟨⟨hmoved.writer, rfl, hmoved.stage⟩, by simp [State.leave, hut]⟩
  | destroying =>
    have hquiet := hinv.quiet (.inr ⟨u, hstage⟩)
    exact absurd (hquiet.writer.symm.trans h.writer) (by simp)

theorem Lost.step (h : Lost t s) (hinv : Inv True s) {move : Move}
    {r : State × Option (Nat × Outcome)} (hmove : Disciplined s move) (hstep : step s move = some r) :
    LostAfter t r := by
  cases move with
  | lock u mode patience =>
    cases hstep
    exact h.call u trivial
  | unlock u =>
    cases hstep
    exact h.call u trivial
  | destroy u => exact absurd (hmove.writer.symm.trans h.writer) (by simp)
  | next u answer => exact h.next hinv hstep

/-- A lost lock stays lost. -/
theorem Lost.run (h : Lost t s) (hinv : Inv True s) {moves : List Move} (hmoves : machine.Along Disciplined s moves) :
    ∃ s' outs, machine.run s moves = some (s', outs) ∧ Lost t s' ∧ Inv True s' ∧ some (t, .ok) ∉ outs := by
  induction moves generalizing s with
  | nil => exact ⟨s, [], rfl, h, hinv, by simp⟩
  | cons move moves ih =>
    obtain ⟨s₁, out, hstep, hinv₁, _⟩ := hinv.step hmoves.1 (.inl trivial)
    obtain ⟨hlost₁, hout⟩ := h.step hinv hmoves.1 hstep
    obtain ⟨s', outs, hrun, hlost', hinv', houts⟩ := ih hlost₁ hinv₁ (hmoves.2 s₁ out hstep)
    refine ⟨s', out :: outs, ?_, hlost', hinv', ?_⟩
    · rw [Machine.run_cons (show machine.step s move = some (s₁, out) from hstep), hrun]
      rfl
    · rw [List.mem_cons]
      rintro (heq | hmem)
      · exact hout heq.symm
      · exact houts hmem

/-- **A late clearing loses the lock.** If the field is cleared while a writer is in its critical section, the lock
stays the writer's whatever the threads do that unlock what they have and do not destroy a lock that somebody has,
and nothing that the writer calls on it succeeds again. -/
theorem rwlock_lost {moves rest : List Move} {t u : Nat} {answer : Answer}
    (h : machine.Along Disciplined init (moves ++ .next u answer :: rest))
    (hlate : ∀ s outs, machine.run init moves = some (s, outs) →
      s.writer = some t ∧ s.stage t = .out ∧ (s.stage u).Clears) :
    ∃ s outs, machine.run init (moves ++ .next u answer :: rest) = some (s, outs) ∧ s.srw = .exclusive ∧
      s.writer = some t ∧ some (t, .ok) ∉ outs.drop (moves.length + 1) := by
  have hmoves : machine.Along Disciplined init moves := by
    have htake := h.take moves.length
    rwa [List.take_left] at htake
  obtain ⟨s, outs, hrun, hinv⟩ := (inv_init True).run hmoves
  obtain ⟨hwriter, hout, hclears⟩ := hlate s outs hrun
  obtain ⟨outcome, hclearing⟩ := hclears.eq
  have hut : t ≠ u := by
    rintro rfl
    rw [hout] at hclearing
    cases hclearing
  obtain ⟨s', out, hstep, hinv', _⟩ := hinv.next (t := u) answer (.inl trivial)
  have hnext : machine.step s (.next u answer) = some (s', out) := hstep
  have hlost : Lost t s' := by
    rw [State.next, hclearing] at hstep
    cases hstep
    refine ⟨hwriter, rfl, ?_⟩
    change (Function.update s.stage u .out t).Before
    rw [Function.update_of_ne hut, hout]
    trivial
  have hrest := (Machine.along_cons hnext rest).mp (h.drop hrun)
  obtain ⟨s'', outs', hrun', hlost', hinv'', houts⟩ := hlost.run hinv' hrest.2
  refine ⟨s'', outs ++ out :: outs', ?_, ?_, hlost'.writer, ?_⟩
  · rw [Machine.run_append hrun, Machine.run_cons hnext, hrun']
    rfl
  · rw [hinv''.srw, hlost'.writer]
    rfl
  · have hlength : (outs ++ [out]).length = moves.length + 1 := by
      rw [List.length_append, Machine.length_run hrun, List.length_singleton]
    rw [List.append_cons, List.drop_left' hlength]
    exact houts

/-- Thread 2 unlocks, and thread 3 tries to lock. -/
def afterwards : List Move := List.flatten [[.unlock 2], goOn 2 2, [.lock 3 .shared .once], goOn 3 1]

theorem rwlock_lost_overtaken :
    ∃ s outs, machine.run init (overtaken ++ .next 1 ⟨true, 0, false⟩ :: afterwards) = some (s, outs) ∧
      s.srw = .exclusive ∧ s.writer = some 2 ∧ some (2, .ok) ∉ outs.drop (overtaken.length + 1) := by
  refine rwlock_lost (along_disciplined _ (by decide +kernel)) ?_
  intro s outs hrun
  cases hrun
  exact ⟨rfl, rfl, trivial⟩

end WindowsLibc.Thread.RwLock
