import Mathlib.Data.List.Basic
import Mathlib.Logic.Function.Basic
import WindowsLibc.Lib.Machine

/-!
# Read-write locks (`thread/rwlock.c`)

A slim reader-writer lock of the system, `ptr`, with a field `lock` beside it that says in which mode it has been
taken. The system wants to be told the mode when the lock is released, and does not check it. `lock` is written
behind the acquisition, read before the release, and cleared behind it if the lock is found free: each is a step of
its own, between which other threads may take theirs.

* `State` has the lock and the `Stage` of each thread, and who has taken the lock. Nothing reads the latter.
* `rwlock_safe`: a writer is alone, and no release is in the wrong mode or of a lock that is free, in every
  interleaving of threads that unlock what they have locked.
* `unlock_succeeds`: no unlock fails, unless a clearing of `lock` comes after the next acquisition.
-/

namespace WindowsLibc.Thread.RwLock

open WindowsLibc.Lib

inductive Mode where
  | shared
  | exclusive
deriving DecidableEq

/-- What `ptr` says. The system does not know who has the lock. -/
inductive Srw where
  /-- 0 -/
  | free
  /-- One thread has it, and so many others. -/
  | shared (others : Nat)
  | exclusive
deriving DecidableEq

/-- `RtlAcquireSRWLockShared`, `RtlAcquireSRWLockExclusive`; `none` if the lock cannot be had. -/
def Srw.acquire : Srw → Mode → Option Srw
  | .free, .shared => some (.shared 0)
  | .free, .exclusive => some .exclusive
  | .shared others, .shared => some (.shared (others + 1))
  | _, _ => none

/-- `RtlReleaseSRWLockShared`, `RtlReleaseSRWLockExclusive`; `none` if the lock is not held in this mode. -/
def Srw.release : Srw → Mode → Option Srw
  | .shared 0, .shared => some .free
  | .shared (others + 1), .shared => some (.shared others)
  | .exclusive, .exclusive => some .free
  | _, _ => none

/-- The field `lock`. -/
inductive LockStatus where
  /-- `RWLOCK_NOT_LOCKED` -/
  | notLocked
  /-- `RWLOCK_SHARED_LOCK` -/
  | shared
  /-- `RWLOCK_EXCLUSIVE_LOCK` -/
  | exclusive
  /-- `RWLOCK_DESTROYED` -/
  | destroyed
deriving DecidableEq

def Mode.status : Mode → LockStatus
  | .shared => .shared
  | .exclusive => .exclusive

/-- 0, or -1 with `errno`. -/
inductive Outcome where
  | ok
  | einval
  | ebusy
  | etimedout
  | eperm
deriving DecidableEq

/-- `rdlock` and `wrlock`, `tryrdlock` and `trywrlock`, or `timedrdlock` and `timedwrlock`. -/
inductive Patience where
  | forever
  | once
  | timed (duetime : Int)
deriving DecidableEq

/-- Where a thread is. -/
inductive Stage where
  | out
  | acquiring (mode : Mode) (patience : Patience)
  /-- `_mm_pause`, and the clock is next. -/
  | pausing (mode : Mode) (duetime : Int)
  /-- The lock is had, the field is next. -/
  | marking (mode : Mode)
  /-- In `wlibc_rwlock_unlock`: whether `ptr` is 0 is next. -/
  | testing
  /-- The `switch` is next. -/
  | reading
  | releasing (mode : Mode)
  /-- The lock is released. Whether `ptr` is 0 is next. -/
  | retesting
  /-- `ptr` was 0, the field is next. -/
  | clearing (outcome : Outcome)
  | destroying
deriving DecidableEq

structure State where
  srw : Srw
  lock : LockStatus
  stage : Nat → Stage
  /-- The threads that have the lock shared, as often as they have it. -/
  readers : List Nat
  writer : Option Nat

/-- Whether the lock is given to the thread that asks, if it can be had, what the clock says, and whether `ptr` is
not 0 for the threads that are queued for the lock, though nobody has it. -/
structure Answer where
  granted : Bool
  current : Int
  queued : Bool

/-- A thread calls a function, or takes its next step in one. -/
inductive Move where
  | lock (t : Nat) (mode : Mode) (patience : Patience)
  | unlock (t : Nat)
  | destroy (t : Nat)
  | next (t : Nat) (answer : Answer)

/-- `wlibc_rwlock_init` -/
def init : State := ⟨.free, .notLocked, fun _ => .out, [], none⟩

namespace State

def moveTo (s : State) (t : Nat) (stage : Stage) : State :=
  { s with stage := Function.update s.stage t stage }

def leave (s : State) (t : Nat) (outcome : Outcome) : State × Option (Nat × Outcome) :=
  (s.moveTo t .out, some (t, outcome))

def take (s : State) (t : Nat) : Mode → State
  | .shared => { s with readers := t :: s.readers }
  | .exclusive => { s with writer := some t }

def drop (s : State) (t : Nat) : Mode → State
  | .shared => { s with readers := s.readers.erase t }
  | .exclusive => { s with writer := none }

/-- A thread calls a function. `VALIDATE_RWLOCK` comes first. -/
def call (s : State) (t : Nat) (stage : Stage) : State × Option (Nat × Outcome) :=
  match s.stage t with
  | .out => if s.lock = .destroyed then s.leave t .einval else (s.moveTo t stage, none)
  | _ => (s, none)

/-- The lock cannot be had. -/
def refuse (s : State) (t : Nat) (mode : Mode) : Patience → State × Option (Nat × Outcome)
  | .forever => (s, none)
  | .once => s.leave t .ebusy
  | .timed duetime => (s.moveTo t (.pausing mode duetime), none)

/-- The next step of a thread. -/
def next (s : State) (t : Nat) (answer : Answer) : Option (State × Option (Nat × Outcome)) :=
  match s.stage t with
  | .out => some (s, none)
  | .acquiring mode patience =>
    if answer.granted then
      match s.srw.acquire mode with
      | some srw => some ({ (s.take t mode).moveTo t (.marking mode) with srw := srw }, none)
      | none => some (s.refuse t mode patience)
    else some (s.refuse t mode patience)
  | .pausing mode duetime =>
    if answer.current ≤ duetime then some (s.moveTo t (.acquiring mode (.timed duetime)), none)
    else some (s.leave t .etimedout)
  | .marking mode => some ({ s with lock := mode.status }.leave t .ok)
  | .testing =>
    some (s.moveTo t (if s.srw = .free ∧ answer.queued = false then .clearing .eperm else .reading), none)
  | .reading =>
    match s.lock with
    | .shared => some (s.moveTo t (.releasing .shared), none)
    | .exclusive => some (s.moveTo t (.releasing .exclusive), none)
    | _ => some (s.leave t .eperm)
  | .releasing mode =>
    (s.srw.release mode).map fun srw => ({ (s.drop t mode).moveTo t .retesting with srw := srw }, none)
  | .retesting =>
    if s.srw = .free ∧ answer.queued = false then some (s.moveTo t (.clearing .ok), none) else some (s.leave t .ok)
  | .clearing outcome => some ({ s with lock := .notLocked }.leave t outcome)
  | .destroying => some ({ s with lock := .destroyed }.leave t .ok)

end State

/-- One step; the output is a call that returns, with its result. A release of what is not held is a fault. -/
def step (s : State) : Move → Option (State × Option (Nat × Outcome))
  | .lock t mode patience => some (s.call t (.acquiring mode patience))
  | .unlock t => some (s.call t .testing)
  | .destroy t => some (s.call t .destroying)
  | .next t answer => s.next t answer

def machine : Machine State Move (Option (Nat × Outcome)) := ⟨step⟩

/-- The thread has the lock in this mode. -/
def Owns (s : State) (t : Nat) : Mode → Prop
  | .shared => t ∈ s.readers
  | .exclusive => s.writer = some t

/-- Nobody has the lock or is in a call, but for a `wlibc_rwlock_destroy`. -/
structure Quiet (s : State) : Prop where
  readers : s.readers = []
  writer : s.writer = none
  stage : ∀ t, s.stage t = .out ∨ s.stage t = .destroying

/-- What threads are asked for: they unlock what they have locked, and nobody uses a lock that is being
destroyed. -/
def Disciplined (s : State) : Move → Prop
  | .lock _ _ _ => ∀ u, s.stage u ≠ .destroying
  | .unlock t => ∃ mode, Owns s t mode
  | .destroy _ => Quiet s
  | .next _ _ => True

/-! ## Invariant -/

/-- What `ptr` says if these have the lock. -/
def srwOf : Option Nat → List Nat → Srw
  | some _, _ => .exclusive
  | none, [] => .free
  | none, _ :: others => .shared others.length

/-- Has the lock shared, and has written the field since it got it. -/
def SettledReader (s : State) (t : Nat) : Prop :=
  t ∈ s.readers ∧ (s.stage t ≠ .marking .shared ∨ 2 ≤ s.readers.count t)

def SettledWriter (s : State) (t : Nat) : Prop := s.writer = some t ∧ s.stage t ≠ .marking .exclusive

/-- `rwlock->lock = RWLOCK_NOT_LOCKED` is next. -/
def Stage.Clears : Stage → Prop
  | .clearing _ => True
  | _ => False

/-- The field is cleared, and a thread has the lock that has written the field before. -/
def ClearsLate (s : State) : Move → Prop
  | .next t _ => (s.stage t).Clears ∧ ∃ u, SettledReader s u ∨ SettledWriter s u
  | _ => False

/-- What a thread has of the lock, by where it is. -/
def StageOwns (s : State) (t : Nat) : Stage → Prop
  | .marking mode | .releasing mode => Owns s t mode
  | .testing | .reading => ∃ mode, Owns s t mode
  | .clearing outcome => outcome = .ok
  | _ => True

/-- The field says in which mode the lock is had, or has been cleared late. -/
structure Inv (late : Prop) (s : State) : Prop where
  srw : s.srw = srwOf s.writer s.readers
  alone : ∀ t, s.writer = some t → s.readers = []
  stage : ∀ t, StageOwns s t (s.stage t)
  reader : ∀ t, SettledReader s t → s.lock = .shared ∨ late ∧ s.lock = .notLocked
  writer : ∀ t, SettledWriter s t → s.lock = .exclusive ∨ late ∧ s.lock = .notLocked
  quiet : (s.lock = .destroyed ∨ ∃ t, s.stage t = .destroying) → Quiet s

theorem inv_init (late : Prop) : Inv late init where
  srw := rfl
  alone := fun _ _ => rfl
  stage := fun _ => trivial
  reader := by
    rintro t ⟨hmem, _⟩
    cases hmem
  writer := by
    rintro t ⟨howner, _⟩
    cases howner
  quiet := fun _ => ⟨rfl, rfl, fun _ => .inl rfl⟩

variable {late : Prop} {s s' : State} {t : Nat} {mode : Mode}

@[simp] theorem moveTo_stage_self (stage : Stage) : (s.moveTo t stage).stage t = stage :=
  Function.update_self ..

theorem moveTo_stage_of_ne (stage : Stage) {u : Nat} (hu : u ≠ t) : (s.moveTo t stage).stage u = s.stage u :=
  Function.update_of_ne hu ..

/-- While a thread is in a call other than `wlibc_rwlock_destroy`, the lock is not destroyed. -/
theorem Inv.in_use (h : Inv late s) (hout : s.stage t ≠ .out) (hdestroying : s.stage t ≠ .destroying) :
    s.lock ≠ .destroyed ∧ ∀ u, s.stage u ≠ .destroying := by
  have hquiet : ¬ Quiet s := by
    intro hquiet
    rcases hquiet.stage t with heq | heq
    · exact hout heq
    · exact hdestroying heq
  constructor
  · intro heq
    exact hquiet (h.quiet (.inl heq))
  · intro u heq
    exact hquiet (h.quiet (.inr ⟨u, heq⟩))

/-- Nobody has a lock that is free. -/
theorem Inv.not_owns_of_free (h : Inv late s) (hfree : s.srw = .free) : ¬ Owns s t mode := by
  have hsrw := h.srw
  rw [hfree] at hsrw
  cases hwriter : s.writer with
  | some u =>
    rw [hwriter] at hsrw
    cases hsrw
  | none =>
    cases hreaders : s.readers with
    | cons u others =>
      rw [hwriter, hreaders] at hsrw
      cases hsrw
    | nil =>
      intro howns
      cases mode with
      | shared =>
        rw [Owns, hreaders] at howns
        cases howns
      | exclusive =>
        rw [Owns, hwriter] at howns
        cases howns

/-- The field is the mode in which a thread has the lock, or has been cleared. -/
theorem Inv.status (h : Inv late s) (howns : Owns s t mode) (hstage : ∀ mode, s.stage t ≠ .marking mode) :
    s.lock = mode.status ∨ late ∧ s.lock = .notLocked := by
  cases mode with
  | shared => exact h.reader t ⟨howns, .inl (hstage .shared)⟩
  | exclusive => exact h.writer t ⟨howns, hstage .exclusive⟩

/-! ## Steps -/

theorem Quiet.moveTo (h : Quiet s) {stage : Stage} (hstage : stage = .out ∨ stage = .destroying) :
    Quiet (s.moveTo t stage) := by
  refine ⟨h.readers, h.writer, ?_⟩
  apply (Function.forall_update_iff s.stage fun _ stage => stage = .out ∨ stage = .destroying).mpr
  exact ⟨hstage, fun u _ => h.stage u⟩

/-- A thread that is not marking goes on, and has what its new place asks for. Nothing else changes. -/
theorem Inv.moveTo (h : Inv late s) {stage : Stage} (hold : ∀ mode, s.stage t ≠ .marking mode)
    (hstage : StageOwns s t stage)
    (hquiet : (s.lock = .destroyed ∨ ∃ u, (s.moveTo t stage).stage u = .destroying) → Quiet (s.moveTo t stage)) :
    Inv late (s.moveTo t stage) where
  srw := h.srw
  alone := h.alone
  stage := (Function.forall_update_iff s.stage (StageOwns s)).mpr ⟨hstage, fun u _ => h.stage u⟩
  reader := by
    rintro u ⟨hmem, hsettled⟩
    apply h.reader u
    refine ⟨hmem, ?_⟩
    by_cases hu : u = t
    · subst hu
      exact .inl (hold .shared)
    · rw [moveTo_stage_of_ne stage hu] at hsettled
      exact hsettled
  writer := by
    rintro u ⟨hwriter, hsettled⟩
    apply h.writer u
    refine ⟨hwriter, ?_⟩
    by_cases hu : u = t
    · subst hu
      exact hold .exclusive
    · rw [moveTo_stage_of_ne stage hu] at hsettled
      exact hsettled
  quiet := hquiet

/-- A thread that is in a call goes on in it, or returns. -/
theorem Inv.go_on (h : Inv late s) {stage : Stage} (hout : s.stage t ≠ .out) (hdestroying : s.stage t ≠ .destroying)
    (hold : ∀ mode, s.stage t ≠ .marking mode) (hstage : StageOwns s t stage) (hnew : stage ≠ .destroying) :
    Inv late (s.moveTo t stage) := by
  obtain ⟨hlock, hothers⟩ := h.in_use hout hdestroying
  apply h.moveTo hold hstage
  rintro (heq | ⟨u, hu⟩)
  · exact absurd heq hlock
  · by_cases hut : u = t
    · subst hut
      rw [moveTo_stage_self] at hu
      exact absurd hu hnew
    · rw [moveTo_stage_of_ne stage hut] at hu
      exact absurd hu (hothers u)

/-- A thread that is not in a call calls a function, and its discipline allows it. -/
theorem Inv.call (h : Inv late s) {stage : Stage} (hstage : StageOwns s t stage)
    (hquiet : stage = .destroying → Quiet s) (hothers : stage ≠ .destroying → ∀ u, s.stage u ≠ .destroying) :
    Inv late (s.call t stage).1 := by
  rw [State.call]
  split
  · next hout =>
    have hold : ∀ mode, s.stage t ≠ .marking mode := by
      intro mode heq
      rw [hout] at heq
      cases heq
    split
    · next hdestroyed => exact h.moveTo hold trivial fun _ => (h.quiet (.inl hdestroyed)).moveTo (.inl rfl)
    · next hlock =>
      apply h.moveTo hold hstage
      intro hdestroyed
      by_cases hdestroying : stage = .destroying
      · exact (hquiet hdestroying).moveTo (.inr hdestroying)
      · rcases hdestroyed with heq | ⟨u, hu⟩
        · exact absurd heq hlock
        · by_cases hut : u = t
          · subst hut
            rw [moveTo_stage_self] at hu
            exact absurd hu hdestroying
          · rw [moveTo_stage_of_ne stage hut] at hu
            exact absurd hu (hothers hdestroying u)
  · exact h

theorem srwOf_acquire_shared {writer : Option Nat} {readers : List Nat} {srw : Srw}
    (h : (srwOf writer readers).acquire .shared = some srw) (t : Nat) :
    writer = none ∧ srw = srwOf none (t :: readers) := by
  cases writer with
  | some u => cases h
  | none =>
    cases readers with
    | nil =>
      cases h
      exact ⟨rfl, rfl⟩
    | cons u others =>
      cases h
      exact ⟨rfl, rfl⟩

theorem srwOf_acquire_exclusive {writer : Option Nat} {readers : List Nat} {srw : Srw}
    (h : (srwOf writer readers).acquire .exclusive = some srw) :
    writer = none ∧ readers = [] ∧ srw = .exclusive := by
  cases writer with
  | some u => cases h
  | none =>
    cases readers with
    | nil =>
      cases h
      exact ⟨rfl, rfl, rfl⟩
    | cons u others => cases h

theorem srwOf_release_shared {readers : List Nat} (h : t ∈ readers) :
    (srwOf none readers).release .shared = some (srwOf none (readers.erase t)) := by
  have hlength := List.length_erase_of_mem h
  cases readers with
  | nil => cases h
  | cons u others =>
    rw [List.length_cons, Nat.add_sub_cancel] at hlength
    cases others with
    | nil =>
      rw [List.eq_nil_of_length_eq_zero hlength]
      rfl
    | cons v rest =>
      cases herase : (u :: v :: rest).erase t with
      | nil =>
        rw [herase] at hlength
        cases hlength
      | cons w rest' =>
        rw [herase, List.length_cons, List.length_cons] at hlength
        have heq : rest'.length = rest.length := by omega
        simp only [srwOf, List.length_cons, Srw.release, heq]

theorem StageOwns.mono (h : ∀ mode, Owns s t mode → Owns s' t mode) :
    ∀ {stage : Stage}, StageOwns s t stage → StageOwns s' t stage
  | .marking mode, howns | .releasing mode, howns => h mode howns
  | .testing, ⟨mode, howns⟩ | .reading, ⟨mode, howns⟩ => ⟨mode, h mode howns⟩
  | .clearing _, hok => hok
  | .out, _ | .acquiring _ _, _ | .pausing _ _, _ | .retesting, _ | .destroying, _ => trivial

/-- The rule for steps of a thread that change the lock: what the others have stays theirs. -/
theorem Inv.of_step (h : Inv late s) (t : Nat) (stage : Stage) (hout : s.stage t ≠ .out)
    (hdestroying : s.stage t ≠ .destroying) (hstages : s'.stage = Function.update s.stage t stage)
    (hsrw : s'.srw = srwOf s'.writer s'.readers)
    (halone : ∀ u, s'.writer = some u → s'.readers = [])
    (hothers : ∀ u, u ≠ t → ∀ mode, Owns s u mode → Owns s' u mode) (hself : StageOwns s' t stage)
    (hreader : ∀ u, SettledReader s' u → s'.lock = .shared ∨ late ∧ s'.lock = .notLocked)
    (hwriter : ∀ u, SettledWriter s' u → s'.lock = .exclusive ∨ late ∧ s'.lock = .notLocked)
    (hlock : s'.lock = .destroyed → s.lock = .destroyed) (hnew : stage ≠ .destroying) : Inv late s' := by
  obtain ⟨hused, hnone⟩ := h.in_use hout hdestroying
  refine ⟨hsrw, halone, ?_, hreader, hwriter, ?_⟩
  · rw [hstages]
    apply (Function.forall_update_iff s.stage (StageOwns s')).mpr
    exact ⟨hself, fun u hu => (h.stage u).mono (hothers u hu)⟩
  · have hnone' : ∀ u, s'.stage u ≠ .destroying := by
      rw [hstages]
      apply (Function.forall_update_iff s.stage fun _ stage => stage ≠ .destroying).mpr
      exact ⟨hnew, fun u _ => hnone u⟩
    rintro (heq | ⟨u, hu⟩)
    · exact absurd (hlock heq) hused
    · exact absurd hu (hnone' u)

/-- A settled reader among the others was one before. -/
theorem SettledReader.of_step {u : Nat} (h : SettledReader s' u) (t : Nat) (stage : Stage)
    (hstages : s'.stage = Function.update s.stage t stage) (hu : u ≠ t)
    (hcount : s'.readers.count u = s.readers.count u) : SettledReader s u := by
  obtain ⟨hmem, hsettled⟩ := h
  rw [hstages, Function.update_of_ne hu, hcount] at hsettled
  refine ⟨?_, hsettled⟩
  rw [← List.count_pos_iff] at hmem ⊢
  rw [← hcount]
  exact hmem

theorem SettledWriter.of_step {u : Nat} (h : SettledWriter s' u) (t : Nat) (stage : Stage)
    (hstages : s'.stage = Function.update s.stage t stage) (hu : u ≠ t) (hwriter : s'.writer = s.writer) :
    SettledWriter s u := by
  obtain ⟨howner, hsettled⟩ := h
  rw [hstages, Function.update_of_ne hu] at hsettled
  exact ⟨hwriter ▸ howner, hsettled⟩

/-- The lock is given to a thread. -/
theorem Inv.acquire (h : Inv late s) {patience : Patience} (hstage : s.stage t = .acquiring mode patience) {srw : Srw}
    (hacquire : s.srw.acquire mode = some srw) :
    Inv late { (s.take t mode).moveTo t (.marking mode) with srw := srw } := by
  have hout : s.stage t ≠ .out := by simp [hstage]
  have hdestroying : s.stage t ≠ .destroying := by simp [hstage]
  rw [h.srw] at hacquire
  cases mode with
  | shared =>
    obtain ⟨hnone, rfl⟩ := srwOf_acquire_shared hacquire t
    apply h.of_step t (.marking .shared) hout hdestroying rfl
    · change srwOf none (t :: s.readers) = srwOf s.writer (t :: s.readers)
      rw [hnone]
    · intro u hu
      exact absurd (hnone.symm.trans hu) (by simp)
    · intro u _ mode howns
      cases mode with
      | shared => exact List.mem_cons_of_mem t howns
      | exclusive => exact howns
    · exact List.mem_cons_self
    · intro u hu
      by_cases hut : u = t
      · subst hut
        obtain ⟨_, hmark | htwice⟩ := hu
        · exact absurd (moveTo_stage_self (s := s) (.marking .shared)) hmark
        · -- it had the lock already
          change 2 ≤ (u :: s.readers).count u at htwice
          rw [List.count_cons_self] at htwice
          apply h.reader u
          exact ⟨List.count_pos_iff.mp (by omega), .inl (by simp [hstage])⟩
      · exact h.reader u (hu.of_step t (.marking .shared) rfl hut (List.count_cons_of_ne (Ne.symm hut)))
    · intro u hu
      exact absurd (hnone.symm.trans hu.1) (by simp)
    · exact id
    · exact fun heq => by cases heq
  | exclusive =>
    obtain ⟨hnone, hreaders, rfl⟩ := srwOf_acquire_exclusive hacquire
    apply h.of_step t (.marking .exclusive) hout hdestroying rfl
    · rfl
    · exact fun _ _ => hreaders
    · intro u _ mode howns
      cases mode with
      | shared => exact howns
      | exclusive => exact absurd (hnone.symm.trans howns) (by simp)
    · exact rfl
    · rintro u ⟨hmem, _⟩
      change u ∈ s.readers at hmem
      rw [hreaders] at hmem
      cases hmem
    · rintro u ⟨howner, hmark⟩
      cases howner
      exact absurd (moveTo_stage_self (s := s) (.marking .exclusive)) hmark
    · exact id
    · exact fun heq => by cases heq

/-- The field is written behind an acquisition. -/
theorem Inv.mark (h : Inv late s) (hstage : s.stage t = .marking mode) :
    Inv late ({ s with lock := mode.status }.moveTo t .out) := by
  have howns := h.stage t
  rw [hstage] at howns
  apply h.of_step t .out (by simp [hstage]) (by simp [hstage]) rfl
  · exact h.srw
  · exact h.alone
  · exact fun _ _ _ howns => howns
  · trivial
  · rintro u ⟨hmem, _⟩
    cases mode with
    | shared => exact .inl rfl
    | exclusive =>
      change u ∈ s.readers at hmem
      rw [h.alone t howns] at hmem
      cases hmem
  · rintro u ⟨howner, _⟩
    cases mode with
    | shared =>
      change t ∈ s.readers at howns
      rw [h.alone u howner] at howns
      cases howns
    | exclusive => exact .inl rfl
  · intro heq
    cases mode with
    | shared => cases heq
    | exclusive => cases heq
  · exact fun heq => by cases heq

/-- A thread that has the lock in this mode can release it. -/
theorem Inv.release (h : Inv late s) (hstage : s.stage t = .releasing mode) :
    ∃ srw, s.srw.release mode = some srw ∧ Inv late { (s.drop t mode).moveTo t .retesting with srw := srw } := by
  have howns := h.stage t
  rw [hstage] at howns
  have hout : s.stage t ≠ .out := by simp [hstage]
  have hdestroying : s.stage t ≠ .destroying := by simp [hstage]
  cases mode with
  | shared =>
    have hnone : s.writer = none := by
      cases hwriter : s.writer with
      | none => rfl
      | some u =>
        change t ∈ s.readers at howns
        rw [h.alone u hwriter] at howns
        cases howns
    refine ⟨srwOf none (s.readers.erase t), ?_, ?_⟩
    · rw [h.srw, hnone]
      exact srwOf_release_shared howns
    · apply h.of_step t .retesting hout hdestroying rfl
      · change srwOf none (s.readers.erase t) = srwOf s.writer (s.readers.erase t)
        rw [hnone]
      · intro u hu
        exact absurd (hnone.symm.trans hu) (by simp)
      · intro u hu mode howns'
        cases mode with
        | shared => exact (List.mem_erase_of_ne hu).mpr howns'
        | exclusive => exact howns'
      · trivial
      · intro u hu
        by_cases hut : u = t
        · subst hut
          apply h.reader u
          exact ⟨howns, .inl (by simp [hstage])⟩
        · exact h.reader u (hu.of_step t .retesting rfl hut (List.count_erase_of_ne hut))
      · intro u hu
        exact absurd (hnone.symm.trans hu.1) (by simp)
      · exact id
      · exact fun heq => by cases heq
  | exclusive =>
    have hreaders := h.alone t howns
    refine ⟨.free, ?_, ?_⟩
    · rw [h.srw, show s.writer = some t from howns]
      rfl
    · apply h.of_step t .retesting hout hdestroying rfl
      · change Srw.free = srwOf none s.readers
        rw [hreaders]
        rfl
      · intro u hu
        cases hu
      · intro u hu mode howns'
        cases mode with
        | shared => exact howns'
        | exclusive => exact absurd (Option.some.inj (howns'.symm.trans howns)) hu
      · trivial
      · rintro u ⟨hmem, _⟩
        change u ∈ s.readers at hmem
        rw [hreaders] at hmem
        cases hmem
      · rintro u ⟨howner, _⟩
        cases howner
      · exact id
      · exact fun heq => by cases heq

/-- The field is cleared, early or late. -/
theorem Inv.clear (h : Inv late s) {outcome : Outcome} (hstage : s.stage t = .clearing outcome)
    (hlate : late ∨ ∀ u, ¬ SettledReader s u ∧ ¬ SettledWriter s u) :
    Inv late ({ s with lock := .notLocked }.moveTo t .out) := by
  apply h.of_step t .out (by simp [hstage]) (by simp [hstage]) rfl
  · exact h.srw
  · exact h.alone
  · exact fun _ _ _ howns => howns
  · trivial
  · intro u hu
    right
    refine ⟨?_, rfl⟩
    rcases hlate with hlate | hnone
    · exact hlate
    · by_cases hut : u = t
      · subst hut
        exact absurd ⟨hu.1, .inl (by simp [hstage])⟩ (hnone u).1
      · exact ((hnone u).1 (hu.of_step t .out rfl hut rfl)).elim
  · intro u hu
    right
    refine ⟨?_, rfl⟩
    rcases hlate with hlate | hnone
    · exact hlate
    · by_cases hut : u = t
      · subst hut
        exact absurd ⟨hu.1, by simp [hstage]⟩ (hnone u).2
      · exact ((hnone u).2 (hu.of_step t .out rfl hut rfl)).elim
  · exact fun heq => by cases heq
  · exact fun heq => by cases heq

theorem Inv.destroy (h : Inv late s) (hstage : s.stage t = .destroying) :
    Inv late ({ s with lock := .destroyed }.moveTo t .out) := by
  have hquiet : Quiet s := h.quiet (.inr ⟨t, hstage⟩)
  refine ⟨h.srw, h.alone, ?_, ?_, ?_, fun _ => ?_⟩
  · exact (Function.forall_update_iff s.stage (StageOwns s)).mpr ⟨trivial, fun u _ => h.stage u⟩
  · rintro u ⟨hmem, _⟩
    change u ∈ s.readers at hmem
    rw [hquiet.readers] at hmem
    cases hmem
  · rintro u ⟨howner, _⟩
    exact absurd (hquiet.writer.symm.trans howner) (by simp)
  · have hmoved := hquiet.moveTo (t := t) (.inl rfl : Stage.out = .out ∨ Stage.out = .destroying)
    exact ⟨hmoved.readers, hmoved.writer, hmoved.stage⟩

theorem Inv.refuse (h : Inv late s) {patience : Patience} (hstage : s.stage t = .acquiring mode patience) :
    Inv late (s.refuse t mode patience).1 := by
  have hgo : ∀ {stage : Stage}, StageOwns s t stage → stage ≠ .destroying → Inv late (s.moveTo t stage) := by
    intro stage hnew hne
    exact h.go_on (by simp [hstage]) (by simp [hstage]) (by simp [hstage]) hnew hne
  cases patience with
  | forever => exact h
  | once => exact hgo trivial fun heq => by cases heq
  | timed duetime => exact hgo trivial fun heq => by cases heq

/-- A thread takes its next step. No unlock fails before a late clearing. -/
theorem Inv.next (h : Inv late s) (answer : Answer) (hlate : late ∨ ¬ ClearsLate s (.next t answer)) :
    ∃ s' out, s.next t answer = some (s', out) ∧ Inv late s' ∧ ∀ u, out = some (u, .eperm) → late := by
  have howns := h.stage t
  rw [State.next]
  cases hstage : s.stage t with
  | out => exact ⟨_, _, rfl, h, by simp⟩
  | acquiring mode patience =>
    have hrefuse : ∀ u, (s.refuse t mode patience).2 = some (u, .eperm) → late := by
      intro u heq
      cases patience with
      | forever => cases heq
      | once => cases heq
      | timed duetime => cases heq
    simp only
    split
    · split
      · next srw hacquire => exact ⟨_, _, rfl, h.acquire hstage hacquire, by simp⟩
      · exact ⟨_, _, rfl, h.refuse hstage, hrefuse⟩
    · exact ⟨_, _, rfl, h.refuse hstage, hrefuse⟩
  | pausing mode duetime =>
    have hgo : ∀ {stage : Stage}, StageOwns s t stage → stage ≠ .destroying → Inv late (s.moveTo t stage) :=
      h.go_on (by simp [hstage]) (by simp [hstage]) (by simp [hstage])
    simp only
    split
    · exact ⟨_, _, rfl, hgo trivial (by simp), by simp⟩
    · exact ⟨_, _, rfl, hgo trivial (by simp), by simp⟩
  | marking mode => exact ⟨_, _, rfl, h.mark hstage, by simp⟩
  | testing =>
    rw [hstage] at howns
    obtain ⟨mode, howns⟩ := howns
    have htaken : ¬ (s.srw = .free ∧ answer.queued = false) := fun hzero => h.not_owns_of_free hzero.1 howns
    simp only [if_neg htaken]
    exact ⟨_, _, rfl, h.go_on (by simp [hstage]) (by simp [hstage]) (by simp [hstage]) ⟨mode, howns⟩ (by simp),
      by simp⟩
  | reading =>
    rw [hstage] at howns
    obtain ⟨mode, howns⟩ := howns
    have hgo : ∀ {stage : Stage}, StageOwns s t stage → stage ≠ .destroying → Inv late (s.moveTo t stage) :=
      h.go_on (by simp [hstage]) (by simp [hstage]) (by simp [hstage])
    rcases h.status howns (by simp [hstage]) with hlock | ⟨hlate, hlock⟩
    · refine ⟨s.moveTo t (.releasing mode), none, ?_, hgo howns (by simp), by simp⟩
      cases mode with
      | shared => simp only [hlock, Mode.status]
      | exclusive => simp only [hlock, Mode.status]
    · refine ⟨s.moveTo t .out, some (t, .eperm), ?_, hgo trivial (by simp), fun _ _ => hlate⟩
      simp only [hlock, State.leave]
  | releasing mode =>
    obtain ⟨srw, hrelease, hinv⟩ := h.release hstage
    refine ⟨_, none, ?_, hinv, by simp⟩
    simp only [hrelease, Option.map_some]
  | retesting =>
    have hgo : ∀ {stage : Stage}, StageOwns s t stage → stage ≠ .destroying → Inv late (s.moveTo t stage) :=
      h.go_on (by simp [hstage]) (by simp [hstage]) (by simp [hstage])
    simp only
    split
    · exact ⟨_, _, rfl, hgo rfl (by simp), by simp⟩
    · exact ⟨_, _, rfl, hgo trivial (by simp), by simp⟩
  | clearing outcome =>
    rw [hstage] at howns
    cases howns
    refine ⟨_, _, rfl, h.clear hstage ?_, by simp⟩
    rcases hlate with hlate | hlate
    · exact .inl hlate
    · have hclears : (s.stage t).Clears := by
        rw [hstage]
        trivial
      right
      intro u
      constructor
      · exact fun hu => hlate ⟨hclears, u, .inl hu⟩
      · exact fun hu => hlate ⟨hclears, u, .inr hu⟩
  | destroying => exact ⟨_, _, rfl, h.destroy hstage, by simp⟩

theorem call_eperm (s : State) (t : Nat) (stage : Stage) (u : Nat) (h : (s.call t stage).2 = some (u, .eperm)) :
    late := by
  rw [State.call] at h
  split at h
  · split at h
    · cases h
    · cases h
  · cases h

theorem Inv.step (h : Inv late s) {move : Move} (hmove : Disciplined s move) (hlate : late ∨ ¬ ClearsLate s move) :
    ∃ s' out, step s move = some (s', out) ∧ Inv late s' ∧ ∀ u, out = some (u, .eperm) → late := by
  cases move with
  | lock t mode patience =>
    exact ⟨_, _, rfl, h.call trivial (by simp) fun _ => hmove, call_eperm s t _⟩
  | unlock t =>
    refine ⟨_, _, rfl, h.call hmove (by simp) fun _ u hu => ?_, call_eperm s t _⟩
    obtain ⟨mode, howns⟩ := hmove
    have hquiet := h.quiet (.inr ⟨u, hu⟩)
    cases mode with
    | shared =>
      rw [Owns, hquiet.readers] at howns
      cases howns
    | exclusive =>
      rw [Owns, hquiet.writer] at howns
      cases howns
  | destroy t =>
    exact ⟨_, _, rfl, h.call trivial (fun _ => hmove) fun hne => absurd rfl hne,
      call_eperm s t _⟩
  | next t answer => exact h.next answer hlate

/-- What the discipline alone gives. -/
theorem Inv.run {moves : List Move} (h : Inv True s) (hmoves : machine.Along Disciplined s moves) :
    ∃ s' outs, machine.run s moves = some (s', outs) ∧ Inv True s' := by
  refine Machine.run_invariant (M := machine) ?_ moves h hmoves
  intro s move hinv hmove
  obtain ⟨s', out, hstep, hinv', _⟩ := hinv.step hmove (.inl trivial)
  exact ⟨s', out, hstep, hinv'⟩

/-! ## Threads that do not destroy the lock -/

/-- A thread unlocks what it has locked, and the lock is not destroyed. -/
def Keeps (s : State) : Move → Prop
  | .unlock t => t ∈ s.readers ∨ s.writer = some t
  | .destroy _ => False
  | _ => True

instance (s : State) : (move : Move) → Decidable (Keeps s move)
  | .unlock _ => inferInstanceAs (Decidable (_ ∨ _))
  | .destroy _ => .isFalse id
  | .lock _ _ _ | .next _ _ => .isTrue trivial

/-- No thread is in `wlibc_rwlock_destroy`. -/
def NoneDestroys (s : State) : Prop := ∀ u, s.stage u ≠ .destroying

theorem NoneDestroys.moveTo (h : NoneDestroys s) (t : Nat) {stage : Stage} (hstage : stage ≠ .destroying) :
    NoneDestroys (s.moveTo t stage) :=
  (Function.forall_update_iff s.stage fun _ stage => stage ≠ .destroying).mpr ⟨hstage, fun u _ => h u⟩

theorem NoneDestroys.call (h : NoneDestroys s) (t : Nat) {stage : Stage} (hstage : stage ≠ .destroying) :
    NoneDestroys (s.call t stage).1 := by
  rw [State.call]
  split
  · split
    · exact h.moveTo t (by simp)
    · exact h.moveTo t hstage
  · exact h

theorem NoneDestroys.refuse (h : NoneDestroys s) (t : Nat) (mode : Mode) (patience : Patience) :
    NoneDestroys (s.refuse t mode patience).1 := by
  cases patience with
  | forever => exact h
  | once => exact h.moveTo t (by simp)
  | timed duetime => exact h.moveTo t (by simp)

theorem NoneDestroys.take (h : NoneDestroys s) (t : Nat) (mode : Mode) (srw : Srw) :
    NoneDestroys { (s.take t mode).moveTo t (.marking mode) with srw := srw } := by
  cases mode with
  | shared => exact h.moveTo t (by simp)
  | exclusive => exact h.moveTo t (by simp)

theorem NoneDestroys.drop (h : NoneDestroys s) (t : Nat) (mode : Mode) (srw : Srw) :
    NoneDestroys { (s.drop t mode).moveTo t .retesting with srw := srw } := by
  cases mode with
  | shared => exact h.moveTo t (by simp)
  | exclusive => exact h.moveTo t (by simp)

theorem NoneDestroys.next (h : NoneDestroys s) {t : Nat} {answer : Answer} {r : State × Option (Nat × Outcome)}
    (hstep : s.next t answer = some r) : NoneDestroys r.1 := by
  rw [State.next] at hstep
  split at hstep
  · cases hstep
    exact h
  · split at hstep
    · split at hstep
      · cases hstep
        exact h.take t _ _
      · cases hstep
        exact h.refuse t _ _
    · cases hstep
      exact h.refuse t _ _
  · split at hstep
    · cases hstep
      exact h.moveTo t (by simp)
    · cases hstep
      exact h.moveTo t (by simp)
  · cases hstep
    exact h.moveTo t (by simp)
  · cases hstep
    apply h.moveTo t
    split
    · simp
    · simp
  · split at hstep
    · cases hstep
      exact h.moveTo t (by simp)
    · cases hstep
      exact h.moveTo t (by simp)
    · cases hstep
      exact h.moveTo t (by simp)
  · obtain ⟨srw, _, rfl⟩ := Option.map_eq_some_iff.mp hstep
    exact h.drop t _ srw
  · split at hstep
    · cases hstep
      exact h.moveTo t (by simp)
    · cases hstep
      exact h.moveTo t (by simp)
  · cases hstep
    exact h.moveTo t (by simp)
  · cases hstep
    exact h.moveTo t (by simp)

theorem NoneDestroys.step (h : NoneDestroys s) {move : Move} {r : State × Option (Nat × Outcome)}
    (hmove : Keeps s move) (hstep : step s move = some r) : NoneDestroys r.1 := by
  cases move with
  | lock t mode patience =>
    cases hstep
    exact h.call t (by simp)
  | unlock t =>
    cases hstep
    exact h.call t (by simp)
  | destroy t => exact hmove.elim
  | next t answer => exact h.next hstep

theorem along_disciplined (moves : List Move) (h : machine.Along Keeps init moves) :
    machine.Along Disciplined init moves := by
  refine Machine.along_of_along (I := NoneDestroys) ?_ moves ?_ h
  · intro s move hnone hmove
    constructor
    · cases move with
      | lock t mode patience => exact hnone
      | unlock t =>
        rcases hmove with hreader | hwriter
        · exact ⟨.shared, hreader⟩
        · exact ⟨.exclusive, hwriter⟩
      | destroy t => exact hmove.elim
      | next t answer => trivial
    · intro s' out hstep
      exact hnone.step hmove hstep
  · exact fun _ heq => by cases heq

/-! ## Safety -/

/-- **Mutual exclusion.** Whatever the interleaving, threads that unlock what they have locked release nothing
that they do not have in that mode, and a writer is alone. -/
theorem rwlock_safe (moves : List Move) (h : machine.Along Disciplined init moves) :
    ∃ s outs, machine.run init moves = some (s, outs) ∧
      (∀ t u, Owns s t .exclusive → ¬ Owns s u .shared ∧ (Owns s u .exclusive → u = t)) ∧
      ∀ t mode, s.stage t = .releasing mode → Owns s t mode := by
  obtain ⟨s, outs, hrun, hinv⟩ := (inv_init True).run h
  refine ⟨s, outs, hrun, ?_, ?_⟩
  · intro t u hwriter
    constructor
    · intro hreader
      rw [Owns, hinv.alone t hwriter] at hreader
      cases hreader
    · intro hother
      exact Option.some.inj (hother.symm.trans hwriter)
  · intro t mode hstage
    have howns := hinv.stage t
    rw [hstage] at howns
    exact howns

/-- A thread goes on so many steps, and is given what it asks for. -/
def goOn (t n : Nat) : List Move := List.replicate n (.next t ⟨true, 0, false⟩)

/-- Thread 1 has unlocked but for the field, and thread 2 has the lock exclusively. -/
def overtaken : List Move :=
  List.flatten [[.lock 1 .exclusive .forever], goOn 1 2, [.unlock 1], goOn 1 4, [.lock 2 .exclusive .forever],
    goOn 2 2]

theorem rwlock_safe_overtaken :
    ∃ s outs, machine.run init overtaken = some (s, outs) ∧
      (∀ t u, Owns s t .exclusive → ¬ Owns s u .shared ∧ (Owns s u .exclusive → u = t)) ∧
      ∀ t mode, s.stage t = .releasing mode → Owns s t mode :=
  rwlock_safe overtaken (along_disciplined _ (by decide +kernel))

/-! ## The field -/

/-- No call returns with `EPERM`. -/
def Permits (s : State) (move : Move) : Prop := ∀ s' out t, step s move = some (s', out) → out ≠ some (t, .eperm)

/-- **Unlocks succeed**, along every run in which the field is not cleared under a thread that has written it. -/
theorem unlock_succeeds (moves : List Move) (h : machine.Along Disciplined init moves)
    (hlate : machine.Along (fun s move => ¬ ClearsLate s move) init moves) : machine.Along Permits init moves := by
  refine Machine.along_of_along (I := Inv False) ?_ moves (inv_init False) (h.and hlate)
  rintro s move hinv ⟨hmove, hlate⟩
  obtain ⟨s₁, out₁, hstep₁, hinv₁, hperm⟩ := hinv.step hmove (.inr hlate)
  constructor
  · intro s' out t hstep heq
    cases hstep₁.symm.trans hstep
    exact hperm t heq
  · intro s' out hstep
    change step s move = some (s', out) at hstep
    cases hstep₁.symm.trans hstep
    exact hinv₁

theorem Stage.Clears.eq {stage : Stage} (h : stage.Clears) : ∃ outcome, stage = .clearing outcome := by
  cases stage with
  | clearing outcome => exact ⟨outcome, rfl⟩
  | _ => exact h.elim

instance : (stage : Stage) → Decidable stage.Clears
  | .clearing _ => .isTrue trivial
  | .out | .acquiring _ _ | .pausing _ _ | .marking _ | .testing | .reading | .releasing _ | .retesting
  | .destroying => .isFalse id

instance (s : State) : Decidable (∃ u, SettledReader s u ∨ SettledWriter s u) :=
  decidable_of_iff ((∃ u ∈ s.readers, s.stage u ≠ .marking .shared ∨ 2 ≤ s.readers.count u) ∨
      (∃ u ∈ s.writer.toList, s.stage u ≠ .marking .exclusive)) <| by
    simp only [Option.mem_toList]
    exact ⟨fun h => h.elim (fun ⟨u, hu⟩ => ⟨u, .inl hu⟩) (fun ⟨u, hu⟩ => ⟨u, .inr hu⟩),
      fun ⟨u, hu⟩ => hu.elim (fun hu => .inl ⟨u, hu⟩) (fun hu => .inr ⟨u, hu⟩)⟩

instance (s : State) : (move : Move) → Decidable (ClearsLate s move)
  | .next _ _ => inferInstanceAs (Decidable (_ ∧ _))
  | .lock _ _ _ | .unlock _ | .destroy _ => .isFalse id

/-- Two threads share the lock and unlock it, and a third has it behind them. -/
def shared : List Move :=
  List.flatten [[.lock 1 .shared .forever, .lock 2 .shared (.timed 0)], goOn 1 2, goOn 2 2,
    [.unlock 1, .unlock 2], goOn 1 3, goOn 2 5, goOn 1 2, [.lock 3 .exclusive .once], goOn 3 2, [.unlock 3], goOn 3 5]

theorem unlock_succeeds_shared : machine.Along Permits init shared :=
  unlock_succeeds shared (along_disciplined _ (by decide +kernel)) (by decide +kernel)

end WindowsLibc.Thread.RwLock
