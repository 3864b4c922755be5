import WindowsLibc.Thread.Cond

/-!
# Waits and the mutex (`thread/cond.c`, `thread/mutex.c`)

A mutex is a mutant of the kernel with an owner and a count beside it, which are changed in steps of their own.
`wlibc_cond_common_wait` unlocks it, waits in the queue, and locks it again.

* `System` has the mutex, the condition variable and the `Stage` of each thread. Between any two steps of a
  thread the others may take steps. What the kernel answers is an input, `Status`.
* Of the ways out of a wait only one locks the mutex again: the others, for a timeout and for any other status,
  return without it.
* `WokenToLock` is what a wait needs: that it is woken and can lock the mutex. `Relock/Alerts` shows that who
  alerts a thread has then taken it out of the queue before, and `Relock/Returns` that it returns with the mutex.
-/

namespace WindowsLibc.Thread

open WindowsLibc.Lib

/-- `mutex_t`, with the mutant behind its handle: the thread that has it, and how often. -/
structure Mutex where
  /-- `WLIBC_MUTEX_RECURSIVE` -/
  recursive : Bool
  owner : Nat
  count : Int
  mutant : Option (Nat × Nat)

/-- `NtReleaseMutant`; `none` if the thread does not have the mutant. -/
def Mutex.release (m : Mutex) (t : Nat) : Option Mutex :=
  match m.mutant with
  | some (u, depth) =>
    if u = t then some { m with mutant := if depth ≤ 1 then none else some (t, depth - 1) } else none
  | none => none

/-- `NtWaitForSingleObject` comes back with the mutant; `none` if another thread has it. -/
def Mutex.acquire (m : Mutex) (t : Nat) : Option Mutex :=
  match m.mutant with
  | some (u, depth) => if u = t then some { m with mutant := some (t, depth + 1) } else none
  | none => some { m with mutant := some (t, 1) }

def Mutex.HeldBy (m : Mutex) (t : Nat) : Prop := ∃ depth, m.mutant = some (t, depth)

/-- What a system call answers. -/
inductive Status where
  | success
  | timeout
  /-- The thread that had the mutant is gone. The caller has it now. -/
  | abandoned
  | other
deriving DecidableEq

/-- Where a thread is. `wait` says that the mutex is unlocked or locked by a wait. -/
inductive Stage where
  | out
  /-- In `wlibc_mutex_unlock`: the mutant is released, the count is next. -/
  | released (wait : Bool)
  /-- The count has come to 0, the owner is next. -/
  | disowning (wait : Bool)
  /-- In `wlibc_cond_common_wait`: the queue is next. -/
  | entering
  | blocked (index : Int)
  /-- The wait has timed out. -/
  | removing (index : Int)
  /-- In `wlibc_mutex_common_lock`: the owner is next. -/
  | locking (wait : Bool)
  | acquiring (wait : Bool)
  | owning (wait : Bool)
  | counting (wait : Bool)
  /-- In `wlibc_cond_signal`, behind its section. -/
  | alerting (id : Nat)

structure System where
  mutex : Mutex
  cond : Cond
  stage : Nat → Stage
  alerted : Nat → Bool
  /-- The slots that have been written. The memory of the others is not cleared. -/
  written : Nat → Bool

/-- A thread calls a function, or takes its next step in one. -/
inductive Move where
  | lock (t : Nat)
  | unlock (t : Nat)
  | wait (t : Nat)
  | signal (t : Nat)
  | broadcast (t : Nat)
  | next (t : Nat) (status : Status)

namespace System

def moveTo (s : System) (t : Nat) (stage : Stage) : System :=
  { s with stage := Function.update s.stage t stage }

/-- What `wlibc_mutex_unlock` goes on to. -/
def afterUnlock (wait : Bool) : Stage := if wait then .entering else .out

/-- A function returns. For a wait, the result is an output. -/
def leave (s : System) (t : Nat) (wait : Bool) (result : Int) : System × Option (Nat × Int) :=
  (s.moveTo t .out, if wait then some (t, result) else none)

/-- A thread may call a function. The id of a thread is not 0. -/
def calls (s : System) (t : Nat) : Bool :=
  match s.stage t with
  | .out => t ≠ 0
  | _ => false

/-- `NtReleaseMutant`, and the error return if it fails. -/
def unlock (s : System) (t : Nat) (wait : Bool) : System :=
  match s.mutex.release t with
  | some mutex => { s.moveTo t (.released wait) with mutex := mutex }
  | none => s

/-- The next step of a thread. -/
def next (s : System) (t : Nat) (status : Status) : Option (System × Option (Nat × Int)) :=
  match s.stage t with
  | .out => some (s, none)
  | .released wait =>
    let count := s.mutex.count - 1
    let s := { s with mutex := { s.mutex with count := count } }
    some (s.moveTo t (if count = 0 then .disowning wait else afterUnlock wait), none)
  | .disowning wait =>
    some ({ s.moveTo t (afterUnlock wait) with mutex := { s.mutex with owner := 0 } }, none)
  | .entering =>
    (s.cond.enqueue t).map fun r =>
      ({ s.moveTo t (.blocked r.2) with
          cond := r.1
          written := fun i => s.written i || r.2 = (i : Int) }, none)
  | .blocked index =>
    match status with
    | .success =>
      if s.alerted t then
        some ({ s.moveTo t (.locking true) with alerted := Function.update s.alerted t false }, none)
      else some (s, none)
    | .timeout => some (s.moveTo t (.removing index), none)
    | _ => some (s.leave t true (-1))
  | .removing index =>
    (s.cond.remove index).map fun cond => { s with cond := cond }.leave t true (-1)
  | .locking wait =>
    -- EDEADLK
    if s.mutex.recursive = false ∧ s.mutex.owner = t then some (s.leave t wait (-1))
    else some (s.moveTo t (.acquiring wait), none)
  | .acquiring wait =>
    match status with
    | .success =>
      match s.mutex.acquire t with
      | some mutex => some ({ s.moveTo t (.owning wait) with mutex := mutex }, none)
      | none => some (s, none)
    | .abandoned =>
      match s.mutex.acquire t with
      | some mutex => some ({ s with mutex := mutex }.leave t wait (-1))
      | none => some (s, none)
    | _ => some (s.leave t wait (-1))
  | .owning wait =>
    some ({ s.moveTo t (.counting wait) with mutex := { s.mutex with owner := t } }, none)
  | .counting wait =>
    some ({ s with mutex := { s.mutex with count := s.mutex.count + 1 } }.leave t wait 0)
  | .alerting id =>
    match status with
    | .success => some ({ s.moveTo t .out with alerted := Function.update s.alerted id true }, none)
    | _ => some (s.moveTo t .out, none)

end System

/-- One step; the output is a wait that returns, with its result. The threads that a broadcast alerts come back
behind its section. -/
def systemStep (s : System) : Move → Option (System × Option (Nat × Int))
  | .lock t => if s.calls t then some (s.moveTo t (.locking false), none) else some (s, none)
  | .unlock t => if s.calls t then some (s.unlock t false, none) else some (s, none)
  | .wait t => if s.calls t then some (s.unlock t true, none) else some (s, none)
  | .signal t =>
    if s.calls t then
      s.cond.signal.map fun r =>
        ({ s.moveTo t (if r.2 ≠ 0 then .alerting r.2 else .out) with cond := r.1 }, none)
    else some (s, none)
  | .broadcast t =>
    if s.calls t then
      s.cond.broadcast.map fun r =>
        ({ s with cond := r.1, alerted := fun u => s.alerted u || u ∈ r.2 }, none)
    else some (s, none)
  | .next t status => s.next t status

def systemMachine : Machine System Move (Option (Nat × Int)) := ⟨systemStep⟩

def System.init (recursive : Bool) (heap : Nat → Nat) : System :=
  ⟨⟨recursive, 0, 0, none⟩, condInit heap, fun _ => .out, fun _ => false, fun _ => false⟩

/-- The thread is in the queue. -/
def InQueue (s : System) (t : Nat) : Prop :=
  ∃ i : Nat, s.written i = true ∧ s.cond.ptr[i]? = some t

/-- A wait that returns has the mutex, and is not in the queue any more. -/
def ReturnsHolding (s : System) (move : Move) : Prop :=
  ∀ s' t result, systemStep s move = some (s', some (t, result)) → s'.mutex.HeldBy t ∧ ¬ InQueue s' t

/-- The step that a thread takes next is one of a wait that is woken and finds that it can lock the mutex. -/
def StageFavours (s : System) (t : Nat) (status : Status) : Stage → Prop
  | .blocked _ => status = .success
  | .locking true => s.mutex.recursive = true ∨ s.mutex.owner ≠ t
  | .acquiring true => status = .success ∨ status = .abandoned
  | _ => True

def WokenToLock (s : System) : Move → Prop
  | .next t status => StageFavours s t status (s.stage t)
  | _ => True

/-! ## Slots -/

/-- A slot that has a thread had it before. -/
def Fewer (c c' : Cond) : Prop := ∀ (i t : Nat), t ≠ 0 → c'.ptr[i]? = some t → c.ptr[i]? = some t

theorem Fewer.refl (c : Cond) : Fewer c c := fun _ _ _ h => h

theorem Fewer.trans {c c' c'' : Cond} (h : Fewer c c') (h' : Fewer c' c'') : Fewer c c'' :=
  fun i t ht hslot => h i t ht (h' i t ht hslot)

theorem Cond.store_cases {c c' : Cond} {index : Int} {id : Nat} (h : c.store index id = some c') :
    0 ≤ index ∧ c' = { c with ptr := c.ptr.set index.toNat id } := by
  rw [Cond.store] at h
  split at h
  · next hin => exact ⟨hin.1, (Option.some.inj h).symm⟩
  · cases h

theorem fewer_store {c c' : Cond} {index : Int} (h : c.store index 0 = some c') : Fewer c c' := by
  obtain ⟨_, rfl⟩ := Cond.store_cases h
  intro i t ht hslot
  rw [List.getElem?_set] at hslot
  split at hslot
  · split at hslot
    · exact absurd (Option.some.inj hslot).symm ht
    · cases hslot
  · exact hslot

theorem fewer_signal {c c' : Cond} {id : Nat} (h : c.signal = some (c', id)) : Fewer c c' := by
  rw [Cond.signal] at h
  split at h
  · obtain ⟨_, _, h⟩ := Option.bind_eq_some_iff.mp h
    obtain ⟨c₁, hstore, h⟩ := Option.bind_eq_some_iff.mp h
    have hfewer := fewer_store hstore
    cases h
    intro i t ht hslot
    apply hfewer i t ht
    split at hslot
    · exact hslot
    · exact hslot
  · cases h
    exact Fewer.refl c

theorem fewer_advance (c : Cond) : Fewer c c.advance := by
  intro i t _ hslot
  rw [Cond.advance] at hslot
  split at hslot
  · exact hslot
  · exact hslot

theorem fewer_broadcastLoop (n : Nat) {c c' : Cond} {ids : List Nat}
    (h : c.broadcastLoop n = some (c', ids)) : Fewer c c' := by
  induction n generalizing c ids with
  | zero =>
    rw [Cond.broadcastLoop] at h
    split at h
    · cases h
      exact Fewer.refl _
    · cases h
  | succ n ih =>
    rw [Cond.broadcastLoop] at h
    split at h
    · cases h
      exact Fewer.refl _
    · obtain ⟨_, _, h⟩ := Option.bind_eq_some_iff.mp h
      obtain ⟨c₁, hstore, h⟩ := Option.bind_eq_some_iff.mp h
      obtain ⟨⟨c₂, ids₂⟩, hloop, h⟩ := Option.bind_eq_some_iff.mp h
      cases h
      exact (fewer_store hstore).trans ((fewer_advance c₁).trans (ih hloop))

theorem fewer_broadcast {c c' : Cond} {ids : List Nat} (h : c.broadcast = some (c', ids)) : Fewer c c' := by
  obtain ⟨⟨c₁, ids₁⟩, hloop, h⟩ := Option.bind_eq_some_iff.mp h
  cases h
  exact fun i t ht hslot => fewer_broadcastLoop _ hloop i t ht hslot

/-- A thread puts itself in, and nobody else. -/
theorem Cond.enqueue_cases {c c' : Cond} {id : Nat} {index : Int} (h : c.enqueue id = some (c', index)) :
    0 ≤ index ∧ c'.ptr = c.ptr.set index.toNat id := by
  obtain ⟨c₁, hstore, h⟩ := Option.bind_eq_some_iff.mp h
  obtain ⟨hindex, rfl⟩ := Cond.store_cases hstore
  cases h
  exact ⟨hindex, rfl⟩

end WindowsLibc.Thread
