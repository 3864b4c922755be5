import WindowsLibc.Thread.Cond

/-!
# Wake-ups

A waiter of `wlibc_cond_wait` releases the mutex, then puts itself into the queue, then blocks until it is
alerted, and takes the mutex again. Other threads call `wlibc_cond_signal` while they have the mutex.

* `Shared` has the mutex, the condition variable and where each thread is. `chosen`, `releasedAt` and
  `acquiredAt` are not there in the code: they say whom a signal has taken out of the queue and is yet to be
  woken, and when the mutex was released by a waiter and taken by a thread.
* `wakeup_iff`: a signal reaches a thread that waits exactly if it finds one in the queue and in its first slot.
  It may find none, since a waiter is in the queue only some time after it has released the mutex.
-/

namespace WindowsLibc.Thread

open WindowsLibc.Lib

/-- Where a thread is. -/
inductive Pc where
  | out
  /-- It has the mutex. -/
  | holding
  /-- In `wlibc_cond_wait`, the mutex is released. -/
  | released
  /-- It has put itself into the queue, and waits for an alert. -/
  | blocked
  /-- It has been woken, and wants the mutex again. -/
  | relock
  /-- In `wlibc_cond_signal` behind its section, with the mutex: it is to alert a thread. -/
  | alerting (id : Nat)
deriving DecidableEq

structure Shared where
  owner : Option Nat
  cond : Cond
  pc : Nat → Pc
  alerted : Nat → Bool
  chosen : Nat → Bool
  clock : Nat
  releasedAt : Nat → Nat
  acquiredAt : Nat → Nat

/-- The next step of a thread. -/
inductive Act where
  | lock (t : Nat)
  | unlock (t : Nat)
  /-- `wlibc_cond_wait` releases the mutex. -/
  | release (t : Nat)
  | enqueue (t : Nat)
  | signal (t : Nat)
  | alert (t : Nat)
  | wake (t : Nat)
  | relock (t : Nat)

namespace Shared

def move (s : Shared) (t : Nat) (pc : Pc) : Shared := { s with pc := Function.update s.pc t pc }

/-- Take the mutex. -/
def acquire (s : Shared) (t : Nat) : Shared :=
  { s.move t .holding with
    owner := some t
    clock := s.clock + 1
    acquiredAt := Function.update s.acquiredAt t s.clock }

/-- The section of a signal. -/
def choose (s : Shared) (t : Nat) (c : Cond) (id : Nat) : Shared × Option Nat :=
  if id = 0 then ({ s with cond := c }, none)
  else ({ s.move t (.alerting id) with cond := c, chosen := Function.update s.chosen id true }, some id)

end Shared

/-- One step; the output is the thread that a signal takes out of the queue. What a thread cannot do now does
nothing. -/
def sharedStep (s : Shared) : Act → Option (Shared × Option Nat)
  | .lock t =>
    if s.pc t = .out ∧ s.owner = none ∧ t ≠ 0 then some (s.acquire t, none) else some (s, none)
  | .unlock t =>
    if s.pc t = .holding then some ({ s.move t .out with owner := none }, none) else some (s, none)
  | .release t =>
    if s.pc t = .holding then
      some ({ s.move t .released with
        owner := none
        clock := s.clock + 1
        releasedAt := Function.update s.releasedAt t s.clock }, none)
    else some (s, none)
  | .enqueue t =>
    if s.pc t = .released then
      (s.cond.enqueue t).map fun r => ({ s.move t .blocked with cond := r.1 }, none)
    else some (s, none)
  | .signal t =>
    if s.pc t = .holding then s.cond.signal.map fun r => s.choose t r.1 r.2 else some (s, none)
  | .alert t =>
    match s.pc t with
    | .alerting id =>
      some ({ s.move t .holding with alerted := Function.update s.alerted id true }, none)
    | _ => some (s, none)
  | .wake t =>
    if s.pc t = .blocked ∧ s.alerted t = true then
      some ({ s.move t .relock with
        alerted := Function.update s.alerted t false
        chosen := Function.update s.chosen t false }, none)
    else some (s, none)
  | .relock t =>
    if s.pc t = .relock ∧ s.owner = none then some (s.acquire t, none) else some (s, none)

def sharedMachine : Machine Shared Act (Option Nat) := ⟨sharedStep⟩

def Shared.init (heap : Nat → Nat) : Shared :=
  ⟨none, condInit heap, fun _ => .out, fun _ => false, fun _ => false, 0, fun _ => 0, fun _ => 0⟩

/-- The thread has released the mutex in its wait, and no signal has chosen it. -/
def Waiting (s : Shared) (t : Nat) : Prop :=
  s.pc t = .released ∨ s.pc t = .blocked ∧ s.chosen t = false

/-- A signal of a thread that has taken the mutex behind the release of a waiter chooses a thread that waits,
and its alert finds the thread blocked and not alerted yet. -/
def Reaches (s : Shared) (act : Act) : Prop :=
  ∃ s' woken, sharedStep s act = some (s', woken) ∧
    (∀ t u, act = .signal t → s.pc t = .holding → Waiting s u → s.releasedAt u < s.acquiredAt t →
      ∃ v, woken = some v ∧ Waiting s v ∧ s'.pc t = .alerting v) ∧
    (∀ t v, act = .alert t → s.pc t = .alerting v →
      s'.pc v = .blocked ∧ s.alerted v = false ∧ s'.alerted v = true)

/-- A signal finds a thread in the queue if there is one that waits. -/
def Found (s : Shared) : Act → Prop
  | .signal t => s.pc t = .holding → (∃ u, Waiting s u) →
    s.cond.waitingThreads > 0 ∧ s.cond.load s.cond.queueBegin ≠ some 0
  | _ => True

/-! ## Invariant -/

/-- The queue: its indices, and what is in its first slot once it has been written. -/
structure SlotInv (s : Shared) : Prop where
  length : s.cond.ptr.length = 64
  size : s.cond.queueSize = 64
  queueBegin : s.cond.queueBegin = 0
  queueEnd : 0 ≤ s.cond.queueEnd ∧ s.cond.queueEnd ≤ 64
  slot : 0 < s.cond.waitingThreads ∨ s.cond.queueEnd ≠ 0 → ∃ id, s.cond.ptr[0]? = some id ∧
    (id ≠ 0 → s.pc id = .blocked ∧ s.chosen id = false)

/-- The threads. -/
structure PcInv (s : Shared) : Prop where
  owner : ∀ t, s.owner = some t ↔ s.pc t = .holding ∨ ∃ id, s.pc t = .alerting id
  zero : s.pc 0 = .out
  chosen : ∀ t, s.chosen t = true → s.pc t = .blocked
  alerted : ∀ t, s.alerted t = true → s.chosen t = true
  alerting : ∀ t id, s.pc t = .alerting id → s.chosen id = true ∧ s.alerted id = false
  times : ∀ u, s.pc u = .released ∨ s.pc u = .blocked → s.releasedAt u < s.clock ∧
    ∀ t, s.owner = some t → s.releasedAt u < s.acquiredAt t

theorem init_pcInv (heap : Nat → Nat) : PcInv (Shared.init heap) := by
  constructor <;> simp [Shared.init]

variable {s : Shared} {t : Nat}

/-- A thread takes the mutex. -/
theorem PcInv.acquire (h : PcInv s) (hpc : s.pc t = .out ∨ s.pc t = .relock) (howner : s.owner = none)
    (ht : t ≠ 0) : PcInv (s.acquire t) := by
  obtain ⟨howner', hzero, hchosen, halerted, halerting, htimes⟩ := h
  constructor <;> simp only [Shared.acquire, Shared.move, Function.update_apply] <;> grind

theorem PcInv.unlock (h : PcInv s) (hpc : s.pc t = .holding) :
    PcInv { s.move t .out with owner := none } := by
  obtain ⟨howner', hzero, hchosen, halerted, halerting, htimes⟩ := h
  constructor <;> simp only [Shared.move, Function.update_apply] <;> grind

theorem PcInv.release (h : PcInv s) (hpc : s.pc t = .holding) :
    PcInv { s.move t .released with
      owner := none
      clock := s.clock + 1
      releasedAt := Function.update s.releasedAt t s.clock } := by
  obtain ⟨howner', hzero, hchosen, halerted, halerting, htimes⟩ := h
  constructor <;> simp only [Shared.move, Function.update_apply] <;> grind

theorem PcInv.enqueue (h : PcInv s) (hpc : s.pc t = .released) (c : Cond) :
    PcInv { s.move t .blocked with cond := c } := by
  obtain ⟨howner', hzero, hchosen, halerted, halerting, htimes⟩ := h
  constructor <;> simp only [Shared.move, Function.update_apply] <;> grind

theorem PcInv.choose (h : PcInv s) (hpc : s.pc t = .holding) (c : Cond) {id : Nat}
    (hid : id ≠ 0 → s.pc id = .blocked ∧ s.chosen id = false) : PcInv (s.choose t c id).1 := by
  rw [Shared.choose]
  split
  · exact ⟨h.owner, h.zero, h.chosen, h.alerted, h.alerting, h.times⟩
  · next hne =>
    obtain ⟨hblocked, hnot⟩ := hid hne
    obtain ⟨howner', hzero, hchosen, halerted, halerting, htimes⟩ := h
    constructor <;> simp only [Shared.move, Function.update_apply] <;> grind

theorem PcInv.alert (h : PcInv s) {id : Nat} (hpc : s.pc t = .alerting id) :
    PcInv { s.move t .holding with alerted := Function.update s.alerted id true } := by
  obtain ⟨howner', hzero, hchosen, halerted, halerting, htimes⟩ := h
  constructor <;> simp only [Shared.move, Function.update_apply] <;> grind

theorem PcInv.wake (h : PcInv s) (hpc : s.pc t = .blocked) (halert : s.alerted t = true) :
    PcInv { s.move t .relock with
      alerted := Function.update s.alerted t false
      chosen := Function.update s.chosen t false } := by
  obtain ⟨howner', hzero, hchosen, halerted, halerting, htimes⟩ := h
  constructor <;> simp only [Shared.move, Function.update_apply] <;> grind

/-! ## The queue -/

theorem init_slotInv (heap : Nat → Nat) : SlotInv (Shared.init heap) := by
  constructor <;> simp [Shared.init, condInit]

/-- A step that leaves the queue and the blocked threads as they are. -/
theorem SlotInv.of_cond {s' : Shared} (h : SlotInv s) (hcond : s'.cond = s.cond)
    (hblocked : ∀ id, s.pc id = .blocked → s.chosen id = false →
      s'.pc id = .blocked ∧ s'.chosen id = false) : SlotInv s' := by
  refine ⟨by rw [hcond]; exact h.length, by rw [hcond]; exact h.size, by rw [hcond]; exact h.queueBegin,
    by rw [hcond]; exact h.queueEnd, fun hwritten => ?_⟩
  rw [hcond] at hwritten ⊢
  obtain ⟨id, hslot, hid⟩ := h.slot hwritten
  exact ⟨id, hslot, fun hne => hblocked id (hid hne).1 (hid hne).2⟩

theorem SlotInv.enqueue (h : SlotInv s) (hpc : s.pc t = .released) (hchosen : s.chosen t = false) :
    ∃ c index, s.cond.enqueue t = some (c, index) ∧ SlotInv { s.move t .blocked with cond := c } := by
  obtain ⟨k, hk, hkeq⟩ : ∃ k : Nat, k < 64 ∧
      (if s.cond.queueEnd = s.cond.queueSize then 0 else s.cond.queueEnd) = k := by
    have hsize := h.size
    obtain ⟨hge, hle⟩ := h.queueEnd
    split
    · exact ⟨0, by decide, rfl⟩
    · exact ⟨s.cond.queueEnd.toNat, by omega, by omega⟩
  have hlt : k < s.cond.ptr.length := by rw [h.length]; exact hk
  refine ⟨_, k, by rw [Cond.enqueue, hkeq, Cond.store_natCast hlt]; rfl, ?_⟩
  refine ⟨(List.length_set ..).trans h.length, h.size, h.queueBegin, by simp only; omega, fun _ => ?_⟩
  by_cases hzero : k = 0
  · subst hzero
    refine ⟨t, List.getElem?_set_self hlt, fun _ => ⟨?_, hchosen⟩⟩
    simp only [Shared.move, Function.update_self]
  · -- the first slot has been written before
    have hwritten : s.cond.queueEnd ≠ 0 := by
      rintro hend
      rw [hend] at hkeq
      split at hkeq <;> omega
    obtain ⟨id, hslot, hid⟩ := h.slot (.inr hwritten)
    refine ⟨id, by rw [List.getElem?_set_ne hzero]; exact hslot, fun hne => ⟨?_, (hid hne).2⟩⟩
    have hidt : id ≠ t := by
      rintro rfl
      rw [hpc] at hid
      cases (hid hne).1
    simp only [Shared.move, Function.update_of_ne hidt]
    exact (hid hne).1

/-- The section of a signal: what is in the first slot, if somebody waits. -/
theorem SlotInv.signal (h : SlotInv s) (t : Nat) :
    ∃ c id, s.cond.signal = some (c, id) ∧
      (id ≠ 0 ↔ s.cond.waitingThreads > 0 ∧ s.cond.load s.cond.queueBegin ≠ some 0) ∧
      (id ≠ 0 → s.pc id = .blocked ∧ s.chosen id = false) ∧ SlotInv (s.choose t c id).1 := by
  by_cases hpos : s.cond.waitingThreads > 0
  · obtain ⟨id, hslot, hid⟩ := h.slot (.inl hpos)
    have hlt : 0 < s.cond.ptr.length := by rw [h.length]; decide
    have hload : s.cond.load s.cond.queueBegin = some id := by
      rw [h.queueBegin]
      exact (Cond.load_natCast s.cond 0).trans hslot
    have hstore : s.cond.store s.cond.queueBegin 0 = some { s.cond with ptr := s.cond.ptr.set 0 0 } := by
      rw [h.queueBegin]
      exact Cond.store_natCast (i := 0) hlt
    -- the indices behind the section
    obtain ⟨queueEnd, hend, hsignal⟩ : ∃ queueEnd, (0 ≤ queueEnd ∧ queueEnd ≤ 64) ∧ s.cond.signal =
        some (⟨s.cond.ptr.set 0 0, s.cond.waitingThreads - 1, s.cond.queueSize, 0, queueEnd⟩, id) := by
      rw [Cond.signal, if_pos hpos, hload, hstore]
      simp only [Option.bind_eq_bind, Option.bind_some, h.queueBegin]
      split
      · exact ⟨0, by decide, rfl⟩
      · exact ⟨s.cond.queueEnd, h.queueEnd, rfl⟩
    refine ⟨_, id, hsignal, ?_, hid, ?_⟩
    · rw [hload]
      simp [hpos]
    · have hinv : ∀ s' : Shared, s'.cond =
          ⟨s.cond.ptr.set 0 0, s.cond.waitingThreads - 1, s.cond.queueSize, 0, queueEnd⟩ → SlotInv s' := by
        intro s' hcond
        refine ⟨?_, ?_, ?_, ?_, fun _ => ⟨0, ?_, fun hne => absurd rfl hne⟩⟩ <;> rw [hcond]
        · exact (List.length_set ..).trans h.length
        · exact h.size
        · exact hend
        · exact List.getElem?_set_self hlt
      rw [Shared.choose]
      split <;> exact hinv _ rfl
  · refine ⟨s.cond, 0, by rw [Cond.signal, if_neg hpos], ?_, fun hne => absurd rfl hne, ?_⟩
    · simp [hpos]
    · rw [Shared.choose, if_pos rfl]
      exact h.of_cond rfl fun id hblocked hchosen => ⟨hblocked, hchosen⟩

/-! ## Steps -/

/-- **One step** keeps the invariants, whatever it finds. -/
theorem sharedStep_inv (h : PcInv s) (hslot : SlotInv s) (act : Act) :
    ∃ s' woken, sharedStep s act = some (s', woken) ∧ PcInv s' ∧ SlotInv s' := by
  -- a thread that cannot do the step
  have hsame : sharedStep s act = some (s, none) →
      ∃ s' woken, sharedStep s act = some (s', woken) ∧ PcInv s' ∧ SlotInv s' :=
    fun hstep => ⟨s, none, hstep, h, hslot⟩
  have hmove : ∀ (s' : Shared) (t : Nat), s'.cond = s.cond → s'.chosen = s.chosen →
      s.pc t ≠ .blocked → (∀ id, id ≠ t → s'.pc id = s.pc id) → SlotInv s' := by
    intro s' t hcond hchosen hpc hother
    refine hslot.of_cond hcond fun id hblocked hnot => ⟨?_, by rw [hchosen]; exact hnot⟩
    rw [hother id (by rintro rfl; exact hpc hblocked)]
    exact hblocked
  cases act with
  | lock t =>
    by_cases hcan : s.pc t = .out ∧ s.owner = none ∧ t ≠ 0
    · refine ⟨_, _, if_pos hcan, h.acquire (.inl hcan.1) hcan.2.1 hcan.2.2, hmove _ t rfl rfl ?_ ?_⟩
      · rw [hcan.1]
        simp
      · exact fun id hne => Function.update_of_ne hne ..
    · exact hsame (if_neg hcan)
  | unlock t =>
    by_cases hcan : s.pc t = .holding
    · refine ⟨_, _, if_pos hcan, h.unlock hcan, hmove _ t rfl rfl ?_ ?_⟩
      · rw [hcan]
        simp
      · exact fun id hne => Function.update_of_ne hne ..
    · exact hsame (if_neg hcan)
  | release t =>
    by_cases hcan : s.pc t = .holding
    · refine ⟨_, _, if_pos hcan, h.release hcan, hmove _ t rfl rfl ?_ ?_⟩
      · rw [hcan]
        simp
      · exact fun id hne => Function.update_of_ne hne ..
    · exact hsame (if_neg hcan)
  | enqueue t =>
    by_cases hcan : s.pc t = .released
    · have hchosen : s.chosen t = false := by
        rw [Bool.eq_false_iff]
        intro hchosen
        cases hcan.symm.trans (h.chosen t hchosen)
      obtain ⟨c, index, hc, hslot'⟩ := hslot.enqueue hcan hchosen
      exact ⟨_, _, by rw [sharedStep, if_pos hcan, hc]; rfl, h.enqueue hcan c, hslot'⟩
    · exact hsame (if_neg hcan)
  | signal t =>
    by_cases hcan : s.pc t = .holding
    · obtain ⟨c, id, hc, -, hid, hslot'⟩ := hslot.signal t
      exact ⟨_, _, by rw [sharedStep, if_pos hcan, hc]; rfl, h.choose hcan c hid, hslot'⟩
    · exact hsame (if_neg hcan)
  | alert t =>
    cases hpc : s.pc t with
    | alerting id =>
      refine ⟨_, _, by rw [sharedStep, hpc], h.alert hpc, hmove _ t rfl rfl ?_ ?_⟩
      · rw [hpc]
        simp
      · exact fun id hne => Function.update_of_ne hne ..
    | _ => exact hsame (by simp only [sharedStep, hpc])
  | wake t =>
    by_cases hcan : s.pc t = .blocked ∧ s.alerted t = true
    · refine ⟨_, _, if_pos hcan, h.wake hcan.1 hcan.2, hslot.of_cond rfl fun id hblocked hnot => ?_⟩
      -- a thread that wakes has been chosen
      have hne : id ≠ t := by
        rintro rfl
        rw [h.alerted id hcan.2] at hnot
        cases hnot
      simp only [Shared.move, Function.update_of_ne hne]
      exact ⟨hblocked, hnot⟩
    · exact hsame (if_neg hcan)
  | relock t =>
    by_cases hcan : s.pc t = .relock ∧ s.owner = none
    · have hne : t ≠ 0 := by
        rintro rfl
        cases hcan.1.symm.trans h.zero
      refine ⟨_, _, if_pos hcan, h.acquire (.inr hcan.1) hcan.2 hne, hmove _ t rfl rfl ?_ ?_⟩
      · rw [hcan.1]
        simp
      · exact fun id hne => Function.update_of_ne hne ..
    · exact hsame (if_neg hcan)

/-- An alert finds its thread in the wait. -/
theorem PcInv.alert_reaches (h : PcInv s) {s' : Shared} {woken : Option Nat} {v : Nat}
    (hpc : s.pc t = .alerting v) (hstep : sharedStep s (.alert t) = some (s', woken)) :
    s'.pc v = .blocked ∧ s.alerted v = false ∧ s'.alerted v = true := by
  obtain ⟨hchosen, hnot⟩ := h.alerting t v hpc
  have hblocked := h.chosen v hchosen
  have hne : v ≠ t := by
    rintro rfl
    cases hpc.symm.trans hblocked
  rw [sharedStep, hpc] at hstep
  cases hstep
  simp only [Shared.move, Function.update_of_ne hne, Function.update_self]
  exact ⟨hblocked, hnot, trivial⟩

theorem reaches_iff (h : PcInv s) (hslot : SlotInv s) (act : Act) : Reaches s act ↔ Found s act := by
  obtain ⟨s', woken, hstep, -, -⟩ := sharedStep_inv h hslot act
  cases act with
  | signal t =>
    constructor
    · rintro ⟨s₁, woken₁, hstep₁, hsignal, -⟩ hpc ⟨u, hu⟩
      -- the waiter has released the mutex before the thread has taken it
      have htimes := (h.times u (hu.imp id And.left)).2 t ((h.owner t).mpr (.inl hpc))
      obtain ⟨v, hwoken, -, -⟩ := hsignal t u rfl hpc hu htimes
      obtain ⟨c, id, hc, hiff, -, -⟩ := hslot.signal t
      rw [sharedStep, if_pos hpc, hc] at hstep₁
      apply hiff.mp
      rintro rfl
      have hnone : woken₁ = none := (congrArg Prod.snd (Option.some.inj hstep₁)).symm
      rw [hnone] at hwoken
      cases hwoken
    · intro hfound
      refine ⟨s', woken, hstep, ?_, fun _ _ heq => by cases heq⟩
      rintro t' u ⟨⟩ hpc hu -
      obtain ⟨c, id, hc, hiff, hid, -⟩ := hslot.signal t
      have hne := hiff.mpr (hfound hpc ⟨u, hu⟩)
      rw [sharedStep, if_pos hpc, hc] at hstep
      have hchoose : s.choose t c id = (s', woken) := Option.some.inj hstep
      rw [Shared.choose, if_neg hne] at hchoose
      cases hchoose
      refine ⟨id, rfl, .inr (hid hne), ?_⟩
      simp only [Shared.move, Function.update_self]
  | alert t =>
    refine ⟨fun _ => trivial, fun _ => ⟨s', woken, hstep, (fun _ _ heq => by cases heq), ?_⟩⟩
    rintro t' v ⟨⟩ hpc
    exact h.alert_reaches hpc hstep
  | _ =>
    exact ⟨fun _ => trivial, fun _ => ⟨s', woken, hstep, (fun _ _ heq => by cases heq),
      (fun _ _ heq => by cases heq)⟩⟩

/-- **A signal reaches a thread that waits exactly if it finds one in the first slot.** -/
theorem wakeup_iff (heap : Nat → Nat) (acts : List Act) :
    sharedMachine.Along Reaches (Shared.init heap) acts ↔
      sharedMachine.Along Found (Shared.init heap) acts := by
  apply Machine.along_iff (I := fun s => PcInv s ∧ SlotInv s)
  · exact fun s act h => reaches_iff h.1 h.2 act
  · intro s act s' woken h _ hstep
    obtain ⟨s₁, woken₁, hstep₁, hinv⟩ := sharedStep_inv h.1 h.2 act
    cases hstep.symm.trans hstep₁
    exact hinv
  · exact ⟨init_pcInv heap, init_slotInv heap⟩

/-- A waiter has released the mutex and is not in the queue yet. -/
theorem not_wakeup : ¬ sharedMachine.Along Reaches (Shared.init fun _ => 0)
    [.lock 4, .release 4, .lock 8, .signal 8] := by
  intro h
  have hreaches := (h.2 _ _ rfl).2 _ _ rfl |>.2 _ _ rfl |>.1
  obtain ⟨s', woken, hstep, hsignal, -⟩ := hreaches
  cases hstep
  obtain ⟨v, hv, -⟩ := hsignal 8 4 rfl rfl (.inl rfl) (by decide)
  cases hv

end WindowsLibc.Thread
