import Mathlib.Data.List.Nodup
import Mathlib.Logic.Function.Basic
import WindowsLibc.Lib.Machine

/-!
# Condition variables (`thread/cond.c`)

A condition variable has an array of 64 thread ids with two indices and a count. The sections under the lock
of the queue are atomic.

* `Cond.enqueue`, `Cond.signal`, `Cond.broadcast` and `Cond.remove` are these sections. An access outside of
  the array is a fault, `none`, and so is a loop that does not come to its end.
* `World` puts the threads around it: who is in a wait, with which index, and who has been alerted. Its
  `waiting` is what the queue is for: the threads that have been put in and neither woken nor removed, in order.
* `wlibc_cond_signal` never advances `queue_begin`, and the end goes back to the beginning when the array is
  full. `queue_lawful`: the queue does what it is for along every run whose signals find a thread at the
  beginning, whose broadcasts find no holes, whose timeouts find their thread still in its place, and that does
  not go around while threads are waiting.
-/

namespace WindowsLibc.Thread

open WindowsLibc.Lib

/-- `cond_t` -/
structure Cond where
  ptr : List Nat
  waitingThreads : Int
  queueSize : Int
  queueBegin : Int
  queueEnd : Int

/-- `wlibc_cond_init`. The memory that the heap gives is not cleared. -/
def condInit (heap : Nat → Nat) : Cond := ⟨(List.range 64).map heap, 0, 64, 0, 0⟩

namespace Cond

/-- `cond->ptr[i]` -/
def load (c : Cond) (i : Int) : Option Nat := if 0 ≤ i then c.ptr[i.toNat]? else none

/-- `cond->ptr[i] = id` -/
def store (c : Cond) (i : Int) (id : Nat) : Option Cond :=
  if 0 ≤ i ∧ i < c.ptr.length then some { c with ptr := c.ptr.set i.toNat id } else none

/-- A waiter puts itself into the queue; the result is its `index`. -/
def enqueue (c : Cond) (id : Nat) : Option (Cond × Int) := do
  -- the temporary hack
  let index := if c.queueEnd = c.queueSize then 0 else c.queueEnd
  let c ← c.store index id
  return ({ c with queueEnd := index + 1, waitingThreads := c.waitingThreads + 1 }, index)

/-- The section of `wlibc_cond_signal`; the result is the thread to alert, or 0. -/
def signal (c : Cond) : Option (Cond × Nat) :=
  if c.waitingThreads > 0 then do
    let id ← c.load c.queueBegin
    let c ← c.store c.queueBegin 0
    let c := if c.queueBegin + 1 = c.queueEnd then { c with queueBegin := 0, queueEnd := 0 } else c
    return ({ c with waitingThreads := c.waitingThreads - 1 }, id)
  else some (c, 0)

/-- Go on to the next slot, or back to the first one. -/
def advance (c : Cond) : Cond :=
  let c := { c with queueBegin := c.queueBegin + 1, waitingThreads := c.waitingThreads - 1 }
  if c.queueBegin = c.queueSize then { c with queueBegin := 0 } else c

/-- The loop of `wlibc_cond_broadcast`, with so many rounds to go; the result are the threads that are
alerted. -/
def broadcastLoop : Nat → Cond → Option (Cond × List Nat)
  | 0, c => if c.waitingThreads = 0 then some (c, []) else none
  | n + 1, c =>
    if c.waitingThreads = 0 then some (c, [])
    else do
      let id ← c.load c.queueBegin
      let c ← c.store c.queueBegin 0
      let (c, ids) ← broadcastLoop n c.advance
      return (c, if id ≠ 0 then id :: ids else ids)

/-- The section of `wlibc_cond_broadcast`. The count goes down by one in each round, so that it never comes to 0
if it is negative. -/
def broadcast (c : Cond) : Option (Cond × List Nat) := do
  let (c, ids) ← broadcastLoop c.waitingThreads.toNat c
  return ({ c with queueBegin := 0, queueEnd := 0 }, ids)

/-- The section behind a timeout. -/
def remove (c : Cond) (index : Int) : Option Cond := do
  let c ← c.store index 0
  return { c with waitingThreads := c.waitingThreads - 1 }

end Cond

/-! ## Threads -/

structure World where
  cond : Cond
  /-- The `index` of a thread that is in a wait. -/
  index : Nat → Option Int
  alerted : Nat → Bool
  /-- The threads that have been put in and neither woken nor removed, in order. -/
  waiting : List Nat

inductive Input where
  | enqueue (id : Nat)
  | signal
  | broadcast
  /-- A wait has timed out. The thread may have been alerted in the meantime. -/
  | timeout (id : Nat)
  /-- A thread that has been alerted comes back from its wait. -/
  | leave (id : Nat)

/-- Threads are alerted. -/
def World.wake (w : World) (c : Cond) (ids : List Nat) : World × List Nat :=
  ({ w with cond := c, alerted := fun t => w.alerted t || t ∈ ids, waiting := w.waiting.diff ids }, ids)

/-- One section; the output are the threads it wakes. The id of a thread is not 0, and a thread that is in a
wait does not start another one. -/
def condStep (w : World) : Input → Option (World × List Nat)
  | .enqueue id =>
    if id ≠ 0 ∧ w.index id = none then
      (w.cond.enqueue id).map fun r =>
        ({ w with
            cond := r.1
            index := Function.update w.index id (some r.2)
            waiting := w.waiting ++ [id] }, [])
    else some (w, [])
  | .signal => w.cond.signal.map fun r => w.wake r.1 (if r.2 ≠ 0 then [r.2] else [])
  | .broadcast => w.cond.broadcast.map fun r => w.wake r.1 r.2
  | .timeout id =>
    match w.index id with
    | none => some (w, [])
    | some index =>
      (w.cond.remove index).map fun c =>
        ({ w with
            cond := c
            index := Function.update w.index id none
            waiting := w.waiting.erase id }, [])
  | .leave id =>
    if w.alerted id = true ∧ w.index id ≠ none then
      some ({ w with
        index := Function.update w.index id none
        alerted := Function.update w.alerted id false }, [])
    else some (w, [])

def condMachine : Machine World Input (List Nat) := ⟨condStep⟩

def World.init (heap : Nat → Nat) : World := ⟨condInit heap, fun _ => none, fun _ => false, []⟩

/-- The section does what it is for: it stays inside of the array and comes to its end, the count is that of
the threads that wait, a signal wakes the one that has waited longest and a broadcast all of them, and only
threads that wait are woken, once. -/
def LawfulSection (w : World) (input : Input) : Prop :=
  ∃ w' woken, condStep w input = some (w', woken) ∧
    w'.cond.waitingThreads = w'.waiting.length ∧
    (input = .signal → woken = w.waiting.take 1) ∧
    (input = .broadcast → woken.Perm w.waiting) ∧
    woken.Nodup ∧ ∀ id ∈ woken, id ∈ w.waiting

/-- What the section has to find. -/
def InPlace (w : World) : Input → Prop
  | .enqueue id => id ≠ 0 → w.index id = none →
    w.cond.queueEnd ≠ w.cond.queueSize ∨ w.cond.waitingThreads = 0
  | .signal => w.cond.waitingThreads > 0 → w.cond.load w.cond.queueBegin ≠ some 0
  | .broadcast => ∀ i < w.cond.waitingThreads.toNat, w.cond.load (w.cond.queueBegin + i) ≠ some 0
  | .timeout id => ∀ index ∈ w.index id, w.cond.load index = some id
  | .leave _ => True

instance (w : World) : (input : Input) → Decidable (InPlace w input)
  | .enqueue id => inferInstanceAs (Decidable (id ≠ 0 → w.index id = none →
    w.cond.queueEnd ≠ w.cond.queueSize ∨ w.cond.waitingThreads = 0))
  | .signal => inferInstanceAs (Decidable (w.cond.waitingThreads > 0 →
    w.cond.load w.cond.queueBegin ≠ some 0))
  | .broadcast => inferInstanceAs (Decidable (∀ i < w.cond.waitingThreads.toNat,
    w.cond.load (w.cond.queueBegin + (i : Nat)) ≠ some 0))
  | .timeout id => inferInstanceAs (Decidable (∀ index ∈ w.index id, w.cond.load index = some id))
  | .leave _ => inferInstanceAs (Decidable True)

/-! ## Slots -/

/-- The threads in the first slots. -/
def threadsIn (ptr : List Nat) (n : Nat) : List Nat := (ptr.take n).filter (· ≠ 0)

variable {ptr : List Nat} {n i : Nat}

theorem threadsIn_push {id : Nat} (hid : id ≠ 0) (hn : n < ptr.length) :
    threadsIn (ptr.set n id) (n + 1) = threadsIn ptr n ++ [id] := by
  have htake : (ptr.set n id).take (n + 1) = ptr.take n ++ [id] := by
    rw [List.take_succ_eq_append_getElem (by rw [List.length_set]; exact hn), List.getElem_set_self,
      List.take_set_of_le (Nat.le_refl n)]
  rw [threadsIn, htake, List.filter_append]
  simp [threadsIn, hid]

theorem mem_threadsIn {id : Nat} : id ∈ threadsIn ptr n ↔ id ≠ 0 ∧ ∃ i < n, ptr[i]? = some id := by
  rw [threadsIn, List.mem_filter, List.mem_iff_getElem?]
  constructor
  · rintro ⟨⟨i, hi⟩, hid⟩
    rw [List.getElem?_take] at hi
    split at hi
    · next hlt => exact ⟨of_decide_eq_true hid, i, hlt, hi⟩
    · cases hi
  · rintro ⟨hid, i, hlt, hi⟩
    exact ⟨⟨i, by rw [List.getElem?_take, if_pos hlt, hi]⟩, decide_eq_true hid⟩

/-- A slot is cleared. -/
theorem filter_clear {l : List Nat} {id : Nat} (hi : l[i]? = some id) (hid : id ≠ 0)
    (honly : ∀ j, l[j]? = some id → j = i) :
    (l.set i 0).filter (· ≠ 0) = (l.filter (· ≠ 0)).erase id := by
  obtain ⟨hlt, hget⟩ := List.getElem?_eq_some_iff.mp hi
  have hsplit : l.filter (· ≠ 0) = (l.take i).filter (· ≠ 0) ++ id :: (l.drop (i + 1)).filter (· ≠ 0) := by
    calc l.filter (· ≠ 0) = (l.take i ++ id :: l.drop (i + 1)).filter (· ≠ 0) := by
          rw [← hget, ← List.drop_eq_getElem_cons hlt, List.take_append_drop]
      _ = (l.take i).filter (· ≠ 0) ++ id :: (l.drop (i + 1)).filter (· ≠ 0) := by
          simp [hid]
  have hnot : id ∉ (l.take i).filter (· ≠ 0) := by
    intro hmem
    obtain ⟨j, hj⟩ := List.mem_iff_getElem?.mp (List.mem_of_mem_filter hmem)
    rw [List.getElem?_take] at hj
    split at hj
    · next hji =>
      have heq := honly j hj
      omega
    · cases hj
  rw [hsplit, List.erase_append_right _ hnot, List.erase_cons_head,
    List.set_eq_take_append_cons_drop, if_pos hlt]
  simp

theorem threadsIn_clear {id : Nat} (hn : i < n) (hi : ptr[i]? = some id) (hid : id ≠ 0)
    (honly : ∀ j < n, ptr[j]? = some id → j = i) :
    threadsIn (ptr.set i 0) n = (threadsIn ptr n).erase id := by
  rw [threadsIn, threadsIn, List.take_set]
  apply filter_clear
  · rw [List.getElem?_take, if_pos hn, hi]
  · exact hid
  · intro j hj
    rw [List.getElem?_take] at hj
    split at hj
    · next hlt => exact honly j hlt hj
    · cases hj

/-- Slots without holes. -/
theorem threadsIn_eq_take {k : Nat} (hk : (threadsIn ptr n).length = k) (hn : n ≤ ptr.length)
    (hfull : ∀ i < k, ptr[i]? ≠ some 0) : threadsIn ptr n = ptr.take k := by
  have hle : k ≤ n := by
    rw [← hk, threadsIn]
    exact Nat.le_trans (List.length_filter_le _ _) (List.length_take_le _ _)
  have hsplit : ptr.take n = ptr.take k ++ (ptr.take n).drop k := by
    rw [← List.take_append_drop k (ptr.take n), List.take_take, Nat.min_eq_left hle,
      List.drop_append_of_le_length (by simp; omega)]
    simp
  have hall : (ptr.take k).filter (· ≠ 0) = ptr.take k := by
    rw [List.filter_eq_self]
    intro id hid
    obtain ⟨j, hj⟩ := List.mem_iff_getElem?.mp hid
    rw [List.getElem?_take] at hj
    split at hj
    · next hjk =>
      rw [decide_eq_true_iff]
      rintro rfl
      exact hfull j hjk hj
    · cases hj
  have heq : threadsIn ptr n = ptr.take k ++ ((ptr.take n).drop k).filter (· ≠ 0) := by
    rw [threadsIn, hsplit, List.filter_append, hall, ← hsplit]
  rw [heq, List.length_append, List.length_take, Nat.min_eq_left (by omega)] at hk
  have hnil : ((ptr.take n).drop k).filter (· ≠ 0) = [] := List.length_eq_zero_iff.mp (by omega)
  rw [heq, hnil, List.append_nil]

theorem diff_self (l : List Nat) : l.diff l = [] := by
  induction l with
  | nil => rfl
  | cons id l ih => rw [List.diff_cons, List.erase_cons_head, ih]

/-! ## Sections -/

section

variable {c : Cond}

theorem Cond.load_natCast (c : Cond) (i : Nat) : c.load i = c.ptr[i]? := by
  rw [Cond.load, if_pos (Int.natCast_nonneg i), Int.toNat_natCast]

theorem Cond.load_eq_some {index : Int} {id : Nat} :
    c.load index = some id ↔ ∃ i : Nat, index = i ∧ c.ptr[i]? = some id := by
  constructor
  · intro h
    rw [Cond.load] at h
    split at h
    · next hnonneg => exact ⟨index.toNat, by omega, h⟩
    · cases h
  · rintro ⟨i, rfl, h⟩
    rw [Cond.load_natCast, h]

theorem Cond.store_natCast {id : Nat} (h : i < c.ptr.length) :
    c.store i id = some { c with ptr := c.ptr.set i id } := by
  rw [Cond.store, if_pos ⟨Int.natCast_nonneg i, by omega⟩, Int.toNat_natCast]

theorem Cond.advance_spec {b k : Nat} (hsize : c.queueSize = 64) (hbegin : c.queueBegin = b)
    (hwaiting : c.waitingThreads = k + 1) :
    c.advance.ptr = c.ptr ∧ c.advance.queueSize = 64 ∧ c.advance.waitingThreads = k ∧
      c.advance.queueBegin = (if b + 1 = 64 then 0 else b + 1 : Nat) := by
  rw [Cond.advance]
  split
  · next h =>
    rw [if_pos (by simp only [hbegin, hsize] at h; omega)]
    exact ⟨rfl, hsize, by simp only [hwaiting]; omega, rfl⟩
  · next h =>
    rw [if_neg (by simp only [hbegin, hsize] at h; omega)]
    exact ⟨rfl, hsize, by simp only [hwaiting]; omega, by simp only [hbegin]; omega⟩

/-- The loop of a broadcast, over slots without holes. -/
theorem Cond.broadcastLoop_spec (k : Nat) {c : Cond} {b : Nat} (hlength : c.ptr.length = 64)
    (hsize : c.queueSize = 64) (hbegin : c.queueBegin = b) (hwaiting : c.waitingThreads = k)
    (hle : b + k ≤ 64) (hfull : ∀ j < k, c.ptr[b + j]? ≠ some 0) :
    ∃ c', c.broadcastLoop k = some (c', (c.ptr.drop b).take k) ∧ c'.ptr.length = 64 ∧
      c'.queueSize = 64 ∧ c'.waitingThreads = 0 ∧
      ∀ j id, c'.ptr[j]? = some id → id ≠ 0 → (j < b ∨ b + k ≤ j) ∧ c.ptr[j]? = some id := by
  induction k generalizing c b with
  | zero =>
    refine ⟨c, ?_, hlength, hsize, hwaiting, fun j id hj _ => ⟨by omega, hj⟩⟩
    have hzero : c.waitingThreads = 0 := hwaiting
    rw [Cond.broadcastLoop, if_pos hzero, List.take_zero]
  | succ k ih =>
    have hb : b < c.ptr.length := by omega
    have hne : c.ptr[b] ≠ 0 := by
      have hslot := hfull 0 (Nat.succ_pos k)
      rw [Nat.add_zero, List.getElem?_eq_getElem hb] at hslot
      exact fun h => hslot (by rw [h])
    -- the state for the next round
    obtain ⟨d, hd⟩ : ∃ d : Cond, d = Cond.advance { c with ptr := c.ptr.set b 0 } := ⟨_, rfl⟩
    obtain ⟨hptr, hsize', hwaiting', hbegin'⟩ :=
      @Cond.advance_spec { c with ptr := c.ptr.set b 0 } b k hsize hbegin (by rw [hwaiting]; rfl)
    rw [← hd] at hptr hsize' hwaiting' hbegin'
    generalize hb' : (if b + 1 = 64 then 0 else b + 1) = b' at hbegin'
    have hnext : b' + k ≤ 64 ∧ (0 < k → b' = b + 1) := by
      split at hb' <;> omega
    have hslot : ∀ j < k, d.ptr[b' + j]? ≠ some 0 := by
      intro j hj
      rw [hptr, hnext.2 (by omega), List.getElem?_set_ne (by omega), Nat.add_assoc, Nat.add_comm 1]
      exact hfull (j + 1) (by omega)
    obtain ⟨c', hloop, hlength'', hsize'', hwaiting'', hslots⟩ :=
      ih (by rw [hptr, List.length_set, hlength]) hsize' hbegin' hwaiting' hnext.1 hslot
    refine ⟨c', ?_, hlength'', hsize'', hwaiting'', fun j id hj hid => ?_⟩
    · have hzero : ¬ c.waitingThreads = 0 := by omega
      have hids : (d.ptr.drop b').take k = (c.ptr.drop (b + 1)).take k := by
        cases k with
        | zero => rw [List.take_zero, List.take_zero]
        | succ k => rw [hptr, hnext.2 (Nat.succ_pos k), List.drop_set_of_lt (Nat.lt_succ_self b)]
      rw [Cond.broadcastLoop, if_neg hzero, hbegin, Cond.load_natCast, List.getElem?_eq_getElem hb,
        Cond.store_natCast hb]
      simp only [Option.bind_eq_bind, Option.bind_some, ← hd, hloop, if_pos hne, hids]
      rw [List.drop_eq_getElem_cons hb, List.take_succ_cons]
      rfl
    · obtain ⟨hout, hj'⟩ := hslots j id hj hid
      rw [hptr] at hj'
      have hjb : j ≠ b := by
        rintro rfl
        rw [List.getElem?_set_self hb] at hj'
        exact hid (Option.some.inj hj').symm
      rw [List.getElem?_set_ne (Ne.symm hjb)] at hj'
      refine ⟨?_, hj'⟩
      rcases Nat.eq_zero_or_pos k with hk | hk
      · omega
      · have hb'' := hnext.2 hk
        omega

end

/-! ## Invariant -/

/-- The first `n` slots have the threads that wait, in order, each in the place it knows. -/
structure QueueInv (w : World) (n : Nat) : Prop where
  length : w.cond.ptr.length = 64
  size : w.cond.queueSize = 64
  queueBegin : w.cond.queueBegin = 0
  queueEnd : w.cond.queueEnd = n
  le : n ≤ 64
  threads : threadsIn w.cond.ptr n = w.waiting
  count : w.cond.waitingThreads = w.waiting.length
  nodup : w.waiting.Nodup
  own : ∀ i < n, ∀ id, w.cond.ptr[i]? = some id → id ≠ 0 → w.index id = some i
  place : ∀ id index, w.index id = some index → w.cond.load index = some id → ∃ i < n, index = (i : Nat)
  zero : w.index 0 = none
  alerted : ∀ id, w.alerted id = true → id ∉ w.waiting ∧ w.index id ≠ none

theorem init_queueInv (heap : Nat → Nat) : QueueInv (World.init heap) 0 where
  length := by simp [World.init, condInit]
  size := rfl
  queueBegin := rfl
  queueEnd := rfl
  le := Nat.zero_le _
  threads := rfl
  count := rfl
  nodup := List.nodup_nil
  own := fun i hi => absurd hi (Nat.not_lt_zero i)
  place := fun _ _ h => by cases h
  zero := rfl
  alerted := fun _ h => by cases h

section

variable {w : World} (h : QueueInv w n)

include h

/-- A thread that waits knows its place. -/
theorem QueueInv.index_of_waiting {id : Nat} (hid : id ∈ w.waiting) :
    id ≠ 0 ∧ ∃ i < n, w.cond.ptr[i]? = some id ∧ w.index id = some (i : Nat) := by
  rw [← h.threads, mem_threadsIn] at hid
  obtain ⟨hne, i, hi, hslot⟩ := hid
  exact ⟨hne, i, hi, hslot, h.own i hi id hslot hne⟩

/-- A slot that is cleared. -/
theorem QueueInv.clear {id : Nat} (hi : i < n) (hslot : w.cond.ptr[i]? = some id) (hid : id ≠ 0) :
    threadsIn (w.cond.ptr.set i 0) n = w.waiting.erase id := by
  rw [← h.threads]
  apply threadsIn_clear hi hslot hid
  intro j hj hj'
  have heq := (h.own i hi id hslot hid).symm.trans (h.own j hj id hj' hid)
  exact (Int.natCast_inj.mp (Option.some.inj heq)).symm

/-- The other slots are as before. -/
theorem QueueInv.slot_of_clear {j id : Nat} (hi : i < n)
    (hj : (w.cond.ptr.set i 0)[j]? = some id) (hid : id ≠ 0) : j ≠ i ∧ w.cond.ptr[j]? = some id := by
  have hlt : i < w.cond.ptr.length := by
    rw [h.length]
    have hle := h.le
    omega
  have hji : j ≠ i := by
    rintro rfl
    rw [List.getElem?_set_self hlt] at hj
    exact hid (Option.some.inj hj).symm
  exact ⟨hji, by rwa [List.getElem?_set_ne (Ne.symm hji)] at hj⟩

theorem QueueInv.enqueue {id : Nat} (hid : id ≠ 0) (hindex : w.index id = none)
    (hplace : w.cond.queueEnd ≠ w.cond.queueSize ∨ w.cond.waitingThreads = 0) :
    ∃ c index n', w.cond.enqueue id = some (c, index) ∧ QueueInv { w with
      cond := c
      index := Function.update w.index id (some index)
      waiting := w.waiting ++ [id] } n' := by
  have hnot : id ∉ w.waiting := by
    intro hmem
    obtain ⟨-, i, -, -, hi⟩ := h.index_of_waiting hmem
    rw [hindex] at hi
    cases hi
  -- the place of the new thread; if it is the first one again, nobody waits
  obtain ⟨k, hk, hkeq, hkthreads⟩ : ∃ k : Nat, k < 64 ∧
      (if w.cond.queueEnd = w.cond.queueSize then 0 else w.cond.queueEnd) = k ∧
      (k = n ∨ k = 0 ∧ w.waiting = []) := by
    by_cases hend : w.cond.queueEnd = w.cond.queueSize
    · refine ⟨0, by decide, by rw [if_pos hend]; rfl, .inr ⟨rfl, ?_⟩⟩
      rcases hplace with hplace | hplace
      · exact absurd hend hplace
      · rw [h.count] at hplace
        exact List.length_eq_zero_iff.mp (by omega)
    · have hle := h.le
      rw [h.queueEnd, h.size] at hend
      exact ⟨n, by omega, by rw [h.queueEnd, h.size, if_neg hend], .inl rfl⟩
  have hlt : k < w.cond.ptr.length := by rw [h.length]; exact hk
  have hthreads : threadsIn w.cond.ptr k = w.waiting := by
    rcases hkthreads with rfl | ⟨rfl, hnil⟩
    · exact h.threads
    · rw [hnil]
      rfl
  -- a thread in another slot is in the queue
  have hother : ∀ i id', (w.cond.ptr.set k id)[i]? = some id' → id' ≠ id →
      i ≠ k ∧ w.cond.ptr[i]? = some id' := by
    intro i id' hslot hne
    have hik : i ≠ k := by
      rintro rfl
      rw [List.getElem?_set_self hlt] at hslot
      exact hne (Option.some.inj hslot).symm
    exact ⟨hik, by rwa [List.getElem?_set_ne (Ne.symm hik)] at hslot⟩
  refine ⟨⟨w.cond.ptr.set k id, w.cond.waitingThreads + 1, w.cond.queueSize, w.cond.queueBegin, k + 1⟩, k,
    k + 1, ?_, ?_⟩
  · rw [Cond.enqueue, hkeq, Cond.store_natCast hlt]
    rfl
  · refine ⟨?_, h.size, h.queueBegin, by simp, hk, ?_, ?_, ?_, ?_, ?_, ?_, ?_⟩
    · exact (List.length_set ..).trans h.length
    · exact (threadsIn_push hid hlt).trans (by rw [hthreads])
    · simp only [h.count, List.length_append, List.length_singleton]
      rfl
    · rw [List.nodup_append]
      exact ⟨h.nodup, List.nodup_singleton id, fun a ha b hb => by
        rw [List.mem_singleton.mp hb]
        exact fun heq => hnot (heq ▸ ha)⟩
    · intro i hi id' hslot hid'
      by_cases hne : id' = id
      · subst hne
        by_cases hik : i = k
        · subst hik
          exact Function.update_self ..
        · -- the thread was not in the queue
          exfalso
          rw [List.getElem?_set_ne (Ne.symm hik)] at hslot
          apply hnot
          rw [← hthreads, mem_threadsIn]
          exact ⟨hid', i, by omega, hslot⟩
      · obtain ⟨hik, hslot'⟩ := hother i id' hslot hne
        have hmem : id' ∈ w.waiting := by
          rw [← hthreads, mem_threadsIn]
          exact ⟨hid', i, by omega, hslot'⟩
        have hin : i < n := by
          rcases hkthreads with rfl | ⟨rfl, hnil⟩
          · omega
          · rw [hnil] at hmem
            cases hmem
        simp only [Function.update_of_ne hne]
        exact h.own i hin id' hslot' hid'
    · intro id' index hindex' hload
      by_cases hne : id' = id
      · subst hne
        simp only [Function.update_self, Option.some.injEq] at hindex'
        exact ⟨k, Nat.lt_succ_self k, hindex'.symm⟩
      · simp only [Function.update_of_ne hne] at hindex'
        obtain ⟨j, rfl, hslot⟩ := Cond.load_eq_some.mp hload
        obtain ⟨-, hslot'⟩ := hother j id' hslot hne
        obtain ⟨i, hi, hij⟩ := h.place id' j hindex' (by rw [Cond.load_natCast, hslot'])
        have hji : j = i := by omega
        subst hji
        refine ⟨j, ?_, rfl⟩
        rcases hkthreads with rfl | ⟨rfl, hnil⟩
        · omega
        · have hid' : id' ≠ 0 := by
            rintro rfl
            rw [h.zero] at hindex'
            cases hindex'
          have hmem : id' ∈ w.waiting := by
            rw [← h.threads, mem_threadsIn]
            exact ⟨hid', j, hi, hslot'⟩
          rw [hnil] at hmem
          cases hmem
    · simp only [Function.update_of_ne (Ne.symm hid)]
      exact h.zero
    · intro id' halerted
      obtain ⟨hnot', hindex'⟩ := h.alerted id' halerted
      have hne : id' ≠ id := by
        rintro rfl
        exact hindex' hindex
      refine ⟨?_, ?_⟩
      · simp only [List.mem_append, List.mem_singleton, not_or]
        exact ⟨hnot', hne⟩
      · simp only [Function.update_of_ne hne]
        exact hindex'

/-- A thread takes itself, or is taken, out of its place. -/
theorem QueueInv.place_of_clear (hi : i < n) {index : Int} {id' : Nat}
    (hindex : w.index id' = some index)
    (hload : ({ w.cond with ptr := w.cond.ptr.set i 0 } : Cond).load index = some id') :
    ∃ j < n, index = (j : Nat) ∧ j ≠ i := by
  have hid' : id' ≠ 0 := by
    rintro rfl
    rw [h.zero] at hindex
    cases hindex
  obtain ⟨j, rfl, hslot⟩ := Cond.load_eq_some.mp hload
  obtain ⟨hji, hslot'⟩ := h.slot_of_clear hi hslot hid'
  obtain ⟨k, hk, hkeq⟩ := h.place id' j hindex (by rw [Cond.load_natCast, hslot'])
  exact ⟨j, by omega, rfl, hji⟩

theorem QueueInv.takeOut {id n' : Nat} {index : Nat → Option Int} {alerted : Nat → Bool} (hi : i < n)
    (hslot : w.cond.ptr[i]? = some id) (hid : id ≠ 0) (hn : n' = n ∨ n = 1 ∧ n' = 0)
    (hindex : ∀ id', index id' = w.index id' ∨ id' = id ∧ index id' = none)
    (halerted : ∀ id', alerted id' = true → (id' ∉ w.waiting ∨ id' = id) ∧ index id' ≠ none) :
    QueueInv ⟨⟨w.cond.ptr.set i 0, w.cond.waitingThreads - 1, w.cond.queueSize, 0, n'⟩, index, alerted,
      w.waiting.erase id⟩ n' := by
  have hmem : id ∈ w.waiting := by
    rw [← h.threads, mem_threadsIn]
    exact ⟨hid, i, hi, hslot⟩
  have hle := h.le
  have hclear := h.clear hi hslot hid
  refine ⟨(List.length_set ..).trans h.length, h.size, rfl, rfl, by omega, ?_, ?_, h.nodup.erase id, ?_, ?_,
    ?_, ?_⟩
  · rcases hn with rfl | ⟨rfl, rfl⟩
    · exact hclear
    · -- it was the only one
      have hlen := List.length_filter_le (· ≠ 0) (w.cond.ptr.take 1)
      have hone : w.waiting.length ≤ 1 := by
        rw [← h.threads, threadsIn]
        exact Nat.le_trans hlen (List.length_take_le 1 _)
      have hnil : w.waiting.erase id = [] := by
        rw [← List.length_eq_zero_iff, List.length_erase_of_mem hmem]
        omega
      exact hnil.symm
  · have hpos := List.length_pos_of_mem hmem
    simp only [h.count, List.length_erase_of_mem hmem]
    omega
  · intro j hj id' hslot' hid'
    obtain ⟨hji, hold⟩ := h.slot_of_clear hi hslot' hid'
    have hjn : j < n := by omega
    have hown := h.own j hjn id' hold hid'
    rcases hindex id' with heq | ⟨rfl, -⟩
    · rw [← hown]
      exact heq
    · exact absurd (Int.natCast_inj.mp (Option.some.inj
        (hown.symm.trans (h.own i hi id' hslot hid)))) hji
  · intro id' index' hindex' hload
    rcases hindex id' with heq | ⟨-, hnone⟩
    · obtain ⟨j, hj, hjeq, hji⟩ := h.place_of_clear hi (heq.symm.trans hindex') hload
      exact ⟨j, by omega, hjeq⟩
    · cases hindex'.symm.trans hnone
  · rcases hindex 0 with heq | ⟨rfl, -⟩
    · exact heq.trans h.zero
    · exact absurd rfl hid
  · intro id' halerted'
    obtain ⟨hnot, hne⟩ := halerted id' halerted'
    refine ⟨fun hmem' => ?_, hne⟩
    have herase := (List.Nodup.mem_erase_iff h.nodup).mp hmem'
    rcases hnot with hnot | heq
    · exact hnot herase.2
    · exact herase.1 heq

/-- The signal finds a thread in the first slot. -/
theorem QueueInv.signal (hfound : w.cond.waitingThreads > 0 → w.cond.load w.cond.queueBegin ≠ some 0) :
    ∃ c id n', w.cond.signal = some (c, id) ∧
      (if id ≠ 0 then [id] else []) = w.waiting.take 1 ∧
      QueueInv (w.wake c (if id ≠ 0 then [id] else [])).1 n' := by
  by_cases hpos : w.cond.waitingThreads > 0
  · have hne : w.waiting ≠ [] := by
      intro hnil
      rw [h.count, hnil] at hpos
      exact absurd hpos (by decide)
    have hn : 0 < n := by
      rcases Nat.eq_zero_or_pos n with rfl | hn
      · exact absurd h.threads.symm hne
      · exact hn
    have hlt : 0 < w.cond.ptr.length := by rw [h.length]; decide
    obtain ⟨id, hid⟩ : ∃ id, w.cond.ptr[0]? = some id := ⟨_, List.getElem?_eq_getElem hlt⟩
    have hload : w.cond.load 0 = some id := (Cond.load_natCast w.cond 0).trans hid
    have hid0 : id ≠ 0 := by
      rintro rfl
      apply hfound hpos
      rw [h.queueBegin, hload]
    -- the first slot has the first thread
    have hhead : w.waiting.take 1 = [id] := by
      obtain ⟨m, rfl⟩ : ∃ m, n = m + 1 := ⟨n - 1, by omega⟩
      cases hptr : w.cond.ptr with
      | nil =>
        rw [hptr] at hlt
        exact absurd hlt (Nat.lt_irrefl 0)
      | cons a rest =>
        rw [hptr] at hid
        cases hid
        rw [← h.threads, hptr, threadsIn, List.take_succ_cons, List.filter_cons_of_pos (by simpa using hid0)]
        rfl
    obtain ⟨n', hn', hend⟩ : ∃ n' : Nat, (n' = n ∨ n = 1 ∧ n' = 0) ∧
        w.cond.signal = some (⟨w.cond.ptr.set 0 0, w.cond.waitingThreads - 1, w.cond.queueSize, 0, n'⟩, id) := by
      have hstore : w.cond.store 0 0 = some { w.cond with ptr := w.cond.ptr.set 0 0 } :=
        Cond.store_natCast (i := 0) hlt
      rw [Cond.signal, if_pos hpos, h.queueBegin, hload, hstore]
      simp only [Option.bind_eq_bind, Option.bind_some, h.queueBegin, h.queueEnd]
      by_cases hone : n = 1
      · rw [if_pos (by omega)]
        exact ⟨0, .inr ⟨hone, rfl⟩, rfl⟩
      · rw [if_neg (by omega)]
        exact ⟨n, .inl rfl, rfl⟩
    refine ⟨_, id, n', hend, by rw [if_pos hid0, hhead], ?_⟩
    rw [if_pos hid0, World.wake, List.diff_cons, List.diff_nil]
    refine h.takeOut hn hid hid0 hn' (fun _ => .inl rfl) fun id' halerted => ?_
    rw [Bool.or_eq_true, decide_eq_true_iff, List.mem_singleton] at halerted
    rcases halerted with halerted | rfl
    · exact ⟨.inl (h.alerted id' halerted).1, (h.alerted id' halerted).2⟩
    · refine ⟨.inr rfl, ?_⟩
      rw [h.own 0 hn id' hid hid0]
      exact Option.some_ne_none _
  · have hnil : w.waiting = [] := by
      rw [h.count] at hpos
      exact List.length_eq_zero_iff.mp (by omega)
    refine ⟨w.cond, 0, n, by rw [Cond.signal, if_neg hpos], by rw [hnil]; rfl, ?_⟩
    have hsame : (w.wake w.cond []).1 = w := by
      simp [World.wake]
    rw [if_neg (not_not.mpr rfl), hsame]
    exact h

/-- The timeout finds the thread in its place. -/
theorem QueueInv.timeout {id : Nat} {index : Int} (hindex : w.index id = some index)
    (hfound : w.cond.load index = some id) :
    ∃ c, w.cond.remove index = some c ∧ QueueInv { w with
      cond := c
      index := Function.update w.index id none
      waiting := w.waiting.erase id } n := by
  obtain ⟨i, hi, rfl⟩ := h.place id index hindex hfound
  have hslot : w.cond.ptr[i]? = some id := by rwa [Cond.load_natCast] at hfound
  have hid : id ≠ 0 := by
    rintro rfl
    rw [h.zero] at hindex
    cases hindex
  have hlt : i < w.cond.ptr.length := (List.getElem?_eq_some_iff.mp hslot).1
  have hmem : id ∈ w.waiting := by
    rw [← h.threads, mem_threadsIn]
    exact ⟨hid, i, hi, hslot⟩
  refine ⟨⟨w.cond.ptr.set i 0, w.cond.waitingThreads - 1, w.cond.queueSize, 0, n⟩, ?_, ?_⟩
  · rw [Cond.remove, Cond.store_natCast hlt, ← h.queueBegin, ← h.queueEnd]
    rfl
  · refine h.takeOut hi hslot hid (.inl rfl) (fun id' => ?_) fun id' halerted => ?_
    · by_cases heq : id' = id
      · exact .inr ⟨heq, by rw [heq, Function.update_self]⟩
      · exact .inl (Function.update_of_ne heq ..)
    · obtain ⟨hnot, hne⟩ := h.alerted id' halerted
      have heq : id' ≠ id := by
        rintro rfl
        exact hnot hmem
      exact ⟨.inl hnot, by rwa [Function.update_of_ne heq]⟩

/-- The broadcast finds no holes. -/
theorem QueueInv.broadcast (hfound : ∀ i < w.cond.waitingThreads.toNat,
      w.cond.load (w.cond.queueBegin + i) ≠ some 0) :
    ∃ c, w.cond.broadcast = some (c, w.waiting) ∧ QueueInv (w.wake c w.waiting).1 0 := by
  have hle := h.le
  have hfull : ∀ j < w.waiting.length, w.cond.ptr[0 + j]? ≠ some 0 := by
    intro j hj hslot
    apply hfound j (by rw [h.count]; omega)
    rw [h.queueBegin, Int.zero_add, Cond.load_natCast, ← hslot, Nat.zero_add]
  have htake : w.waiting = w.cond.ptr.take w.waiting.length := by
    refine h.threads.symm.trans (threadsIn_eq_take (by rw [h.threads]) (by rw [h.length]; exact hle) ?_)
    intro i hi
    have hslot := hfull i hi
    rwa [Nat.zero_add] at hslot
  have hlen : w.waiting.length ≤ n := by
    rw [← h.threads, threadsIn]
    exact Nat.le_trans (List.length_filter_le _ _) (List.length_take_le _ _)
  obtain ⟨c, hloop, hlength, hsize, hwaiting, hslots⟩ := Cond.broadcastLoop_spec w.waiting.length (b := 0)
    h.length h.size h.queueBegin h.count (by omega) hfull
  rw [List.drop_zero, ← htake] at hloop
  refine ⟨{ c with queueBegin := 0, queueEnd := 0 }, ?_, ?_⟩
  · rw [Cond.broadcast, h.count, Int.toNat_natCast, hloop]
    rfl
  · have hnil := diff_self w.waiting
    refine ⟨hlength, hsize, rfl, rfl, Nat.zero_le _, hnil.symm, ?_, ?_, fun i hi => absurd hi (Nat.not_lt_zero i),
      ?_, h.zero, ?_⟩
    · simp only [World.wake, hnil, hwaiting]
      rfl
    · simp only [World.wake, hnil]
      exact List.nodup_nil
    · intro id index hindex hload
      -- a thread that is still in a slot was not in the queue
      exfalso
      obtain ⟨j, rfl, hslot⟩ := Cond.load_eq_some.mp hload
      have hid : id ≠ 0 := by
        rintro rfl
        cases h.zero.symm.trans hindex
      obtain ⟨hout, hold⟩ := hslots j id hslot hid
      obtain ⟨i, hi, hij⟩ := h.place id j hindex (by rw [Cond.load_natCast, hold])
      have hmem : id ∈ w.waiting := by
        rw [← h.threads, mem_threadsIn]
        exact ⟨hid, j, by omega, hold⟩
      rw [htake, List.mem_iff_getElem?] at hmem
      obtain ⟨k, hk⟩ := hmem
      rw [List.getElem?_take] at hk
      split at hk
      · next hklt =>
        have hjk : (j : Int) = k := Option.some.inj
          ((h.own j (by omega) id hold hid).symm.trans (h.own k (by omega) id hk hid))
        omega
      · cases hk
    · intro id halerted
      refine ⟨by simp only [World.wake, hnil]; exact List.not_mem_nil, ?_⟩
      simp only [World.wake, Bool.or_eq_true, decide_eq_true_iff] at halerted
      rcases halerted with halerted | hmem
      · exact (h.alerted id halerted).2
      · obtain ⟨-, i, -, -, hi⟩ := h.index_of_waiting hmem
        simp only [World.wake, hi]
        exact Option.some_ne_none _

/-- An alerted thread comes back. -/
theorem QueueInv.leave {id : Nat} (halerted : w.alerted id = true) :
    QueueInv { w with
      index := Function.update w.index id none
      alerted := Function.update w.alerted id false } n := by
  obtain ⟨hnot, -⟩ := h.alerted id halerted
  refine ⟨h.length, h.size, h.queueBegin, h.queueEnd, h.le, h.threads, h.count, h.nodup, ?_, ?_, ?_, ?_⟩
  · intro i hi id' hslot hid'
    have hne : id' ≠ id := by
      rintro rfl
      apply hnot
      rw [← h.threads, mem_threadsIn]
      exact ⟨hid', i, hi, hslot⟩
    simp only [Function.update_of_ne hne]
    exact h.own i hi id' hslot hid'
  · intro id' index hindex hload
    by_cases hne : id' = id
    · simp only [hne, Function.update_self] at hindex
      cases hindex
    · simp only [Function.update_of_ne hne] at hindex
      exact h.place id' index hindex hload
  · by_cases hne : 0 = id
    · simp only [hne, Function.update_self]
    · simp only [Function.update_of_ne hne]
      exact h.zero
  · intro id' halerted'
    by_cases hne : id' = id
    · simp only [hne, Function.update_self] at halerted'
      cases halerted'
    · simp only [Function.update_of_ne hne] at halerted' ⊢
      exact h.alerted id' halerted'

end

/-- **One section.** Where it finds everything in place, it does what it is for and keeps the invariant. -/
theorem QueueInv.step {w : World} (h : QueueInv w n) {input : Input} (hplace : InPlace w input) :
    LawfulSection w input ∧
      ∀ w' woken, condStep w input = some (w', woken) → ∃ n', QueueInv w' n' := by
  -- a section that wakes nobody
  have hquiet : ∀ (w' : World) (n' : Nat), condStep w input = some (w', []) → QueueInv w' n' →
      (input = .signal → w.waiting.take 1 = []) → (input = .broadcast → w.waiting = []) →
      LawfulSection w input ∧
        ∀ w' woken, condStep w input = some (w', woken) → ∃ n', QueueInv w' n' := by
    intro w' n' hstep h' hsignal hbroadcast
    refine ⟨⟨w', [], hstep, h'.count, fun hs => (hsignal hs).symm, fun hb => by rw [hbroadcast hb],
      List.nodup_nil, fun _ hmem => by cases hmem⟩, fun w'' woken hstep' => ?_⟩
    cases hstep.symm.trans hstep'
    exact ⟨n', h'⟩
  cases input with
  | enqueue id =>
    by_cases hid : id ≠ 0 ∧ w.index id = none
    · obtain ⟨c, index, n', hc, h'⟩ := h.enqueue hid.1 hid.2 (hplace hid.1 hid.2)
      refine hquiet _ n' ?_ h' (fun hs => by cases hs) (fun hb => by cases hb)
      rw [condStep, if_pos hid, hc]
      rfl
    · refine hquiet w n ?_ h (fun hs => by cases hs) (fun hb => by cases hb)
      rw [condStep, if_neg hid]
  | signal =>
    obtain ⟨c, id, n', hc, hids, h'⟩ := h.signal hplace
    have hstep : condStep w .signal = some (w.wake c (if id ≠ 0 then [id] else [])) := by
      rw [condStep, hc]
      rfl
    refine ⟨⟨_, _, hstep, h'.count, fun _ => hids, (fun hb => by cases hb), ?_, ?_⟩, fun w' woken hstep' => ?_⟩
    · rw [hids]
      exact h.nodup.sublist (List.take_sublist 1 _)
    · intro id' hid'
      rw [hids] at hid'
      exact List.mem_of_mem_take hid'
    · cases hstep.symm.trans hstep'
      exact ⟨n', h'⟩
  | broadcast =>
    obtain ⟨c, hc, h'⟩ := h.broadcast hplace
    have hstep : condStep w .broadcast = some (w.wake c w.waiting) := by
      rw [condStep, hc]
      rfl
    refine ⟨⟨_, _, hstep, h'.count, (fun hs => by cases hs), fun _ => List.Perm.refl _, h.nodup,
      fun _ hid => hid⟩, fun w' woken hstep' => ?_⟩
    cases hstep.symm.trans hstep'
    exact ⟨0, h'⟩
  | timeout id =>
    cases hindex : w.index id with
    | none =>
      refine hquiet w n ?_ h (fun hs => by cases hs) (fun hb => by cases hb)
      simp only [condStep, hindex]
    | some index =>
      obtain ⟨c, hc, h'⟩ := h.timeout hindex (hplace index hindex)
      refine hquiet _ n ?_ h' (fun hs => by cases hs) (fun hb => by cases hb)
      simp only [condStep, hindex, hc, Option.map_some]
  | leave id =>
    by_cases hid : w.alerted id = true ∧ w.index id ≠ none
    · refine hquiet _ n ?_ (h.leave hid.1) (fun hs => by cases hs) (fun hb => by cases hb)
      rw [condStep, if_pos hid]
    · refine hquiet w n ?_ h (fun hs => by cases hs) (fun hb => by cases hb)
      rw [condStep, if_neg hid]

/-- **The queue does what it is for along every run that finds everything in place.** -/
theorem queue_lawful (heap : Nat → Nat) (inputs : List Input)
    (h : condMachine.Along InPlace (World.init heap) inputs) :
    condMachine.Along LawfulSection (World.init heap) inputs := by
  refine Machine.along_of_along (I := fun w => ∃ n, QueueInv w n) ?_ inputs ⟨0, init_queueInv heap⟩ h
  rintro w input ⟨n, hinv⟩ hplace
  exact ⟨(hinv.step hplace).1, fun w' woken hstep => (hinv.step hplace).2 w' woken hstep⟩

/-- A signal for the first of the threads, and a broadcast for those that are left. -/
theorem queue_lawful_broadcast : condMachine.Along LawfulSection (World.init fun _ => 0)
    [.enqueue 4, .signal, .leave 4, .enqueue 8, .enqueue 12, .timeout 12, .broadcast] :=
  queue_lawful _ _ (by decide)

/-- Two threads wait, and are signalled one after the other: the second signal looks at the first slot again. -/
theorem not_queue_lawful : ¬ condMachine.Along LawfulSection (World.init fun _ => 0)
    [.enqueue 4, .enqueue 8, .signal, .signal] := by
  intro h
  have hlawful := (h.2 _ _ rfl).2 _ _ rfl |>.2 _ _ rfl |>.1
  obtain ⟨w', woken, hstep, -, hsignal, -⟩ := hlawful
  cases hstep
  cases hsignal rfl

end WindowsLibc.Thread
