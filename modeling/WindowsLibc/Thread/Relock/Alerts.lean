import WindowsLibc.Thread.Relock

/-!
# Alerts

`wlibc_cond_signal` and `wlibc_cond_broadcast` clear a slot under the lock of the queue. The alert comes later, in
a step of its own, and the memory of a slot that has not been written may have any id in it.

`Alerts` says what holds as long as every wait ends with an alert: the slots that are read have been written, a
thread is in one of them at most, and while it is there nobody is about to alert it. Each way to change the
queue, a stage or an alert keeps it.
-/

namespace WindowsLibc.Thread

/-- The slots that `wlibc_cond_signal` and `wlibc_cond_broadcast` come to have been written. -/
structure Cond.Written (c : Cond) (written : Nat → Bool) : Prop where
  size : c.queueSize = 64
  begins : c.queueBegin = 0
  nonneg : 0 ≤ c.queueEnd
  end_le : c.queueEnd ≤ 64
  below : ∀ i : Nat, (i : Int) < c.queueEnd → written i = true
  enough : c.waitingThreads ≤ c.queueEnd ∨ ∀ i < 64, written i = true

theorem condInit_written (heap : Nat → Nat) : (condInit heap).Written fun _ => false where
  size := rfl
  begins := rfl
  nonneg := Int.le_refl 0
  end_le := Int.natCast_nonneg 64
  below := fun i hi => absurd hi (Int.not_lt.mpr (Int.natCast_nonneg i))
  enough := Or.inl (Int.le_refl 0)

/-- A thread is taken out of a slot that has been written. -/
def Takes (written : Nat → Bool) (c c' : Cond) (id : Nat) : Prop :=
  id ≠ 0 ∧ ∃ i, written i = true ∧ c.ptr[i]? = some id ∧ c'.ptr[i]? ≠ some id

section
variable {c c' : Cond} {written : Nat → Bool}

theorem Cond.Written.waiting (h : c.Written written) {i : Nat} (hi : (i : Int) < c.waitingThreads)
    (hlt : i < 64) : written i = true := by
  rcases h.enough with hle | hall
  · exact h.below i (by omega)
  · exact hall i hlt

theorem Cond.Written.enqueue (h : c.Written written) {id : Nat} {index : Int}
    (henqueue : c.enqueue id = some (c', index)) :
    c'.Written fun i => written i || index = (i : Int) := by
  obtain ⟨c₁, hstore, heq⟩ := Option.bind_eq_some_iff.mp henqueue
  obtain ⟨-, rfl⟩ := Cond.store_cases hstore
  cases heq
  have hnonneg := h.nonneg
  have hend := h.end_le
  have hkeep : ∀ i, written i = true → (written i || decide
      ((if c.queueEnd = c.queueSize then 0 else c.queueEnd) = (i : Int))) = true := by
    intro i hi
    rw [hi, Bool.true_or]
  by_cases hfull : c.queueEnd = c.queueSize
  · -- the array is full, and the end goes back
    have hall : ∀ i < 64, written i = true := by
      intro i hi
      have hsize := h.size
      exact h.below i (by omega)
    refine ⟨h.size, h.begins, ?_, ?_, ?_, Or.inr fun i hi => hkeep i (hall i hi)⟩
    · simp only [if_pos hfull]
      omega
    · simp only [if_pos hfull]
      omega
    · intro i hi
      simp only [if_pos hfull] at hi
      exact hkeep i (hall i (by omega))
  · have hsize := h.size
    refine ⟨h.size, h.begins, ?_, ?_, ?_, ?_⟩
    · simp only [if_neg hfull]
      omega
    · simp only [if_neg hfull]
      omega
    · intro i hi
      simp only [if_neg hfull] at hi ⊢
      by_cases hlt : (i : Int) < c.queueEnd
      · rw [h.below i hlt, Bool.true_or]
      · rw [decide_eq_true (show c.queueEnd = (i : Int) by omega), Bool.or_true]
    · simp only [if_neg hfull]
      rcases h.enough with hle | hall
      · exact Or.inl (by omega)
      · exact Or.inr fun i hi => by rw [hall i hi, Bool.true_or]

theorem Cond.Written.signal (h : c.Written written) {id : Nat} (hsignal : c.signal = some (c', id)) :
    c'.Written written ∧ (id ≠ 0 → Takes written c c' id) := by
  rw [Cond.signal] at hsignal
  split at hsignal
  · next hwaiting =>
    obtain ⟨id', hload, hsignal⟩ := Option.bind_eq_some_iff.mp hsignal
    obtain ⟨c₁, hstore, hsignal⟩ := Option.bind_eq_some_iff.mp hsignal
    obtain ⟨-, rfl⟩ := Cond.store_cases hstore
    cases hsignal
    have hbegins := h.begins
    have hnonneg := h.nonneg
    rw [hbegins, show (0 : Int) = (0 : Nat) from rfl, Cond.load_natCast] at hload
    have hslot : c.ptr.set c.queueBegin.toNat 0 = c.ptr.set 0 0 := by rw [hbegins]; rfl
    refine ⟨?_, fun hid => ⟨hid, 0, h.waiting hwaiting (by decide), hload, ?_⟩⟩
    · split
      · next hlast =>
        refine ⟨h.size, rfl, Int.le_refl 0, Int.natCast_nonneg 64,
          fun i hi => absurd hi (Int.not_lt.mpr (Int.natCast_nonneg i)), ?_⟩
        rcases h.enough with hle | hall
        · exact Or.inl (by simp only at hlast ⊢; omega)
        · exact Or.inr hall
      · refine ⟨h.size, h.begins, h.nonneg, h.end_le, h.below, ?_⟩
        rcases h.enough with hle | hall
        · exact Or.inl (by simp only; omega)
        · exact Or.inr hall
    · have hne : (c.ptr.set 0 0)[0]? ≠ some id := by
        rw [List.getElem?_set_self (List.getElem?_eq_some_iff.mp hload).1]
        exact fun heq => hid (Option.some.inj heq).symm
      split
      · rw [hslot]
        exact hne
      · rw [hslot]
        exact hne
  · cases hsignal
    exact ⟨h, fun hid => absurd rfl hid⟩

/-- So many rounds of a broadcast, from a slot on. -/
theorem Cond.broadcastLoop_takes (n : Nat) {c c' : Cond} {b : Nat} {ids : List Nat} (hsize : c.queueSize = 64)
    (hbegins : c.queueBegin = b) (hb : b < 64) (hcount : c.waitingThreads = n)
    (hwritten : ∀ j < n, written ((b + j) % 64) = true) (hloop : c.broadcastLoop n = some (c', ids)) :
    c'.queueSize = 64 ∧ c'.waitingThreads = 0 ∧ ∀ id ∈ ids, Takes written c c' id := by
  induction n generalizing c b ids with
  | zero =>
    have hzero : c.waitingThreads = 0 := hcount
    rw [Cond.broadcastLoop, if_pos hzero] at hloop
    cases hloop
    exact ⟨hsize, hcount, fun id hid => absurd hid List.not_mem_nil⟩
  | succ n ih =>
    rw [Cond.broadcastLoop, if_neg (by omega)] at hloop
    obtain ⟨id, hload, hloop⟩ := Option.bind_eq_some_iff.mp hloop
    obtain ⟨c₁, hstore, hloop⟩ := Option.bind_eq_some_iff.mp hloop
    obtain ⟨⟨c₂, ids₂⟩, hrest, hend⟩ := Option.bind_eq_some_iff.mp hloop
    have hfewer := fewer_store hstore
    obtain ⟨-, rfl⟩ := Cond.store_cases hstore
    cases hend
    obtain ⟨hptr, hsize', hcount', hbegins'⟩ := @Cond.advance_spec
      { c with ptr := c.ptr.set c.queueBegin.toNat 0 } b n hsize hbegins hcount
    have hloaded : c.ptr[b]? = some id := by rw [hbegins, Cond.load_natCast] at hload; exact hload
    have hnext : ((if b + 1 = 64 then 0 else b + 1 : Nat)) < 64 := by split <;> omega
    obtain ⟨hsize₂, hcount₂, htakes⟩ := ih hsize' hbegins' hnext hcount' (by
      intro j hj
      have hslot := hwritten (j + 1) (by omega)
      rw [show (b + (j + 1)) % 64 = ((if b + 1 = 64 then 0 else b + 1) + j) % 64 by split <;> omega] at hslot
      exact hslot) hrest
    -- the slot stays cleared
    have hgone : ∀ id' ≠ 0, c'.ptr[b]? ≠ some id' := by
      intro id' hid' hslot
      have hold := fewer_broadcastLoop n hrest b id' hid' hslot
      rw [hptr, hbegins, Int.toNat_natCast, List.getElem?_set_self (List.getElem?_eq_some_iff.mp hloaded).1] at hold
      exact hid' (Option.some.inj hold).symm
    have hfirst : id ≠ 0 → Takes written c c' id := by
      intro hid
      have hslot := hwritten 0 (Nat.succ_pos n)
      rw [Nat.add_zero, Nat.mod_eq_of_lt hb] at hslot
      exact ⟨hid, b, hslot, hloaded, hgone id hid⟩
    refine ⟨hsize₂, hcount₂, ?_⟩
    have hothers : ∀ id' ∈ ids₂, Takes written c c' id' := by
      intro id' hmem
      obtain ⟨hid', i, hi, hslot, hne⟩ := htakes id' hmem
      rw [hptr] at hslot
      exact ⟨hid', i, hi, hfewer i id' hid' hslot, hne⟩
    intro id' hmem
    split at hmem
    · next hid =>
      rcases List.mem_cons.mp hmem with rfl | hmem
      · exact hfirst hid
      · exact hothers id' hmem
    · exact hothers id' hmem

theorem Cond.Written.broadcast (h : c.Written written) {ids : List Nat}
    (hbroadcast : c.broadcast = some (c', ids)) :
    c'.Written written ∧ ∀ id ∈ ids, Takes written c c' id := by
  obtain ⟨⟨c₁, ids₁⟩, hloop, heq⟩ := Option.bind_eq_some_iff.mp hbroadcast
  cases heq
  -- a negative count never comes to 0
  have hcount : c.waitingThreads = (c.waitingThreads.toNat : Int) := by
    rcases lt_or_ge c.waitingThreads 0 with hlt | hge
    · rw [Int.toNat_of_nonpos (Int.le_of_lt hlt), Cond.broadcastLoop, if_neg (by omega)] at hloop
      cases hloop
    · exact (Int.toNat_of_nonneg hge).symm
  have hwritten : ∀ j < c.waitingThreads.toNat, written ((0 + j) % 64) = true := by
    intro j hj
    have hend := h.end_le
    rw [Nat.zero_add]
    rcases h.enough with hle | hall
    · rw [Nat.mod_eq_of_lt (by omega)]
      exact h.below j (by omega)
    · exact hall _ (Nat.mod_lt _ (by decide))
  obtain ⟨hsize, hzero, htakes⟩ :=
    Cond.broadcastLoop_takes _ h.size h.begins (by decide) hcount hwritten hloop
  refine ⟨⟨hsize, rfl, Int.le_refl 0, Int.natCast_nonneg 64,
    fun i hi => absurd hi (Int.not_lt.mpr (Int.natCast_nonneg i)), Or.inl ?_⟩, htakes⟩
  simp only [hzero]
  exact Int.le_refl 0

end

/-- In `NtWaitForAlertByThreadId`. -/
def Stage.Blocked : Stage → Prop
  | .blocked _ => True
  | _ => False

/-- A thread in the queue waits, once, and is not alerted yet, and an alert comes from a thread that has taken
it out of there. -/
structure Alerts (s : System) : Prop where
  written : s.cond.Written s.written
  unique : ∀ i j t, t ≠ 0 → s.written i = true → s.written j = true → s.cond.ptr[i]? = some t →
    s.cond.ptr[j]? = some t → i = j
  queued : ∀ t, t ≠ 0 → InQueue s t →
    (s.stage t).Blocked ∧ s.alerted t = false ∧ ∀ u, s.stage u ≠ .alerting t
  alerting : ∀ u t, s.stage u = .alerting t →
    (s.stage t).Blocked ∧ s.alerted t = false ∧ ∀ v, s.stage v = .alerting t → v = u
  alerted : ∀ t, s.alerted t = true → (s.stage t).Blocked

theorem init_alerts (recursive : Bool) (heap : Nat → Nat) : Alerts (System.init recursive heap) where
  written := condInit_written heap
  unique := fun _ _ _ _ hi => by cases hi
  queued := by
    rintro t - ⟨i, hi, -⟩
    cases hi
  alerting := fun _ _ h => by cases h
  alerted := fun _ h => by cases h

section
variable {s s' : System} {t : Nat}

theorem Alerts.not_takes (h : Alerts s) {c' : Cond} {id : Nat} (htakes : Takes s.written s.cond c' id) :
    InQueue s id ∧ ∀ s' : System, s'.cond.ptr = c'.ptr → s'.written = s.written → Fewer s.cond c' →
      ¬ InQueue s' id := by
  obtain ⟨hid, i, hi, hslot, hne⟩ := htakes
  refine ⟨⟨i, hi, hslot⟩, ?_⟩
  rintro s' hptr hwritten hfewer ⟨j, hj, hslot'⟩
  rw [hwritten] at hj
  rw [hptr] at hslot'
  have hold := hfewer j id hid hslot'
  rw [h.unique i j id hid hi hj hslot hold] at hne
  exact hne hslot'

theorem InQueue.of_fewer {u : Nat} (h : InQueue s' u) (hfewer : Fewer s.cond s'.cond)
    (hwritten : s'.written = s.written) (hu : u ≠ 0) : InQueue s u := by
  obtain ⟨i, hi, hslot⟩ := h
  exact ⟨i, hwritten ▸ hi, hfewer i u hu hslot⟩

/-- Threads are taken out of the queue. -/
theorem Alerts.fewer (h : Alerts s) {c' : Cond} (hwritten : c'.Written s.written) (hfewer : Fewer s.cond c') :
    Alerts { s with cond := c' } where
  written := hwritten
  unique := fun i j t ht hi hj hslot hslot' =>
    h.unique i j t ht hi hj (hfewer i t ht hslot) (hfewer j t ht hslot')
  queued := fun t ht hin => h.queued t ht (hin.of_fewer hfewer rfl ht)
  alerting := h.alerting
  alerted := h.alerted

/-- A thread goes on, and does not go to alert another. -/
theorem alerting_of_update {stage : Stage} (hnew : ∀ id, stage ≠ .alerting id) {u id : Nat}
    (h : Function.update s.stage t stage u = .alerting id) : s.stage u = .alerting id := by
  by_cases hut : u = t
  · rw [hut, Function.update_self] at h
    exact absurd h (hnew id)
  · rw [Function.update_of_ne hut] at h
    exact h

/-- It was not blocked. -/
theorem Alerts.go_on (h : Alerts s) {stage : Stage} (hstage : s'.stage = Function.update s.stage t stage)
    (hcond : s'.cond = s.cond) (hwritten : s'.written = s.written) (halerted : s'.alerted = s.alerted)
    (hold : ¬ (s.stage t).Blocked) (hnew : ∀ id, stage ≠ .alerting id) : Alerts s' := by
  have hblocked : ∀ u, (s.stage u).Blocked → (s'.stage u).Blocked := by
    intro u hu
    have hne : u ≠ t := fun heq => hold (heq ▸ hu)
    rw [hstage, Function.update_of_ne hne]
    exact hu
  have halerting : ∀ u id, s'.stage u = .alerting id → s.stage u = .alerting id := by
    intro u id hu
    rw [hstage] at hu
    exact alerting_of_update hnew hu
  have hqueue : ∀ u, InQueue s' u → InQueue s u := by
    rintro u ⟨i, hi, hslot⟩
    exact ⟨i, hwritten ▸ hi, hcond ▸ hslot⟩
  refine ⟨hcond ▸ hwritten ▸ h.written, ?_, ?_, ?_, ?_⟩
  · rw [hcond, hwritten]
    exact h.unique
  · intro u hu hin
    obtain ⟨hb, ha, hnone⟩ := h.queued u hu (hqueue u hin)
    exact ⟨hblocked u hb, halerted ▸ ha, fun v hv => hnone v (halerting v u hv)⟩
  · intro u id hu
    obtain ⟨hb, ha, hone⟩ := h.alerting u id (halerting u id hu)
    exact ⟨hblocked id hb, halerted ▸ ha, fun v hv => hone v (halerting v id hv)⟩
  · intro u hu
    exact hblocked u (h.alerted u (halerted ▸ hu))

/-- A thread goes to alert one that it has taken out. -/
theorem Alerts.dispatch (h : Alerts s) {id : Nat} (hout : s.stage t = .out) (hid : (s.stage id).Blocked)
    (hgone : ¬ InQueue s id) (halerted : s.alerted id = false) (hnone : ∀ u, s.stage u ≠ .alerting id) :
    Alerts (s.moveTo t (.alerting id)) := by
  have hblocked : ∀ u, (s.stage u).Blocked → ((s.moveTo t (.alerting id)).stage u).Blocked := by
    intro u hu
    have hne : u ≠ t := by
      rintro rfl
      rw [hout] at hu
      exact hu
    simp only [System.moveTo, Function.update_of_ne hne]
    exact hu
  have hcases : ∀ u id', (s.moveTo t (.alerting id)).stage u = .alerting id' →
      (u = t ∧ id' = id) ∨ (u ≠ t ∧ s.stage u = .alerting id') := by
    intro u id' hu
    change Function.update s.stage t (.alerting id) u = .alerting id' at hu
    by_cases hut : u = t
    · rw [hut, Function.update_self] at hu
      cases hu
      exact Or.inl ⟨hut, rfl⟩
    · rw [Function.update_of_ne hut] at hu
      exact Or.inr ⟨hut, hu⟩
  refine ⟨h.written, h.unique, ?_, ?_, fun u hu => hblocked u (h.alerted u hu)⟩
  · intro u hu hin
    obtain ⟨hb, ha, hother⟩ := h.queued u hu hin
    refine ⟨hblocked u hb, ha, fun v hv => ?_⟩
    rcases hcases v u hv with ⟨-, rfl⟩ | ⟨-, hv⟩
    · exact hgone hin
    · exact hother v hv
  · intro u id' hu
    rcases hcases u id' hu with ⟨rfl, rfl⟩ | ⟨-, hu'⟩
    · refine ⟨hblocked id' hid, halerted, fun v hv => ?_⟩
      rcases hcases v id' hv with ⟨rfl, -⟩ | ⟨-, hv⟩
      · rfl
      · exact absurd hv (hnone v)
    · obtain ⟨hb, ha, hone⟩ := h.alerting u id' hu'
      refine ⟨hblocked id' hb, ha, fun v hv => ?_⟩
      rcases hcases v id' hv with ⟨-, rfl⟩ | ⟨-, hv⟩
      · exact absurd hu' (hnone u)
      · exact hone v hv

/-- Threads that have been taken out are alerted. -/
theorem Alerts.wake (h : Alerts s) {alerted : Nat → Bool}
    (hnew : ∀ id, alerted id = true → s.alerted id = true ∨
      ((s.stage id).Blocked ∧ ¬ InQueue s id ∧ ∀ u, s.stage u ≠ .alerting id)) :
    Alerts { s with alerted := alerted } := by
  have hstays : ∀ id, s.alerted id = false → (InQueue s id ∨ ∃ u, s.stage u = .alerting id) →
      alerted id = false := by
    intro id hid hwhere
    by_contra halerted
    rcases hnew id (Bool.eq_true_of_not_eq_false halerted) with hold | ⟨-, hgone, hnone⟩
    · rw [hid] at hold
      cases hold
    · rcases hwhere with hin | ⟨u, hu⟩
      · exact hgone hin
      · exact hnone u hu
  refine ⟨h.written, h.unique, ?_, ?_, ?_⟩
  · intro id hid hin
    obtain ⟨hb, ha, hnone⟩ := h.queued id hid hin
    exact ⟨hb, hstays id ha (Or.inl hin), hnone⟩
  · intro u id hu
    obtain ⟨hb, ha, hone⟩ := h.alerting u id hu
    exact ⟨hb, hstays id ha (Or.inr ⟨u, hu⟩), hone⟩
  · intro id hid
    rcases hnew id hid with hold | ⟨hb, -⟩
    · exact h.alerted id hold
    · exact hb

/-- A thread that has been alerted comes back. -/
theorem Alerts.resume (h : Alerts s) (halerted : s.alerted t = true) {stage : Stage}
    (hnew : ∀ id, stage ≠ .alerting id) :
    Alerts { s.moveTo t stage with alerted := Function.update s.alerted t false } := by
  have hne : ∀ u, s.alerted u = false → u ≠ t := by
    rintro u hu rfl
    rw [halerted] at hu
    cases hu
  refine ⟨h.written, h.unique, ?_, ?_, ?_⟩
  · intro u hu hin
    obtain ⟨hb, ha, hnone⟩ := h.queued u hu hin
    refine ⟨?_, ?_, fun v hv => hnone v (alerting_of_update hnew hv)⟩
    · simp only [System.moveTo, Function.update_of_ne (hne u ha)]
      exact hb
    · simp only [Function.update_of_ne (hne u ha)]
      exact ha
  · intro u id hu
    obtain ⟨hb, ha, hone⟩ := h.alerting u id (alerting_of_update hnew hu)
    refine ⟨?_, ?_, fun v hv => hone v (alerting_of_update hnew hv)⟩
    · simp only [System.moveTo, Function.update_of_ne (hne id ha)]
      exact hb
    · simp only [Function.update_of_ne (hne id ha)]
      exact ha
  · intro u hu
    by_cases hut : u = t
    · simp only [hut, Function.update_self] at hu
      cases hu
    · simp only [Function.update_of_ne hut] at hu
      simp only [System.moveTo, Function.update_of_ne hut]
      exact h.alerted u hu

/-- A thread puts itself into the queue. -/
theorem Alerts.enter (h : Alerts s) (hstage : s.stage t = .entering) {c' : Cond} {index : Int}
    (henqueue : s.cond.enqueue t = some (c', index)) :
    Alerts { s.moveTo t (.blocked index) with
      cond := c', written := fun i => s.written i || index = (i : Int) } := by
  obtain ⟨hindex, hptr⟩ := Cond.enqueue_cases henqueue
  have hnot : ¬ (s.stage t).Blocked := by
    rw [hstage]
    exact id
  -- a slot is that of `index`, or as it was
  have hcases : ∀ (i u : Nat), (s.written i || index = (i : Int)) = true → c'.ptr[i]? = some u →
      (index = (i : Int) ∧ u = t) ∨ (s.written i = true ∧ s.cond.ptr[i]? = some u) := by
    intro i u hi hslot
    rw [hptr, List.getElem?_set] at hslot
    split at hslot
    · next heq =>
      split at hslot
      · exact Or.inl ⟨by omega, (Option.some.inj hslot).symm⟩
      · cases hslot
    · next hne =>
      refine Or.inr ⟨?_, hslot⟩
      rcases Bool.or_eq_true_iff.mp hi with hold | hnew
      · exact hold
      · have heq : index = (i : Int) := of_decide_eq_true hnew
        omega
  have hother : ∀ u, (s.stage u).Blocked → u ≠ t := by
    rintro u hu rfl
    exact hnot hu
  have hnew : ∀ id, Stage.blocked index ≠ .alerting id := fun _ heq => by cases heq
  refine ⟨h.written.enqueue henqueue, ?_, ?_, ?_, ?_⟩
  · intro i j u hu hi hj hslot hslot'
    rcases hcases i u hi hslot with ⟨hi', rfl⟩ | ⟨hi', hold⟩
    · rcases hcases j u hj hslot' with ⟨hj', -⟩ | ⟨hj', hold'⟩
      · omega
      · exact absurd (h.queued u hu ⟨j, hj', hold'⟩).1 hnot
    · rcases hcases j u hj hslot' with ⟨hj', rfl⟩ | ⟨hj', hold'⟩
      · exact absurd (h.queued u hu ⟨i, hi', hold⟩).1 hnot
      · exact h.unique i j u hu hi' hj' hold hold'
  · rintro u hu ⟨i, hi, hslot⟩
    rcases hcases i u hi hslot with ⟨-, rfl⟩ | ⟨hi', hold⟩
    · refine ⟨?_, ?_, fun v hv => hnot (h.alerting v u (alerting_of_update hnew hv)).1⟩
      · simp only [System.moveTo, Function.update_self]
        trivial
      · exact Bool.eq_false_of_not_eq_true fun halerted => hnot (h.alerted u halerted)
    · obtain ⟨hb, ha, hnone⟩ := h.queued u hu ⟨i, hi', hold⟩
      refine ⟨?_, ha, fun v hv => hnone v (alerting_of_update hnew hv)⟩
      simp only [System.moveTo, Function.update_of_ne (hother u hb)]
      exact hb
  · intro u id hu
    obtain ⟨hb, ha, hone⟩ := h.alerting u id (alerting_of_update hnew hu)
    refine ⟨?_, ha, fun v hv => hone v (alerting_of_update hnew hv)⟩
    simp only [System.moveTo, Function.update_of_ne (hother id hb)]
    exact hb
  · intro u hu
    have hb := h.alerted u hu
    simp only [System.moveTo, Function.update_of_ne (hother u hb)]
    exact hb

end

end WindowsLibc.Thread
