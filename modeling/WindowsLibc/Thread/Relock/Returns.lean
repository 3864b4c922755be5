import WindowsLibc.Thread.Relock.Alerts

/-!
# A wait returns with the mutex

`RelockInv` is what the stages of the threads say about the mutex and the queue: who has been woken is not in the
queue, and who has come through `NtWaitForSingleObject` has the mutant. With `Alerts` it is kept by every step
that meets `WokenToLock`, and a wait that returns has the mutex (`waits_right`).
-/

namespace WindowsLibc.Thread

open WindowsLibc.Lib

/-! ## Invariant -/

/-- In a wait, and woken. -/
def Stage.Woken : Stage → Prop
  | .locking true => True
  | .acquiring true => True
  | .owning true => True
  | .counting true => True
  | _ => False

/-- In a lock, with the mutant. -/
def Stage.Locked : Stage → Prop
  | .owning _ => True
  | .counting _ => True
  | _ => False

structure RelockInv (s : System) : Prop where
  zero : s.stage 0 = .out
  woken : ∀ t, (s.stage t).Woken → ¬ InQueue s t
  locked : ∀ t, (s.stage t).Locked → s.mutex.HeldBy t
  removing : ∀ t index, s.stage t ≠ .removing index

theorem init_relockInv (recursive : Bool) (heap : Nat → Nat) : RelockInv (System.init recursive heap) where
  zero := rfl
  woken := fun _ h => h.elim
  locked := fun _ h => h.elim
  removing := fun _ _ h => by cases h

variable {s s' : System} {t : Nat}

/-- Only one thread changes its stage. -/
theorem RelockInv.of_step (h : RelockInv s) (ht : t ≠ 0) {stage : Stage}
    (hstage : s'.stage = Function.update s.stage t stage)
    (hqueue : ∀ u, u ≠ t → u ≠ 0 → InQueue s' u → InQueue s u)
    (hheld : ∀ u, u ≠ t → s.mutex.HeldBy u → s'.mutex.HeldBy u)
    (hwoken : stage.Woken → ¬ InQueue s' t) (hlocked : stage.Locked → s'.mutex.HeldBy t)
    (hremoving : ∀ index, stage ≠ .removing index) : RelockInv s' := by
  have hself : s'.stage t = stage := by rw [hstage, Function.update_self]
  have hother : ∀ u, u ≠ t → s'.stage u = s.stage u := fun u hu => by rw [hstage, Function.update_of_ne hu]
  refine ⟨(hother 0 (Ne.symm ht)).trans h.zero, fun u hu => ?_, fun u hu => ?_, fun u index hu => ?_⟩
  · by_cases hut : u = t
    · subst hut
      exact hwoken (hself ▸ hu)
    · rw [hother u hut] at hu
      have hne : u ≠ 0 := by
        rintro rfl
        rw [h.zero] at hu
        exact hu
      exact fun hin => h.woken u hu (hqueue u hut hne hin)
  · by_cases hut : u = t
    · subst hut
      exact hlocked (hself ▸ hu)
    · rw [hother u hut] at hu
      exact hheld u hut (h.locked u hu)
  · by_cases hut : u = t
    · subst hut
      exact hremoving index (hself ▸ hu)
    · rw [hother u hut] at hu
      exact h.removing u index hu

theorem Mutex.release_cases {m m' : Mutex} (h : m.release t = some m') {u : Nat} (hu : u ≠ t)
    (hheld : m.HeldBy u) : m'.HeldBy u := by
  obtain ⟨depth, hdepth⟩ := hheld
  rw [Mutex.release, hdepth] at h
  simp only [if_neg hu] at h
  cases h

theorem Mutex.acquire_cases {m m' : Mutex} (h : m.acquire t = some m') :
    m'.HeldBy t ∧ ∀ u, u ≠ t → m.HeldBy u → m'.HeldBy u := by
  rw [Mutex.acquire] at h
  split at h
  · next v depth hmutant =>
    split at h
    · next hv =>
      cases h
      refine ⟨⟨_, rfl⟩, ?_⟩
      rintro u hu ⟨_, heq⟩
      rw [hmutant] at heq
      cases heq
      exact absurd hv hu
    · cases h
  · next hmutant =>
    cases h
    refine ⟨⟨_, rfl⟩, ?_⟩
    rintro u _ ⟨_, heq⟩
    rw [hmutant] at heq
    cases heq

/-! ## Steps -/

theorem System.calls_ne (h : s.calls t = true) : t ≠ 0 := by
  rw [System.calls] at h
  split at h
  · exact of_decide_eq_true h
  · cases h

theorem System.calls_out (h : s.calls t = true) : s.stage t = .out := by
  rw [System.calls] at h
  split at h
  · next hout => exact hout
  · cases h

/-- A thread goes on; the queue stays as it is. -/
theorem RelockInv.go_on (h : RelockInv s) (ht : t ≠ 0) {stage : Stage}
    (hstage : s'.stage = Function.update s.stage t stage) (hcond : s'.cond = s.cond)
    (hwritten : s'.written = s.written) (hheld : ∀ u, u ≠ t → s.mutex.HeldBy u → s'.mutex.HeldBy u)
    (hwoken : stage.Woken → ¬ InQueue s t) (hlocked : stage.Locked → s'.mutex.HeldBy t)
    (hremoving : ∀ index, stage ≠ .removing index) : RelockInv s' := by
  have hqueue : ∀ u, InQueue s' u → InQueue s u := by
    rintro u ⟨i, hi, hslot⟩
    exact ⟨i, hwritten ▸ hi, hcond ▸ hslot⟩
  exact h.of_step ht hstage (fun u _ _ => hqueue u) hheld (fun hw hin => hwoken hw (hqueue t hin)) hlocked
    hremoving

theorem RelockInv.unlock (h : RelockInv s) (ht : t ≠ 0) (wait : Bool) : RelockInv (s.unlock t wait) := by
  rw [System.unlock]
  split
  · next mutex hrelease =>
    exact h.go_on ht rfl rfl rfl (fun u hu hheld => Mutex.release_cases hrelease hu hheld)
      (fun hwoken => hwoken.elim) (fun hlocked => hlocked.elim) (fun _ heq => by cases heq)
  · exact h

/-- What a step must leave: the invariant, and the mutex with a wait that returns. -/
def Leaves (s' : System) (out : Option (Nat × Int)) : Prop :=
  RelockInv s' ∧ ∀ u result, out = some (u, result) → s'.mutex.HeldBy u ∧ ¬ InQueue s' u

theorem RelockInv.leaves (h : RelockInv s') : Leaves s' none := ⟨h, fun _ _ heq => by cases heq⟩

/-- A function returns. If it is a wait, it has the mutex and has been woken. -/
theorem RelockInv.leave (h : RelockInv s) (ht : t ≠ 0) (mutex : Mutex) (wait : Bool) (result : Int)
    (hheld : ∀ u, u ≠ t → s.mutex.HeldBy u → mutex.HeldBy u)
    (hwait : wait = true → mutex.HeldBy t ∧ ¬ InQueue s t) :
    Leaves ({ s with mutex := mutex }.leave t wait result).1 ({ s with mutex := mutex }.leave t wait result).2 := by
  refine ⟨h.go_on ht (show _ = Function.update s.stage t .out from rfl) rfl rfl hheld (fun hwoken => hwoken.elim)
    (fun hlocked => hlocked.elim) (fun _ heq => by cases heq), ?_⟩
  intro u result' hout
  cases wait with
  | false => cases hout
  | true =>
    cases hout
    exact hwait rfl

theorem RelockInv.next (h : RelockInv s) (ha : Alerts s) (ht : t ≠ 0) {status : Status} {out : Option (Nat × Int)}
    (hcond : WokenToLock s (.next t status)) (hstep : s.next t status = some (s', out)) : Leaves s' out := by
  rw [System.next] at hstep
  rw [WokenToLock] at hcond
  have hwoken := h.woken t
  have hlocked := h.locked t
  cases hstage : s.stage t with
  | out =>
    simp only [hstage] at hstep
    cases hstep
    exact h.leaves
  | released wait =>
    simp only [hstage] at hstep
    cases hstep
    refine RelockInv.leaves (h.go_on ht rfl rfl rfl (fun _ _ hheld => hheld) ?_ ?_ ?_)
    · split
      · exact fun hw => hw.elim
      · cases wait
        · exact fun hw => hw.elim
        · exact fun hw => hw.elim
    · split
      · exact fun hl => hl.elim
      · cases wait
        · exact fun hl => hl.elim
        · exact fun hl => hl.elim
    · intro index
      split
      · exact fun heq => by cases heq
      · cases wait
        · exact fun heq => by cases heq
        · exact fun heq => by cases heq
  | disowning wait =>
    simp only [hstage] at hstep
    cases hstep
    refine RelockInv.leaves (h.go_on ht rfl rfl rfl (fun _ _ hheld => hheld) ?_ ?_ ?_)
    · cases wait
      · exact fun hw => hw.elim
      · exact fun hw => hw.elim
    · cases wait
      · exact fun hl => hl.elim
      · exact fun hl => hl.elim
    · intro index
      cases wait
      · exact fun heq => by cases heq
      · exact fun heq => by cases heq
  | entering =>
    simp only [hstage] at hstep
    obtain ⟨⟨c, index⟩, henqueue, heq⟩ := Option.map_eq_some_iff.mp hstep
    cases heq
    obtain ⟨hindex, hptr⟩ := Cond.enqueue_cases henqueue
    refine RelockInv.leaves (h.of_step ht rfl ?_ (fun _ _ hheld => hheld) (fun hw => hw.elim) (fun hl => hl.elim)
      (fun _ heq => by cases heq))
    -- the slot has its thread now, and the others are as they were
    rintro u hu _ ⟨i, hi, hslot⟩
    change c.ptr[i]? = some u at hslot
    rw [hptr, List.getElem?_set] at hslot
    split at hslot
    · split at hslot
      · exact absurd (Option.some.inj hslot).symm hu
      · cases hslot
    · next hne =>
      refine ⟨i, ?_, hslot⟩
      rcases Bool.or_eq_true_iff.mp hi with hold | hnew
      · exact hold
      · have hi' : index = (i : Int) := of_decide_eq_true hnew
        exact absurd (by omega) hne
  | blocked index =>
    simp only [hstage] at hstep hcond
    have hstatus : status = .success := hcond
    subst hstatus
    by_cases halerted : s.alerted t = true
    · -- who alerts a thread has taken it out of the queue before
      have hgone : ¬ InQueue s t := by
        intro hin
        rw [(ha.queued t ht hin).2.1] at halerted
        cases halerted
      rw [if_pos halerted] at hstep
      cases hstep
      exact RelockInv.leaves (h.go_on ht rfl rfl rfl (fun _ _ hheld => hheld) (fun _ => hgone)
        (fun hl => hl.elim) (fun _ heq => by cases heq))
    · rw [if_neg halerted] at hstep
      cases hstep
      exact h.leaves
  | removing index => exact absurd hstage (h.removing t index)
  | locking wait =>
    simp only [hstage] at hstep hcond
    rw [hstage] at hwoken
    split at hstep
    · next hdead =>
      cases hstep
      refine h.leave ht s.mutex wait (-1) (fun _ _ hheld => hheld) ?_
      rintro rfl
      rcases hcond with hrecursive | howner
      · rw [hdead.1] at hrecursive
        cases hrecursive
      · exact absurd hdead.2 howner
    · cases hstep
      refine RelockInv.leaves (h.go_on ht rfl rfl rfl (fun _ _ hheld => hheld) ?_ (fun hl => hl.elim)
        (fun _ heq => by cases heq))
      cases wait
      · exact fun hw => hw.elim
      · exact fun _ => hwoken trivial
  | acquiring wait =>
    simp only [hstage] at hstep hcond
    rw [hstage] at hwoken
    have hwaiting : wait = true → ¬ InQueue s t := by
      rintro rfl
      exact hwoken trivial
    cases status with
    | success =>
      simp only at hstep
      split at hstep
      · next mutex hacquire =>
        obtain ⟨hheld, hothers⟩ := Mutex.acquire_cases hacquire
        cases hstep
        refine RelockInv.leaves (h.go_on ht rfl rfl rfl (fun u hu => hothers u hu) ?_ (fun _ => hheld)
          (fun _ heq => by cases heq))
        cases wait
        · exact fun hw => hw.elim
        · exact fun _ => hwoken trivial
      · cases hstep
        exact h.leaves
    | abandoned =>
      simp only at hstep
      split at hstep
      · next mutex hacquire =>
        obtain ⟨hheld, hothers⟩ := Mutex.acquire_cases hacquire
        cases hstep
        exact h.leave ht _ wait (-1) (fun u hu => hothers u hu) (fun hw => ⟨hheld, hwaiting hw⟩)
      · cases hstep
        exact h.leaves
    | timeout =>
      cases hstep
      refine h.leave ht _ wait (-1) (fun _ _ hheld => hheld) ?_
      rintro rfl
      rcases hcond with heq | heq
      · cases heq
      · cases heq
    | other =>
      cases hstep
      refine h.leave ht _ wait (-1) (fun _ _ hheld => hheld) ?_
      rintro rfl
      rcases hcond with heq | heq
      · cases heq
      · cases heq
  | owning wait =>
    simp only [hstage] at hstep
    rw [hstage] at hwoken hlocked
    cases hstep
    refine RelockInv.leaves (h.go_on ht rfl rfl rfl (fun _ _ hheld => hheld) ?_ (fun _ => hlocked trivial)
      (fun _ heq => by cases heq))
    cases wait
    · exact fun hw => hw.elim
    · exact fun _ => hwoken trivial
  | counting wait =>
    simp only [hstage] at hstep
    rw [hstage] at hwoken hlocked
    cases hstep
    refine h.leave ht _ wait 0 (fun _ _ hheld => hheld) ?_
    rintro rfl
    exact ⟨hlocked trivial, hwoken trivial⟩
  | alerting id =>
    simp only [hstage] at hstep
    have hout : ∀ {a : Nat → Bool}, Leaves { s.moveTo t .out with alerted := a } none := fun {a} =>
      RelockInv.leaves (h.go_on ht rfl rfl rfl (fun _ _ hheld => hheld) (fun hw => hw.elim)
        (fun hl => hl.elim) (fun _ heq => by cases heq))
    cases status with
    | success =>
      cases hstep
      exact hout
    | _ =>
      cases hstep
      exact hout

theorem systemStep_leaves (h : RelockInv s) (ha : Alerts s) {move : Move} {out : Option (Nat × Int)}
    (hcond : WokenToLock s move) (hstep : systemStep s move = some (s', out)) : Leaves s' out := by
  -- a call, unless the thread is in another one
  have hcall : ∀ {t : Nat} {result : Option (System × Option (Nat × Int))},
      (if s.calls t = true then result else some (s, none)) = some (s', out) →
      (t ≠ 0 → result = some (s', out) → Leaves s' out) → Leaves s' out := by
    intro t result hif hdo
    split at hif
    · next hcalls => exact hdo (System.calls_ne hcalls) hif
    · cases hif
      exact h.leaves
  cases move with
  | lock t =>
    refine hcall hstep fun ht heq => ?_
    cases heq
    exact RelockInv.leaves (h.go_on ht rfl rfl rfl (fun _ _ hheld => hheld) (fun hw => hw.elim)
      (fun hl => hl.elim) (fun _ heq => by cases heq))
  | unlock t =>
    refine hcall hstep fun ht heq => ?_
    cases heq
    exact (h.unlock ht false).leaves
  | wait t =>
    refine hcall hstep fun ht heq => ?_
    cases heq
    exact (h.unlock ht true).leaves
  | signal t =>
    refine hcall hstep fun ht heq => ?_
    obtain ⟨⟨c, id⟩, hsignal, heq⟩ := Option.map_eq_some_iff.mp heq
    cases heq
    refine RelockInv.leaves (h.of_step ht rfl
      (fun u _ hu hin => hin.of_fewer (fewer_signal hsignal) rfl hu) (fun _ _ hheld => hheld) ?_ ?_ ?_)
    · split
      · exact fun hw => hw.elim
      · exact fun hw => hw.elim
    · split
      · exact fun hl => hl.elim
      · exact fun hl => hl.elim
    · intro index
      split
      · exact fun heq => by cases heq
      · exact fun heq => by cases heq
  | broadcast t =>
    refine hcall hstep fun ht heq => ?_
    obtain ⟨⟨c, ids⟩, hbroadcast, heq⟩ := Option.map_eq_some_iff.mp heq
    cases heq
    refine RelockInv.leaves ⟨h.zero, fun u hu hin => ?_, h.locked, h.removing⟩
    have hne : u ≠ 0 := by
      rintro rfl
      rw [show s.stage 0 = .out from h.zero] at hu
      exact hu
    exact h.woken u hu (hin.of_fewer (fewer_broadcast hbroadcast) rfl hne)
  | next t status =>
    by_cases ht : t = 0
    · subst ht
      have hout : s.next 0 status = some (s, none) := by
        simp only [System.next, h.zero]
      rw [systemStep, hout] at hstep
      cases hstep
      exact h.leaves
    · exact h.next ha ht hcond hstep

/-! ### Alerts along the steps -/

/-- Behind a section or a wait, and not the one of another thread. -/
def Stage.Going : Stage → Prop
  | .released _ | .disowning _ | .locking _ | .acquiring _ | .owning _ | .counting _ => True
  | _ => False

/-- In a lock or an unlock, a thread changes nothing but the mutex. -/
theorem System.next_going {status : Status} {out : Option (Nat × Int)} (hgoing : (s.stage t).Going)
    (hstep : s.next t status = some (s', out)) :
    (s'.cond = s.cond ∧ s'.written = s.written ∧ s'.alerted = s.alerted) ∧
      (s'.stage = s.stage ∨ ∃ stage, s'.stage = Function.update s.stage t stage ∧ ∀ id, stage ≠ .alerting id) := by
  rw [System.next] at hstep
  cases hstage : s.stage t with
  | out =>
    rw [hstage] at hgoing
    exact hgoing.elim
  | released wait =>
    simp only [hstage] at hstep
    cases hstep
    refine ⟨⟨rfl, rfl, rfl⟩, Or.inr ⟨_, rfl, fun id => ?_⟩⟩
    split
    · exact fun heq => by cases heq
    · cases wait
      · exact fun heq => by cases heq
      · exact fun heq => by cases heq
  | disowning wait =>
    simp only [hstage] at hstep
    cases hstep
    refine ⟨⟨rfl, rfl, rfl⟩, Or.inr ⟨_, rfl, fun id => ?_⟩⟩
    cases wait
    · exact fun heq => by cases heq
    · exact fun heq => by cases heq
  | entering =>
    rw [hstage] at hgoing
    exact hgoing.elim
  | blocked index =>
    rw [hstage] at hgoing
    exact hgoing.elim
  | removing index =>
    rw [hstage] at hgoing
    exact hgoing.elim
  | locking wait =>
    simp only [hstage] at hstep
    split at hstep
    · cases hstep
      exact ⟨⟨rfl, rfl, rfl⟩, Or.inr ⟨_, rfl, fun _ heq => by cases heq⟩⟩
    · cases hstep
      exact ⟨⟨rfl, rfl, rfl⟩, Or.inr ⟨_, rfl, fun _ heq => by cases heq⟩⟩
  | acquiring wait =>
    simp only [hstage] at hstep
    cases status with
    | success =>
      simp only at hstep
      split at hstep
      · cases hstep
        exact ⟨⟨rfl, rfl, rfl⟩, Or.inr ⟨_, rfl, fun _ heq => by cases heq⟩⟩
      · cases hstep
        exact ⟨⟨rfl, rfl, rfl⟩, Or.inl rfl⟩
    | abandoned =>
      simp only at hstep
      split at hstep
      · cases hstep
        exact ⟨⟨rfl, rfl, rfl⟩, Or.inr ⟨_, rfl, fun _ heq => by cases heq⟩⟩
      · cases hstep
        exact ⟨⟨rfl, rfl, rfl⟩, Or.inl rfl⟩
    | timeout =>
      cases hstep
      exact ⟨⟨rfl, rfl, rfl⟩, Or.inr ⟨_, rfl, fun _ heq => by cases heq⟩⟩
    | other =>
      cases hstep
      exact ⟨⟨rfl, rfl, rfl⟩, Or.inr ⟨_, rfl, fun _ heq => by cases heq⟩⟩
  | owning wait =>
    simp only [hstage] at hstep
    cases hstep
    exact ⟨⟨rfl, rfl, rfl⟩, Or.inr ⟨_, rfl, fun _ heq => by cases heq⟩⟩
  | counting wait =>
    simp only [hstage] at hstep
    cases hstep
    exact ⟨⟨rfl, rfl, rfl⟩, Or.inr ⟨_, rfl, fun _ heq => by cases heq⟩⟩
  | alerting id =>
    rw [hstage] at hgoing
    exact hgoing.elim

theorem Stage.Going.not_blocked {stage : Stage} (h : stage.Going) : ¬ stage.Blocked := by
  cases stage with
  | blocked index => exact h.elim
  | _ => exact fun hb => hb

theorem Alerts.next (h : Alerts s) (hrelock : RelockInv s) {status : Status} {out : Option (Nat × Int)}
    (hcond : WokenToLock s (.next t status)) (hstep : s.next t status = some (s', out)) : Alerts s' := by
  rw [WokenToLock] at hcond
  by_cases hgoing : (s.stage t).Going
  · obtain ⟨⟨hc, hw, ha⟩, hsame | ⟨stage, hstage, hnew⟩⟩ := System.next_going hgoing hstep
    · exact h.go_on (by rw [hsame, Function.update_eq_self]) hc hw ha hgoing.not_blocked (by
        intro id heq
        rw [heq] at hgoing
        exact hgoing)
    · exact h.go_on hstage hc hw ha hgoing.not_blocked hnew
  rw [System.next] at hstep
  cases hstage : s.stage t with
  | out =>
    simp only [hstage] at hstep
    cases hstep
    exact h
  | entering =>
    simp only [hstage] at hstep
    obtain ⟨⟨c, index⟩, henqueue, heq⟩ := Option.map_eq_some_iff.mp hstep
    cases heq
    exact h.enter hstage henqueue
  | blocked index =>
    simp only [hstage] at hstep hcond
    have hstatus : status = .success := hcond
    subst hstatus
    by_cases halerted : s.alerted t = true
    · rw [if_pos halerted] at hstep
      cases hstep
      exact h.resume halerted fun _ heq => by cases heq
    · rw [if_neg halerted] at hstep
      cases hstep
      exact h
  | removing index => exact absurd hstage (hrelock.removing t index)
  | alerting id =>
    simp only [hstage] at hstep
    have hnot : ¬ (s.stage t).Blocked := by
      rw [hstage]
      exact fun hb => hb
    have hout : Alerts (s.moveTo t .out) := h.go_on rfl rfl rfl rfl hnot fun _ heq => by cases heq
    cases status with
    | success =>
      cases hstep
      obtain ⟨hb, -, hone⟩ := h.alerting t id hstage
      have hne : id ≠ t := by
        rintro rfl
        exact hnot hb
      refine hout.wake fun u hu => ?_
      by_cases hui : u = id
      · subst hui
        refine Or.inr ⟨?_, ?_, ?_⟩
        · simp only [System.moveTo, Function.update_of_ne hne]
          exact hb
        · rintro ⟨i, hi, hslot⟩
          have hid : u ≠ 0 := by
            rintro rfl
            rw [hrelock.zero] at hb
            exact hb
          exact (h.queued u hid ⟨i, hi, hslot⟩).2.2 t hstage
        · intro v hv
          have hold := alerting_of_update (fun _ heq => by cases heq) hv
          cases hone v hold
          simp only [System.moveTo, Function.update_self] at hv
          cases hv
      · rw [Function.update_of_ne hui] at hu
        exact Or.inl hu
    | _ =>
      cases hstep
      exact hout
  | _ =>
    rw [hstage] at hgoing
    exact absurd trivial hgoing

theorem systemStep_alerts (h : Alerts s) (hrelock : RelockInv s) {move : Move} {out : Option (Nat × Int)}
    (hcond : WokenToLock s move) (hstep : systemStep s move = some (s', out)) : Alerts s' := by
  have hcall : ∀ {t : Nat} {result : Option (System × Option (Nat × Int))},
      (if s.calls t = true then result else some (s, none)) = some (s', out) →
      (s.stage t = .out → result = some (s', out) → Alerts s') → Alerts s' := by
    intro t result hif hdo
    split at hif
    · next hcalls => exact hdo (System.calls_out hcalls) hif
    · cases hif
      exact h
  have hunlock : ∀ {t : Nat} (wait : Bool), s.stage t = .out → Alerts (s.unlock t wait) := by
    intro t wait hout
    rw [System.unlock]
    split
    · exact h.go_on rfl rfl rfl rfl (by rw [hout]; exact fun hb => hb) fun _ heq => by cases heq
    · exact h
  cases move with
  | lock t =>
    refine hcall hstep fun hout heq => ?_
    cases heq
    exact h.go_on rfl rfl rfl rfl (by rw [hout]; exact fun hb => hb) fun _ heq => by cases heq
  | unlock t =>
    refine hcall hstep fun hout heq => ?_
    cases heq
    exact hunlock false hout
  | wait t =>
    refine hcall hstep fun hout heq => ?_
    cases heq
    exact hunlock true hout
  | signal t =>
    refine hcall hstep fun hout heq => ?_
    obtain ⟨⟨c, id⟩, hsignal, heq⟩ := Option.map_eq_some_iff.mp heq
    obtain ⟨hwritten, htakes⟩ := h.written.signal hsignal
    have hfewer := fewer_signal hsignal
    have htaken := h.fewer hwritten hfewer
    cases heq
    by_cases hid : id ≠ 0
    · obtain ⟨hin, hgone⟩ := h.not_takes (htakes hid)
      obtain ⟨hb, ha, hnone⟩ := h.queued id hid hin
      simp only [if_pos hid]
      exact htaken.dispatch hout hb (hgone _ rfl rfl hfewer) ha hnone
    · simp only [if_neg hid]
      exact htaken.go_on rfl rfl rfl rfl (by simp only [hout]; exact fun hb => hb) fun _ heq => by cases heq
  | broadcast t =>
    refine hcall hstep fun hout heq => ?_
    obtain ⟨⟨c, ids⟩, hbroadcast, heq⟩ := Option.map_eq_some_iff.mp heq
    obtain ⟨hwritten, htakes⟩ := h.written.broadcast hbroadcast
    have hfewer := fewer_broadcast hbroadcast
    have htaken := h.fewer hwritten hfewer
    cases heq
    refine htaken.wake fun id hid => ?_
    rcases Bool.or_eq_true_iff.mp hid with hold | hnew
    · exact Or.inl hold
    · have hmem := htakes id (of_decide_eq_true hnew)
      obtain ⟨hin, hgone⟩ := h.not_takes hmem
      obtain ⟨hb, -, hnone⟩ := h.queued id hmem.1 hin
      exact Or.inr ⟨hb, hgone _ rfl rfl hfewer, hnone⟩
  | next t status => exact h.next hrelock hcond hstep

/-- **A wait returns with the mutex**, and out of the queue, if it is woken and its lock behind that succeeds. -/
theorem waits_right (recursive : Bool) (heap : Nat → Nat) (moves : List Move)
    (h : systemMachine.Along WokenToLock (System.init recursive heap) moves) :
    systemMachine.Along ReturnsHolding (System.init recursive heap) moves := by
  refine Machine.along_of_along (I := fun s => RelockInv s ∧ Alerts s) ?_ moves
    ⟨init_relockInv recursive heap, init_alerts recursive heap⟩ h
  rintro s move ⟨hinv, halerts⟩ hcond
  refine ⟨?_, ?_⟩
  · intro s' t result hstep
    exact (systemStep_leaves hinv halerts hcond hstep).2 t result rfl
  · intro s' out hstep
    exact ⟨(systemStep_leaves hinv halerts hcond hstep).1, systemStep_alerts halerts hinv hcond hstep⟩

instance (s : System) (t : Nat) : Decidable (InQueue s t) :=
  decidable_of_iff (∃ i < s.cond.ptr.length, s.written i = true ∧ s.cond.ptr[i]? = some t)
    ⟨fun ⟨i, _, hi⟩ => ⟨i, hi⟩, fun ⟨i, hi⟩ => ⟨i, (List.getElem?_eq_some_iff.mp hi.2).1, hi⟩⟩

instance (s : System) (t : Nat) (status : Status) : (stage : Stage) → Decidable (StageFavours s t status stage)
  | .blocked _ => inferInstanceAs (Decidable (_ = _))
  | .locking true => inferInstanceAs (Decidable (_ ∨ _))
  | .acquiring true => inferInstanceAs (Decidable (_ ∨ _))
  | .locking false | .acquiring false | .out | .released _ | .disowning _ | .entering | .removing _ | .owning _
  | .counting _ | .alerting _ => .isTrue trivial

instance (s : System) : (move : Move) → Decidable (WokenToLock s move)
  | .next t status => inferInstanceAs (Decidable (StageFavours s t status (s.stage t)))
  | .lock _ | .unlock _ | .wait _ | .signal _ | .broadcast _ => .isTrue trivial

/-- A thread goes on so many steps, and the kernel grants what it asks for. -/
def steps (t n : Nat) : List Move := List.replicate n (Move.next t Status.success)

/-- Thread 4 waits, and thread 8 takes the mutex and signals. -/
def signalled : List Move :=
  List.flatten [[Move.lock 4], steps 4 4, [Move.wait 4], steps 4 3, [Move.lock 8], steps 8 4, [Move.signal 8],
    steps 8 1, [Move.unlock 8], steps 8 2, steps 4 5]

theorem waits_right_signalled : systemMachine.Along ReturnsHolding (System.init false fun _ => 0) signalled :=
  waits_right false _ _ (by decide +kernel)

/-- The wait of thread 4 times out. -/
def timedOut : List Move :=
  List.flatten [[Move.lock 4], steps 4 4, [Move.wait 4], steps 4 3, [Move.next 4 Status.timeout], steps 4 1]

theorem not_waits_right : ¬ systemMachine.Along ReturnsHolding (System.init false fun _ => 0) timedOut := by
  intro h
  have hlocked := (((((h.2 _ _ rfl).2 _ _ rfl).2 _ _ rfl).2 _ _ rfl).2 _ _ rfl)
  have hblocked := (((hlocked.2 _ _ rfl).2 _ _ rfl).2 _ _ rfl).2 _ _ rfl
  obtain ⟨⟨depth, hmutant⟩, _⟩ := (hblocked.2 _ _ rfl).1 _ 4 (-1) rfl
  cases hmutant

end WindowsLibc.Thread
