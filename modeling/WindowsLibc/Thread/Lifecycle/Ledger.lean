import Mathlib.Data.Finset.Card
import Mathlib.Data.Finset.Range
import WindowsLibc.Thread.Lifecycle.Steps

/-!
# Blocks and handles

* `lifecycle_ledger`: where the blocks and handles of a process are.
* `stale_handle` and `double_close`: what goes wrong while a handle is closed that is still in a block.
-/

namespace WindowsLibc.Thread.Lifecycle

open WindowsLibc.Lib

variable {V : Type*}

/-! ## The ledger -/

def Claim.isGone : Claim → Bool
  | .gone => true
  | _ => false

def Out.isJoined : Out V → Bool
  | .joined _ => true
  | _ => false

namespace Registry

variable (a : Registry V)

/-- The threads that have not been joined. -/
def live : Finset Nat := (Finset.range a.count).filter fun t => ¬ (a.claim t).isGone = true

theorem live_update {t : Nat} {claim : Claim} (h : claim.isGone = (a.claim t).isGone) (call : Nat → Option Nat) :
    ({ a with claim := Function.update a.claim t claim, call := call } : Registry V).live = a.live := by
  apply Finset.filter_congr
  intro u _
  change ¬ (Function.update a.claim t claim u).isGone = true ↔ _
  by_cases hu : u = t
  · rw [hu, Function.update_self, h]
  · rw [Function.update_of_ne hu]

theorem live_setRequest {c t : Nat} (request : Request) (h : (a.claim t).isGone = false) :
    (a.setRequest c t request).live = a.live := by
  apply a.live_update
  rw [h]
  rfl

theorem live_leave {c t : Nat} (claim : Claim) (h : (a.claim t).isGone = false) (hclaim : claim.isGone = false) :
    (a.leave c t claim).live = a.live := by
  apply a.live_update
  rw [h, hclaim]

theorem card_live_start : a.start.live.card = a.live.card + 1 := by
  have hlive : a.start.live = insert a.count a.live := by
    ext t
    rw [Finset.mem_insert, live, live, Finset.mem_filter, Finset.mem_filter, Finset.mem_range, Finset.mem_range]
    change t < a.count + 1 ∧ ¬ (Function.update a.claim a.count .joinable t).isGone = true ↔ _
    by_cases ht : t = a.count
    · rw [ht, Function.update_self]
      exact ⟨fun _ => .inl rfl, fun _ => ⟨Nat.lt_succ_self _, Bool.false_ne_true⟩⟩
    · rw [Function.update_of_ne ht]
      refine ⟨fun hmem => .inr ⟨by omega, hmem.2⟩, fun hmem => ?_⟩
      have hold := hmem.resolve_left ht
      exact ⟨by omega, hold.2⟩
  rw [hlive, Finset.card_insert_of_notMem]
  rw [live, Finset.mem_filter, Finset.mem_range]
  exact fun hmem => Nat.lt_irrefl _ hmem.1

theorem card_live_gone {c t : Nat} (hlt : t < a.count) (h : (a.claim t).isGone = false) :
    (a.leave c t .gone).live.card + 1 = a.live.card := by
  have hmem : t ∈ a.live := by
    rw [live, Finset.mem_filter, Finset.mem_range, h]
    exact ⟨hlt, Bool.false_ne_true⟩
  have hlive : (a.leave c t .gone).live = a.live.erase t := by
    ext u
    rw [Finset.mem_erase, live, live, Finset.mem_filter, Finset.mem_filter]
    change u ∈ Finset.range a.count ∧ ¬ (Function.update a.claim t .gone u).isGone = true ↔ _
    by_cases hu : u = t
    · rw [hu, Function.update_self]
      exact ⟨fun hgone => absurd rfl hgone.2, fun hne => absurd rfl hne.1⟩
    · rw [Function.update_of_ne hu]
      exact ⟨fun hold => ⟨hu, hold⟩, fun hold => hold.2⟩
  rw [hlive, Finset.card_erase_add_one hmem]

/-- One piece of a call: a thread that is joined leaves, no other does. -/
theorem card_live_progress {s : Process V} (h : Describes s a) (c : Nat) :
    ((a.progress c : _ × Out V).1.live.card + if (a.progress c : _ × Out V).2.isJoined then 1 else 0) = a.live.card ∧
      (a.progress c : _ × Out V).1.count = a.count := by
  rw [progress]
  cases hcall : a.call c with
  | none => exact ⟨rfl, rfl⟩
  | some t =>
    obtain ⟨request, hclaim⟩ := (h.called c t).mp hcall
    have hnot : (a.claim t).isGone = false := by
      rw [hclaim]
      rfl
    have hlt : t < a.count := by
      refine (h.exists_info ?_).1
      rw [hclaim]
      intro hgone
      cases hgone
    simp only [hclaim]
    cases request with
    | resuming detach =>
      cases detach with
      | true => exact ⟨congrArg Finset.card ((a.setStage t _).live_setRequest .closing hnot), rfl⟩
      | false => exact ⟨congrArg Finset.card ((a.setStage t _).live_leave _ hnot rfl), rfl⟩
    | closing | detaching => exact ⟨congrArg Finset.card (a.live_setRequest .forgetting hnot), rfl⟩
    | forgetting => exact ⟨congrArg Finset.card (a.live_leave _ hnot rfl), rfl⟩
    | waiting wait =>
      by_cases hended : a.stage t = .ended
      · simp only [if_pos hended]
        exact ⟨congrArg Finset.card (a.live_setRequest .leaving hnot), rfl⟩
      · by_cases himmediate : wait = .immediate
        · simp only [if_neg hended, if_pos himmediate]
          exact ⟨congrArg Finset.card (a.live_leave _ hnot rfl), rfl⟩
        · simp only [if_neg hended, if_neg himmediate]
          exact ⟨rfl, trivial⟩
    | leaving => exact ⟨congrArg Finset.card (a.live_setRequest .freeing hnot), rfl⟩
    | freeing => exact ⟨a.card_live_gone hlt hnot, rfl⟩

/-- One event. -/
theorem card_live_step {s : Process V} (h : Describes s a) (e : Event V) :
    ((a.step e).1.live.card + if (a.step e).2.isJoined then 1 else 0) + a.count = a.live.card + (a.step e).1.count := by
  cases e with
  | create c wish suspended detached =>
    by_cases hfree : a.free c = true
    · cases wish with
      | none =>
        have hstep : a.step (.create c none suspended detached) = (a, .failed) := by rw [step, if_pos hfree]
        rw [hstep]
        rfl
      | some wish =>
        have hstep : a.step (.create c (some wish) suspended detached) =
            (a.create c suspended detached, .created a.count) := by rw [step, if_pos hfree]
        have hstart := a.card_live_start
        have hnot : (a.start.claim a.count).isGone = false := by
          change (Function.update a.claim a.count .joinable a.count).isGone = false
          rw [Function.update_self]
          rfl
        have hcreate : (a.create c suspended detached).live.card = a.live.card + 1 ∧
            (a.create c suspended detached).count = a.count + 1 := by
          rw [create, ← hstart]
          cases suspended with
          | true =>
            cases detached with
            | true => exact ⟨congrArg Finset.card (a.start.live_setRequest .closing hnot), rfl⟩
            | false => exact ⟨rfl, rfl⟩
          | false => exact ⟨congrArg Finset.card (a.start.live_setRequest (.resuming detached) hnot), rfl⟩
        rw [hstep]
        change (a.create c suspended detached).live.card + 0 + a.count = _ + (a.create c suspended detached).count
        omega
    · have hstep : a.step (.create c wish suspended detached) = (a, .nothing) := by simp only [step, if_neg hfree]
      rw [hstep]
      rfl
  | detach c t =>
    by_cases hfree : a.free c = true
    · simp only [step, if_pos hfree]
      cases hclaim : a.claim t with
      | joinable =>
        have hlive := a.live_setRequest (c := c) (t := t) .detaching (by rw [hclaim]; rfl)
        exact congrArg (fun live => Finset.card live + 0 + a.count) hlive
      | _ => rfl
    · have hstep : a.step (.detach c t) = (a, .nothing) := by rw [step, if_neg hfree]
      rw [hstep]
      rfl
  | join c t abstime =>
    by_cases hfree : a.free c = true
    · simp only [step, if_pos hfree]
      cases hclaim : a.claim t with
      | joinable =>
        have hlive := a.live_setRequest (c := c) (t := t) (.waiting (waitOf abstime)) (by rw [hclaim]; rfl)
        exact congrArg (fun live => Finset.card live + 0 + a.count) hlive
      | _ => rfl
    · have hstep : a.step (.join c t abstime) = (a, .nothing) := by rw [step, if_neg hfree]
      rw [hstep]
      rfl
  | act c t act =>
    by_cases hfree : a.free c = true
    · simp only [step, if_pos hfree]
      cases a.claim t <;> rfl
    · have hstep : a.step (.act c t act) = (a, .nothing) := by rw [step, if_neg hfree]
      rw [hstep]
      rfl
  | store t result =>
    rw [step]
    split <;> rfl
  | finish t =>
    rw [step]
    cases a.stage t <;> rfl
  | progress c =>
    obtain ⟨hlive, hcount⟩ := a.card_live_progress h c
    rw [step, hlive, hcount]
  | timeout c =>
    rw [step]
    cases hcall : a.call c with
    | none => rfl
    | some t =>
      obtain ⟨request, hclaim⟩ := (h.called c t).mp hcall
      simp only [hclaim]
      have hlive := a.live_leave (c := c) (t := t) .joinable (by rw [hclaim]; rfl) rfl
      cases request with
      | waiting wait =>
        cases wait with
        | deadline => exact congrArg (fun live => Finset.card live + 0 + a.count) hlive
        | infinite | immediate => rfl
      | resuming | closing | forgetting | detaching | leaving | freeing => rfl

end Registry

/-- The blocks are those of the threads that have not been joined. -/
theorem Describes.blocks {s : Process V} {a : Registry V} (h : Describes s a) :
    ((Finset.range s.count).filter fun t => (s.info t).isSome = true) = a.live := by
  rw [h.count]
  apply Finset.filter_congr
  intro t _
  cases hclaim : a.claim t with
  | gone =>
    rw [((stands_gone hclaim).mp (h.stands t)).1]
    exact ⟨fun hsome => (by cases hsome), fun hnot => absurd rfl hnot⟩
  | _ =>
    obtain ⟨-, handle, hinfo⟩ := h.exists_info (t := t) (by rw [hclaim]; intro h; cases h)
    rw [hinfo]
    exact ⟨fun _ => Bool.false_ne_true, fun _ => rfl⟩

theorem run_ledger {s s' : Process V} {a : Registry V} (hdescribes : Describes s a) (es : List (Event V))
    (h : (Registry.machine : Machine (Registry V) _ _).Along Allowed a es) {os : List (Out V)}
    (hrun : processMachine.run s es = some (s', os)) :
    ∃ a', Describes s' a' ∧ a'.live.card + os.countP Out.isJoined + a.count = a.live.card + a'.count := by
  induction es generalizing s a os with
  | nil =>
    cases hrun
    exact ⟨a, hdescribes, rfl⟩
  | cons e es ih =>
    obtain ⟨s₁, hstep, h₁⟩ := step_describes hdescribes h.1
    have hmachine : (processMachine : Machine (Process V) _ _).step s e = some (s₁, (a.step e).2) := hstep
    rw [Machine.run_cons hmachine] at hrun
    obtain ⟨⟨s₂, os'⟩, hrest, hsome⟩ := Option.map_eq_some_iff.mp hrun
    cases hsome
    obtain ⟨a', hdescribes', hledger⟩ := ih h₁ (h.2 _ _ rfl) hrest
    refine ⟨a', hdescribes', ?_⟩
    have hone := a.card_live_step hdescribes e
    change a'.live.card + List.countP Out.isJoined ((a.step e).2 :: os') + a.count = _
    rw [List.countP_cons]
    omega

/-- Whether a thread can call is a matter of its own stage and call. -/
theorem Process.free_congr {s s' : Process V} {c : Nat} (hstage : s'.stage c = s.stage c)
    (hcall : s'.call c = s.call c) : s'.free c = s.free c := by
  rw [Process.free, Process.free, hstage, hcall]

/-- **Nothing is lost but what is detached.** Every open handle is in the block of its thread, and every thread has
its block until it has been joined: that of a detached thread is never freed. -/
theorem lifecycle_ledger (es : List (Event V))
    (h : (Registry.machine : Machine (Registry V) _ _).Along Allowed .initial es) {s : Process V} {os : List (Out V)}
    (hrun : processMachine.run .initial es = some (s, os)) :
    (∀ handle t, s.handles handle = some t → ∃ info, s.info t = some info ∧ info.handle = handle) ∧
      ((Finset.range s.count).filter fun t => (s.info t).isSome = true).card + os.countP Out.isJoined = s.count := by
  obtain ⟨a, hdescribes, hledger⟩ := run_ledger initial_describes es h hrun
  refine ⟨fun handle t hopen => (hdescribes.owned handle t hopen).2, ?_⟩
  have hinitial : (Registry.initial : Registry V).live.card = 1 := by
    have hlive : (Registry.initial : Registry V).live = {0} := rfl
    rw [hlive]
    rfl
  rw [hdescribes.blocks, hdescribes.count]
  rw [hinitial] at hledger
  change _ + 1 = _ at hledger
  omega

theorem lifecycle_ledger_joinedOnce :
    ∃ (s : Process Nat) (os : List (Out Nat)), processMachine.run .initial joinedOnce = some (s, os) ∧
      (∀ handle t, s.handles handle = some t → ∃ info, s.info t = some info ∧ info.handle = handle) ∧
      ((Finset.range s.count).filter fun t => (s.info t).isSome = true).card + os.countP Out.isJoined = s.count := by
  obtain ⟨s, os, hrun⟩ : ∃ (s : Process Nat) (os : List (Out Nat)),
      processMachine.run .initial joinedOnce = some (s, os) := ⟨_, _, rfl⟩
  exact ⟨s, os, hrun, lifecycle_ledger joinedOnce joinedOnce_allowed hrun⟩

/-! ## Races -/

/-- A thread is created, and then another one that is detached, up to the `NtClose`. -/
def createdDetached : List (Event Nat) :=
  [.create 0 (some 4) false false, .progress 0, .create 0 (some 8) false true, .progress 0]

theorem createdDetached_allowed (es : List (Event Nat)) (hes : ∀ e ∈ es, ∃ c, e = .progress c) :
    (Registry.machine : Machine (Registry Nat) _ _).Along Allowed .initial (createdDetached ++ es) := by
  have hmem : ∀ e ∈ createdDetached ++ es, ∀ a, Allowed a e := by
    intro e he a
    rcases List.mem_append.mp he with he | he
    · simp only [createdDetached, List.mem_cons, List.not_mem_nil, or_false] at he
      rcases he with rfl | rfl | rfl | rfl <;> trivial
    · obtain ⟨c, rfl⟩ := hes e he
      trivial
  exact Machine.along_of_along (I := fun _ => True) (P := fun _ e => ∀ a, Allowed a e)
    (fun a e _ hall => ⟨hall a, fun _ _ _ => trivial⟩) _ trivial (Machine.along_of_mem hmem Registry.initial)

/-- **A stale handle.** Between `NtClose` and the store of 0, in `thread_detach` as in the creation of a detached
thread, a handle is in the block that the kernel gives to the next thread: a signal for the one thread, from the
thread itself say, reaches the other. -/
theorem stale_handle (es : List (Event V))
    (h : (Registry.machine : Machine (Registry V) _ _).Along Allowed .initial es) {s : Process V} {os : List (Out V)}
    (hrun : processMachine.run .initial es = some (s, os)) {c t d e : Nat} (hcall : s.call c = .forgetting t)
    (hd : s.free d = true) (he : s.free e = true) (hde : e ≠ d) {info : ThreadInfo V} (hinfo : s.info t = some info)
    (hclosed : s.handles info.handle = none) :
    t ≠ s.count ∧ ∃ s', processMachine.run s [.create d (some info.handle) false false, .act e t .queue] =
      some (s', [.created s.count, .reached s.count]) := by
  obtain ⟨a, hdescribes, -⟩ := run_ledger initial_describes es h hrun
  have hne : t ≠ s.count := by
    rintro rfl
    have hgone := (hdescribes.next s.count hdescribes.count.ge).1
    have hnone := ((stands_gone hgone).mp (hdescribes.stands s.count)).1
    rw [hinfo] at hnone
    cases hnone
  have hhandle : info.handle ≠ 0 := by
    cases hcalled : a.call c with
    | none =>
      rw [hdescribes.idle c hcalled] at hcall
      cases hcall
    | some u =>
      obtain ⟨request, handle, -, hne, hinfo', hcalls, -⟩ := hdescribes.target hcalled
      rw [hcall] at hcalls
      cases request with
      | forgetting =>
        obtain rfl := Call.forgetting.inj hcalls
        rw [hinfo] at hinfo'
        rw [Option.some.inj hinfo']
        exact hne
      | resuming | closing | detaching | waiting | leaving | freeing => cases hcalls
  have hgrant : s.grant info.handle = info.handle := if_pos ⟨hhandle, hclosed⟩
  have hstep : s.step (.create d (some info.handle) false false) =
      some (s.create d info.handle false false, .created s.count) := by
    rw [Process.step, if_pos hd]
  have hcreate : (processMachine : Machine (Process V) _ _).step s (.create d (some info.handle) false false) =
      some (s.create d info.handle false false, .created s.count) := hstep
  have hstillFree : (s.create d info.handle false false).free e = true := by
    have hne' : e ≠ s.count := by
      rintro rfl
      rw [hdescribes.free, a.free_iff] at he
      rw [(hdescribes.next s.count hdescribes.count.ge).2] at he
      rcases he.2 with hstage | hstage <;> cases hstage
    rw [Process.free_congr (s := s) (Function.update_of_ne hne' ..) (Function.update_of_ne hde ..)]
    exact he
  have hinfo₁ : (s.create d info.handle false false).info t = some info := by
    change Function.update s.info s.count _ t = _
    rw [Function.update_of_ne hne, hinfo]
  have hopen : (s.create d info.handle false false).handles info.handle = some s.count := by
    change Function.update s.handles (s.grant info.handle) _ info.handle = _
    rw [hgrant, Function.update_self]
  obtain ⟨s', hsignal⟩ : ∃ s', (s.create d info.handle false false).step (.act e t .queue) =
      some (s', .reached s.count) := by
    rw [Process.step, if_pos hstillFree]
    simp only [hinfo₁, Option.map_some, hopen]
    exact ⟨_, rfl⟩
  have hact : (processMachine : Machine (Process V) _ _).step (s.create d info.handle false false) (.act e t .queue) =
      some (s', .reached s.count) := hsignal
  refine ⟨hne, s', ?_⟩
  rw [Machine.run_cons hcreate, Machine.run_cons hact]
  rfl

theorem stale_handle_createdDetached : ∃ (s : Process Nat) (os : List (Out Nat)),
    processMachine.run .initial (createdDetached ++ [.progress 0]) = some (s, os) ∧ 2 ≠ s.count ∧
      ∃ s', processMachine.run s [.create 1 (some 8) false false, .act 2 2 .queue] =
        some (s', [.created s.count, .reached s.count]) := by
  obtain ⟨s, os, hrun, hcall, hd, he, hinfo, hclosed⟩ : ∃ (s : Process Nat) (os : List (Out Nat)),
      processMachine.run .initial (createdDetached ++ [.progress 0]) = some (s, os) ∧ s.call 0 = .forgetting 2 ∧
        s.free 1 = true ∧ s.free 2 = true ∧ s.info 2 = some ⟨8, none⟩ ∧ s.handles 8 = none :=
    ⟨_, _, rfl, rfl, rfl, rfl, rfl, rfl⟩
  have hallowed := createdDetached_allowed [.progress 0] fun e he => ⟨0, List.mem_singleton.mp he⟩
  exact ⟨s, os, hrun, stale_handle _ hallowed hrun hcall hd he (by decide) hinfo hclosed⟩

/-- **A handle that is closed twice.** A detached thread that detaches itself, before its creator has closed the handle,
closes it for the first time; what the creator closes may be the handle of a thread that has been created in
between, and that thread cannot be joined. -/
theorem double_close (es : List (Event V))
    (h : (Registry.machine : Machine (Registry V) _ _).Along Allowed .initial es) {s : Process V} {os : List (Out V)}
    (hrun : processMachine.run .initial es = some (s, os)) {c t d handle : Nat} (hcall : s.call c = .closing t handle)
    (ht : s.free t = true) (hd : s.free d = true) (hdt : d ≠ t) (abstime : Option (Int × Int)) :
    ∃ s', processMachine.run s [.detach t t, .progress t, .create d (some handle) true false, .progress c,
        .join d s.count abstime] = some (s', [.nothing, .nothing, .created s.count, .nothing, .failed]) := by
  obtain ⟨a, hdescribes, -⟩ := run_ledger initial_describes es h hrun
  have hcount := hdescribes.count
  obtain ⟨hne, r, hinfo, hopen⟩ : handle ≠ 0 ∧ ∃ r, s.info t = some ⟨handle, r⟩ ∧ s.handles handle = some t := by
    cases hcalled : a.call c with
    | none =>
      rw [hdescribes.idle c hcalled] at hcall
      cases hcall
    | some u =>
      obtain ⟨request, handle', -, hne, hinfo, hcalls, hopen, -⟩ := hdescribes.target hcalled
      rw [hcall] at hcalls
      cases request with
      | closing =>
        obtain ⟨rfl, rfl⟩ := Call.closing.inj hcalls
        exact ⟨hne, _, hinfo, hopen rfl⟩
      | resuming | forgetting | detaching | waiting | leaving | freeing => cases hcalls
  have hidle {e : Nat} (he : s.free e = true) : s.call e = .idle ∧ e ≠ s.count := by
    rw [hdescribes.free, a.free_iff] at he
    refine ⟨hdescribes.idle e he.1, ?_⟩
    rintro rfl
    rw [(hdescribes.next s.count hcount.ge).2] at he
    rcases he.2 with hstage | hstage <;> cases hstage
  obtain ⟨hidleT, htn⟩ := hidle ht
  obtain ⟨hidleD, hdn⟩ := hidle hd
  have hct : c ≠ t := by
    rintro rfl
    rw [hcall] at hidleT
    cases hidleT
  have hcd : c ≠ d := by
    rintro rfl
    rw [hcall] at hidleD
    cases hidleD
  -- the thread closes its own handle
  have hdetach : s.step (.detach t t) = some (s.setCall t (.detaching t), .nothing) := by
    rw [Process.step, if_pos ht, hinfo, Option.map_some, if_pos hne]
  let s₂ : Process V :=
    { s with handles := Function.update s.handles handle none, call := Function.update s.call t (.forgetting t) }
  have hclose : (s.setCall t (.detaching t)).step (.progress t) = some (s₂, .nothing) := by
    have hcalled : (s.setCall t (.detaching t)).call t = .detaching t := Function.update_self ..
    rw [Process.step, Process.progress, hcalled]
    simp only [hinfo, Option.map_some, Process.close, Process.setCall, hopen, Function.update_idem, s₂]
  -- the kernel gives it to the next thread
  have hgrant : s₂.grant handle = handle := if_pos ⟨hne, Function.update_self ..⟩
  have hfree : s₂.free d = true := by
    have hcall₂ : s₂.call d = s.call d := Function.update_of_ne hdt ..
    have hsame : s₂.free d = s.free d := Process.free_congr rfl hcall₂
    exact hsame.trans hd
  let s₃ : Process V := s₂.create d handle true false
  have hcreate : s₂.step (.create d (some handle) true false) = some (s₃, .created s.count) := by
    rw [Process.step, if_pos hfree]
  have hcall₃ : s₃.call c = .closing t handle := by
    change Function.update (Function.update s.call t _) d _ c = _
    rw [Function.update_of_ne hcd, Function.update_of_ne hct, hcall]
  have hopen₃ : s₃.handles handle = some s.count := by
    change Function.update s₂.handles (s₂.grant handle) (some s.count) handle = _
    rw [hgrant, Function.update_self]
  -- the creator closes that
  let s₄ : Process V :=
    { s₃ with handles := Function.update s₃.handles handle none, call := Function.update s₃.call c (.forgetting t) }
  have hagain : s₃.step (.progress c) = some (s₄, .nothing) := by
    rw [Process.step, Process.progress, hcall₃]
    simp only [Process.close, hopen₃, Option.map_some, Option.getD_some]
    rfl
  have hfree₄ : s₄.free d = true := by
    have hcall₄ : s₄.call d = s.call d := by
      change Function.update (Function.update s₂.call d .idle) c _ d = _
      rw [Function.update_of_ne hcd.symm, Function.update_self, hidleD]
    have hstage₄ : s₄.stage d = s.stage d := Function.update_of_ne hdn ..
    exact (Process.free_congr hstage₄ hcall₄).trans hd
  have hinfo₄ : s₄.info s.count = some ⟨handle, none⟩ := by
    change Function.update s.info s.count (some ⟨s₂.grant handle, none⟩) s.count = _
    rw [Function.update_self, hgrant]
  have hclosed : s₄.handles handle = none := Function.update_self ..
  have hjoin : s₄.step (.join d s.count abstime) = some (s₄, .failed) := by
    rw [Process.step, if_pos hfree₄, hinfo₄, Option.map_some]
    simp only [hclosed]
  have hstep {p q : Process V} {e : Event V} {o : Out V} (hone : p.step e = some (q, o)) :
      (processMachine : Machine (Process V) _ _).step p e = some (q, o) := hone
  refine ⟨s₄, ?_⟩
  rw [Machine.run_cons (hstep hdetach), Machine.run_cons (hstep hclose), Machine.run_cons (hstep hcreate),
    Machine.run_cons (hstep hagain), Machine.run_cons (hstep hjoin)]
  rfl

theorem double_close_createdDetached : ∃ (s : Process Nat) (os : List (Out Nat)),
    processMachine.run .initial createdDetached = some (s, os) ∧
      ∃ s', processMachine.run s [.detach 2 2, .progress 2, .create 1 (some 8) true false, .progress 0,
        .join 1 s.count none] = some (s', [.nothing, .nothing, .created s.count, .nothing, .failed]) := by
  obtain ⟨s, os, hrun, hcall, ht, hd⟩ : ∃ (s : Process Nat) (os : List (Out Nat)),
      processMachine.run .initial createdDetached = some (s, os) ∧ s.call 0 = .closing 2 8 ∧ s.free 2 = true ∧
        s.free 1 = true := ⟨_, _, rfl, rfl, rfl, rfl⟩
  have hallowed := createdDetached_allowed [] fun e he => absurd he List.not_mem_nil
  rw [List.append_nil] at hallowed
  exact ⟨s, os, hrun, double_close createdDetached hallowed hrun hcall ht hd (by decide) none⟩

end WindowsLibc.Thread.Lifecycle
