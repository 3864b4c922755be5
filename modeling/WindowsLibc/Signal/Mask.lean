import WindowsLibc.Signal.Thread

/-!
# `SIGKILL` and `SIGSTOP` in the mask

`wlibc_sigprocmask` refuses sets with these two signals. `do_sigaction` does not look at `sa_mask`, and
`wlibc_raise` adds it to the mask while it executes the action.

* `Free` says that a set has neither of them; the masks that are saved in the stack have to be free too.
* `sigmask_free_iff`: the mask stays free along a run exactly if no action is executed whose `sa_mask` has
  one of them, and none of their own.
-/

namespace WindowsLibc.Signal

open WindowsLibc.Lib

variable {H : Type*}

/-- Neither of the two signals. -/
def Free (set : SigSet) : Prop := has set SIGKILL = false ∧ has set SIGSTOP = false

/-- The mask is free behind the step. -/
def FreeStep (s : State H) (input : Input H) : Prop := Free (sigStep s input).1.sigmask

/-- If the step executes an action, then its `sa_mask` has neither of the two signals, and it is not the
action of one of them (unless it is not to be deferred). -/
def Harmless (s : State H) (input : Input H) : Prop :=
  ∀ sig, raises s input = some sig → Executes s sig →
    Free (s.table sig).mask ∧
      ((s.table sig).flags &&& SA_NODEFER = 0 → sig ≠ SIGKILL ∧ sig ≠ SIGSTOP)

/-- The mask and all the masks that are to be restored are free. -/
structure FreeInv (s : State H) : Prop where
  mask : Free s.sigmask
  saved : ∀ sig action oldmask, Frame.action sig action oldmask ∈ s.stack → Free oldmask

theorem free_or {a b : SigSet} : Free (a ||| b) ↔ Free a ∧ Free b := by
  simp only [Free, has_or (show SIGKILL < 32 by decide), has_or (show SIGSTOP < 32 by decide),
    Bool.or_eq_false_iff]
  exact ⟨fun ⟨⟨h₁, h₂⟩, h₃, h₄⟩ => ⟨⟨h₁, h₃⟩, h₂, h₄⟩, fun ⟨⟨h₁, h₃⟩, h₂, h₄⟩ => ⟨⟨h₁, h₂⟩, h₃, h₄⟩⟩

theorem free_sigbit {sig : Nat} (hsig : sig < 32) :
    Free (sigbit sig) ↔ sig ≠ SIGKILL ∧ sig ≠ SIGSTOP := by
  rw [Free, has_sigbit hsig (by decide), has_sigbit hsig (by decide), decide_eq_false_iff_not,
    decide_eq_false_iff_not]
  exact and_congr ne_comm ne_comm

/-- The mask during an action. -/
theorem free_actionMask {s : State H} {sig : Nat} (hsig : sig < 32) (hmask : Free s.sigmask) :
    Free (actionMask s sig) ↔ Free (s.table sig).mask ∧
      ((s.table sig).flags &&& SA_NODEFER = 0 → sig ≠ SIGKILL ∧ sig ≠ SIGSTOP) := by
  by_cases hdefer : (s.table sig).flags &&& SA_NODEFER = 0
  · have heq : actionMask s sig = s.sigmask ||| (s.table sig).mask ||| sigbit sig := if_pos hdefer
    rw [heq, free_or, free_or, free_sigbit hsig]
    exact ⟨fun ⟨⟨_, hsa⟩, hown⟩ => ⟨hsa, fun _ => hown⟩, fun ⟨hsa, hown⟩ => ⟨⟨hmask, hsa⟩, hown hdefer⟩⟩
  · have heq : actionMask s sig = s.sigmask ||| (s.table sig).mask := if_neg hdefer
    rw [heq, free_or]
    exact ⟨fun ⟨_, hsa⟩ => ⟨hsa, fun hzero => absurd hzero hdefer⟩, fun ⟨hsa, _⟩ => ⟨hmask, hsa⟩⟩

/-- The masks that `wlibc_sigprocmask` leaves. -/
theorem free_howMask (how : How) {sigmask newset : SigSet} (hmask : Free sigmask)
    (haccept : acceptable newset) : Free (how.mask sigmask newset) := by
  have hnew : Free newset := by
    rw [acceptable, not_or, not_or] at haccept
    exact ⟨Bool.eq_false_iff.mpr haccept.2.1, Bool.eq_false_iff.mpr haccept.2.2⟩
  cases how with
  | block => exact free_or.mpr ⟨hmask, hnew⟩
  | unblock =>
    simp only [Free, How.mask, has_and (show SIGKILL < 32 by decide),
      has_and (show SIGSTOP < 32 by decide), hmask.1, hmask.2, Bool.false_and, and_self]
  | setmask => exact hnew

/-- Raising a signal. -/
theorem raise_free {s : State H} (h : FreeInv s) {sig : Nat} (hsig : sig < 32) :
    Free (raise sig s).1.sigmask ↔ (Executes s sig → Free (s.table sig).mask ∧
      ((s.table sig).flags &&& SA_NODEFER = 0 → sig ≠ SIGKILL ∧ sig ≠ SIGSTOP)) := by
  rcases raise_cases sig s with ⟨hblocked, heq⟩ | ⟨-, hign, heq⟩ | ⟨hexec, table, action, heq⟩
  · rw [heq]
    refine ⟨fun _ hexec => ?_, fun _ => h.mask⟩
    rw [hexec.1] at hblocked
    cases hblocked
  · rw [heq]
    exact ⟨fun _ hexec => absurd hign hexec.2, fun _ => h.mask⟩
  · rw [heq]
    exact (free_actionMask hsig h.mask).trans ⟨fun hfree _ => hfree, fun hfree => hfree hexec⟩

theorem raise_freeInv {s : State H} (h : FreeInv s) {sig : Nat}
    (hfree : Free (raise sig s).1.sigmask) : FreeInv (raise sig s).1 := by
  refine ⟨hfree, ?_⟩
  rcases raise_cases sig s with ⟨-, heq⟩ | ⟨-, -, heq⟩ | ⟨-, table, action, heq⟩
  · rw [heq]
    exact h.saved
  · rw [heq]
    exact h.saved
  · rw [heq]
    intro sig' action' oldmask hmem
    rcases List.mem_cons.mp hmem with hframe | hmem
    · cases hframe
      exact h.mask
    · exact h.saved sig' action' oldmask hmem

/-- Frames that are gone, or that are those of a loop, do not matter. -/
theorem FreeInv.of_stack {s t : State H} (h : FreeInv s) (hmask : t.sigmask = s.sigmask)
    (hstack : ∀ sig action oldmask, Frame.action sig action oldmask ∈ t.stack →
      Frame.action sig action oldmask ∈ s.stack) : FreeInv t :=
  ⟨hmask ▸ h.mask, fun sig action oldmask hmem => h.saved sig action oldmask (hstack _ _ _ hmem)⟩

/-- **One step.** -/
theorem freeStep_spec {s : State H} (h : FreeInv s) (input : Input H) :
    (FreeStep s input ↔ Harmless s input) ∧ (FreeStep s input → FreeInv (sigStep s input).1) := by
  -- a step that raises nothing
  have hquiet : ∀ t : State H, raises s input = none → FreeInv t →
      (Free t.sigmask ↔ Harmless s input) ∧ (Free t.sigmask → FreeInv t) := by
    intro t hraises ht
    refine ⟨⟨fun _ sig hsig => ?_, fun _ => ht.mask⟩, fun _ => ht⟩
    rw [hraises] at hsig
    cases hsig
  rw [FreeStep]
  generalize hs' : (sigStep s input).1 = s'
  generalize hout : (sigStep s input).2 = out
  have hspec := sigStep_spec s input
  rw [hs', hout] at hspec
  cases hspec with
  | table _ hraises => exact hquiet _ hraises ⟨h.mask, h.saved⟩
  | @raise sig _ hlt hraises =>
    refine ⟨(raise_free h hlt).trans ?_, raise_freeInv h⟩
    simp only [Harmless, hraises, Option.some.injEq, forall_eq']
  | @sigprocmask how newset hinput _ haccept =>
    refine hquiet _ (by rw [hinput]; rfl) ⟨free_howMask how h.mask haccept, ?_⟩
    intro sig action oldmask hmem
    simp only [sigprocmask] at hmem
    split at hmem
    · rcases List.mem_cons.mp hmem with hframe | hmem
      · cases hframe
      · exact h.saved sig action oldmask hmem
    · exact h.saved sig action oldmask hmem
  | @finish sig action oldmask rest hstack hraises _ =>
    refine hquiet _ hraises ⟨h.saved sig action oldmask (by rw [hstack]; exact List.mem_cons_self), ?_⟩
    intro sig' action' oldmask' hmem
    exact h.saved sig' action' oldmask' (by rw [hstack]; exact List.mem_cons_of_mem _ hmem)
  | @skip ps i rest hstack _ _ hraises =>
    refine hquiet _ hraises (h.of_stack rfl ?_)
    intro sig action oldmask hmem
    rw [hstack]
    simpa using hmem
  | @drain ps i rest t hstack hlt _ hraises _ ht =>
    have ht' : FreeInv t := by
      refine h.of_stack (by rw [ht]) ?_
      intro sig action oldmask hmem
      rw [ht] at hmem
      rw [hstack]
      simpa using hmem
    refine ⟨(raise_free ht' (by simp only [NSIG] at hlt; omega)).trans ?_, raise_freeInv ht'⟩
    simp only [Harmless, hraises, Option.some.injEq, forall_eq', ht, Executes]
  | @drained ps i rest hstack _ hraises =>
    refine hquiet _ hraises (h.of_stack rfl ?_)
    intro sig action oldmask hmem
    rw [hstack]
    exact List.mem_cons_of_mem _ hmem

/-- **The mask stays free exactly if every action that is executed is harmless.** -/
theorem sigmask_free_iff (inputs : List (Input H)) :
    sigMachine.Along FreeStep init inputs ↔ sigMachine.Along Harmless init inputs := by
  apply Machine.along_iff (I := FreeInv)
  · exact fun s input h => (freeStep_spec h input).1
  · intro s input s' out h hharmless hstep
    have hs' : (sigStep s input).1 = s' := congrArg Prod.fst (Option.some.inj hstep)
    obtain ⟨hiff, hkeep⟩ := freeStep_spec h input
    rw [← hs']
    exact hkeep (hiff.mpr hharmless)
  · exact ⟨⟨has_zero _, has_zero _⟩, fun _ _ _ hmem => by cases hmem⟩

/-- A handler for `SIGUSR1` with `SIGKILL` in its `sa_mask`. -/
theorem not_sigmask_free : ¬ sigMachine.Along FreeStep (init : State Unit)
    [.sigaction 10 (some ⟨.handler (), 0, sigbit SIGKILL⟩), .raise 10] := by
  intro h
  have hfree := (h.2 _ _ rfl).1.1
  cases hfree

end WindowsLibc.Signal
