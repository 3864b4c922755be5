import WindowsLibc.Signal.Thread

/-!
# Pending signals

A signal that is raised while it is blocked becomes pending, and has to be delivered once when it is
unblocked. `wlibc_sigprocmask` raises what it unblocks, from the set that was pending when it was called.

* `Log` counts how often each signal has become pending, and how often it has been delivered because of that.
  To ignore a signal is to deliver it.
* `Delivered` says that these agree, and that a signal that is pending though it is not blocked is about to be
  raised by a call of `wlibc_sigprocmask` that is going on.
* `pending_delivered_iff`: this holds along a run exactly if (1) `wlibc_sigprocmask` never unblocks the last
  signal while it is pending, since its loop does not come to it, (2) the loop never comes to a signal that has
  been delivered in the meantime, by a handler, and (3) no mask is restored behind an action that unblocks a
  pending signal, since nothing raises it.
-/

namespace WindowsLibc.Signal

open WindowsLibc.Lib

variable {H : Type*}

structure Log where
  became : Nat → Nat
  delivered : Nat → Nat

/-- Count one more. -/
def bump (count : Nat → Nat) (sig : Nat) : Nat → Nat := Function.update count sig (count sig + 1)

/-- What has happened, put down; `pending` is the set before the step. The loop takes a signal out of it before
it raises it. -/
def Log.absorb (log : Log) (pending : SigSet) : Out → Log
  | .raised drained sig .blocked =>
    if drained = true ∨ has pending sig = false then { log with became := bump log.became sig } else log
  | .raised true sig _ => { log with delivered := bump log.delivered sig }
  | _ => log

def logMachine : Machine (State H × Log) (Input H) Out where
  step := fun c input =>
    let r := sigStep c.1 input
    some ((r.1, c.2.absorb c.1.pending r.2), r.2)

def logInit : State H × Log := (init, ⟨fun _ => 0, fun _ => 0⟩)

/-- A loop that is going on comes to the signal. -/
def Awaited (stack : List (Frame H)) (sig : Nat) : Prop :=
  ∃ ps i, Frame.drain ps i ∈ stack ∧ i ≤ sig ∧ sig < NSIG - 1 ∧ has ps sig = true

/-- A number of a signal. -/
def IsSignal (sig : Nat) : Prop := 0 < sig ∧ sig < NSIG

instance (sig : Nat) : Decidable (IsSignal sig) := inferInstanceAs (Decidable (_ ∧ _))

structure Delivered (c : State H × Log) : Prop where
  once : ∀ sig, IsSignal sig →
    c.2.became sig = c.2.delivered sig + if has c.1.pending sig then 1 else 0
  soon : ∀ sig, IsSignal sig → has c.1.pending sig = true → has c.1.sigmask sig = false →
    Awaited c.1.stack sig
  outside : c.1.stack = [] → ∀ sig, IsSignal sig →
    ¬ (has c.1.pending sig = true ∧ has c.1.sigmask sig = false)

/-- Everything is as it should be behind the step. -/
def DeliveredStep (c : State H × Log) (input : Input H) : Prop :=
  ∀ c' out, logMachine.step c input = some (c', out) → Delivered c'

/-- The three ways to go wrong. -/
structure Prompt (c : State H × Log) (input : Input H) : Prop where
  unblocks : ∀ how newset, input = .sigprocmask (some how) (some newset) → c.1.inUserCode = true →
    acceptable newset → has (unblocked c.1 (how.mask c.1.sigmask newset)) (NSIG - 1) = false
  drains : ∀ sig, drains c.1 input = some sig → has c.1.pending sig = true
  restores : ∀ oldmask rest, restores c.1 input = some (oldmask, rest) → ∀ sig, IsSignal sig →
    has c.1.pending sig = true → has oldmask sig = false → Awaited rest sig

/-! ## Stacks -/

/-- What a loop is still to raise is not blocked where the loop goes on. It starts at 1. -/
def Levels : SigSet → List (Frame H) → Prop
  | _, [] => True
  | _, .action _ _ oldmask :: rest => Levels oldmask rest
  | mask, .drain ps i :: rest =>
    0 < i ∧ (∀ sig, i ≤ sig → sig < NSIG → has ps sig = true → has mask sig = false) ∧ Levels mask rest

/-- The code of the user may change the mask. -/
theorem Levels.of_inUserCode {s : State H} {mask mask' : SigSet} (huser : s.inUserCode = true)
    (h : Levels mask s.stack) : Levels mask' s.stack := by
  cases hstack : s.stack with
  | nil => trivial
  | cons frame rest =>
    cases frame with
    | drain ps i => simp [State.inUserCode, hstack] at huser
    | action sig action oldmask =>
      rw [hstack] at h
      exact h

theorem Awaited.mono {stack stack' : List (Frame H)} {sig : Nat} (h : Awaited stack sig)
    (hsub : ∀ ps i, Frame.drain ps i ∈ stack → Frame.drain ps i ∈ stack') : Awaited stack' sig := by
  obtain ⟨ps, i, hmem, hrest⟩ := h
  exact ⟨ps, i, hsub ps i hmem, hrest⟩

theorem not_awaited_nil {sig : Nat} : ¬ Awaited ([] : List (Frame H)) sig := by
  rintro ⟨_, _, hmem, -⟩
  cases hmem

/-- The loop goes on by one signal. -/
theorem Awaited.next {ps : SigSet} {i sig : Nat} {rest : List (Frame H)}
    (h : Awaited (.drain ps i :: rest) sig) (hsig : has ps i = true → sig ≠ i) :
    Awaited (.drain ps (i + 1) :: rest) sig := by
  obtain ⟨ps', i', hmem, hle, hlt, hhas⟩ := h
  rcases List.mem_cons.mp hmem with hframe | hmem
  · cases hframe
    have hne : sig ≠ i := by
      rintro rfl
      exact hsig hhas rfl
    exact ⟨ps, i + 1, List.mem_cons_self, by omega, hlt, hhas⟩
  · exact ⟨ps', i', List.mem_cons_of_mem _ hmem, hle, hlt, hhas⟩

/-! ## Invariant -/

structure PendingInv (c : State H × Log) : Prop extends Delivered c where
  levels : Levels c.1.sigmask c.1.stack

theorem Delivered.of_soon {c : State H × Log}
    (once : ∀ sig, IsSignal sig →
      c.2.became sig = c.2.delivered sig + if has c.1.pending sig then 1 else 0)
    (soon : ∀ sig, IsSignal sig → has c.1.pending sig = true → has c.1.sigmask sig = false →
      Awaited c.1.stack sig) : Delivered c := by
  refine ⟨once, soon, fun hstack sig hsig ⟨hpending, hmask⟩ => ?_⟩
  have hawaited := soon sig hsig hpending hmask
  rw [hstack] at hawaited
  exact not_awaited_nil hawaited

variable {s : State H} {log : Log}

theorem IsSignal.lt {sig : Nat} (h : IsSignal sig) : sig < 32 := h.2

/-- The mask during an action blocks what was blocked before. -/
theorem has_actionMask {sig i : Nat} (hi : i < 32) (h : has (actionMask s sig) i = false) :
    has s.sigmask i = false := by
  have hor : ∀ a b : SigSet, has (a ||| b) i = false → has a i = false := by
    intro a b hab
    rw [has_or hi, Bool.or_eq_false_iff] at hab
    exact hab.1
  by_cases hdefer : (s.table sig).flags &&& SA_NODEFER = 0
  · have heq : actionMask s sig = s.sigmask ||| (s.table sig).mask ||| sigbit sig := if_pos hdefer
    rw [heq] at h
    exact hor _ _ (hor _ _ h)
  · have heq : actionMask s sig = s.sigmask ||| (s.table sig).mask := if_neg hdefer
    rw [heq] at h
    exact hor _ _ h

/-- A signal is raised that is not blocked. -/
theorem raise_unblocked {sig : Nat} (hmask : has s.sigmask sig = false)
    (hsoon : ∀ i, IsSignal i → has s.pending i = true → has s.sigmask i = false → Awaited s.stack i)
    (hlevels : Levels s.sigmask s.stack) :
    (raise sig s).2 ≠ .blocked ∧ (raise sig s).1.pending = s.pending ∧
      (∀ i, IsSignal i → has s.pending i = true → has (raise sig s).1.sigmask i = false →
        Awaited (raise sig s).1.stack i) ∧
      Levels (raise sig s).1.sigmask (raise sig s).1.stack := by
  rcases raise_cases sig s with ⟨hblocked, -⟩ | ⟨-, -, heq⟩ | ⟨-, table, action, heq⟩
  · rw [hmask] at hblocked
    cases hblocked
  · rw [heq]
    exact ⟨by simp, rfl, hsoon, hlevels⟩
  · rw [heq]
    refine ⟨by simp, rfl, fun i hi hpending hmask' => ?_, hlevels⟩
    exact (hsoon i hi hpending (has_actionMask hi.lt hmask')).mono
      fun ps i hmem => List.mem_cons_of_mem _ hmem

/-! ## Steps -/

theorem PendingInv.raise (h : PendingInv (s, log)) {sig : Nat} (hsig : IsSignal sig) :
    PendingInv ((raise sig s).1, log.absorb s.pending (.raised false sig (raise sig s).2)) := by
  cases hmask : has s.sigmask sig with
  | false =>
    obtain ⟨hout, hpending, hsoon, hlevels⟩ := raise_unblocked hmask h.soon h.levels
    have habsorb : log.absorb s.pending (.raised false sig (Signal.raise sig s).2) = log := by
      cases hcase : (Signal.raise sig s).2 with
      | blocked => exact absurd hcase hout
      | ignored => rfl
      | executed => rfl
    refine ⟨.of_soon (fun i hi => ?_) (fun i hi hi' => ?_), hlevels⟩
    · rw [habsorb]
      simp only [hpending]
      exact h.once i hi
    · exact hsoon i hi (hpending ▸ hi')
  | true =>
    have heq : Signal.raise sig s = ({ s with pending := s.pending ||| sigbit sig }, .blocked) := by
      rw [Signal.raise, if_pos hmask]
    rw [heq]
    have hor : ∀ i, IsSignal i → has (s.pending ||| sigbit sig) i = (has s.pending i || decide (i = sig)) :=
      fun i hi => by rw [has_or hi.lt, has_sigbit hsig.lt hi.lt]
    refine ⟨.of_soon (fun i hi => ?_) (fun i hi hi' hmask' => ?_), h.levels⟩
    · have honce := h.once i hi
      simp only [hor i hi]
      by_cases hi' : i = sig
      · subst hi'
        cases hbefore : has s.pending i with
        | true =>
          rw [hbefore] at honce
          simpa [Log.absorb, hbefore] using honce
        | false =>
          rw [hbefore] at honce
          simp [Log.absorb, hbefore, bump]
          simpa using honce
      · have habsorb : (log.absorb s.pending (.raised false sig .blocked)).became i = log.became i := by
          rw [Log.absorb]
          split
          · simp [bump, hi']
          · rfl
        have hdelivered : (log.absorb s.pending (.raised false sig .blocked)).delivered = log.delivered := by
          rw [Log.absorb]
          split <;> rfl
        rw [habsorb, hdelivered]
        simpa [hi'] using honce
    · rw [hor i hi] at hi'
      by_cases heq' : i = sig
      · subst heq'
        rw [hmask] at hmask'
        cases hmask'
      · simp only [heq', decide_false, Bool.or_false] at hi'
        exact h.soon i hi hi' hmask'

theorem PendingInv.sigprocmask (h : PendingInv (s, log)) (huser : s.inUserCode = true) (how : How)
    (newset : SigSet) (hlast : has (unblocked s (how.mask s.sigmask newset)) (NSIG - 1) = false) :
    PendingInv (sigprocmask how newset s, log) := by
  -- what has been pending and blocked, and is not blocked any more
  have hunblocked : ∀ i, IsSignal i → has s.pending i = true → has s.sigmask i = true →
      has (how.mask s.sigmask newset) i = false →
        has (unblocked s (how.mask s.sigmask newset)) i = true := by
    intro i hi hpending hold hnew
    rw [unblocked, has_and hi.lt, has_and hi.lt, has_not hi.lt, hpending, hold, hnew]
    rfl
  have hblocked : ∀ i, i < NSIG → has (unblocked s (how.mask s.sigmask newset)) i = true →
      has (how.mask s.sigmask newset) i = false := by
    intro i hi hhas
    rw [unblocked, has_and hi, has_and hi, has_not hi] at hhas
    simp only [Bool.and_eq_true, Bool.not_eq_true'] at hhas
    exact hhas.2.2
  refine ⟨.of_soon h.once fun i hi hpending hnew => ?_, ?_⟩
  · simp only [Signal.sigprocmask] at hpending hnew ⊢
    cases hold : has s.sigmask i with
    | true =>
      have hhas := hunblocked i hi hpending hold hnew
      have hne : i ≠ NSIG - 1 := by
        rintro rfl
        rw [hlast] at hhas
        cases hhas
      have hlt : i < NSIG - 1 := by
        have hi' := hi.2
        simp only [NSIG] at hi' hne ⊢
        omega
      rw [if_pos (ne_zero_of_has hhas)]
      exact ⟨_, 1, List.mem_cons_self, hi.1, hlt, hhas⟩
    | false =>
      have hawaited := h.soon i hi hpending hold
      split
      · exact hawaited.mono fun ps i hmem => List.mem_cons_of_mem _ hmem
      · exact hawaited
  · simp only [Signal.sigprocmask]
    split
    · exact ⟨Nat.one_pos, fun sig _ hlt hhas => hblocked sig hlt hhas, h.levels.of_inUserCode huser⟩
    · exact h.levels.of_inUserCode huser

theorem PendingInv.finish (h : PendingInv (s, log)) {sig : Nat} {action : Action H} {oldmask : SigSet}
    {rest : List (Frame H)} (hstack : s.stack = .action sig action oldmask :: rest)
    (hrestores : ∀ i, IsSignal i → has s.pending i = true → has oldmask i = false → Awaited rest i) :
    PendingInv (finish oldmask rest s, log) := by
  have hlevels := h.levels
  rw [hstack] at hlevels
  exact ⟨.of_soon h.once hrestores, hlevels⟩

theorem PendingInv.skip (h : PendingInv (s, log)) {ps : SigSet} {i : Nat} {rest : List (Frame H)}
    (hstack : s.stack = .drain ps i :: rest) (hnot : has ps i = false) :
    PendingInv ({ s with stack := .drain ps (i + 1) :: rest }, log) := by
  have hlevels := h.levels
  rw [hstack] at hlevels
  refine ⟨.of_soon h.once fun sig hsig hpending hmask => ?_,
    Nat.succ_pos i, fun sig hle hlt hhas => hlevels.2.1 sig (by omega) hlt hhas, hlevels.2.2⟩
  have hawaited := h.soon sig hsig hpending hmask
  rw [hstack] at hawaited
  refine hawaited.next fun hhas => ?_
  rw [hnot] at hhas
  cases hhas

theorem PendingInv.drained (h : PendingInv (s, log)) {ps : SigSet} {i : Nat} {rest : List (Frame H)}
    (hstack : s.stack = .drain ps i :: rest) (hge : NSIG - 1 ≤ i) :
    PendingInv ({ s with stack := rest }, log) := by
  have hlevels := h.levels
  rw [hstack] at hlevels
  refine ⟨.of_soon h.once fun sig hsig hpending hmask => ?_, hlevels.2.2⟩
  obtain ⟨ps', i', hmem, hle, hlt, hhas⟩ := h.soon sig hsig hpending hmask
  rw [hstack] at hmem
  rcases List.mem_cons.mp hmem with hframe | hmem
  · cases hframe
    omega
  · exact ⟨ps', i', hmem, hle, hlt, hhas⟩

/-- The loop raises a signal: it is not blocked there, so that this delivers it. -/
theorem PendingInv.drain_spec (h : PendingInv (s, log)) {ps : SigSet} {i : Nat} {rest : List (Frame H)}
    {t : State H} (hstack : s.stack = .drain ps i :: rest) (hlt : i < NSIG - 1) (hhas : has ps i = true)
    (ht : t = { s with
      pending := s.pending &&& ~~~sigbit i
      stack := .drain ps (i + 1) :: rest }) :
    log.absorb s.pending (.raised true i (Signal.raise i t).2) =
        { log with delivered := bump log.delivered i } ∧
      (Signal.raise i t).1.pending = s.pending &&& ~~~sigbit i ∧
      (∀ sig, IsSignal sig → has (s.pending &&& ~~~sigbit i) sig = true →
        has (Signal.raise i t).1.sigmask sig = false → Awaited (Signal.raise i t).1.stack sig) ∧
      Levels (Signal.raise i t).1.sigmask (Signal.raise i t).1.stack := by
  have hlt' : i < 32 := by
    simp only [NSIG] at hlt
    omega
  have hlevels := h.levels
  rw [hstack] at hlevels
  have hmask : has t.sigmask i = false := by
    rw [ht]
    exact hlevels.2.1 i (Nat.le_refl i) hlt' hhas
  have hsoon : ∀ sig, IsSignal sig → has t.pending sig = true → has t.sigmask sig = false →
      Awaited t.stack sig := by
    intro sig hsig hpending hmask'
    rw [ht] at hpending hmask' ⊢
    simp only [has_and hsig.lt, has_not hsig.lt, has_sigbit hlt' hsig.lt, Bool.and_eq_true,
      Bool.not_eq_true', decide_eq_false_iff_not] at hpending
    have hawaited := h.soon sig hsig hpending.1 hmask'
    rw [hstack] at hawaited
    exact hawaited.next fun _ => hpending.2
  have hlevels' : Levels t.sigmask t.stack := by
    rw [ht]
    exact ⟨Nat.succ_pos i, fun sig hle hlt hhas => hlevels.2.1 sig (by omega) hlt hhas, hlevels.2.2⟩
  obtain ⟨hout, hpending, hsoon', hlevels''⟩ := raise_unblocked hmask hsoon hlevels'
  have hpending' : t.pending = s.pending &&& ~~~sigbit i := by rw [ht]
  rw [hpending'] at hpending hsoon'
  refine ⟨?_, hpending, hsoon', hlevels''⟩
  cases hcase : (Signal.raise i t).2 with
  | blocked => exact absurd hcase hout
  | ignored => rfl
  | executed => rfl

/-- The counts agree behind it exactly if the signal was still pending. -/
theorem PendingInv.drain (h : PendingInv (s, log)) {ps : SigSet} {i : Nat} {rest : List (Frame H)}
    {t : State H} (hstack : s.stack = .drain ps i :: rest) (hlt : i < NSIG - 1) (hhas : has ps i = true)
    (ht : t = { s with
      pending := s.pending &&& ~~~sigbit i
      stack := .drain ps (i + 1) :: rest }) (hpending : has s.pending i = true) :
    PendingInv ((Signal.raise i t).1, log.absorb s.pending (.raised true i (Signal.raise i t).2)) := by
  have hlt' : i < 32 := by
    simp only [NSIG] at hlt
    omega
  obtain ⟨habsorb, hpending', hsoon, hlevels⟩ := h.drain_spec hstack hlt hhas ht
  refine ⟨.of_soon (fun sig hsig => ?_) (fun sig hsig hsig' => hsoon sig hsig (hpending' ▸ hsig')), hlevels⟩
  have honce := h.once sig hsig
  rw [habsorb]
  simp only [hpending', has_and hsig.lt, has_not hsig.lt, has_sigbit hlt' hsig.lt]
  by_cases heq : sig = i
  · subst heq
    rw [hpending] at honce
    simpa [bump] using honce
  · simpa [bump, heq] using honce

/-- **One step.** Where it is prompt, it keeps the invariant. -/
theorem PendingInv.step (h : PendingInv (s, log)) {input : Input H} (hprompt : Prompt (s, log) input) :
    PendingInv ((sigStep s input).1, log.absorb s.pending (sigStep s input).2) := by
  generalize hs' : (sigStep s input).1 = s'
  generalize hout : (sigStep s input).2 = out
  have hspec := sigStep_spec s input
  rw [hs', hout] at hspec
  cases hspec with
  | table hout _ =>
    rcases hout with rfl | rfl
    · exact ⟨⟨h.once, h.soon, h.outside⟩, h.levels⟩
    · exact ⟨⟨h.once, h.soon, h.outside⟩, h.levels⟩
  | raise hpos hlt _ => exact h.raise ⟨hpos, hlt⟩
  | sigprocmask hinput huser haccept =>
    exact h.sigprocmask huser _ _ (hprompt.unblocks _ _ hinput huser haccept)
  | finish hstack _ hrestores => exact h.finish hstack (hprompt.restores _ _ hrestores)
  | skip hstack _ hnot _ => exact h.skip hstack hnot
  | drain hstack hlt hhas _ hdrains ht => exact h.drain hstack hlt hhas ht (hprompt.drains _ hdrains)
  | drained hstack hge _ => exact h.drained hstack hge

/-- Where it is not, something goes wrong. -/
theorem PendingInv.prompt_of_delivered (h : PendingInv (s, log)) {input : Input H}
    (hstep : Delivered ((sigStep s input).1, log.absorb s.pending (sigStep s input).2)) :
    Prompt (s, log) input := by
  constructor
  · rintro how newset rfl huser haccept
    change s.inUserCode = true at huser
    have heq : sigStep s (.sigprocmask (some how) (some newset)) = (Signal.sigprocmask how newset s, .done) := by
      simp only [sigStep, huser, call, if_pos haccept]
      rfl
    rw [heq] at hstep
    rw [Bool.eq_false_iff]
    intro hhas
    -- the last signal is pending and not blocked, and the loop does not come to it
    have hlast : NSIG - 1 < 32 := by decide
    have hsignal : IsSignal (NSIG - 1) := by decide
    simp only [unblocked, has_and hlast, has_not hlast, Bool.and_eq_true, Bool.not_eq_true'] at hhas
    obtain ⟨_, _, -, -, hlt, -⟩ := hstep.soon (NSIG - 1) hsignal hhas.1 hhas.2.2
    exact absurd hlt (Nat.lt_irrefl _)
  · intro i hdrains
    obtain ⟨ps, rest, t, hstack, hlt, hhas, ht, heq⟩ := drains_spec hdrains
    obtain ⟨habsorb, hpending, -, -⟩ := h.drain_spec hstack hlt hhas ht
    rw [heq] at hstep
    by_contra hnot
    rw [Bool.not_eq_true] at hnot
    have hlevels := h.levels
    rw [hstack] at hlevels
    have hlt' : i < 32 := by
      simp only [NSIG] at hlt
      omega
    -- one delivery too many
    have honce := h.once i ⟨hlevels.1, hlt'⟩
    have honce' := hstep.once i ⟨hlevels.1, hlt'⟩
    rw [habsorb] at honce'
    simp only [hpending, has_and hlt', hnot, Bool.false_and, bump, Function.update_self] at honce honce'
    simp only [Bool.false_eq_true, if_false, Nat.add_zero] at honce honce'
    omega
  · intro oldmask rest hrestores
    rw [restores_spec hrestores] at hstep
    exact hstep.soon

/-- **Signals are delivered exactly if all steps are prompt.** -/
theorem pending_delivered_iff (inputs : List (Input H)) :
    logMachine.Along DeliveredStep logInit inputs ↔ logMachine.Along Prompt logInit inputs := by
  have hstep : ∀ (c : State H × Log) (input : Input H), DeliveredStep c input ↔
      Delivered ((sigStep c.1 input).1, c.2.absorb c.1.pending (sigStep c.1 input).2) := by
    intro c input
    constructor
    · exact fun h => h _ _ rfl
    · rintro h _ _ ⟨⟩
      exact h
  apply Machine.along_iff (I := PendingInv)
  · rintro ⟨s, log⟩ input h
    rw [hstep]
    exact ⟨h.prompt_of_delivered, fun hprompt => (h.step hprompt).toDelivered⟩
  · rintro ⟨s, log⟩ input _ _ h hprompt ⟨⟩
    exact h.step hprompt
  · refine ⟨.of_soon (fun sig _ => ?_) (fun sig _ hpending => ?_), trivial⟩
    · rw [logInit, init, has_zero]
      rfl
    · rw [logInit, init, has_zero] at hpending
      cases hpending

/-- A handler for `SIGUSR1` with `SIGUSR2` in its `sa_mask` raises the latter. -/
theorem not_pending_delivered : ¬ logMachine.Along DeliveredStep (logInit : State Unit × Log)
    [.sigaction 10 (some ⟨.handler (), 0, sigbit 12⟩), .raise 10, .raise 12, .ret] := by
  intro h
  have hdelivered := (h.2 _ _ rfl).2 _ _ rfl |>.2 _ _ rfl |>.1 _ _ rfl
  exact hdelivered.outside rfl 12 (by decide) (by decide)

end WindowsLibc.Signal
