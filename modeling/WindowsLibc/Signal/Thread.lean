import Mathlib.Logic.Function.Basic
import WindowsLibc.Lib.Machine
import Mathlib.Data.BitVec

/-!
# Signals of one thread (`signal/raise.c`, `signal/sigprocmask.c`, `signal/sigaction.c`)

A thread has a mask of blocked signals and a set of pending ones. Handlers are code of the user and may call
everything again, so what the thread is in the middle of is a stack.

* `Frame.action` is a call of `wlibc_raise` that executes an action. The mask is restored behind it.
* `Frame.drain` is a call of `wlibc_sigprocmask` in the loop that raises what it has unblocked.
* The code of the user runs if the stack is empty or a handler is on top of it. Otherwise the library goes on,
  a `tick` at a time: the loop, and default actions.
-/

namespace WindowsLibc.Signal

open WindowsLibc.Lib

/-- `sigset_t`. -/
abbrev SigSet := BitVec 32

def NSIG : Nat := 32
def SIGKILL : Nat := 9
def SIGSTOP : Nat := 22

def SA_NODEFER : BitVec 32 := 0x04
def SA_RESETHAND : BitVec 32 := 0x10

/-- `1u << sig`. -/
def sigbit (sig : Nat) : SigSet := 1#32 <<< sig

/-- `set & (1u << sig)`. -/
def has (set : SigSet) (sig : Nat) : Bool := set &&& sigbit sig ≠ 0

/-- `SIG_DFL`, `SIG_IGN` or a function of the user. -/
inductive Action (H : Type*) where
  | dfl
  | ign
  | handler (f : H)

structure SigInfo (H : Type*) where
  action : Action H
  flags : BitVec 32
  mask : SigSet

/-- What the thread is in the middle of. -/
inductive Frame (H : Type*) where
  | action (sig : Nat) (action : Action H) (oldmask : SigSet)
  | drain (pendingSignals : SigSet) (i : Nat)

variable {H : Type*}

structure State (H : Type*) where
  sigmask : SigSet
  pending : SigSet
  /-- `_wlibc_signal_table` -/
  table : Nat → SigInfo H
  stack : List (Frame H)

/-- A table that is zeroed, and a thread that does nothing. -/
def init : State H := ⟨0, 0, fun _ => ⟨.dfl, 0, 0⟩, []⟩

/-- What becomes of a signal that is raised. -/
inductive Outcome where
  | blocked
  | ignored
  | executed

/-- `wlibc_raise` of a valid signal, up to its action. -/
def raise (sig : Nat) (s : State H) : State H × Outcome :=
  let sinfo := s.table sig
  if has s.sigmask sig then ({ s with pending := s.pending ||| sigbit sig }, .blocked)
  else
    match sinfo.action with
    | .ign => (s, .ignored)
    | action =>
      let sigmask := s.sigmask ||| sinfo.mask
      let sigmask := if sinfo.flags &&& SA_NODEFER = 0 then sigmask ||| sigbit sig else sigmask
      let table :=
        if sinfo.flags &&& SA_RESETHAND ≠ 0 then
          Function.update s.table sig { sinfo with action := .dfl }
        else s.table
      ({ s with
          sigmask := sigmask
          table := table
          stack := .action sig action s.sigmask :: s.stack }, .executed)

/-- The default action comes back: the signal is ignored or continues the process, or has stopped it for a
while. The other ones terminate the process. -/
def defaultReturns (sig : Nat) : Bool := sig ∈ [17, 18, 19, 20, 21, 22, 23, 28]

/-- `how`; every other value is an error. -/
inductive How where
  | block
  | unblock
  | setmask

def How.mask : How → SigSet → SigSet → SigSet
  | .block, sigmask, newset => sigmask ||| newset
  | .unblock, sigmask, newset => sigmask &&& ~~~newset
  | .setmask, _, newset => newset

/-- `wlibc_sigprocmask` takes the set. The comparison with `(2u << (NSIG - 1)) - 1` lets everything through,
as the shift leaves nothing. -/
def acceptable (newset : SigSet) : Prop :=
  ¬ (newset > 2#32 <<< (NSIG - 1) - 1 ∨ has newset SIGKILL = true ∨ has newset SIGSTOP = true)

instance (newset : SigSet) : Decidable (acceptable newset) := inferInstanceAs (Decidable (¬ _))

/-- What `wlibc_sigprocmask` finds to raise. -/
def unblocked (s : State H) (newmask : SigSet) : SigSet := s.pending &&& (s.sigmask &&& ~~~newmask)

/-- `wlibc_sigprocmask` up to its loop, for a set it takes. -/
def sigprocmask (how : How) (newset : SigSet) (s : State H) : State H :=
  let newmask := how.mask s.sigmask newset
  let pendingSignals := unblocked s newmask
  { s with
    sigmask := newmask
    stack := if pendingSignals ≠ 0 then .drain pendingSignals 1 :: s.stack else s.stack }

/-- What goes on. The arguments that only ask (`oldset`, `old_action`) are left out. -/
inductive Input (H : Type*) where
  | raise (sig : Int)
  | sigprocmask (how : Option How) (newset : Option SigSet)
  | sigaction (sig : Int) (newAction : Option (SigInfo H))
  /-- The handler on top of the stack returns. -/
  | ret
  /-- The library goes on. -/
  | tick

inductive Out where
  | done
  | einval
  /-- A signal has been raised, by the user or by the loop of `wlibc_sigprocmask`. -/
  | raised (drained : Bool) (sig : Nat) (outcome : Outcome)

/-- `VALIDATE_SIGNAL`. -/
def validSignal (sig : Int) : Prop := ¬ (sig ≤ 0 ∨ sig ≥ NSIG)

instance (sig : Int) : Decidable (validSignal sig) := inferInstanceAs (Decidable (¬ _))

/-- The code of the user is running. -/
def State.inUserCode (s : State H) : Bool :=
  match s.stack with
  | [] => true
  | .action _ (.handler _) _ :: _ => true
  | _ => false

/-- The loop of `wlibc_sigprocmask`. -/
def drainStep (pendingSignals : SigSet) (i : Nat) (rest : List (Frame H)) (s : State H) : State H × Out :=
  if i < NSIG - 1 then
    let s := { s with stack := .drain pendingSignals (i + 1) :: rest }
    if has pendingSignals i then
      let (s, outcome) := raise i { s with pending := s.pending &&& ~~~sigbit i }
      (s, .raised true i outcome)
    else (s, .done)
  else ({ s with stack := rest }, .done)

/-- The end of `wlibc_raise`. -/
def finish (oldmask : SigSet) (rest : List (Frame H)) (s : State H) : State H :=
  { s with sigmask := oldmask, stack := rest }

/-- A call of the user. -/
def call (s : State H) : Input H → State H × Out
  | .raise sig =>
    if validSignal sig then
      let (s, outcome) := raise sig.toNat s
      (s, .raised false sig.toNat outcome)
    else (s, .einval)
  | .sigprocmask none _ => (s, .einval)
  | .sigprocmask (some _) none => (s, .done)
  | .sigprocmask (some how) (some newset) =>
    if acceptable newset then (sigprocmask how newset s, .done) else (s, .einval)
  | .sigaction sig newAction =>
    if validSignal sig then
      match newAction with
      | none => (s, .done)
      | some sinfo =>
        if sig = SIGKILL ∨ sig = SIGSTOP then (s, .einval)
        else ({ s with table := Function.update s.table sig.toNat sinfo }, .done)
    else (s, .einval)
  | .ret =>
    match s.stack with
    | .action _ _ oldmask :: rest => (finish oldmask rest s, .done)
    | _ => (s, .done)
  | .tick => (s, .done)

/-- The library goes on. -/
def tick (s : State H) : State H × Out :=
  match s.stack with
  | .drain pendingSignals i :: rest => drainStep pendingSignals i rest s
  | .action sig .dfl oldmask :: rest =>
    if defaultReturns sig then (finish oldmask rest s, .done) else (s, .done)
  | _ => (s, .done)

/-- One step. What is not the turn of somebody does nothing. -/
def sigStep (s : State H) (input : Input H) : State H × Out :=
  if s.inUserCode then call s input
  else
    match input with
    | .tick => tick s
    | _ => (s, .done)

def sigMachine : Machine (State H) (Input H) Out := ⟨fun s input => some (sigStep s input)⟩

/-! ## Sets of signals -/

theorem getLsbD_sigbit {i j : Nat} (hi : i < 32) : (sigbit i).getLsbD j = decide (j = i) := by
  rw [sigbit, ← BitVec.twoPow_eq, BitVec.getLsbD_twoPow]
  simp [hi, eq_comm]

theorem has_eq {i : Nat} (hi : i < 32) (set : SigSet) : has set i = set.getLsbD i := by
  rw [has, sigbit, ← BitVec.twoPow_eq, BitVec.and_twoPow]
  cases h : set.getLsbD i with
  | false => simp
  | true =>
    rw [if_pos rfl, decide_eq_true_iff]
    intro hzero
    have hbit := congrArg (fun w => BitVec.getLsbD w i) hzero
    simp [hi] at hbit

theorem has_or {i : Nat} (hi : i < 32) (a b : SigSet) : has (a ||| b) i = (has a i || has b i) := by
  simp only [has_eq hi, BitVec.getLsbD_or]

theorem has_and {i : Nat} (hi : i < 32) (a b : SigSet) : has (a &&& b) i = (has a i && has b i) := by
  simp only [has_eq hi, BitVec.getLsbD_and]

theorem has_not {i : Nat} (hi : i < 32) (a : SigSet) : has (~~~a) i = !has a i := by
  rw [has_eq hi, has_eq hi, BitVec.getLsbD_not]
  simp [hi]

theorem has_sigbit {i j : Nat} (hi : i < 32) (hj : j < 32) : has (sigbit i) j = decide (j = i) := by
  rw [has_eq hj, getLsbD_sigbit hi]

theorem has_zero (i : Nat) : has 0 i = false := by simp [has]

/-- A set with a signal is not empty. -/
theorem ne_zero_of_has {set : SigSet} {i : Nat} (h : has set i = true) : set ≠ 0 := by
  rintro rfl
  rw [has_zero] at h
  cases h

/-! ## Raising -/

/-- The signal is raised and its action is to be executed. -/
def Executes (s : State H) (sig : Nat) : Prop :=
  has s.sigmask sig = false ∧ (s.table sig).action ≠ .ign

/-- The mask during the action. -/
def actionMask (s : State H) (sig : Nat) : SigSet :=
  let sinfo := s.table sig
  let sigmask := s.sigmask ||| sinfo.mask
  if sinfo.flags &&& SA_NODEFER = 0 then sigmask ||| sigbit sig else sigmask

/-- **What `raise` can do.** -/
theorem raise_cases (sig : Nat) (s : State H) :
    (has s.sigmask sig = true ∧ raise sig s = ({ s with pending := s.pending ||| sigbit sig }, .blocked)) ∨
    (has s.sigmask sig = false ∧ (s.table sig).action = .ign ∧ raise sig s = (s, .ignored)) ∨
    (Executes s sig ∧ ∃ table action, raise sig s =
      ({ s with
          sigmask := actionMask s sig
          table := table
          stack := .action sig action s.sigmask :: s.stack }, .executed)) := by
  rw [raise]
  cases hmask : has s.sigmask sig with
  | true => exact .inl ⟨rfl, rfl⟩
  | false =>
    right
    cases haction : (s.table sig).action with
    | ign => exact .inl ⟨rfl, rfl, rfl⟩
    | dfl => exact .inr ⟨⟨hmask, by rw [haction]; simp⟩, _, _, rfl⟩
    | handler f => exact .inr ⟨⟨hmask, by rw [haction]; simp⟩, _, _, rfl⟩

/-! ## Steps -/

/-- The signal that a step raises. -/
def raises (s : State H) : Input H → Option Nat
  | .raise sig => if s.inUserCode = true ∧ validSignal sig then some sig.toNat else none
  | .tick =>
    match s.stack with
    | .drain pendingSignals i :: _ => if i < NSIG - 1 ∧ has pendingSignals i = true then some i else none
    | _ => none
  | _ => none

/-- The signal that a step raises from the loop of `wlibc_sigprocmask`. -/
def drains (s : State H) : Input H → Option Nat
  | .tick =>
    match s.stack with
    | .drain pendingSignals i :: _ => if i < NSIG - 1 ∧ has pendingSignals i = true then some i else none
    | _ => none
  | _ => none

/-- The mask that a step restores, with the rest of the stack. -/
def restores (s : State H) : Input H → Option (SigSet × List (Frame H))
  | .ret =>
    match s.stack with
    | .action _ (.handler _) oldmask :: rest => some (oldmask, rest)
    | _ => none
  | .tick =>
    match s.stack with
    | .action sig .dfl oldmask :: rest => if defaultReturns sig then some (oldmask, rest) else none
    | _ => none
  | _ => none

/-- **What a step can do.** -/
inductive StepSpec (s : State H) (input : Input H) : State H → Out → Prop
  /-- At most the table changes. -/
  | table {table : Nat → SigInfo H} {out : Out} (hout : out = .done ∨ out = .einval)
      (hraises : raises s input = none) : StepSpec s input { s with table := table } out
  | raise {sig : Nat} (hpos : 0 < sig) (hlt : sig < NSIG) (hraises : raises s input = some sig) :
      StepSpec s input (raise sig s).1 (.raised false sig (raise sig s).2)
  | sigprocmask {how : How} {newset : SigSet} (hinput : input = .sigprocmask (some how) (some newset))
      (huser : s.inUserCode = true) (haccept : acceptable newset) :
      StepSpec s input (sigprocmask how newset s) .done
  /-- An action is over. -/
  | finish {sig : Nat} {action : Action H} {oldmask : SigSet} {rest : List (Frame H)}
      (hstack : s.stack = .action sig action oldmask :: rest) (hraises : raises s input = none)
      (hrestores : restores s input = some (oldmask, rest)) :
      StepSpec s input (finish oldmask rest s) .done
  /-- The loop passes a signal over. -/
  | skip {pendingSignals : SigSet} {i : Nat} {rest : List (Frame H)}
      (hstack : s.stack = .drain pendingSignals i :: rest) (hlt : i < NSIG - 1)
      (hnot : has pendingSignals i = false) (hraises : raises s input = none) :
      StepSpec s input { s with stack := .drain pendingSignals (i + 1) :: rest } .done
  /-- The loop raises a signal. -/
  | drain {pendingSignals : SigSet} {i : Nat} {rest : List (Frame H)} {t : State H}
      (hstack : s.stack = .drain pendingSignals i :: rest) (hlt : i < NSIG - 1)
      (hhas : has pendingSignals i = true) (hraises : raises s input = some i)
      (hdrains : drains s input = some i)
      (ht : t = { s with
        pending := s.pending &&& ~~~sigbit i
        stack := .drain pendingSignals (i + 1) :: rest }) :
      StepSpec s input (raise i t).1 (.raised true i (raise i t).2)
  /-- The loop is over. -/
  | drained {pendingSignals : SigSet} {i : Nat} {rest : List (Frame H)}
      (hstack : s.stack = .drain pendingSignals i :: rest) (hge : NSIG - 1 ≤ i)
      (hraises : raises s input = none) : StepSpec s input { s with stack := rest } .done

theorem StepSpec.same {s : State H} {input : Input H} {out : Out} (hout : out = .done ∨ out = .einval)
    (hraises : raises s input = none) : StepSpec s input s out :=
  @StepSpec.table _ _ _ s.table _ hout hraises

theorem call_spec {s : State H} (huser : s.inUserCode = true) (input : Input H) :
    StepSpec s input (call s input).1 (call s input).2 := by
  cases input with
  | raise sig =>
    rw [call]
    by_cases hvalid : validSignal sig
    · rw [if_pos hvalid]
      have hraises : raises s (.raise sig) = some sig.toNat := if_pos ⟨huser, hvalid⟩
      simp only [validSignal, NSIG] at hvalid
      exact .raise (by omega) (by simp only [NSIG]; omega) hraises
    · rw [if_neg hvalid]
      exact .same (.inr rfl) (if_neg fun h => hvalid h.2)
  | sigprocmask how newset =>
    cases how with
    | none => exact .same (.inr rfl) rfl
    | some how =>
      cases newset with
      | none => exact .same (.inl rfl) rfl
      | some newset =>
        rw [call]
        by_cases haccept : acceptable newset
        · rw [if_pos haccept]
          exact .sigprocmask rfl huser haccept
        · rw [if_neg haccept]
          exact .same (.inr rfl) rfl
  | sigaction sig newAction =>
    by_cases hvalid : validSignal sig
    · cases newAction with
      | none =>
        simp only [call, if_pos hvalid]
        exact .same (.inl rfl) rfl
      | some sinfo =>
        simp only [call, if_pos hvalid]
        split
        · exact .same (.inr rfl) rfl
        · exact .table (.inl rfl) rfl
    · simp only [call, if_neg hvalid]
      exact .same (.inr rfl) rfl
  | ret =>
    cases hstack : s.stack with
    | nil =>
      simp only [call, hstack]
      exact .same (.inl rfl) rfl
    | cons frame rest =>
      -- only the frame of a handler is code of the user
      cases frame with
      | drain ps i => simp [State.inUserCode, hstack] at huser
      | action sig action oldmask =>
        cases action with
        | dfl => simp [State.inUserCode, hstack] at huser
        | ign => simp [State.inUserCode, hstack] at huser
        | handler f =>
          simp only [call, hstack]
          exact .finish hstack rfl (by simp only [restores, hstack])
  | tick =>
    refine .same (.inl rfl) ?_
    rw [State.inUserCode] at huser
    rw [raises]
    split
    · next hstack =>
      rw [hstack] at huser
      cases huser
    · rfl

theorem tick_spec (s : State H) : StepSpec s .tick (tick s).1 (tick s).2 := by
  rw [tick]
  split
  · next ps i rest hstack =>
    rw [drainStep]
    by_cases hlt : i < NSIG - 1
    · rw [if_pos hlt]
      cases hhas : has ps i with
      | true =>
        exact .drain hstack hlt hhas (by simp only [raises, hstack, hlt, hhas]; rfl)
          (by simp only [drains, hstack, hlt, hhas]; rfl) rfl
      | false => exact .skip hstack hlt hhas (by simp [raises, hstack, hhas])
    · rw [if_neg hlt]
      exact .drained hstack (Nat.le_of_not_lt hlt) (by simp [raises, hstack, hlt])
  · next hstack =>
    split
    · next hreturns =>
      exact .finish hstack (by simp only [raises, hstack])
        (by simp only [restores, hstack, hreturns]; rfl)
    · exact .same (.inl rfl) (by simp only [raises, hstack])
  · next hdrain _ =>
    refine .same (.inl rfl) ?_
    rw [raises]
    split
    · next hstack => exact absurd hstack (hdrain _ _ _)
    · rfl

theorem sigStep_spec (s : State H) (input : Input H) :
    StepSpec s input (sigStep s input).1 (sigStep s input).2 := by
  cases huser : s.inUserCode with
  | true =>
    simp only [sigStep, huser]
    exact call_spec huser input
  | false =>
    cases input with
    | tick =>
      simp only [sigStep, huser]
      exact tick_spec s
    | raise sig =>
      simp only [sigStep, huser]
      exact .same (.inl rfl) (if_neg fun h => by rw [huser] at h; cases h.1)
    | _ =>
      simp only [sigStep, huser]
      exact .same (.inl rfl) rfl

/-- The step behind `drains`. -/
theorem drains_spec {s : State H} {input : Input H} {i : Nat} (h : drains s input = some i) :
    ∃ ps rest t, s.stack = .drain ps i :: rest ∧ i < NSIG - 1 ∧ has ps i = true ∧
      t = { s with
        pending := s.pending &&& ~~~sigbit i
        stack := .drain ps (i + 1) :: rest } ∧
      sigStep s input = ((raise i t).1, .raised true i (raise i t).2) := by
  cases input with
  | tick =>
    rw [drains] at h
    split at h
    · next ps j rest hstack =>
      split at h
      · next hj =>
        cases h
        have huser : s.inUserCode = false := by simp [State.inUserCode, hstack]
        refine ⟨ps, rest, _, hstack, hj.1, hj.2, rfl, ?_⟩
        simp only [sigStep, huser, tick, hstack, drainStep, if_pos hj.1, if_pos hj.2]
        rfl
      · cases h
    · cases h
  | _ => cases h

/-- The step behind `restores`. -/
theorem restores_spec {s : State H} {input : Input H} {oldmask : SigSet} {rest : List (Frame H)}
    (h : restores s input = some (oldmask, rest)) : sigStep s input = (finish oldmask rest s, .done) := by
  cases input with
  | ret =>
    rw [restores] at h
    split at h
    · next hstack =>
      cases h
      have huser : s.inUserCode = true := by simp [State.inUserCode, hstack]
      simp only [sigStep, huser, call, hstack]
      rfl
    · cases h
  | tick =>
    rw [restores] at h
    split at h
    · next hstack =>
      split at h
      · next hreturns =>
        cases h
        have huser : s.inUserCode = false := by simp [State.inUserCode, hstack]
        simp only [sigStep, huser, tick, hstack, if_pos hreturns]
        rfl
      · cases h
    · cases h
  | _ => cases h

end WindowsLibc.Signal
