import Mathlib.Logic.Function.Basic
import WindowsLibc.Lib.Machine

/-!
# The life of a thread (`thread/thread.c`)

`thread_create` allocates a `threadinfo` and opens a handle to the thread. `join` waits for the thread, closes the
handle and frees the block; `detach` closes the handle and puts 0 for it. The kernel gives a handle that has been
closed to the next one who opens something.

* `Process` has the blocks, the kernel's handles, and the calls that are in progress. A step is a piece of a call
  between two accesses to the block or the kernel, so calls of different threads are interleaved. An access to a
  block that has been freed is a fault, `none`.
* `Registry` has the threads, and who may do what with them. It has neither blocks nor handles.
-/

namespace WindowsLibc.Thread.Lifecycle

open WindowsLibc.Lib

variable {V : Type*}

/-! ## The process -/

/-- `threadinfo`: the handle, 0 if there is none, and the result, `none` for NULL. -/
structure ThreadInfo (V : Type*) where
  handle : Nat
  result : Option V

/-- What the kernel knows of a thread. -/
inductive Stage where
  | suspended
  | running
  /-- In the cleanup, with a result. -/
  | exiting
  | ended
  deriving DecidableEq

/-- How long `common_thread_join` waits. -/
inductive Wait where
  | infinite
  | immediate
  | deadline
  deriving DecidableEq

/-- The time of a join: NULL waits, and a time without seconds or without nanoseconds does not. -/
def waitOf : Option (Int × Int) → Wait
  | none => .infinite
  | some (sec, nsec) => if sec ≠ 0 ∧ nsec ≠ 0 then .deadline else .immediate

/-- What is left of a call. -/
inductive Call where
  | idle
  /-- `thread_create`, before `NtResumeThread(thread_handle)`. -/
  | resuming (t handle : Nat) (detach : Bool)
  /-- Before `NtClose(thread_handle)`. -/
  | closing (t handle : Nat)
  /-- Before `tinfo->handle = 0`, here and in `thread_detach`. -/
  | forgetting (t : Nat)
  /-- `thread_detach`, before `NtClose(tinfo->handle)`. -/
  | detaching (t : Nat)
  /-- `common_thread_join`, in `NtWaitForSingleObject` for the thread `object`. -/
  | waiting (t object : Nat) (wait : Wait)
  /-- Before `NtClose(tinfo->handle)`. -/
  | leaving (t : Nat)
  /-- Before `RtlFreeHeap`. -/
  | freeing (t : Nat)

/-- Thread 0 is the main thread. From `limit` on no handle has been given. -/
structure Process (V : Type*) where
  count : Nat
  stage : Nat → Stage
  info : Nat → Option (ThreadInfo V)
  handles : Nat → Option Nat
  limit : Nat
  call : Nat → Call

/-- What is done with the handle of a thread. -/
inductive Act where
  /-- `thread_kill` and `thread_cancel`. -/
  | queue
  | resume

inductive Event (V : Type*) where
  /-- `thread_create`; without a wish there is no memory, or no thread. -/
  | create (c : Nat) (wish : Option Nat) (suspended detached : Bool)
  | detach (c t : Nat)
  /-- `thread_join`, `thread_tryjoin` and `thread_timedjoin`. -/
  | join (c t : Nat) (abstime : Option (Int × Int))
  | act (c t : Nat) (act : Act)
  /-- The thread returns, exits or is cancelled: `tinfo->result = result`. -/
  | store (t : Nat) (result : Option V)
  /-- It has cleaned up. -/
  | finish (t : Nat)
  /-- The call that `c` is in goes on. -/
  | progress (c : Nat)
  /-- The time of its join is over. -/
  | timeout (c : Nat)

inductive Out (V : Type*) where
  | nothing
  | failed
  | created (t : Nat)
  /-- The thread that the handle is of. -/
  | reached (t : Nat)
  | detached
  | joined (result : Option V)
  /-- `EBUSY`. -/
  | busy
  | timedOut
  deriving DecidableEq

/-- The thread may be resumed. -/
def Stage.resumed : Stage → Stage
  | .suspended => .running
  | stage => stage

def Act.on (stage : Stage) : Act → Stage
  | .queue => stage
  | .resume => stage.resumed

namespace Process

variable (s : Process V)

def setCall (c : Nat) (call : Call) : Process V := { s with call := Function.update s.call c call }

def setInfo (t : Nat) (info : Option (ThreadInfo V)) : Process V := { s with info := Function.update s.info t info }

def setStage (t : Nat) (stage : Stage) : Process V := { s with stage := Function.update s.stage t stage }

/-- `NtClose`. `none`: there is no such handle. -/
def close (handle : Nat) : Option (Process V) :=
  (s.handles handle).map fun _ => { s with handles := Function.update s.handles handle none }

/-- The handle that the kernel gives, the one that is wished for if it is free. -/
def grant (wish : Nat) : Nat := if wish ≠ 0 ∧ s.handles wish = none then wish else s.limit

/-- The block and the thread, up to `CreateRemoteThreadEx`. -/
def start (handle : Nat) : Process V :=
  { s with
    count := s.count + 1
    stage := Function.update s.stage s.count .suspended
    info := Function.update s.info s.count (some ⟨handle, none⟩)
    handles := Function.update s.handles handle (some s.count)
    limit := max s.limit (handle + 1) }

/-- `wlibc_thread_create`. -/
def create (c wish : Nat) (suspended detached : Bool) : Process V :=
  let handle := s.grant wish
  (s.start handle).setCall c
    (if suspended then if detached then .closing s.count handle else .idle
    else .resuming s.count handle detached)

/-- `NtResumeThread`, whatever thread the handle is of. -/
def resume (handle : Nat) : Process V :=
  match s.handles handle with
  | some u => s.setStage u (s.stage u).resumed
  | none => s

/-- The next piece of a call. -/
def progress (c : Nat) : Option (Process V × Out V) :=
  match s.call c with
  | .idle => some (s, .nothing)
  | .resuming t handle detach =>
    some ((s.resume handle).setCall c (if detach then .closing t handle else .idle), .nothing)
  | .closing t handle => some (((s.close handle).getD s).setCall c (.forgetting t), .nothing)
  | .forgetting t =>
    (s.info t).map fun info => ((s.setInfo t (some { info with handle := 0 })).setCall c .idle, .detached)
  | .detaching t =>
    (s.info t).map fun info =>
      match s.close info.handle with
      | some s => (s.setCall c (.forgetting t), .nothing)
      | none => (s.setCall c .idle, .failed)
  | .waiting t object wait =>
    if s.stage object = .ended then some (s.setCall c (.leaving t), .nothing)
    else if wait = .immediate then some (s.setCall c .idle, .busy)
    else some (s, .nothing)
  | .leaving t =>
    (s.info t).map fun info =>
      match s.close info.handle with
      | some s => (s.setCall c (.freeing t), .nothing)
      | none => (s.setCall c .idle, .failed)
  | .freeing t => (s.info t).map fun info => ((s.setInfo t none).setCall c .idle, .joined info.result)

/-- The thread runs, and is in no call. -/
def free (c : Nat) : Bool :=
  match s.stage c, s.call c with
  | .running, .idle | .exiting, .idle => true
  | _, _ => false

/-- One event. What the thread cannot do does nothing. -/
def step : Event V → Option (Process V × Out V)
  | .create c wish suspended detached =>
    if s.free c then
      match wish with
      | some wish => some (s.create c wish suspended detached, .created s.count)
      | none => some (s, .failed)
    else some (s, .nothing)
  | .detach c t =>
    if s.free c then
      (s.info t).map fun info => if info.handle ≠ 0 then (s.setCall c (.detaching t), .nothing) else (s, .failed)
    else some (s, .nothing)
  | .join c t abstime =>
    if s.free c then
      (s.info t).map fun info =>
        match s.handles info.handle with
        | some object => (s.setCall c (.waiting t object (waitOf abstime)), .nothing)
        | none => (s, .failed)
    else some (s, .nothing)
  | .act c t act =>
    if s.free c then
      (s.info t).map fun info =>
        match s.handles info.handle with
        | some u => (s.setStage u (act.on (s.stage u)), .reached u)
        | none => (s, .failed)
    else some (s, .nothing)
  | .store t result =>
    if s.free t then
      (s.info t).map fun info => ((s.setInfo t (some { info with result := result })).setStage t .exiting, .nothing)
    else some (s, .nothing)
  | .finish t =>
    match s.stage t with
    | .exiting => (s.info t).map fun _ => (s.setStage t .ended, .nothing)
    | _ => some (s, .nothing)
  | .progress c => s.progress c
  | .timeout c =>
    match s.call c with
    | .waiting _ _ .deadline => some (s.setCall c .idle, .timedOut)
    | _ => some (s, .nothing)

end Process

def processMachine : Machine (Process V) (Event V) (Out V) where
  step s e := s.step e

/-- `threads_init`. The pseudo-handle of the main thread is left out. -/
def Process.initial : Process V :=
  ⟨1, Function.update (fun _ => .suspended) 0 .running, Function.update (fun _ => none) 0 (some ⟨0, none⟩),
    fun _ => none, 1, fun _ => .idle⟩

/-! ## The registry -/

/-- A call in progress, as far as the thread is concerned that it is about. -/
inductive Request where
  | resuming (detach : Bool)
  | closing
  | forgetting
  | detaching
  | waiting (wait : Wait)
  | leaving
  | freeing

/-- Who may do what with a thread. -/
inductive Claim where
  | joinable
  /-- A call of the thread `c` is at it. -/
  | busy (c : Nat) (request : Request)
  | detached
  /-- It has been joined, or does not exist yet. -/
  | gone

structure Registry (V : Type*) where
  count : Nat
  stage : Nat → Stage
  claim : Nat → Claim
  result : Nat → Option V
  /-- The thread that a call in progress is about. -/
  call : Nat → Option Nat

namespace Registry

variable (a : Registry V)

/-- The thread `t` is at the disposal of the next call, and `c` has no call any more. -/
def leave (c t : Nat) (claim : Claim) : Registry V :=
  { a with claim := Function.update a.claim t claim, call := Function.update a.call c none }

def setRequest (c t : Nat) (request : Request) : Registry V :=
  { a with claim := Function.update a.claim t (.busy c request), call := Function.update a.call c (some t) }

def setStage (t : Nat) (stage : Stage) : Registry V := { a with stage := Function.update a.stage t stage }

def start : Registry V :=
  { a with
    count := a.count + 1
    stage := Function.update a.stage a.count .suspended
    claim := Function.update a.claim a.count .joinable
    result := Function.update a.result a.count none }

def create (c : Nat) (suspended detached : Bool) : Registry V :=
  if suspended then if detached then a.start.setRequest c a.count .closing else a.start
  else a.start.setRequest c a.count (.resuming detached)

def progress (c : Nat) : Registry V × Out V :=
  match a.call c with
  | none => (a, .nothing)
  | some t =>
    match a.claim t with
    | .busy _ (.resuming detach) =>
      let a := a.setStage t (a.stage t).resumed
      (if detach then a.setRequest c t .closing else a.leave c t .joinable, .nothing)
    | .busy _ .closing | .busy _ .detaching => (a.setRequest c t .forgetting, .nothing)
    | .busy _ .forgetting => (a.leave c t .detached, .detached)
    | .busy _ (.waiting wait) =>
      if a.stage t = .ended then (a.setRequest c t .leaving, .nothing)
      else if wait = .immediate then (a.leave c t .joinable, .busy)
      else (a, .nothing)
    | .busy _ .leaving => (a.setRequest c t .freeing, .nothing)
    | .busy _ .freeing => (a.leave c t .gone, .joined (a.result t))
    | _ => (a, .nothing)

def free (c : Nat) : Bool :=
  match a.stage c, a.call c with
  | .running, none | .exiting, none => true
  | _, _ => false

def step : Event V → Registry V × Out V
  | .create c wish suspended detached =>
    if a.free c then
      match wish with
      | some _ => (a.create c suspended detached, .created a.count)
      | none => (a, .failed)
    else (a, .nothing)
  | .detach c t =>
    if a.free c then
      match a.claim t with
      | .joinable => (a.setRequest c t .detaching, .nothing)
      | _ => (a, .failed)
    else (a, .nothing)
  | .join c t abstime =>
    if a.free c then
      match a.claim t with
      | .joinable => (a.setRequest c t (.waiting (waitOf abstime)), .nothing)
      | _ => (a, .failed)
    else (a, .nothing)
  | .act c t act =>
    if a.free c then
      match a.claim t with
      | .detached => (a, .failed)
      | _ => (a.setStage t (act.on (a.stage t)), .reached t)
    else (a, .nothing)
  | .store t result =>
    if a.free t then ({ a.setStage t .exiting with result := Function.update a.result t result }, .nothing)
    else (a, .nothing)
  | .finish t =>
    match a.stage t with
    | .exiting => (a.setStage t .ended, .nothing)
    | _ => (a, .nothing)
  | .progress c => a.progress c
  | .timeout c =>
    match a.call c with
    | none => (a, .nothing)
    | some t =>
      match a.claim t with
      | .busy _ (.waiting .deadline) => (a.leave c t .joinable, .timedOut)
      | _ => (a, .nothing)

def machine : Machine (Registry V) (Event V) (Out V) where
  step a e := some (a.step e)

def initial : Registry V :=
  ⟨1, Function.update (fun _ => .suspended) 0 .running, Function.update (fun _ => .gone) 0 .detached, fun _ => none,
    fun _ => none⟩

end Registry

/-- The handle of the thread is open. -/
def Request.isOpen : Request → Bool
  | .forgetting | .freeing => false
  | _ => true

/-- The thread has ended. -/
def Request.isLate : Request → Bool
  | .leaving | .freeing => true
  | _ => false

/-- The handle may be used by others. -/
def Request.isQuiet : Request → Bool
  | .resuming _ | .waiting _ => true
  | _ => false

/-- The rules for a `thread_t`: a thread is joined or detached by one call only, and not used once it has been joined,
or while its handle is closed. -/
def Allowed (a : Registry V) : Event V → Prop
  | .detach _ t | .join _ t _ => t ≠ 0 ∧ (a.claim t = .joinable ∨ a.claim t = .detached)
  | .act _ t _ => t ≠ 0 ∧
    match a.claim t with
    | .joinable | .detached => True
    | .busy _ request => request.isQuiet = true
    | .gone => False
  | _ => True

/-- The call that a request is part of. -/
def Request.call (t handle : Nat) : Request → Call
  | .resuming detach => .resuming t handle detach
  | .closing => .closing t handle
  | .forgetting => .forgetting t
  | .detaching => .detaching t
  | .waiting wait => .waiting t t wait
  | .leaving => .leaving t
  | .freeing => .freeing t

/-- The block of a thread. -/
def Stands (s : Process V) (a : Registry V) (t : Nat) : Prop :=
  match a.claim t with
  | .joinable => ∃ handle, handle ≠ 0 ∧ s.info t = some ⟨handle, a.result t⟩ ∧ s.handles handle = some t
  | .busy c request => ∃ handle, handle ≠ 0 ∧ s.info t = some ⟨handle, a.result t⟩ ∧
    s.call c = request.call t handle ∧ (request.isOpen = true → s.handles handle = some t) ∧
    (request.isLate = true → a.stage t = .ended)
  | .detached => s.info t = some ⟨0, a.result t⟩
  | .gone => s.info t = none ∧ (t < a.count → a.stage t = .ended)

/-- Whether the thread has a handle that is open. -/
def Claim.isOpen : Claim → Bool
  | .joinable => true
  | .busy _ request => request.isOpen
  | _ => false

/-- The process does what the registry says. -/
structure Describes (s : Process V) (a : Registry V) : Prop where
  count : s.count = a.count
  stage : s.stage = a.stage
  called : ∀ c t, a.call c = some t ↔ ∃ request, a.claim t = .busy c request
  idle : ∀ c, a.call c = none → s.call c = .idle
  stands : ∀ t, Stands s a t
  /-- Every handle is the one of a thread. -/
  owned : ∀ handle t, s.handles handle = some t →
    (a.claim t).isOpen = true ∧ ∃ info, s.info t = some info ∧ info.handle = handle
  zero : s.handles 0 = none
  limit : ∀ handle, s.limit ≤ handle → s.handles handle = none
  positive : 0 < s.limit
  /-- The next thread does not exist yet. -/
  next : ∀ t, a.count ≤ t → a.claim t = .gone ∧ a.stage t = .suspended

end WindowsLibc.Thread.Lifecycle
