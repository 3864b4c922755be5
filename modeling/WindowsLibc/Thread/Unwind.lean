import Mathlib.Logic.Function.Basic
import WindowsLibc.Lib.Machine

/-!
# Cleanup routines and cancellation (`thread/thread.c`, `execute_cleanup` of `thread/internal.c`)

A thread keeps its cleanup routines in an array that doubles when it is full. It runs them, and then the
destructors of its storage, when it exits or is cancelled. A cancellation is an APC that interrupts the thread
wherever it is, also while it exits; nothing returns from it. Routines and destructors are code of the user, and
push and pop routines themselves.

* `ThreadInfo` is the thread with the place it has come to. A step is a call, the progress of the code between two
  places at which an interruption makes a difference, or a cancellation. An access to a block that has been
  freed or behind its end, and a second free, is a fault, `none`.
* `Handlers` is what the routines are for: a stack, from which a routine is taken off, with all that it left, when it
  returns.
-/

namespace WindowsLibc.Thread.Unwind

open WindowsLibc.Lib

variable {R A V D : Type*}

/-! ## The thread -/

/-- `cleanup_entry`; `none` is NULL. -/
structure CleanupEntry (R A : Type*) where
  routine : Option R
  arg : A
  deriving DecidableEq

/-- A cell of the array; `none` is memory that nothing has been stored in. -/
abbrev Cell (R A : Type*) := Option (CleanupEntry R A)

/-- What `cleanup_entries` points to. -/
inductive Block (R A : Type*) where
  | null
  | live (cells : List (Cell R A))
  | freed

/-- The place that the thread has come to. `G` is what is pending while the array grows, and `F` what is known of a
routine that is running. -/
inductive Place (G F : Type*) where
  /-- The program itself. -/
  | program
  /-- In `cleanup_push`, called at `back`: there is a new block, and the pointer, or the number of its cells, is not
  stored yet. -/
  | growing (pending : G) (back : Place G F)
  /-- In a routine that `cleanup_pop` has called, itself called at `back`. -/
  | popping (frame : F) (back : Place G F)
  /-- At the head of the loop of `execute_cleanup`. -/
  | loop
  /-- In a routine that it has called. -/
  | routine (frame : F)
  /-- In `cleanup_tls`, before a slot. -/
  | tls (slot : Nat)
  /-- In the destructor of a slot. -/
  | destructor (slot : Nat)
  | exited

/-- The new block with the number of its cells, and the entry that goes into it. -/
structure Pending (R A : Type*) where
  cells : List (Cell R A)
  allocated : Nat
  entry : CleanupEntry R A

/-- What has nothing to do with the routines. -/
structure Control (V : Type*) where
  cancelstate : Int
  canceltype : Int
  slots : Fin 64 → Option V

/-- `threadinfo`, as far as the end of the thread is concerned, and its place. Of a routine that is running, the place
has how many entries there were when it was called; the code does not look at that. -/
structure ThreadInfo (R A V : Type*) extends Control V where
  allocated : Nat
  used : Nat
  entries : Block R A
  place : Place (Pending R A) Nat

/-- What the heap does, if it is asked for a block: it has none, or a block that grows moves, or it grows where it
is. -/
inductive Memory where
  | refused
  | moved
  | extended
  deriving DecidableEq

inductive Event (R A V D : Type*) where
  /-- `thread_cleanup_push`. -/
  | push (entry : CleanupEntry R A) (memory : Memory)
  /-- `thread_cleanup_pop`. -/
  | pop (execute : Bool)
  | setcancelstate (state : Int)
  | setcanceltype (type : Int)
  /-- `tss_set`, for a key that `tss_create` has given; with the keys that there are. -/
  | tssSet (key : Fin 64) (value : Option V) (bitmap : BitVec 64)
  | testcancel
  /-- `thread_exit`, or the return of the routine of the thread. -/
  | exit
  /-- The APC of `thread_cancel`. -/
  | cancel
  /-- The thread goes on; with the keys and destructors that there are. -/
  | progress (bitmap : BitVec 64) (destructors : Fin 64 → Option D)

inductive Out (R A V D : Type*) where
  | nothing
  | failed
  /-- The old cancel state, or type. -/
  | old (value : Int)
  /-- By `execute_cleanup`. -/
  | called (routine : R) (arg : A)
  /-- By `cleanup_pop`. -/
  | executed (routine : R) (arg : A)
  | destroyed (slot : Nat) (destructor : D) (value : V)
  deriving DecidableEq

/-- `WLIBC_THREAD_CANCEL_ENABLE`, which is also `WLIBC_THREAD_CANCEL_ASYNCHRONOUS`. -/
def cancelEnable : Int := 0

/-- `WLIBC_THREAD_CANCEL_DISABLE`, which is also `WLIBC_THREAD_CANCEL_DEFERRED`. -/
def cancelDisable : Int := 1

/-- `--`, of a `DWORD`. -/
def decrement (n : Nat) : Nat := (n + (2 ^ 32 - 1)) % 2 ^ 32

/-- Code of the user runs here, and may call every function. -/
def Place.user {G F : Type*} : Place G F → Bool
  | .program | .popping _ _ | .routine _ | .destructor _ => true
  | _ => false

/-- The routine that is running. -/
def Place.frame {G F : Type*} : Place G F → Option F
  | .popping frame _ | .routine frame => some frame
  | _ => none

namespace Control

/-- `wlibc_thread_setcancelstate`. -/
def setcancelstate (state : Int) (c : Control V) : Control V × Out R A V D :=
  if state ≠ cancelEnable ∧ state ≠ cancelDisable then (c, .failed)
  else ({ c with cancelstate := state }, .old c.cancelstate)

/-- `wlibc_thread_setcanceltype`, which stores the type as the state. -/
def setcanceltype (type : Int) (c : Control V) : Control V × Out R A V D :=
  if type ≠ cancelEnable ∧ type ≠ cancelDisable then (c, .failed)
  else ({ c with cancelstate := type }, .old c.canceltype)

/-- `wlibc_tss_set`. -/
def tssSet (key : Fin 64) (value : Option V) (bitmap : BitVec 64) (c : Control V) : Control V × Out R A V D :=
  if bitmap.getLsbD key then ({ c with slots := Function.update c.slots key value }, .nothing)
  else (c, .failed)

/-- The body of the loop of `cleanup_tls`. -/
def cleanupSlot {G F : Type*} (i : Fin 64) (bitmap : BitVec 64) (destructors : Fin 64 → Option D) (c : Control V) :
    Control V × Place G F × Out R A V D :=
  match bitmap.getLsbD i, c.slots i, destructors i with
  | true, some value, some destructor =>
    ({ c with slots := Function.update c.slots i none }, .destructor i, .destroyed i destructor value)
  | _, _, _ => (c, .tls (i + 1), .nothing)

end Control

namespace ThreadInfo

variable (t : ThreadInfo R A V)

/-- `execute_thread_cancellation`. -/
def strike : ThreadInfo R A V := if t.cancelstate = cancelDisable then t else { t with place := .loop }

/-- `cleanup_entries[i]`. -/
def read (i : Nat) : Option (CleanupEntry R A) :=
  match t.entries with
  | .live cells => cells[i]?.join
  | _ => none

/-- `cleanup_entries[cleanup_slots_used++] = entry`. -/
def store (entry : CleanupEntry R A) : Option (ThreadInfo R A V) :=
  match t.entries with
  | .live cells =>
    if t.used < cells.length then
      some { t with entries := .live (cells.set t.used (some entry)), used := t.used + 1 }
    else none
  | _ => none

/-- `RtlReAllocateHeap` to `n` cells. -/
def realloc (cells : List (Cell R A)) (n : Nat) : List (Cell R A) :=
  cells.take n ++ List.replicate (n - cells.length) none

/-- The first block: `cleanup_entries` is stored, and `cleanup_slots_allocated` is not. -/
def firstBlock (entry : CleanupEntry R A) (memory : Memory) : ThreadInfo R A V :=
  if memory ≠ .refused then
    { t with
      entries := .live (List.replicate 8 none)
      place := .growing ⟨List.replicate 8 none, 8, entry⟩ t.place }
  else { t with entries := .null }

/-- A block of twice the size; `cleanup_slots_allocated` is a `DWORD`. -/
def double (cells : List (Cell R A)) (entry : CleanupEntry R A) : Pending R A :=
  ⟨realloc cells (t.allocated * 2), t.allocated * 2 % 2 ^ 32, entry⟩

/-- `wlibc_thread_cleanup_push`, up to the moment when a new block is to be stored. One that has moved, and whose
pointer has been stored, is as one that grew where it is. -/
def push (entry : CleanupEntry R A) (memory : Memory) : Option (ThreadInfo R A V) :=
  if t.allocated = 0 then some (t.firstBlock entry memory)
  else if t.allocated = t.used then
    match memory, t.entries with
    | .refused, .live _ => some t
    | .moved, .live cells => some { t with entries := .freed, place := .growing (t.double cells entry) t.place }
    | .extended, .live cells =>
      some { t with
        entries := .live (realloc cells (t.allocated * 2))
        place := .growing (t.double cells entry) t.place }
    | _, _ => none
  else t.store entry

/-- The rest of it. -/
def grown (pending : Pending R A) (back : Place (Pending R A) Nat) : Option (ThreadInfo R A V) :=
  { t with entries := .live pending.cells, allocated := pending.allocated, place := back }.store pending.entry

/-- The routine at the top is called, and the thread is at `place` then; NULL is left out. -/
def callTop (place : Place (Pending R A) Nat) (out : R → A → Out R A V D) :
    Option (ThreadInfo R A V × Out R A V D) :=
  match t.read (t.used - 1) with
  | none => none
  | some entry =>
    match entry.routine with
    | some routine => some ({ t with place := place }, out routine entry.arg)
    | none => some ({ t with used := decrement t.used }, .nothing)

/-- `wlibc_thread_cleanup_pop`. -/
def pop (execute : Bool) : Option (ThreadInfo R A V × Out R A V D) :=
  if t.used = 0 then some (t, .nothing)
  else if execute then t.callTop (.popping t.used t.place) .executed
  else some ({ t with used := decrement t.used }, .nothing)

/-- `RtlFreeHeap(cleanup_entries)`, at the end of `execute_cleanup`. -/
def release : Option (ThreadInfo R A V) :=
  match t.entries with
  | .null => some { t with place := .tls 0 }
  | .live _ => some { t with entries := .freed, place := .tls 0 }
  | .freed => none

/-- The thread goes on to the next place. -/
def progress (bitmap : BitVec 64) (destructors : Fin 64 → Option D) : Option (ThreadInfo R A V × Out R A V D) :=
  match t.place with
  | .program => some (t, .nothing)
  | .growing pending back => (t.grown pending back).map (·, .nothing)
  | .popping _ back => some ({ t with used := decrement t.used, place := back }, .nothing)
  | .loop => if t.used ≠ 0 then t.callTop (.routine t.used) .called else t.release.map (·, .nothing)
  | .routine _ => some ({ t with used := decrement t.used, place := .loop }, .nothing)
  | .tls i =>
    if h : i < 64 then
      let (control, place, o) := t.toControl.cleanupSlot ⟨i, h⟩ bitmap destructors
      some ({ t with toControl := control, place := place }, o)
    else some ({ t with place := .exited }, .nothing)
  | .destructor i => some ({ t with place := .tls (i + 1) }, .nothing)
  | .exited => some (t, .nothing)

/-- One event. Where no code of the user runs, its calls do nothing. -/
def step : Event R A V D → Option (ThreadInfo R A V × Out R A V D)
  | .push entry memory => if t.place.user then (t.push entry memory).map (·, .nothing) else some (t, .nothing)
  | .pop execute => if t.place.user then t.pop execute else some (t, .nothing)
  | .setcancelstate state =>
    if t.place.user then
      let (control, o) := t.toControl.setcancelstate state
      some ({ t with toControl := control }, o)
    else some (t, .nothing)
  | .setcanceltype type =>
    if t.place.user then
      let (control, o) := t.toControl.setcanceltype type
      some ({ t with toControl := control }, o)
    else some (t, .nothing)
  | .tssSet key value bitmap =>
    if t.place.user then
      let (control, o) := t.toControl.tssSet key value bitmap
      some ({ t with toControl := control }, o)
    else some (t, .nothing)
  | .testcancel => some (if t.place.user then t.strike else t, .nothing)
  | .exit => some (if t.place.user then { t with place := .loop } else t, .nothing)
  | .cancel =>
    match t.place with
    | .exited => some (t, .nothing)
    | _ => some (t.strike, .nothing)
  | .progress bitmap destructors => t.progress bitmap destructors

end ThreadInfo

def threadMachine : Machine (ThreadInfo R A V) (Event R A V D) (Out R A V D) where
  step t e := t.step e

/-- A new thread, with `HEAP_ZERO_MEMORY`. -/
def newThread : ThreadInfo R A V := ⟨⟨cancelEnable, 0, fun _ => none⟩, 0, 0, .null, .program⟩

/-! ## The stack of routines -/

/-- For how many routines there is room, when there is no more for one. -/
def grow (capacity : Nat) : Nat := if capacity = 0 then 8 else capacity * 2

/-- What the routines are for: a stack, which has room for so many before the heap is asked. A routine that is running
is still on it; the place has what lies below. -/
structure Handlers (R A V : Type*) extends Control V where
  stack : List (CleanupEntry R A)
  capacity : Nat
  place : Place (CleanupEntry R A) (List (CleanupEntry R A))

namespace Handlers

variable (a : Handlers R A V)

def push (entry : CleanupEntry R A) (memory : Memory) : Handlers R A V :=
  if a.capacity = a.stack.length then
    if memory ≠ .refused then { a with place := .growing entry a.place } else a
  else { a with stack := entry :: a.stack }

/-- The newest routine is called; NULL is left out. -/
def callTop (place : List (CleanupEntry R A) → Place (CleanupEntry R A) (List (CleanupEntry R A)))
    (out : R → A → Out R A V D) : Handlers R A V × Out R A V D :=
  match a.stack with
  | [] => (a, .nothing)
  | entry :: rest =>
    match entry.routine with
    | some routine => ({ a with place := place rest }, out routine entry.arg)
    | none => ({ a with stack := rest }, .nothing)

def pop (execute : Bool) : Handlers R A V × Out R A V D :=
  if execute then a.callTop (.popping · a.place) .executed else ({ a with stack := a.stack.tail }, .nothing)

def strike : Handlers R A V := if a.cancelstate = cancelDisable then a else { a with place := .loop }

def progress (bitmap : BitVec 64) (destructors : Fin 64 → Option D) : Handlers R A V × Out R A V D :=
  match a.place with
  | .program => (a, .nothing)
  | .growing entry back =>
    ({ a with stack := entry :: a.stack, capacity := grow a.capacity, place := back }, .nothing)
  | .popping rest back => ({ a with stack := rest, place := back }, .nothing)
  | .loop => if a.stack = [] then ({ a with place := .tls 0 }, .nothing) else a.callTop .routine .called
  | .routine rest => ({ a with stack := rest, place := .loop }, .nothing)
  | .tls i =>
    if h : i < 64 then
      let (control, place, o) := a.toControl.cleanupSlot ⟨i, h⟩ bitmap destructors
      ({ a with toControl := control, place := place }, o)
    else ({ a with place := .exited }, .nothing)
  | .destructor i => ({ a with place := .tls (i + 1) }, .nothing)
  | .exited => (a, .nothing)

def step : Event R A V D → Handlers R A V × Out R A V D
  | .push entry memory => (if a.place.user then a.push entry memory else a, .nothing)
  | .pop execute => if a.place.user then a.pop execute else (a, .nothing)
  | .setcancelstate state =>
    if a.place.user then
      let (control, o) := a.toControl.setcancelstate state
      ({ a with toControl := control }, o)
    else (a, .nothing)
  | .setcanceltype type =>
    if a.place.user then
      let (control, o) := a.toControl.setcanceltype type
      ({ a with toControl := control }, o)
    else (a, .nothing)
  | .tssSet key value bitmap =>
    if a.place.user then
      let (control, o) := a.toControl.tssSet key value bitmap
      ({ a with toControl := control }, o)
    else (a, .nothing)
  | .testcancel => (if a.place.user then a.strike else a, .nothing)
  | .exit => (if a.place.user then { a with place := .loop } else a, .nothing)
  | .cancel =>
    match a.place with
    | .exited => (a, .nothing)
    | _ => (a.strike, .nothing)
  | .progress bitmap destructors => a.progress bitmap destructors

def machine : Machine (Handlers R A V) (Event R A V D) (Out R A V D) where
  step a e := some (a.step e)

/-- No routines. -/
def new : Handlers R A V := ⟨⟨cancelEnable, 0, fun _ => none⟩, [], 0, .program⟩

end Handlers

/-! ## Where a cancellation is safe -/

/-- The event leads into `execute_cleanup`. -/
def Strikes (t : ThreadInfo R A V) : Event R A V D → Prop
  | .exit => t.place.user = true
  | .testcancel => t.place.user = true ∧ t.cancelstate ≠ cancelDisable
  | .cancel => t.place ≠ .exited ∧ t.cancelstate ≠ cancelDisable
  | _ => False

/-- A routine is pushed. -/
def Pushes (t : ThreadInfo R A V) : Event R A V D → Prop
  | .push _ _ => t.place.user = true
  | _ => False

/-- No block that has been freed is cleaned up, and nothing is pushed into it. -/
def Harmless (t : ThreadInfo R A V) (e : Event R A V D) : Prop :=
  Strikes t e ∨ Pushes t e ∧ t.allocated ≠ 0 → t.entries ≠ .freed

/-- The heap has no block of 2^32 cells. -/
def Fits (t : ThreadInfo R A V) : Event R A V D → Prop
  | .push _ _ => t.used < 2 ^ 31
  | _ => True

/-- The rule for routines: one pops only what it has pushed, and has popped all of it when it returns. -/
def Paired (t : ThreadInfo R A V) : Event R A V D → Prop
  | .pop _ => ∀ level ∈ t.place.frame, level < t.used
  | .progress _ _ => ∀ level ∈ t.place.frame, t.used = level
  | _ => True

/-- There are `n` cells at least, and the first are those of the stack, from the bottom on. -/
structure Holds (cells : List (Cell R A)) (n : Nat) (stack : List (CleanupEntry R A)) : Prop where
  length : n ≤ cells.length
  take : cells.take stack.length = stack.reverse.map some

def Place.map {G G' F F' : Type*} (g : G → G') (f : F → F') : Place G F → Place G' F'
  | .program => .program
  | .growing pending back => .growing (g pending) (back.map g f)
  | .popping frame back => .popping (f frame) (back.map g f)
  | .loop => .loop
  | .routine frame => .routine (f frame)
  | .tls i => .tls i
  | .destructor i => .destructor i
  | .exited => .exited

/-- How many entries there were, with the one that is called. -/
def level (rest : List (CleanupEntry R A)) : Nat := rest.length + 1

/-- What lies below a routine that is running is still on the stack, with its entry; it returns to code of the user. -/
def Nested (stack : List (CleanupEntry R A)) : Place (CleanupEntry R A) (List (CleanupEntry R A)) → Prop
  | .growing _ back => back.user = true ∧ Nested stack back
  | .popping rest back => (∃ entry, entry :: rest <:+ stack) ∧ back.user = true ∧ Nested rest back
  | .routine rest => ∃ entry, entry :: rest <:+ stack
  | _ => True

/-- The block where nothing is growing and nothing has been freed. -/
def Stored (t : ThreadInfo R A V) (a : Handlers R A V) : Prop :=
  if a.capacity = 0 then t.entries ≠ .freed ∧ a.stack = []
  else ∃ cells, t.entries = .live cells ∧ Holds cells a.capacity a.stack

/-- The block has been given back, and the pointer is still there. -/
def Released (t : ThreadInfo R A V) (a : Handlers R A V) : Prop := t.entries = .freed ∧ a.stack = []

/-- What `cleanup_entries` points to, at each place. -/
def Points (t : ThreadInfo R A V) (a : Handlers R A V) : Prop :=
  match t.place with
  | .growing pending _ =>
    (t.entries = .freed ∨ t.entries = .live pending.cells) ∧ a.capacity = a.stack.length ∧ a.capacity < 2 ^ 31 ∧
      pending.allocated = grow a.capacity ∧ Holds pending.cells pending.allocated a.stack
  | .tls _ | .destructor _ | .exited => Stored t a ∨ Released t a
  | _ => Stored t a

/-- The thread has the stack `a.stack` of routines. -/
structure Stands (t : ThreadInfo R A V) (a : Handlers R A V) : Prop where
  control : t.toControl = a.toControl
  place : t.place.map Pending.entry id = a.place.map id level
  allocated : t.allocated = a.capacity
  used : t.used = a.stack.length
  fits : a.stack.length ≤ a.capacity
  small : a.capacity < 2 ^ 32
  nested : Nested a.stack a.place
  points : Points t a

end WindowsLibc.Thread.Unwind
