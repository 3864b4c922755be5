import Mathlib.Order.Lattice.Nat
import WindowsLibc.Lib.Machine

/-!
# The table of file descriptors (`fcntl/internal.c`, `unistd/dup.c`)

`_wlibc_fd_table` is an array of entries; a NULL handle marks a free one, and the other fields of a
free entry are whatever was there before. `register_to_fd_table` takes the first free entry and
doubles the table when there is none; `insert_into_fd_table` takes the entry it is told and grows the
table to twice that number when it is beyond the end.

* The C functions are modelled on `FdTable`. An access outside the array, and a signed overflow, is
  a fault, `none`.
* `FdMap` says what the table is for: a partial map from descriptors to bindings.
* `FdTable.binding` is the map that a table stands for. `FdTable/Refinement` shows that the calls
  on the table are the calls on the map.

Handles come from the kernel (`KernelHandle`): at most 2^24 of them are open in a process, so the
casts `(int)_wlibc_fd_table_size` never change the size.
-/

namespace WindowsLibc.Fcntl

open WindowsLibc.Lib

/-! ## The model -/

/-- `handle_t`. -/
inductive HandleType where
  | invalid | null | console | file | directory | pipe
  deriving DecidableEq, Repr

/-- `fdinfo`. -/
structure FdInfo where
  handle : UInt64
  type : HandleType
  flags : UInt32
  sequence : UInt32
  deriving DecidableEq, Repr

/-- `INVALID_HANDLE_VALUE`. -/
def invalidHandleValue : UInt64 := 0xFFFFFFFFFFFFFFFF

/-- `O_CLOEXEC`. -/
def oCloexec : UInt32 := 0x80

/-- The values of `errno` set here; `ntstatus` is for what `map_ntstatus_to_errno` chooses. -/
inductive Errno where
  | enomem | ebadf | einval | ntstatus
  deriving DecidableEq, Repr

/-- The globals of `fcntl/internal.c`, and the standard handles of the process parameters. The
number of entries is `_wlibc_fd_table_size`. -/
structure FdTable where
  table : List FdInfo
  /-- `_wlibc_fd_sequence`. -/
  sequence : UInt32
  standardInput : UInt64
  standardOutput : UInt64
  standardError : UInt64
  deriving DecidableEq, Repr

/-- What the heap has at the place of an entry when the table grows over it, or `none` when the
allocation fails. An entry comes into the table once. -/
abbrev Heap := Option (Nat → FdInfo)

/-- What a call returns: a number, or -1 with `errno` set. -/
abbrev Result := Except Errno Int

/-- The cast `(int)n`. -/
def castInt (n : Nat) : Int :=
  if n % 2 ^ 32 < 2 ^ 31 then (n % 2 ^ 32 : Nat) else (n % 2 ^ 32 : Nat) - 2 ^ 32

/-- `_wlibc_fd_table_size`. -/
def FdTable.size (t : FdTable) : Nat := t.table.length

/-- `internal_insert_fd`. -/
def internalInsertFd (t : FdTable) (index : Int) (h : UInt64) (type : HandleType) (flags : UInt32) :
    Option (FdTable × Result) :=
  if 0 ≤ index ∧ index < t.size then
    let sequence := t.sequence + 1
    some ({
      table := t.table.set index.toNat ⟨h, type, flags, sequence⟩
      sequence := sequence
      standardInput := if index = 0 then h else t.standardInput
      standardOutput := if index = 1 then h else t.standardOutput
      standardError := if index = 2 then h else t.standardError }, .ok index)
  else none

/-- `RtlReAllocateHeap` to `n` entries. -/
def realloc (heap : Nat → FdInfo) (table : List FdInfo) (n : Nat) : List FdInfo :=
  table.take n ++ (List.range' table.length (n - table.length)).map heap

/-- `for (i = lo; i < size; i++) table[i].handle = NULL`, to the end of the table. -/
def clearFrom (table : List FdInfo) (lo : Nat) : List FdInfo :=
  table.take lo ++ (table.drop lo).map (fun e => { e with handle := 0 })

/-- `register_to_fd_table`. -/
def registerToFdTable (heap : Heap) (t : FdTable) (h : UInt64) (type : HandleType)
    (flags : UInt32) : Option (FdTable × Result) :=
  let i := t.table.findIdx (fun e => e.handle == 0)
  if i < t.size then internalInsertFd t (castInt i) h type flags
  else
    match heap with
    | none => some (t, .error .enomem)
    | some heap =>
      let grown := { t with table := realloc heap t.table (t.size * 2) }
      match internalInsertFd grown (castInt t.size) h type flags with
      | none => none
      | some (t', fd) => some ({ t' with table := clearFrom t'.table (t.size + 1) }, fd)

/-- `insert_into_fd_table`. The products `_fd * 2` of the growth are signed. -/
def insertIntoFdTable (heap : Heap) (t : FdTable) (fd : Int) (h : UInt64) (type : HandleType)
    (flags : UInt32) : Option (FdTable × Result) :=
  if fd ≥ castInt t.size then
    match heap with
    | none => some (t, .error .enomem)
    | some heap =>
      if fd * 2 < 2 ^ 31 ∧ 0 ≤ castInt t.size then
        let table := clearFrom (realloc heap t.table (fd * 2).toNat) (castInt t.size).toNat
        internalInsertFd { t with table := table } fd h type flags
      else none
  else internalInsertFd t fd h type flags

/-- `unregister_from_fd_table`. -/
def unregisterFromFdTable (t : FdTable) (h : UInt64) : FdTable :=
  let i := t.table.findIdx (fun e => e.handle != invalidHandleValue && e.handle == h)
  { t with table := t.table.modify i (fun e => { e with handle := 0 }) }

/-- `close_fd`; `closed` says whether `NtClose` succeeds. -/
def closeFd (t : FdTable) (closed : Bool) (fd : Int) : Option (FdTable × Result) :=
  if 0 ≤ fd ∧ fd < t.size then
    if closed then
      some ({ t with
        table := t.table.modify fd.toNat (fun e => { e with handle := 0, type := .invalid }) },
        .ok 0)
    else some (t, .error .ntstatus)
  else none

/-- `validate_fd`. -/
def validateFd (t : FdTable) (fd : Int) : Bool :=
  if fd < 0 ∨ fd ≥ castInt t.size then false
  else (t.table[fd.toNat]?).any (fun e => e.handle != 0)

/-- `get_fdinfo`, into a caller's `info`. -/
def getFdinfo (t : FdTable) (fd : Int) (info : FdInfo) : FdInfo :=
  if validateFd t fd then (t.table[fd.toNat]?).getD info
  else { info with handle := 0, type := .invalid }

/-- What the kernel answers in `do_dup`: the duplicate, if `NtDuplicateObject` succeeds, and whether
`NtClose` of the old handle of `newfd` does. -/
structure DupAnswer where
  target : Option UInt64
  closed : Bool

/-- `do_dup`; `info` is its uninitialised local. The flag `O_CLOEXEC` also changes the attributes of
the duplicate. -/
def doDup (heap : Heap) (info : FdInfo) (t : FdTable) (oldfd newfd : Int) (flags : UInt32)
    (a : DupAnswer) : Option (FdTable × Result) :=
  let old := getFdinfo t oldfd info
  match a.target with
  | none => some (t, .error .ntstatus)
  | some target =>
    if newfd = -1 then registerToFdTable heap t target old.type old.flags
    else if validateFd t newfd then
      match closeFd t a.closed newfd with
      | none => none
      | some (t', .error e) => some (t', .error e)
      | some (t', .ok _) =>
        insertIntoFdTable heap t' newfd target old.type (old.flags ||| flags)
    else insertIntoFdTable heap t newfd target old.type (old.flags ||| flags)

/-- `wlibc_common_dup`. -/
def commonDup (heap : Heap) (info : FdInfo) (t : FdTable) (oldfd newfd : Int) (flags : UInt32)
    (a : DupAnswer) : Option (FdTable × Result) :=
  if validateFd t oldfd = false then some (t, .error .ebadf)
  else if flags ≠ 0 ∧ flags ≠ oCloexec then some (t, .error .einval)
  else if newfd = oldfd then some (t, .ok newfd)
  else doDup heap info t oldfd newfd flags a

/-- `dup`. -/
def dup (heap : Heap) (info : FdInfo) (t : FdTable) (fd : Int) (a : DupAnswer) :
    Option (FdTable × Result) :=
  commonDup heap info t fd (-1) 0 a

/-- `dup2`. -/
def dup2 (heap : Heap) (info : FdInfo) (t : FdTable) (oldfd newfd : Int) (a : DupAnswer) :
    Option (FdTable × Result) :=
  if oldfd < 0 ∨ newfd < 0 then some (t, .error .einval)
  else commonDup heap info t oldfd newfd 0 a

/-- `dup3`. -/
def dup3 (heap : Heap) (info : FdInfo) (t : FdTable) (oldfd newfd : Int) (flags : UInt32)
    (a : DupAnswer) : Option (FdTable × Result) :=
  if oldfd < 0 ∨ newfd < 0 then some (t, .error .einval)
  else if newfd = oldfd then some (t, .error .einval)
  else commonDup heap info t oldfd newfd flags a

/-- The calls that change the table, with what the kernel answers in them. -/
inductive Call where
  | register (h : UInt64) (type : HandleType) (flags : UInt32)
  | insert (fd : Int) (h : UInt64) (type : HandleType) (flags : UInt32)
  | close (fd : Int)
  | unregister (h : UInt64)
  | dup (oldfd : Int) (target : UInt64)
  | dup2 (oldfd newfd : Int) (target : UInt64)
  | dup3 (oldfd newfd : Int) (flags : UInt32) (target : UInt64)

/-- The table when no allocation and no system call fails. -/
def fdMachine (heap : Nat → FdInfo) (info : FdInfo) : Machine FdTable Call Result where
  step t
    | .register h type flags => registerToFdTable (some heap) t h type flags
    | .insert fd h type flags => insertIntoFdTable (some heap) t fd h type flags
    | .close fd => closeFd t true fd
    | .unregister h => some (unregisterFromFdTable t h, .ok 0)
    | .dup oldfd target => dup (some heap) info t oldfd ⟨some target, true⟩
    | .dup2 oldfd newfd target => dup2 (some heap) info t oldfd newfd ⟨some target, true⟩
    | .dup3 oldfd newfd flags target => dup3 (some heap) info t oldfd newfd flags ⟨some target, true⟩

/-! ## What the table is for -/

/-- What a descriptor is bound to. -/
structure Binding where
  handle : UInt64
  type : HandleType
  flags : UInt32
  deriving DecidableEq, Repr

/-- A partial map from descriptors to bindings. -/
abbrev FdMap := Int → Option Binding

namespace FdMap

/-- The lowest descriptor that is not bound. -/
noncomputable def lowestFree (m : FdMap) : Int := (sInf {n : ℕ | m n = none} : ℕ)

noncomputable def bind (m : FdMap) (fd : Int) (b : Binding) : FdMap := Function.update m fd (some b)

noncomputable def free (m : FdMap) (fd : Int) : FdMap := Function.update m fd none

/-- The binding of `fd` to a duplicate, unless `oldfd` is not bound or the descriptors are equal. -/
noncomputable def dupTo (m : FdMap) (oldfd newfd : Int) (flags : UInt32) (target : UInt64) :
    FdMap × Result :=
  match m oldfd with
  | none => (m, .error .ebadf)
  | some old =>
    if newfd = oldfd then (m, .ok newfd)
    else (m.bind newfd ⟨target, old.type, old.flags ||| flags⟩, .ok newfd)

open Classical in
/-- The calls on the map. -/
noncomputable def step (m : FdMap) : Call → FdMap × Result
  | .register h type flags => (m.bind m.lowestFree ⟨h, type, flags⟩, .ok m.lowestFree)
  | .insert fd h type flags => (m.bind fd ⟨h, type, flags⟩, .ok fd)
  | .close fd => (m.free fd, .ok 0)
  | .unregister h =>
    if bound : ∃ fd, (m fd).map (·.handle) = some h then (m.free bound.choose, .ok 0)
    else (m, .ok 0)
  | .dup oldfd target =>
    match m oldfd with
    | none => (m, .error .ebadf)
    | some old => (m.bind m.lowestFree ⟨target, old.type, old.flags⟩, .ok m.lowestFree)
  | .dup2 oldfd newfd target =>
    if oldfd < 0 ∨ newfd < 0 then (m, .error .einval) else m.dupTo oldfd newfd 0 target
  | .dup3 oldfd newfd flags target =>
    if oldfd < 0 ∨ newfd < 0 ∨ newfd = oldfd then (m, .error .einval)
    else if m oldfd = none then (m, .error .ebadf)
    else if flags ≠ 0 ∧ flags ≠ oCloexec then (m, .error .einval)
    else m.dupTo oldfd newfd flags target

noncomputable def machine : Machine FdMap Call Result where
  step m c := some (m.step c)

end FdMap

/-- What an entry says: nothing when its handle is NULL. -/
def FdInfo.binding (e : FdInfo) : Option Binding :=
  if e.handle = 0 then none else some ⟨e.handle, e.type, e.flags⟩

def bindings (table : List FdInfo) : FdMap := fun fd =>
  if fd < 0 then none else (table[fd.toNat]?).bind FdInfo.binding

/-- The map a table stands for. -/
def FdTable.binding (t : FdTable) : FdMap := bindings t.table

/-- A handle of the kernel: handles are multiples of four, and a process has at most 2^24. -/
def KernelHandle (h : UInt64) : Prop := h ≠ 0 ∧ h.toNat % 4 = 0 ∧ h.toNat < 2 ^ 26

instance (h : UInt64) : Decidable (KernelHandle h) :=
  inferInstanceAs (Decidable (h ≠ 0 ∧ h.toNat % 4 = 0 ∧ h.toNat < 2 ^ 26))

/-- A handle that the kernel gives out is not one of those in the table. -/
def Fresh (m : FdMap) (h : UInt64) : Prop :=
  KernelHandle h ∧ ∀ fd b, m fd = some b → b.handle ≠ h

/-- What the callers guarantee: handles are fresh, a descriptor that is asked for is in
`[0, 2^30)`, a descriptor that is closed is bound. -/
def Allowed (t : FdTable) : Call → Prop
  | .register h _ _ => Fresh t.binding h
  | .insert fd h _ _ => Fresh t.binding h ∧ 0 ≤ fd ∧ fd < 2 ^ 30
  | .close fd => validateFd t fd = true
  | .unregister _ => True
  | .dup _ target => Fresh t.binding target
  | .dup2 _ newfd target => Fresh t.binding target ∧ newfd < 2 ^ 30
  | .dup3 _ newfd _ target => Fresh t.binding target ∧ newfd < 2 ^ 30

/-! ## The invariant -/

/-- Handles in the table are the kernel's and pairwise distinct, and the size is an `int`. -/
structure WellFormed (t : FdTable) : Prop where
  size_pos : 0 < t.size
  size_lt : t.size < 2 ^ 31
  handles : ∀ fd b, t.binding fd = some b → KernelHandle b.handle
  distinct : ∀ fd fd' b b', t.binding fd = some b → t.binding fd' = some b' →
    b.handle = b'.handle → fd = fd'

end WindowsLibc.Fcntl
