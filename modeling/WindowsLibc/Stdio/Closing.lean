import WindowsLibc.Fcntl.FdTable
import WindowsLibc.Stdio.StreamList
import WindowsLibc.Stdio.Written

/-!
# Closing streams (`fclose.c`, `freopen.c`, `close_all_streams` of `stdio/internal.c`)

All streams of the process with their descriptors: `fopen` and `fdopen` make them, `fclose` and `freopen` let
one go, and `close_all_streams` lets all of them go, at the end of the process or in `fcloseall`.

* `StdioState` is the heap with the streams, and the table of descriptors. A fault, as an access to a stream
  that has been freed, is `none`.
* `OpenStreams` is what the streams are for: a list of open files, each of which takes what is written to it.
* `StdioOp.Permitted` is what the program is asked for. `Closing/Refinement` shows that over any such history the
  streams do what the list says: whatever closes a file, it has all that was written to it, its descriptor is
  free, and its buffer goes back to the heap if it has one.
-/

namespace WindowsLibc.Stdio

open WindowsLibc.Lib WindowsLibc.Fcntl

/-! ## The functions -/

/-- The streams, the field `fd` of each, and the table of descriptors. -/
structure StdioState where
  streams : StreamList
  fd : Nat → Int
  table : FdTable

/-- A descriptor that has been closed, and what its file is left with. -/
structure Closed where
  fd : Int
  content : List Byte
  deriving DecidableEq, Repr

/-- The streams whose buffers have gone back to the heap, and the descriptors closed, in order. -/
structure Released where
  buffers : List Nat
  closed : List Closed
  deriving DecidableEq, Repr

/-- `AT_FDCWD`. -/
def atFdcwd : Int := 0x1000000

/-- `wlibc_close`; `closed` says whether `NtClose` succeeds. -/
def wlibcClose (t : FdTable) (closed : Bool) (fd : Int) : Option (FdTable × Fcntl.Result) :=
  if fd = atFdcwd then some (t, .ok 0)
  else if validateFd t fd = false then some (t, .error .ebadf)
  else closeFd t closed fd

/-- The condition under which `fclose` and `freopen` free the buffer. -/
def Stream.bufferAllocated (s : Stream) : Bool := s.bufMode.internal && s.bufMode.allocated

/-- The condition under which `close_all_streams` does. -/
def Stream.bufferInternal (s : Stream) : Bool := !s.buffer.isEmpty && s.bufMode.internal

namespace StdioState

/-- `common_fflush` on the stream at `p`. -/
def flush (p : Nat) (s : StdioState) : Option StdioState :=
  (s.streams.modify p File.flushed).map fun streams => { s with streams := streams }

/-- `create_stream`. -/
def create (block : Option Nat) (fd : Int) (stream : Stream) (s : StdioState) : Option StdioState :=
  (createFile block stream s.streams).map fun r =>
    { s with
      streams := r.1
      fd := match block with
        | none => s.fd
        | some p => Function.update s.fd p fd }

/-- The stream goes: its buffer is freed, and `delete_stream`. -/
def discard (p : Nat) (file : File) (closed : Closed) (s : StdioState) : Option (StdioState × Released) :=
  (deleteStream p s.streams).map fun streams =>
    ({ s with streams := streams }, ⟨if file.stream.bufferAllocated then [p] else [], [closed]⟩)

/-- `common_fclose`. -/
def commonFclose (p : Nat) (s : StdioState) : Option (StdioState × Released) := do
  let s ← s.flush p
  let file ← s.streams.file p
  let (s, released) ← s.discard p file ⟨s.fd p, file.stream.file.content⟩
  let (table, _) ← wlibcClose s.table true (s.fd p)
  return ({ s with table := table }, released)

/-- What `freopen` opens: the handle and its flags, the access mode, and the file. -/
structure Reopened where
  handle : UInt64
  flags : UInt32
  access : Access
  file : OpenFile

/-- The fields that `freopen` sets. -/
def reset (stream : Stream) (r : Reopened) : Stream :=
  { stream with
    file := r.file
    error := .clear
    start := 0
    end_ := 0
    pos := 0
    prevOp := .nothing
    bufMode := { stream.bufMode with
      rdonly := r.access = .rdonly, wronly := r.access = .wronly, rdwr := r.access = .rdwr } }

/-- `wlibc_freopen`; `named` says that there is a name. `r` is what is opened, if that succeeds. -/
def freopen (heap : Nat → FdInfo) (p : Nat) (named : Bool) (r : Option Reopened) (s : StdioState) :
    Option (StdioState × Released) := do
  let s ← s.flush p
  let file ← s.streams.file p
  let (table, _) ← closeFd s.table true (s.fd p)
  let closed := ⟨s.fd p, file.stream.file.content⟩
  match r with
  | none =>
    if named then discard p file closed { s with table := table }
    -- `reopen_same_file_fail`: the stream stays, with its field `fd`
    else return ({ s with table := table }, ⟨[], [closed]⟩)
  | some r =>
    let (table, fd) ← registerToFdTable (some heap) table r.handle .file r.flags
    match fd with
    | .error _ => discard p file closed { s with table := table }
    | .ok fd =>
      let streams ← s.streams.modify p fun file => { file with stream := reset file.stream r }
      return ({ streams := streams, fd := Function.update s.fd p fd, table := table }, ⟨[], [closed]⟩)

/-- The first loop of `close_all_streams`, with the streams whose buffers it frees. `head` is
`_wlibc_stdio_head`, which the loop moves and which is set back after it. -/
def flushLoop : Nat → Option Nat → StdioState → Option (List Nat × StdioState)
  | _, none, s => some ([], s)
  | 0, some _, _ => none
  | fuel + 1, some head, s => do
    let file ← s.streams.file head
    let streams := { s.streams with file := Function.update s.streams.file head (some file.flushed) }
    let (freed, s) ← flushLoop fuel file.links.prev { s with streams := streams }
    return (if file.flushed.stream.bufferInternal then head :: freed else freed, s)

/-- The second loop, with the descriptors it closes; it ends with `_wlibc_stdio_head` NULL. -/
def closeLoop : Nat → Option Nat → StdioState → Option (List Closed × StdioState)
  | _, none, s => some ([], { s with streams := { s.streams with head := none } })
  | 0, some _, _ => none
  | fuel + 1, some head, s => do
    let file ← s.streams.file head
    let (table, _) ← closeFd s.table true (s.fd head)
    let fd := s.fd head
    let (closed, s) ← closeLoop fuel file.links.prev
      { s with streams := s.streams.free head, table := table }
    return (⟨fd, file.stream.file.content⟩ :: closed, s)

/-- `close_all_streams`. -/
def closeAllStreams (fuel : Nat) (s : StdioState) : Option (StdioState × Released) := do
  let head := s.streams.head
  let (freed, s) ← flushLoop fuel head s
  let (closed, s) ← closeLoop fuel head s
  return (s, ⟨freed, closed⟩)

end StdioState

/-! ## Histories -/

/-- What the program does with its streams and descriptors. -/
inductive StdioOp where
  /-- `wlibc_fopen`, when `do_open` gets `handle`. -/
  | fopen (block : Option Nat) (handle : UInt64) (flags : UInt32) (access : Access) (file : OpenFile)
      (heap : Option (Nat → Byte))
  /-- `create_stream` on a descriptor that there is: `wlibc_fdopen` and `initialize_stdio`. -/
  | attach (block : Option Nat) (fd : Int) (bufMode : BufMode) (bufSize : Nat) (file : OpenFile)
      (heap : Option (Nat → Byte))
  | output (stream : Nat) (o : Output)
  | freopen (stream : Nat) (named : Bool) (r : Option StdioState.Reopened)
  | fclose (stream : Nat)
  | fcloseall
  /-- A call on the table that is not made for a stream. -/
  | call (c : Fcntl.Call)

/-- Nothing is closed. -/
def Released.nothing : Released := ⟨[], []⟩

/-- Addresses are 64 bits wide, so there are fewer streams than this. -/
def addressSpace : Nat := 2 ^ 64

/-- `wlibc_fwrite` returns at once. -/
def Output.isNothing : Output → Bool
  | .fwrite b => b.data.isEmpty
  | _ => false

def stdioMachine (heap : Nat → FdInfo) (info : FdInfo) : Machine StdioState StdioOp Released where
  step s
    | .fopen block handle flags access file g => do
      let (table, fd) ← registerToFdTable (some heap) s.table handle .file flags
      match fd with
      | .error _ => return ({ s with table := table }, .nothing)
      | .ok fd =>
        let s ← { s with table := table }.create block fd (createStream file (getBufMode access) 512 g)
        return (s, .nothing)
    | .attach block fd bufMode bufSize file g =>
      (s.create block fd (createStream file bufMode bufSize g)).map fun s => (s, .nothing)
    | .output p o =>
      if o.isNothing then some (s, .nothing)
      else do
        let file ← s.streams.file p
        let (stream, _) ← outputMachine.step file.stream o
        let streams ← s.streams.modify p fun file => { file with stream := stream }
        return ({ s with streams := streams }, .nothing)
    | .freopen p named r => s.freopen heap p named r
    | .fclose p => s.commonFclose p
    | .fcloseall => s.closeAllStreams addressSpace
    | .call c => ((fdMachine heap info).step s.table c).map fun r => ({ s with table := r.1 }, .nothing)

/-! ## What the streams are for -/

/-- A stream, its descriptor, its file as it will be when it is closed, whether it works without a buffer, and
whether it has one. -/
structure OpenStream where
  stream : Nat
  fd : Int
  file : OpenFile
  bare : Bool
  buffered : Bool

/-- The open streams, the newest first, and the descriptors. -/
structure OpenStreams where
  streams : List OpenStream
  fds : FdMap

namespace OpenStream

def closed (e : OpenStream) : Closed := ⟨e.fd, e.file.content⟩

def released (e : OpenStream) : Released := ⟨if e.buffered then [e.stream] else [], [e.closed]⟩

/-- What is written goes to the file, as it is: to its end with `O_APPEND`, and else to where it stands. With the
first byte the stream gets its buffer. -/
def write (e : OpenStream) (o : Output) : OpenStream :=
  { e with file := e.file.put o.bytes, buffered := e.buffered || (!e.bare && !o.bytes.isEmpty) }

end OpenStream

namespace OpenStreams

/-- The stream at `p` changes. -/
def change (p : Nat) (f : OpenStream → OpenStream) (l : List OpenStream) : List OpenStream :=
  l.map fun e => if e.stream = p then f e else e

/-- The other streams. -/
def without (p : Nat) (l : List OpenStream) : List OpenStream := l.filter fun e => e.stream ≠ p

def find (p : Nat) (l : List OpenStream) : Option OpenStream := l.find? fun e => e.stream = p

/-- A new stream, if there is memory for it. -/
def add (block : Option Nat) (fd : Int) (file : OpenFile) (bare : Bool) (l : List OpenStream) : List OpenStream :=
  match block with
  | none => l
  | some p => ⟨p, fd, file, bare, false⟩ :: l

/-- Descriptors are freed, one after the other. -/
noncomputable def freeAll (l : List OpenStream) (m : FdMap) : FdMap := l.foldl (fun m e => m.free e.fd) m

noncomputable def step (a : OpenStreams) : StdioOp → OpenStreams × Released
  | .fopen block handle flags _ file _ =>
    (⟨add block a.fds.lowestFree file false a.streams, a.fds.bind a.fds.lowestFree ⟨handle, .file, flags⟩⟩,
      .nothing)
  | .attach block fd bufMode _ file _ => (⟨add block fd file bufMode.nbf a.streams, a.fds⟩, .nothing)
  | .output p o => (⟨change p (fun e => e.write o) a.streams, a.fds⟩, .nothing)
  | .freopen p named r =>
    match find p a.streams with
    | none => (a, .nothing)
    | some e =>
      let fds := a.fds.free e.fd
      match r with
      | none =>
        if named then (⟨without p a.streams, fds⟩, e.released) else (⟨a.streams, fds⟩, ⟨[], [e.closed]⟩)
      | some r =>
        (⟨change p (fun e => { e with fd := fds.lowestFree, file := r.file }) a.streams,
          fds.bind fds.lowestFree ⟨r.handle, .file, r.flags⟩⟩, ⟨[], [e.closed]⟩)
  | .fclose p =>
    match find p a.streams with
    | none => (a, .nothing)
    | some e => (⟨without p a.streams, a.fds.free e.fd⟩, e.released)
  | .fcloseall =>
    (⟨[], freeAll a.streams a.fds⟩,
      ⟨(a.streams.filter OpenStream.buffered).map OpenStream.stream, a.streams.map OpenStream.closed⟩)
  | .call c => (⟨a.streams, (a.fds.step c).1⟩, .nothing)

noncomputable def machine : Machine OpenStreams StdioOp Released where
  step a op := some (a.step op)

end OpenStreams

/-! ## What the program is asked to do -/

/-- What is asked of a new stream: its buffer is its own, if it has one, and the kernel takes what is written. -/
structure Creatable (file : OpenFile) (bufMode : BufMode) (bufSize : Nat) (heap : Option (Nat → Byte)) :
    Prop where
  not_allocated : bufMode.allocated = false
  buffered : bufMode.nbf = false → bufMode.internal = true ∧ 1 ≤ bufSize ∧ heap.isSome
  granted : bufMode.rdonly = false → file.Granted

/-- The heap hands out what is not in use. -/
def FreeBlock (s : StdioState) (block : Option Nat) : Prop :=
  ∀ p, block = some p → s.streams.file p = none ∧ p < addressSpace

/-- The stream is open for writing, and the write does not overflow a window that a flush has shortened. -/
def SafeWrite (s : Stream) (o : Output) : Prop :=
  s.bufMode.rdonly = false ∧ (s.bufMode.nbf = false → FlushSafe s o)

/-- Handles are fresh; only live streams are used, and written to if they are open for it; the kernel takes what is
written, and no write overflows a window that a flush has shortened; a descriptor belongs to one stream, and the
calls on descriptors leave those of the streams alone. The reopening of the same file does not fail. -/
def StdioOp.Permitted (s : StdioState) : StdioOp → Prop
  | .fopen block handle _ access file heap =>
    FreeBlock s block ∧ Fresh s.table.binding handle ∧ Creatable file (getBufMode access) 512 heap
  | .attach block fd bufMode bufSize file heap =>
    FreeBlock s block ∧ Creatable file bufMode bufSize heap ∧ s.table.binding fd ≠ none ∧ fd ≠ atFdcwd ∧
      ∀ p, s.streams.file p ≠ none → s.fd p ≠ fd
  | .output p o =>
    ∃ file, s.streams.file p = some file ∧ (o.bytes ≠ [] → SafeWrite file.stream o)
  | .freopen p named r =>
    s.streams.file p ≠ none ∧ (r = none → named = true) ∧
      ∀ r', r = some r' → Fresh s.table.binding r'.handle ∧ (r'.access ≠ .rdonly → r'.file.Granted)
  | .fclose p => s.streams.file p ≠ none
  | .fcloseall => True
  | .call c =>
    Allowed s.table c ∧
      ∀ p, s.streams.file p ≠ none → (s.table.binding.step c).1 (s.fd p) = s.table.binding (s.fd p)

end WindowsLibc.Stdio
