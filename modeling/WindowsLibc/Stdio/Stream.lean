import WindowsLibc.Lib.Overwrite

/-!
# Buffered streams

The `FILE` of `internal/stdio.h` over one open file, and the functions of `fread.c`, `fwrite.c`,
`fgetc.c`, `fputc.c`, `ungetc.c`, `fseek.c` and `fflush.c` on it.

* `OpenFile` is what the kernel keeps for the descriptor: the bytes, one offset, and a *script* of
  answers, one for each system call still to be made. Quantifying over scripts is quantifying over
  everything `read(2)` may do: short counts of any size, and failures.
* `Stream` is the `FILE`. The window `[start, end)` is the part of the file that `buffer` stands
  for, `pos` the stream position (`ftell`). While reading, the kernel offset has run ahead to
  `end`; while writing, it waits at `start`.

The C code works on raw memory, so the model carries one ghost bit: `fault` is set when an access
leaves `buffer`, when a `size_t` subtraction of window bounds wraps, when a failed `lseek` is taken
for a position (`(size_t)-1`, with which every sum wraps), or when a transfer loop does not end.
-/

namespace WindowsLibc.Stdio

open WindowsLibc.Lib

abbrev Byte := UInt8

/-! ## The open file -/

/-- The kernel's answer to one system call. A `short n` read transfers at most `max n 1` bytes, so
that it returns `0` only at end of file. -/
inductive Answer where
  | full
  | short (n : Nat)
  | fail
  deriving DecidableEq, Repr

/-- An open regular file. When the script has run out, calls succeed in full. -/
structure OpenFile where
  content : List Byte
  offset : Nat
  /-- The descriptor has `O_APPEND`. -/
  append : Bool
  script : List Answer
  deriving DecidableEq, Repr

inductive Whence where
  | set
  | cur
  | end_
  deriving DecidableEq, Repr

namespace OpenFile

/-- The answer to the next call. -/
def answer (f : OpenFile) : Answer := f.script.headD .full

/-- The call has been answered. -/
def answered (f : OpenFile) : OpenFile := { f with script := f.script.tail }

/-- The bytes `read` transfers when it does not fail. -/
def transfer (f : OpenFile) (count : Nat) : List Byte :=
  match f.answer with
  | .short n => (f.content.drop f.offset).take (min count (max n 1))
  | _ => (f.content.drop f.offset).take count

/-- `read(fd, buffer, count)`; `none` is the result `-1`. -/
def read (f : OpenFile) (count : Nat) : Option (List Byte) × OpenFile :=
  if f.answer = .fail then (none, f.answered)
  else (some (f.transfer count), { f.answered with offset := f.offset + (f.transfer count).length })

/-- `write(fd, bytes, count)`: all or nothing. With `O_APPEND` the bytes go to the end of the file,
wherever the offset is. -/
def write (f : OpenFile) (bytes : List Byte) : Option Nat × OpenFile :=
  if f.answer = .fail then (none, f.answered)
  else
    let at_ := if f.append then f.content.length else f.offset
    (some bytes.length,
      { f.answered with content := overwrite f.content at_ bytes, offset := at_ + bytes.length })

/-- `lseek(fd, offset, whence)`; a negative target is refused. -/
def lseek (f : OpenFile) (offset : Int) (whence : Whence) : Option Nat × OpenFile :=
  let base : Int := match whence with
    | .set => 0
    | .cur => f.offset
    | .end_ => f.content.length
  if f.answer = .fail ∨ base + offset < 0 then (none, f.answered)
  else (some (base + offset).toNat, { f.answered with offset := (base + offset).toNat })

end OpenFile

/-! ## The stream -/

/-- The bits of `buf_mode`. -/
structure BufMode where
  internal : Bool
  external : Bool
  allocated : Bool
  rdonly : Bool
  wronly : Bool
  rdwr : Bool
  /-- `_IOFBF` -/
  fbf : Bool
  /-- `_IOLBF` -/
  lbf : Bool
  /-- `_IONBF` -/
  nbf : Bool
  deriving DecidableEq, Repr

/-- The field `error`: `0`, `_IOEOF` or `_IOERROR`. -/
inductive StreamError where
  | clear
  | eof
  | error
  deriving DecidableEq, Repr

/-- The field `prev_op`: `0`, `OP_READ` or `OP_WRITE`. -/
inductive PrevOp where
  | nothing
  | read
  | write
  deriving DecidableEq, Repr

structure Stream where
  file : OpenFile
  bufMode : BufMode
  error : StreamError
  buffer : List Byte
  bufSize : Nat
  start : Nat
  end_ : Nat
  pos : Nat
  prevOp : PrevOp
  /-- What the heap answers: `none` when it is exhausted, else the bytes found in a new block. -/
  heap : Option (Nat → Byte)
  /-- Ghost: an access left `buffer`, window arithmetic wrapped, or a loop did not end. -/
  fault : Bool

/-- `create_stream` on a freshly opened descriptor: everything else is zeroed memory. -/
def createStream (file : OpenFile) (bufMode : BufMode) (bufSize : Nat)
    (heap : Option (Nat → Byte)) : Stream where
  file := file
  bufMode := bufMode
  error := .clear
  buffer := []
  bufSize := bufSize
  start := 0
  end_ := 0
  pos := 0
  prevOp := .nothing
  heap := heap
  fault := false

/-- The access mode of the `open` flags. -/
inductive Access where
  | rdonly
  | wronly
  | rdwr
  deriving DecidableEq, Repr

/-- `_IOBUFFER_INTERNAL | _IOFBF | get_buf_mode(flags)`, the mode that `fopen` asks for. -/
def getBufMode (access : Access) : BufMode where
  internal := true
  external := false
  allocated := false
  rdonly := access = .rdonly
  wronly := access = .wronly
  rdwr := access = .rdwr
  fbf := true
  lbf := false
  nbf := false

/-- Subtraction of `size_t`. -/
def sub64 (a b : Nat) : Nat := if b ≤ a then a - b else a + 2 ^ 64 - b

namespace Stream

/-- Record whether a condition the C code relies on holds here. -/
def check (s : Stream) (ok : Bool) : Stream := { s with fault := s.fault || !ok }

/-- `memcpy(dst, stream->buffer + off, n)`: the bytes. -/
def load (s : Stream) (off n : Nat) : List Byte := (s.buffer.drop off).take n

/-- `memcpy(dst, stream->buffer + off, n)`: the access. -/
def touch (s : Stream) (off n : Nat) : Stream := s.check (off + n ≤ s.buffer.length)

/-- `memcpy(stream->buffer + off, bytes, n)`. -/
def store (s : Stream) (off : Nat) (bytes : List Byte) : Stream :=
  { s.touch off bytes.length with buffer := overwrite s.buffer off bytes }

/-- Both window subtractions stay in range. -/
def checkWindow (s : Stream) : Stream := s.check (s.start ≤ s.pos && s.pos ≤ s.end_)

end Stream

/-- The lazy allocation both transfer functions start with. `false`: out of memory. -/
def allocateBuffer (s : Stream) : Bool × Stream :=
  if s.bufMode.internal && !s.bufMode.allocated then
    match s.heap with
    | none => (false, { s with buffer := [] })
    | some g =>
      (true, { s with
        buffer := (List.range s.bufSize).map g
        bufMode := { s.bufMode with allocated := true } })
  else (true, s)

/-! ### `fflush.c` -/

/-- `common_fflush`; `false` is the result `-1`. -/
def commonFflush (s : Stream) : Bool × Stream :=
  if s.bufMode.nbf then (true, s)
  else if s.bufMode.rdonly then (true, s)
  else if s.prevOp = .read then (true, s)
  else if s.start ≠ s.pos then
    let n := sub64 s.pos s.start
    let s := (s.check (s.start ≤ s.pos)).touch 0 n
    match s.file.write (s.load 0 n) with
    | (none, f) => (false, { s with file := f, error := .error })
    | (some _, f) => (true, { s with file := f, start := s.pos })
  else (true, s)

/-! ### `fread.c` -/

/-- `read_wrapper`: no bytes mean that `error` has been set. -/
def readWrapper (s : Stream) (size : Nat) : List Byte × Stream :=
  match s.file.read size with
  | (none, f) => ([], { s with file := f, error := .error })
  | (some [], f) => ([], { s with file := f, error := .eof })
  | (some bytes, f) => (bytes, { s with file := f })

/-- The loop `while (bytes_read + buf_size < data_size)`, which reads into the caller's buffer
(`got`). The `Bool` is `read_result > 0`. -/
def freadDirect (dataSize : Nat) : Nat → List Byte → Stream → List Byte × Bool × Stream
  | 0, got, s => (got, true, s.check false)
  | fuel + 1, got, s =>
    if got.length + s.bufSize < dataSize then
      match readWrapper s s.bufSize with
      | ([], s) => (got, false, s)
      | (bytes, s) => freadDirect dataSize fuel (got ++ bytes) s
    else (got, true, s)

/-- The loop that reads the last block into `stream->buffer`; `last` is `last_read_count`. -/
def freadFill (need : Nat) : Nat → Nat → Stream → Nat × Stream
  | 0, last, s => (last, s.check false)
  | fuel + 1, last, s =>
    if last < s.bufSize ∧ last < need then
      match readWrapper s (s.bufSize - last) with
      | ([], s) => (last, s)
      | (bytes, s) => freadFill need fuel (last + bytes.length) (s.store last bytes)
    else (last, s)

/-- The last block: what is required goes to the caller, the rest stays in the window. -/
def freadLast (s : Stream) (size dataSize : Nat) (got : List Byte) : (List Byte × Nat) × Stream :=
  match freadFill (dataSize - got.length) (s.bufSize + 1) 0 s with
  | (0, s) => ((got, got.length / size), s)
  | (last, s) =>
    let n := min (dataSize - got.length) last
    ((got ++ s.load 0 n, (got.length + n) / size),
      { s.touch 0 n with start := s.pos, end_ := s.pos + last, pos := s.pos + n })

/-- The buffered branch, once the stream is in read mode and has its buffer. -/
def freadBuffered (s : Stream) (size count : Nat) : (List Byte × Nat) × Stream :=
  let dataSize := size * count
  let s := s.checkWindow
  let off := sub64 s.pos s.start
  if dataSize ≤ sub64 s.end_ s.pos then
    ((s.load off dataSize, count), { s.touch off dataSize with pos := s.pos + dataSize })
  else
    let head := if s.pos < s.end_ then s.load off (s.end_ - s.pos) else []
    let s := if s.pos < s.end_ then s.touch off (s.end_ - s.pos) else s
    match freadDirect dataSize (dataSize + 1) head s with
    | (got, more, s) =>
      let here := s.pos + got.length
      let s := { s with pos := here, start := here, end_ := here }
      if more then freadLast s size dataSize got else ((got, got.length / size), s)

/-- The unbuffered branch. -/
def freadUnbuffered (s : Stream) (size count : Nat) : (List Byte × Nat) × Stream :=
  match readWrapper s (size * count) with
  | ([], s) => (([], 0), { s with prevOp := .read })
  | (bytes, s) =>
    let here := s.pos + bytes.length
    ((bytes, bytes.length / size),
      { s with prevOp := .read, pos := here, start := here, end_ := here })

/-- Enter read mode: what was written goes out first. -/
def enterRead (s : Stream) : Stream :=
  if s.prevOp = .write then
    let s := (commonFflush s).2
    { s with end_ := s.start, prevOp := .read }
  else { s with prevOp := .read }

/-- `common_fread`: the bytes stored in the caller's buffer, and the returned item count. -/
def commonFread (s : Stream) (size count : Nat) : (List Byte × Nat) × Stream :=
  if s.error = .eof ∨ s.error = .error then (([], 0), s)
  else if s.bufMode.wronly then (([], 0), { s with error := .error })
  else if s.bufMode.nbf then freadUnbuffered s size count
  else
    match allocateBuffer (enterRead s) with
    | (false, s) => (([], 0), s)
    | (true, s) => freadBuffered s size count

/-! ### `fwrite.c` and `fputc.c` -/

/-- The caller's array of `count` items of `size` bytes. -/
structure Block where
  size : Nat
  count : Nat
  data : List Byte
  length_data : data.length = size * count

/-- The loop `while (bytes_written + buf_size < data_size)`, which writes from the caller's buffer.
The `Bool` is `write_result > 0`. -/
def fwriteDirect (data : List Byte) : Nat → Nat → Stream → Nat × Bool × Stream
  | 0, written, s => (written, true, s.check false)
  | fuel + 1, written, s =>
    if written + s.bufSize < data.length then
      match s.file.write ((data.drop written).take s.bufSize) with
      | (none, f) => (written, false, { s with file := f })
      | (some n, f) => fwriteDirect data fuel (written + n) { s with file := f }
    else (written, true, s)

/-- Top up a buffer that is not empty, and write the whole of it: `buf_size` bytes, whatever the
window is. `none`: the write failed. -/
def fwriteTopUp (s : Stream) (data : List Byte) : Option Nat × Stream :=
  let room := sub64 s.end_ s.pos
  if room ≠ s.bufSize then
    let s := (s.store (sub64 s.pos s.start) (data.take room)).touch 0 s.bufSize
    match s.file.write (s.load 0 s.bufSize) with
    | (none, f) => (none, { s with file := f, error := .error })
    | (some _, f) => (some room, { s with file := f })
  else (some 0, s)

/-- The branch for data that does not fit into the window. -/
def fwriteOverflow (s : Stream) (b : Block) : Nat × Stream :=
  match fwriteTopUp s b.data with
  | (none, s) => (0, s)
  | (some topped, s) =>
    match fwriteDirect b.data (b.data.length + s.file.script.length + 1) topped s with
    | (written, more, s) =>
      let here := s.pos + written
      let s := { s with pos := here, start := here, end_ := here }
      if more then
        let rest := b.data.drop written
        ((written + rest.length) / b.size,
          { s.store 0 rest with end_ := here + s.bufSize, pos := here + rest.length })
      else (written / b.size, s)

/-- An empty window is opened anew at the stream position. -/
def openWindow (s : Stream) : Stream :=
  if s.start = s.end_ ∧ (s.bufMode.allocated ∨ s.bufMode.external) then
    { s with start := s.pos, end_ := s.pos + s.bufSize }
  else s

/-- The buffered branch, once the stream is in write mode and has its buffer. -/
def fwriteBuffered (s : Stream) (b : Block) : Nat × Stream :=
  let s := (openWindow s).checkWindow
  if b.data.length ≤ sub64 s.end_ s.pos then
    (b.count, { s.store (sub64 s.pos s.start) b.data with pos := s.pos + b.data.length })
  else fwriteOverflow s b

/-- The unbuffered branch. -/
def fwriteUnbuffered (s : Stream) (b : Block) : Nat × Stream :=
  match s.file.write b.data with
  -- `result / size` with `result == -1`: the division is unsigned
  | (none, f) => ((2 ^ 64 - 1) / b.size, { s with file := f, prevOp := .write, error := .error })
  | (some n, f) =>
    let here := s.pos + n
    (n / b.size, { s with file := f, prevOp := .write, pos := here, start := here, end_ := here })

/-- Enter write mode: an appending stream goes to the end of the file, any other one seeks the
kernel back from the read-ahead to the stream position. -/
def enterWrite (s : Stream) : Stream :=
  if s.prevOp ≠ .write then
    let s :=
      if s.file.append then
        match s.file.lseek 0 .end_ with
        | (none, f) => { s.check false with file := f, pos := 2 ^ 64 - 1 }
        | (some n, f) => { s with file := f, pos := n }
      else if s.prevOp = .read then { s with file := (s.file.lseek s.pos .set).2 }
      else s
    { s with start := s.pos, end_ := s.pos, prevOp := .write }
  else s

/-- `common_fwrite`: the returned item count. -/
def commonFwrite (s : Stream) (b : Block) : Nat × Stream :=
  if s.error = .error then (0, s)
  else if s.bufMode.rdonly then (0, { s with error := .error })
  else if s.bufMode.nbf then fwriteUnbuffered s b
  else
    match allocateBuffer (enterWrite s) with
    | (false, s) => (0, s)
    | (true, s) => fwriteBuffered s b

/-- The one-byte block `common_fputc` hands on. -/
def Block.single (ch : Byte) : Block := ⟨1, 1, [ch], rfl⟩

/-- `common_fputc`; `none` is `EOF`. -/
def commonFputc (s : Stream) (ch : Byte) : Option Byte × Stream :=
  if s.bufMode.nbf = false ∧ s.prevOp = .write ∧ s.start ≠ s.end_ ∧ s.pos ≠ s.end_ then
    (some ch, { (s.check (s.start ≤ s.pos)).store (sub64 s.pos s.start) [ch] with pos := s.pos + 1 })
  else
    match commonFwrite s (Block.single ch) with
    | (1, s) => (some ch, s)
    | (_, s) => (none, s)

/-! ### `fgetc.c`, `ungetc.c` and `fseek.c` -/

/-- A `char` as an `int`: `char` is signed. -/
def intOfChar (ch : Byte) : Int := if ch < 128 then ch.toNat else (ch.toNat : Int) - 256

/-- `EOF`. -/
def eof : Int := -1

/-- `common_fgetc`. `ch` is what its uninitialised variable happens to hold. -/
def commonFgetc (ch : Byte) (s : Stream) : Int × Stream :=
  if s.bufMode.nbf = false ∧ s.prevOp = .read ∧ s.start ≠ s.end_ ∧ s.pos ≠ s.end_ then
    let off := sub64 s.pos s.start
    (intOfChar ((s.load off 1).headD 0),
      { (s.check (s.start ≤ s.pos)).touch off 1 with pos := s.pos + 1 })
  else
    match commonFread s 1 1 with
    | ((bytes, _), s) => (if s.error = .eof then eof else intOfChar (bytes.headD ch), s)

/-- `error & ~_IOEOF`. -/
def StreamError.withoutEof : StreamError → StreamError
  | .error => .error
  | _ => .clear

/-- `common_ungetc`; `false` is `EOF`. -/
def commonUngetc (s : Stream) (ch : Byte) : Bool × Stream :=
  if s.prevOp = .read ∧ s.start < s.pos then
    (true,
      { s.store (sub64 (s.pos - 1) s.start) [ch] with
        pos := s.pos - 1, error := s.error.withoutEof })
  else (false, s)

/-- The end of `common_fseek`: ask the kernel. `false` is the result `-1`. -/
def seekFile (s : Stream) (offset : Int) (whence : Whence) : Bool × Stream :=
  match s.file.lseek offset whence with
  | (none, f) => (false, { s with file := f })
  | (some n, f) =>
    (true, { s with
      file := f
      pos := n
      start := n
      end_ := n
      error := if whence = .set ∧ offset = 0 then .clear else s.error.withoutEof })

/-- `common_fseek`. Within the window of a stream that is being read, only `pos` moves. -/
def commonFseek (s : Stream) (offset : Int) (whence : Whence) : Bool × Stream :=
  let s := if s.prevOp = .write then (commonFflush s).2 else s
  -- `size_t new_pos = stream->pos + offset`
  let newPos := ((s.pos + offset) % 2 ^ 64).toNat
  if whence = .cur ∧ s.prevOp = .read ∧ s.start ≤ newPos ∧ newPos ≤ s.end_ ∧ s.start ≠ s.end_ then
    (true, { s with pos := newPos })
  else seekFile s offset whence

/-- The flush of `common_fclose`, and the file it leaves behind. -/
def commonFclose (s : Stream) : List Byte := (commonFflush s).2.file.content

end WindowsLibc.Stdio
