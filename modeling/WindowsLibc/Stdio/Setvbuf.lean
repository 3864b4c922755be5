import WindowsLibc.Stdio.Window

/-!
# Choosing a buffer

`setvbuf.c`, the queries of `fileops.c`, and what `common_fwrite` makes of the buffer sizes that can be
chosen.

* `commonSetvbuf` is the state machine behind `setvbuf`: a stream has a buffer of its own, the caller's,
  or none. What the heap answers is an argument, so that one call may be refused and the next not.
* `Untouched` is what holds of a stream on which nothing but `setvbuf` has been called.
* `fwrite_terminates_iff`: the loop of `common_fwrite` makes `buf_size` bytes of progress a turn, and a
  buffer of the caller's may have size 0.
-/

namespace WindowsLibc.Stdio

open WindowsLibc.Lib

/-! ## The functions -/

/-- The modes that `setvbuf` accepts. -/
inductive Buffering where
  | fbf
  | lbf
  | nbf
  deriving DecidableEq, Repr

/-- `_IOFBF`, `_IOLBF` and `_IONBF`. -/
def Buffering.code : Buffering → Int
  | .fbf => 0x10
  | .lbf => 0x20
  | .nbf => 0x40

/-- The mode that an `int` stands for. -/
def Buffering.ofCode (mode : Int) : Option Buffering :=
  if mode = 0x40 then some .nbf else if mode = 0x10 then some .fbf
  else if mode = 0x20 then some .lbf else none

/-- `wlibc_fbufsize`. -/
def fbufsize (s : Stream) : Nat := s.bufSize

/-- `wlibc_fbufmode`: `buf_mode & (_IONBF | _IOLBF | _IOFBF)`. -/
def fbufmode (s : Stream) : Int :=
  (if s.bufMode.nbf then 0x40 else 0) + (if s.bufMode.lbf then 0x20 else 0) +
    if s.bufMode.fbf then 0x10 else 0

/-- `mode | ...`, without the access bits. -/
def BufMode.of (mode : Buffering) (internal external allocated : Bool) : BufMode where
  internal := internal
  external := external
  allocated := allocated
  rdonly := false
  wronly := false
  rdwr := false
  fbf := mode = .fbf
  lbf := mode = .lbf
  nbf := mode = .nbf

/-- `buf_mode |= buf_type`. -/
def BufMode.orAccess (m access : BufMode) : BufMode :=
  { m with
    rdonly := m.rdonly || access.rdonly
    wronly := m.wronly || access.wronly
    rdwr := m.rdwr || access.rdwr }

/-- A block of `size` bytes. -/
def block (size : Nat) (bytes : Nat → Byte) : List Byte := (List.range size).map bytes

/-- The caller's buffer. The array has a first byte even where `size` is 0; `[]` is NULL. -/
def callerBuffer (size : Nat) (bytes : Nat → Byte) : List Byte := block (max size 1) bytes

/-- No buffer given, and the stream has been using the caller's: it gets one of its own. -/
def replaceExternal (s : Stream) (mode : Buffering) (size : Nat) (heap : Option (Nat → Byte)) :
    Bool × Stream :=
  if s.bufMode.external then
    match heap with
    | none => (false, { s with buffer := [] })
    | some g =>
      (true, { s with
        buffer := block size g, bufSize := size, bufMode := .of mode true false true })
  else (true, s)

/-- No buffer given: the stream's own is resized, or allocated with that size. -/
def resizeInternal (s : Stream) (mode : Buffering) (size : Nat) (heap : Option (Nat → Byte)) :
    Bool × Stream :=
  if s.bufMode.internal ∧ size ≠ s.bufSize then
    if s.bufMode.allocated then
      match heap with
      | none => (false, s)
      | some g =>
        (true, { s with
          buffer := block size (fun i => s.buffer.getD i (g i))
          bufSize := size
          bufMode := .of mode true false true })
    else
      match heap with
      | none => (false, { s with buffer := [] })
      | some g =>
        (true, { s with
          buffer := block size g, bufSize := size, bufMode := .of mode true false true })
  else (true, s)

/-- The branch for `buffer == NULL`. -/
def setvbufNull (s : Stream) (mode : Buffering) (size : Nat) (heap : Option (Nat → Byte)) :
    Bool × Stream :=
  if size ≠ 0 then
    match replaceExternal s mode size heap with
    | (false, s) => (false, s)
    | (true, s) => resizeInternal s mode size heap
  else (false, s)

/-- The branch for a buffer of the caller's. `freed` is what `RtlFreeHeap` answers. -/
def setvbufCaller (s : Stream) (bytes : Nat → Byte) (mode : Buffering) (size : Nat) (freed : Bool) :
    Bool × Stream :=
  if s.buffer ≠ [] ∧ s.bufMode.internal ∧ freed = false then (false, s)
  else
    (true, { s with
      buffer := callerBuffer size bytes, bufSize := size, bufMode := .of mode false true false })

/-- The branch for `_IONBF`. The source frees the buffer after it has set the pointer to NULL, so that
nothing is freed and nothing can fail. -/
def setvbufNone (s : Stream) : Bool × Stream :=
  (true, { s with bufMode := .of .nbf false false false, bufSize := 0, buffer := [] })

/-- The arguments of `setvbuf`, and what the heap answers. -/
structure SetvbufCall where
  buffer : Option (Nat → Byte)
  mode : Int
  size : Nat
  heap : Option (Nat → Byte)
  freed : Bool

/-- `lseek(stream->fd, stream->pos, SEEK_SET)`, and the window is dropped. -/
def dropWindow (s : Stream) : Stream :=
  { s with file := (s.file.lseek s.pos .set).2, start := s.pos, end_ := s.pos }

/-- `common_setvbuf`; `false` is the result `-1`. -/
def commonSetvbuf (s : Stream) (mode : Buffering) (c : SetvbufCall) : Bool × Stream :=
  let access := s.bufMode
  let s := dropWindow s
  let (ok, s) :=
    if mode = .nbf then setvbufNone s
    else
      match c.buffer with
      | none => setvbufNull s mode c.size c.heap
      | some bytes => setvbufCaller s bytes mode c.size c.freed
  if ok then (true, { s with bufMode := s.bufMode.orAccess access }) else (false, s)

/-- `wlibc_setvbuf`. The result of the flush is not looked at. -/
def SetvbufCall.apply (s : Stream) (c : SetvbufCall) : Bool × Stream :=
  match Buffering.ofCode c.mode with
  | none => (false, s)
  | some mode => commonSetvbuf (commonFflush s).2 mode c

/-! ## What a call does -/

variable {s : Stream}

/-- How a call for a valid mode ends: refused, with at most the pointer changed, or with a buffer of
one of the three kinds, or accepted with nothing done. -/
inductive SetvbufResult (s : Stream) (mode : Buffering) (c : SetvbufCall) : Bool × Stream → Prop
  /-- `_IONBF`. -/
  | unbuffered (hmode : mode = .nbf) :
      SetvbufResult s mode c (true, { dropWindow s with
        bufMode := (BufMode.of .nbf false false false).orAccess s.bufMode, bufSize := 0, buffer := [] })
  /-- A buffer of the caller's. -/
  | caller (bytes : Nat → Byte) (hmode : mode ≠ .nbf) (hbuffer : c.buffer = some bytes)
      (hfree : ¬ (s.buffer ≠ [] ∧ s.bufMode.internal ∧ c.freed = false)) :
      SetvbufResult s mode c (true, { dropWindow s with
        buffer := callerBuffer c.size bytes, bufSize := c.size
        bufMode := (BufMode.of mode false true false).orAccess s.bufMode })
  /-- The old buffer cannot be freed. -/
  | notFreed (bytes : Nat → Byte) (hmode : mode ≠ .nbf) (hbuffer : c.buffer = some bytes)
      (hfree : s.buffer ≠ [] ∧ s.bufMode.internal ∧ c.freed = false) :
      SetvbufResult s mode c (false, dropWindow s)
  /-- Buffering without a buffer and without a size. -/
  | noSize (hmode : mode ≠ .nbf) (hbuffer : c.buffer = none) (hsize : c.size = 0) :
      SetvbufResult s mode c (false, dropWindow s)
  /-- A new buffer of the stream's own. -/
  | own (block : List Byte) (hmode : mode ≠ .nbf) (hbuffer : c.buffer = none) (hsize : c.size ≠ 0)
      (hlength : block.length = c.size)
      (hkind : s.bufMode.external = true ∨ (s.bufMode.internal = true ∧ c.size ≠ s.bufSize))
      (hheap : c.heap.isSome) :
      SetvbufResult s mode c (true, { dropWindow s with
        buffer := block, bufSize := c.size
        bufMode := (BufMode.of mode true false true).orAccess s.bufMode })
  /-- There is no memory for it. -/
  | noMemory (block : List Byte) (hmode : mode ≠ .nbf) (hbuffer : c.buffer = none) (hsize : c.size ≠ 0)
      (hblock : block = if s.bufMode.external = false ∧ s.bufMode.allocated = true then s.buffer else [])
      (hkind : s.bufMode.external = true ∨ (s.bufMode.internal = true ∧ c.size ≠ s.bufSize))
      (hheap : c.heap = none) :
      SetvbufResult s mode c (false, { dropWindow s with buffer := block })
  /-- The stream's own buffer has that size already, or the stream is unbuffered. -/
  | kept (hmode : mode ≠ .nbf) (hbuffer : c.buffer = none) (hsize : c.size ≠ 0)
      (hkind : s.bufMode.external = false ∧ (s.bufMode.internal = true → c.size = s.bufSize)) :
      SetvbufResult s mode c (true, dropWindow s)

theorem length_block (size : Nat) (bytes : Nat → Byte) : (block size bytes).length = size := by
  rw [block, List.length_map, List.length_range]

theorem BufMode.orAccess_self (m : BufMode) : m.orAccess m = m := by
  simp [BufMode.orAccess]

theorem commonSetvbuf_result (s : Stream) (mode : Buffering) (c : SetvbufCall) :
    SetvbufResult s mode c (commonSetvbuf s mode c) := by
  rw [commonSetvbuf]
  by_cases hmode : mode = .nbf
  · simp only [if_pos hmode, setvbufNone, if_true]
    exact .unbuffered hmode
  simp only [if_neg hmode]
  cases hbuffer : c.buffer with
  | some bytes =>
    by_cases hfree : s.buffer ≠ [] ∧ s.bufMode.internal ∧ c.freed = false
    · have hcaller : setvbufCaller (dropWindow s) bytes mode c.size c.freed = (false, dropWindow s) :=
        if_pos hfree
      simp only [hcaller, Bool.false_eq_true, if_false]
      exact .notFreed bytes hmode hbuffer hfree
    · have hcaller : setvbufCaller (dropWindow s) bytes mode c.size c.freed =
          (true, { dropWindow s with
            buffer := callerBuffer c.size bytes, bufSize := c.size
            bufMode := .of mode false true false }) := if_neg hfree
      simp only [hcaller, if_true]
      exact .caller bytes hmode hbuffer hfree
  | none =>
    by_cases hsize : c.size = 0
    · simp only [setvbufNull, hsize, ne_eq, not_true_eq_false, if_false, Bool.false_eq_true]
      exact .noSize hmode hbuffer hsize
    simp only [setvbufNull, ne_eq, hsize, not_false_eq_true, if_true]
    by_cases hext : s.bufMode.external = true
    · have hkind : s.bufMode.external = true ∨ (s.bufMode.internal = true ∧ c.size ≠ s.bufSize) :=
        Or.inl hext
      cases hheap : c.heap with
      | none =>
        have hreplace : replaceExternal (dropWindow s) mode c.size none =
            (false, { dropWindow s with buffer := [] }) := if_pos hext
        simp only [hreplace, Bool.false_eq_true, if_false]
        exact .noMemory [] hmode hbuffer hsize (by simp [hext]) hkind hheap
      | some g =>
        have hreplace : replaceExternal (dropWindow s) mode c.size (some g) =
            (true, { dropWindow s with
              buffer := block c.size g, bufSize := c.size, bufMode := .of mode true false true }) :=
          if_pos hext
        simp only [hreplace, resizeInternal, ne_eq, not_true_eq_false, and_false, if_false, if_true]
        exact .own _ hmode hbuffer hsize (length_block _ _) hkind (by rw [hheap]; rfl)
    · have hreplace : replaceExternal (dropWindow s) mode c.size c.heap = (true, dropWindow s) :=
        if_neg hext
      have hext' : s.bufMode.external = false := by simpa using hext
      simp only [hreplace, resizeInternal]
      by_cases hresize : s.bufMode.internal = true ∧ c.size ≠ s.bufSize
      · have hcond : (dropWindow s).bufMode.internal = true ∧ ¬ c.size = (dropWindow s).bufSize := hresize
        simp only [if_pos hcond]
        by_cases halloc : s.bufMode.allocated = true
        · have halloc' : (dropWindow s).bufMode.allocated = true := halloc
          simp only [halloc', if_true]
          cases hheap : c.heap with
          | none =>
            simp only [Bool.false_eq_true, if_false]
            exact .noMemory s.buffer hmode hbuffer hsize (by simp [hext', halloc]) (Or.inr hresize) hheap
          | some g =>
            simp only [if_true]
            exact .own _ hmode hbuffer hsize (length_block _ _) (Or.inr hresize) (by rw [hheap]; rfl)
        · have halloc' : ¬ (dropWindow s).bufMode.allocated = true := halloc
          simp only [if_neg halloc']
          cases hheap : c.heap with
          | none =>
            simp only [Bool.false_eq_true, if_false]
            exact .noMemory [] hmode hbuffer hsize (by simp [halloc]) (Or.inr hresize) hheap
          | some g =>
            simp only [if_true]
            exact .own _ hmode hbuffer hsize (length_block _ _) (Or.inr hresize) (by rw [hheap]; rfl)
      · have hcond : ¬ ((dropWindow s).bufMode.internal = true ∧ ¬ c.size = (dropWindow s).bufSize) :=
          hresize
        simp only [if_neg hcond, if_true]
        have hkept : { dropWindow s with
            bufMode := (dropWindow s).bufMode.orAccess s.bufMode } = dropWindow s := by
          rw [dropWindow, BufMode.orAccess_self]
        rw [hkept]
        refine .kept hmode hbuffer hsize ⟨hext', ?_⟩
        intro hint
        by_contra hne
        exact hresize ⟨hint, hne⟩

/-! ## Writing through what was chosen -/

/-- `setvbuf` calls that are accepted. -/
def setvbufMachine : Machine Stream SetvbufCall Unit where
  step s c := if (c.apply s).1 then some ((c.apply s).2, ()) else none

/-- The loop `while (bytes_written + buf_size < data_size)` comes to its end. -/
inductive DirectEnds (data : List Byte) : Nat → Stream → Prop
  | done {written : Nat} {s : Stream} :
      ¬ written + s.bufSize < data.length → DirectEnds data written s
  | failed {written : Nat} {s : Stream} :
      (s.file.write ((data.drop written).take s.bufSize)).1 = none → DirectEnds data written s
  | more {written n : Nat} {s : Stream} {f : OpenFile} :
      s.file.write ((data.drop written).take s.bufSize) = (some n, f) →
      DirectEnds data (written + n) { s with file := f } → DirectEnds data written s

/-- How `common_fwrite` enters that loop: what has been written, and the stream. `none`: it returns
before. -/
def directEntry (s : Stream) (b : Block) : Option (Nat × Stream) :=
  if s.error = .error ∨ s.bufMode.rdonly ∨ s.bufMode.nbf then none
  else
    match allocateBuffer (enterWrite s) with
    | (false, _) => none
    | (true, s) =>
      let s := (openWindow s).checkWindow
      if b.data.length ≤ sub64 s.end_ s.pos then none
      else
        match fwriteTopUp s b.data with
        | (none, _) => none
        | (some topped, s) => some (topped, s)

/-- `common_fwrite` returns. -/
def FwriteEnds (s : Stream) (b : Block) : Prop :=
  ∀ topped s', directEntry s b = some (topped, s') → DirectEnds b.data topped s'

/-- Nothing but `setvbuf` has been called on the stream, and the kernel does not fail. -/
structure Untouched (s : Stream) : Prop where
  no_fault : s.fault = false
  clear : s.error = .clear
  prevOp : s.prevOp = .nothing
  start : s.start = s.pos
  end_ : s.end_ = s.pos
  succeeds : s.file.Succeeds
  own : s.bufMode.internal = true → 1 ≤ s.bufSize
  lone : s.bufMode.internal = true → s.bufMode.external = false

theorem Untouched.apply (h : Untouched s) (c : SetvbufCall) : Untouched (c.apply s).2 := by
  rw [SetvbufCall.apply]
  split
  · exact h
  next mode _ =>
  have hflush : (commonFflush s).2 = s := by
    simp [commonFflush, h.start]
  rw [hflush]
  have hseek := OpenFile.lseek_succeeds h.succeeds s.pos .set
  have hsame : Untouched (dropWindow s) :=
    ⟨h.no_fault, h.clear, h.prevOp, rfl, rfl, hseek, h.own, h.lone⟩
  generalize hr : commonSetvbuf s mode c = r
  have hresult := hr ▸ commonSetvbuf_result s mode c
  cases hresult with
  | unbuffered =>
    exact ⟨h.no_fault, h.clear, h.prevOp, rfl, rfl, hseek, fun hint => by contradiction,
      fun hint => by contradiction⟩
  | caller =>
    exact ⟨h.no_fault, h.clear, h.prevOp, rfl, rfl, hseek, fun hint => by contradiction,
      fun hint => by contradiction⟩
  | own block hmode hbuffer hsize =>
    exact ⟨h.no_fault, h.clear, h.prevOp, rfl, rfl, hseek, fun _ => Nat.pos_of_ne_zero hsize,
      fun _ => rfl⟩
  | notFreed => exact hsame
  | noSize => exact hsame
  | noMemory =>
    exact ⟨h.no_fault, h.clear, h.prevOp, rfl, rfl, hseek, h.own, h.lone⟩
  | kept => exact hsame

theorem Fopened.untouched (h : Fopened s) (hs : s.file.Succeeds) : Untouched s := by
  obtain ⟨file, access, bufSize, heap, hsize, rfl⟩ := h
  exact ⟨rfl, rfl, rfl, rfl, rfl, hs, fun _ => hsize, fun _ => rfl⟩

/-- A buffer that is not empty is progress. -/
theorem directEnds_of_pos (data : List Byte) {written : Nat} (hB : 1 ≤ s.bufSize) :
    DirectEnds data written s := by
  induction hn : data.length - written using Nat.strongRecOn generalizing written s with
  | _ n ih =>
    by_cases hloop : written + s.bufSize < data.length
    · rcases hwrite : s.file.write ((data.drop written).take s.bufSize) with ⟨_ | count, f⟩
      · exact .failed (by rw [hwrite])
      · have hcount : count = s.bufSize := by
          rw [OpenFile.write_eq] at hwrite
          split at hwrite
          · cases hwrite
          · have hlen := congrArg (fun r => r.1) hwrite
            simp only [Option.some.injEq, List.length_take, List.length_drop] at hlen
            omega
        exact .more hwrite (ih (data.length - (written + count)) (by omega) (by exact hB) rfl)
    · exact .done hloop

/-- Writing nothing is none, if the kernel writes what it is asked to. -/
theorem not_directEnds_of_zero {data : List Byte} {written : Nat} (hB : s.bufSize = 0)
    (hs : s.file.Succeeds) (hlt : written < data.length) : ¬ DirectEnds data written s := by
  intro hends
  induction hends with
  | done hstop => omega
  | failed hfail =>
    rw [OpenFile.write_eq, if_neg hs.answer_ne] at hfail
    contradiction
  | more hwrite _ ih =>
    rw [OpenFile.write_eq, if_neg hs.answer_ne, hB, List.take_zero] at hwrite
    cases hwrite
    refine ih hB ?_ (by simpa using hlt)
    rw [OpenFile.write, if_neg hs.answer_ne]
    exact hs.answered

/-- A write on such a stream, through a buffer of size 0, enters the loop with nothing written. -/
theorem Untouched.directEntry_eq (h : Untouched s) {b : Block} (hrd : s.bufMode.rdonly = false)
    (hnbf : s.bufMode.nbf = false) (hB : s.bufSize = 0) (hdata : b.data ≠ []) :
    ∃ s', directEntry s b = some (0, s') ∧ s'.bufSize = 0 ∧ s'.file.Succeeds := by
  have hint : s.bufMode.internal = false := by
    cases hint : s.bufMode.internal with
    | false => rfl
    | true =>
      have hpos := h.own hint
      omega
  obtain ⟨w, henter, hstart, hend, hmode, hsize, hf⟩ : ∃ w, enterWrite s = w ∧ w.start = w.pos ∧
      w.end_ = w.pos ∧ w.bufMode = s.bufMode ∧ w.bufSize = 0 ∧ w.file.Succeeds := by
    refine ⟨_, rfl, ?_⟩
    rw [enterWrite, if_pos (by rw [h.prevOp]; exact fun hop => by contradiction)]
    by_cases happ : s.file.append = true
    · simp only [if_pos happ, OpenFile.lseek_end h.succeeds.answer_ne]
      exact ⟨trivial, trivial, trivial, hB, h.succeeds.answered⟩
    · have hread : ¬ s.prevOp = .read := by
        rw [h.prevOp]
        exact fun hop => by contradiction
      simp only [if_neg happ, if_neg hread]
      exact ⟨trivial, trivial, trivial, hB, h.succeeds⟩
  have halloc : allocateBuffer w = (true, w) := by
    rw [allocateBuffer, hmode, hint, Bool.false_and, if_neg Bool.false_ne_true]
  have hopen : openWindow w = w := by
    rw [openWindow]
    split
    · cases w
      cases hstart
      cases hend
      cases hsize
      rfl
    · rfl
  have hcheck : w.checkWindow = w := Stream.checkWindow_of_le (by omega) (by omega)
  have hroom : sub64 w.end_ w.pos = 0 := by
    rw [hend, sub64_of_le (Nat.le_refl _), Nat.sub_self]
  have hpos : 0 < b.data.length := List.length_pos_iff.mpr hdata
  rw [directEntry, if_neg (by simp [h.clear, hrd, hnbf]), henter, halloc]
  simp only [hopen, hcheck, hroom, fwriteTopUp, hsize, ne_eq, not_true_eq_false, if_false]
  rw [if_neg (by omega)]
  exact ⟨w, rfl, hsize, hf⟩

theorem enterWrite_bufSize (s : Stream) : (enterWrite s).bufSize = s.bufSize := by
  unfold enterWrite
  dsimp only
  split_ifs
  · split <;> rfl
  · rfl
  · rfl
  · rfl

theorem allocateBuffer_bufSize (s : Stream) : (allocateBuffer s).2.bufSize = s.bufSize := by
  unfold allocateBuffer
  split
  · split <;> rfl
  · rfl

theorem openWindow_bufSize (s : Stream) : (openWindow s).bufSize = s.bufSize := by
  unfold openWindow
  split <;> rfl

theorem fwriteTopUp_bufSize (s : Stream) (data : List Byte) :
    (fwriteTopUp s data).2.bufSize = s.bufSize := by
  unfold fwriteTopUp
  dsimp only
  split
  · split <;> rfl
  · rfl

/-- Nothing on the way to the loop changes the size of the buffer. -/
theorem directEntry_bufSize {b : Block} {topped : Nat} {s' : Stream}
    (h : directEntry s b = some (topped, s')) : s'.bufSize = s.bufSize := by
  have henter := enterWrite_bufSize s
  have halloc := allocateBuffer_bufSize (enterWrite s)
  rw [directEntry] at h
  split at h
  · contradiction
  split at h
  · contradiction
  next s₁ heq =>
  rw [heq] at halloc
  have hopen := openWindow_bufSize s₁
  have htop := fwriteTopUp_bufSize (openWindow s₁).checkWindow b.data
  dsimp only at h
  split at h
  · contradiction
  split at h
  · contradiction
  next heq₂ =>
  rw [heq₂] at htop
  cases h
  exact htop.trans (hopen.trans (halloc.trans henter))

/-- **Termination of block writes.** On a stream from `fopen` whose buffer has been chosen by any accepted
calls, `common_fwrite` returns, the kernel writing all it is asked to, if and only if there is nothing
to write, or no right to, or no buffering, or a buffer that is not empty. -/
theorem fwrite_terminates_iff {s₀ : Stream} (h₀ : Fopened s₀) (hs : s₀.file.Succeeds)
    {cs : List SetvbufCall} {os : List Unit} (hrun : setvbufMachine.run s₀ cs = some (s, os))
    (b : Block) :
    FwriteEnds s b ↔
      b.data = [] ∨ s.bufMode.rdonly = true ∨ s.bufMode.nbf = true ∨ 1 ≤ s.bufSize := by
  have h : Untouched s := by
    refine Machine.run_keeps (M := setvbufMachine) ?_ cs (h₀.untouched hs) hrun
    intro s c s' o h hstep
    simp only [setvbufMachine] at hstep
    split at hstep
    · cases hstep
      exact h.apply c
    · contradiction
  constructor
  · intro hends
    by_contra hcond
    simp only [not_or, Bool.not_eq_true, Nat.not_le, Nat.lt_one_iff] at hcond
    obtain ⟨hdata, hrd, hnbf, hB⟩ := hcond
    obtain ⟨s', hentry, hB', hs'⟩ := h.directEntry_eq hrd hnbf hB hdata
    exact not_directEnds_of_zero hB' hs' (List.length_pos_iff.mpr hdata) (hends 0 s' hentry)
  · intro hcond topped s' hentry
    rcases hcond with hdata | hrd | hnbf | hB
    · refine .done ?_
      rw [hdata]
      exact Nat.not_lt_zero _
    · rw [directEntry, if_pos (by simp [hrd])] at hentry
      contradiction
    · rw [directEntry, if_pos (by simp [hnbf])] at hentry
      contradiction
    · exact directEnds_of_pos b.data (by rw [directEntry_bufSize hentry]; exact hB)

/-- A buffer of the caller's of two bytes, for full buffering. -/
def twoBytes : SetvbufCall := ⟨some fun _ => 0, 0x10, 2, none, true⟩

/-- Five bytes go through it. -/
theorem fwrite_terminates_two_bytes :
    FwriteEnds (twoBytes.apply (emptyFile false [])).2 ⟨1, 5, [1, 2, 3, 4, 5], rfl⟩ := by
  have hrun : setvbufMachine.run (emptyFile false []) [twoBytes] =
      some ((twoBytes.apply (emptyFile false [])).2, [()]) := rfl
  exact (fwrite_terminates_iff (fopened_emptyFile false []) (by decide) hrun _).mpr
    (Or.inr (Or.inr (Or.inr (by decide))))

/-- The same buffer, with size 0. -/
def noBytes : SetvbufCall := ⟨some fun _ => 0, 0x10, 0, none, true⟩

/-- One byte never gets written. -/
theorem not_fwrite_terminates :
    ¬ ∀ s₀, Fopened s₀ → s₀.file.Succeeds → ∀ cs s os, setvbufMachine.run s₀ cs = some (s, os) →
      ∀ b, FwriteEnds s b := by
  intro h
  obtain ⟨s', hentry, hB, hs⟩ : ∃ s', directEntry (noBytes.apply (emptyFile false [])).2 (.single 97) =
      some (0, s') ∧ s'.bufSize = 0 ∧ s'.file.Succeeds := ⟨_, rfl, rfl, by decide⟩
  exact not_directEnds_of_zero hB hs Nat.one_pos
    (h _ (fopened_emptyFile false []) (by decide) [noBytes] _ _ rfl (.single 97) 0 s' hentry)

end WindowsLibc.Stdio
