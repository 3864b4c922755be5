import WindowsLibc.Stdio.Stream

/-!
# What the transfer functions do when the kernel does not fail

One specification for each loop and each branch of `fread.c` and `fwrite.c`, under the assumption
that no system call is answered `-1` (`OpenFile.Succeeds`; short reads of any length remain) and
the heap is not exhausted. The statements give the resulting stream explicitly, so that the
refinement and the flushing results only reason about window arithmetic and lists.
-/

namespace WindowsLibc.Stdio

open WindowsLibc.Lib

/-! ## The open file -/

namespace OpenFile

variable {f f' f'' : OpenFile} {bytes more : List Byte}

/-- No call still to come is answered `-1`. -/
def Succeeds (f : OpenFile) : Prop := ∀ a ∈ f.script, a ≠ .fail

instance (f : OpenFile) : Decidable f.Succeeds :=
  inferInstanceAs (Decidable (∀ a ∈ f.script, a ≠ .fail))

theorem Succeeds.answer_ne (h : f.Succeeds) : f.answer ≠ .fail := by
  unfold answer
  cases hs : f.script with
  | nil => simp
  | cons a rest => exact h a (by simp [hs])

theorem Succeeds.answered (h : f.Succeeds) : f.answered.Succeeds :=
  fun a ha => h a (List.mem_of_mem_tail ha)

/-- Reading `bytes` takes `f` to `f'`: they are what lies ahead of the offset. -/
structure Delivers (f f' : OpenFile) (bytes : List Byte) : Prop where
  content : f'.content = f.content
  append : f'.append = f.append
  succeeds : f'.Succeeds
  offset : f'.offset = f.offset + bytes.length
  ahead : f.content.drop f.offset = bytes ++ f.content.drop f'.offset

theorem Delivers.refl (h : f.Succeeds) : f.Delivers f [] := ⟨rfl, rfl, h, rfl, rfl⟩

theorem Delivers.trans (h₁ : f.Delivers f' bytes) (h₂ : f'.Delivers f'' more) :
    f.Delivers f'' (bytes ++ more) where
  content := h₂.content.trans h₁.content
  append := h₂.append.trans h₁.append
  succeeds := h₂.succeeds
  offset := by rw [h₂.offset, h₁.offset, List.length_append, Nat.add_assoc]
  ahead := by
    have hmore := h₂.ahead
    rw [h₁.content] at hmore
    rw [h₁.ahead, hmore, List.append_assoc]

/-- What is delivered never runs past the end of the file. -/
theorem Delivers.inside (h : f.Delivers f' bytes) (hf : f.offset ≤ f.content.length) :
    f'.offset ≤ f'.content.length := by
  have hlen := congrArg List.length h.ahead
  have hoff := h.offset
  simp only [List.length_append, List.length_drop] at hlen
  rw [h.content]
  omega

theorem read_spec (h : f.Succeeds) (n : Nat) :
    ∃ bytes f', f.read n = (some bytes, f') ∧ f.Delivers f' bytes ∧ bytes.length ≤ n ∧
      (bytes = [] → 0 < n → f.content.length ≤ f.offset) := by
  obtain ⟨k, hk, hk1, htr⟩ : ∃ k, k ≤ n ∧ (0 < n → 0 < k) ∧
      f.transfer n = (f.content.drop f.offset).take k := by
    unfold transfer
    cases f.answer with
    | short m => exact ⟨min n (max m 1), Nat.min_le_left _ _, by omega, rfl⟩
    | full => exact ⟨n, Nat.le_refl _, id, rfl⟩
    | fail => exact ⟨n, Nat.le_refl _, id, rfl⟩
  refine ⟨f.transfer n, { f.answered with offset := f.offset + (f.transfer n).length }, ?_, ?_, ?_,
    ?_⟩
  · simp [read, h.answer_ne]
  · refine ⟨rfl, rfl, h.answered, rfl, ?_⟩
    rw [htr, List.length_take, ← List.drop_drop]
    by_cases hle : k ≤ (f.content.drop f.offset).length
    · rw [Nat.min_eq_left hle, List.take_append_drop]
    · rw [Nat.min_eq_right (by omega), List.drop_length, List.append_nil,
        List.take_of_length_le (by omega)]
  · rw [htr, List.length_take]; omega
  · intro hnil hn
    have hlen := congrArg List.length hnil
    rw [htr, List.length_take, List.length_drop, List.length_nil] at hlen
    have := hk1 hn
    omega

/-- Writing `bytes` at the offset takes `f` to `f'`. -/
structure Receives (f f' : OpenFile) (bytes : List Byte) : Prop where
  content : f'.content = overwrite f.content f.offset bytes
  append : f'.append = f.append
  succeeds : f'.Succeeds
  offset : f'.offset = f.offset + bytes.length

theorem Receives.refl (h : f.Succeeds) (hf : f.offset ≤ f.content.length) : f.Receives f [] :=
  ⟨(overwrite_nil hf).symm, rfl, h, rfl⟩

theorem Receives.inside (h : f.Receives f' bytes) : f'.offset ≤ f'.content.length := by
  rw [h.offset, h.content, length_overwrite]
  omega

theorem Receives.trans (hf : f.offset ≤ f.content.length) (h₁ : f.Receives f' bytes)
    (h₂ : f'.Receives f'' more) : f.Receives f'' (bytes ++ more) where
  content := by rw [h₂.content, h₁.content, h₁.offset, overwrite_overwrite hf]
  append := h₂.append.trans h₁.append
  succeeds := h₂.succeeds
  offset := by rw [h₂.offset, h₁.offset, List.length_append, Nat.add_assoc]

theorem write_spec (h : f.Succeeds) (happ : f.append = false) (bytes : List Byte) :
    ∃ f', f.write bytes = (some bytes.length, f') ∧ f.Receives f' bytes := by
  refine ⟨{ f.answered with
    content := overwrite f.content f.offset bytes, offset := f.offset + bytes.length }, ?_, ?_⟩
  · simp [write, h.answer_ne, happ]
  · exact ⟨rfl, rfl, h.answered, rfl⟩

theorem lseek_set (h : f.Succeeds) (n : Nat) :
    f.lseek n .set = (some n, { f.answered with offset := n }) := by
  simp [lseek, h.answer_ne]

theorem lseek_end (h : f.answer ≠ .fail) :
    f.lseek 0 .end_ = (some f.content.length, { f.answered with offset := f.content.length }) := by
  simp [lseek, h]

theorem lseek_some {offset : Int} {whence : Whence} {n : Nat} (h : f.lseek offset whence = (some n, f')) :
    f' = { f.answered with offset := n } := by
  unfold lseek at h
  extract_lets base at h
  by_cases hfail : f.answer = .fail ∨ base + offset < 0
  · rw [if_pos hfail] at h
    cases h
  · rw [if_neg hfail] at h
    cases h
    rfl

theorem lseek_succeeds (h : f.Succeeds) (offset : Int) (whence : Whence) :
    (f.lseek offset whence).2.Succeeds := by
  unfold lseek
  dsimp only
  split_ifs
  · exact h.answered
  · exact h.answered

end OpenFile

/-! ## Memory accesses that stay in the buffer -/

theorem sub64_of_le {a b : Nat} (h : b ≤ a) : sub64 a b = a - b := if_pos h

namespace Stream

variable {s : Stream} {off n : Nat}

@[simp] theorem check_true (s : Stream) : s.check true = s := by
  simp [check]

theorem touch_of_le (h : off + n ≤ s.buffer.length) : s.touch off n = s := by
  rw [touch, decide_eq_true h, check_true]

theorem store_of_le {bytes : List Byte} (h : off + bytes.length ≤ s.buffer.length) :
    s.store off bytes = { s with buffer := overwrite s.buffer off bytes } := by
  rw [store, touch_of_le h]

theorem checkWindow_of_le (h₁ : s.start ≤ s.pos) (h₂ : s.pos ≤ s.end_) : s.checkWindow = s := by
  rw [checkWindow, decide_eq_true h₁, decide_eq_true h₂, Bool.and_self, check_true]

end Stream

/-! ## Streams in working order -/

/-- The stream has the storage its mode promises. -/
structure Backed (s : Stream) : Prop where
  length_buffer : s.buffer.length = s.bufSize
  mode : s.bufMode.allocated = true ∨ s.bufMode.external = true
  not_lazy : ¬ (s.bufMode.internal = true ∧ s.bufMode.allocated = false)

/-- A buffered stream that nothing has gone wrong with, over a file that does not append, with a
kernel and a heap that do not fail. -/
structure Usable (s : Stream) : Prop where
  no_fault : s.fault = false
  buffered : s.bufMode.nbf = false
  one_le_bufSize : 1 ≤ s.bufSize
  heap : s.heap.isSome
  succeeds : s.file.Succeeds
  not_append : s.file.append = false

/-- Transfers move the window and the file about; the stream stays usable. -/
theorem Usable.update {s : Stream} (hu : Usable s) {f : OpenFile} (hf : f.Succeeds)
    (happ : f.append = s.file.append) {e : StreamError} {d : List Byte} {a b c : Nat}
    {o : PrevOp} :
    Usable { s with
      file := f, error := e, buffer := d, start := a, end_ := b, pos := c, prevOp := o } :=
  ⟨hu.no_fault, hu.buffered, hu.one_le_bufSize, hu.heap, hf, happ.trans hu.not_append⟩

theorem Backed.update {s : Stream} (hb : Backed s) {f : OpenFile} {e : StreamError}
    {d : List Byte} (hlen : d.length = s.bufSize) {a b c : Nat} {o : PrevOp} :
    Backed { s with
      file := f, error := e, buffer := d, start := a, end_ := b, pos := c, prevOp := o } :=
  ⟨hlen, hb.mode, hb.not_lazy⟩

/-- `stream->buffer` is either there or will be allocated on first use. -/
def Stored (s : Stream) : Prop :=
  Backed s ∨ (s.bufMode.internal = true ∧ s.bufMode.allocated = false)

theorem allocateBuffer_of_backed {s : Stream} (hb : Backed s) : allocateBuffer s = (true, s) := by
  have hn : ¬ (s.bufMode.internal && !s.bufMode.allocated) = true := by
    simpa using hb.not_lazy
  rw [allocateBuffer, if_neg hn]

/-- The allocation leaves everything but the storage alone. -/
theorem allocateBuffer_spec {s : Stream} (hheap : s.heap.isSome) (hst : Stored s) :
    ∃ buf alloc, allocateBuffer s =
        (true, { s with buffer := buf, bufMode := { s.bufMode with allocated := alloc } }) ∧
      Backed { s with buffer := buf, bufMode := { s.bufMode with allocated := alloc } } := by
  rcases hst with hb | ⟨hint, hall⟩
  · exact ⟨s.buffer, s.bufMode.allocated, allocateBuffer_of_backed hb, hb⟩
  · obtain ⟨g, hg⟩ := Option.isSome_iff_exists.mp hheap
    refine ⟨(List.range s.bufSize).map g, true, ?_, ⟨?_, Or.inl rfl, ?_⟩⟩
    · simp [allocateBuffer, hint, hall, hg]
    · simp
    · simp

/-! ## Reading -/

/-- `read_wrapper` delivers something, or the file has ended and the stream knows it. -/
theorem readWrapper_spec {s : Stream} (hs : s.file.Succeeds) {n : Nat} (hn : 0 < n) :
    (∃ b bytes f', readWrapper s n = (b :: bytes, { s with file := f' }) ∧
      s.file.Delivers f' (b :: bytes) ∧ (b :: bytes).length ≤ n) ∨
    (∃ f', readWrapper s n = ([], { s with file := f', error := .eof }) ∧
      s.file.Delivers f' [] ∧ s.file.content.length ≤ s.file.offset) := by
  obtain ⟨bytes, f', hread, hdel, hle, hend⟩ := OpenFile.read_spec hs n
  cases bytes with
  | nil => exact Or.inr ⟨f', by simp [readWrapper, hread], hdel, hend rfl hn⟩
  | cons b bytes => exact Or.inl ⟨b, bytes, f', by simp [readWrapper, hread], hdel, hle⟩

/-- The direct loop stops short of the request, either within one buffer of it or at end of
file. -/
theorem freadDirect_spec (dataSize : Nat) :
    ∀ (fuel : Nat) (got : List Byte) (s : Stream), s.file.Succeeds → 1 ≤ s.bufSize →
      got.length < dataSize → dataSize < got.length + fuel →
      ∃ bytes more f', freadDirect dataSize fuel got s =
          (got ++ bytes, more, { s with file := f', error := if more then s.error else .eof }) ∧
        s.file.Delivers f' bytes ∧ (got ++ bytes).length < dataSize ∧
        (more = true → dataSize ≤ (got ++ bytes).length + s.bufSize) ∧
        (more = false → s.file.content.length ≤ f'.offset) := by
  intro fuel
  induction fuel with
  | zero => intro got s _ _ hgot hfuel; omega
  | succ fuel ih =>
    intro got s hs hB hgot hfuel
    by_cases hloop : got.length + s.bufSize < dataSize
    · rcases readWrapper_spec hs hB with ⟨b, bytes, f', hr, hdel, hle⟩ | ⟨f', hr, hdel, hend⟩
      · have hlen : (got ++ b :: bytes).length = got.length + (b :: bytes).length :=
          List.length_append
        have hpos : 0 < (b :: bytes).length := by simp
        obtain ⟨bytes', more, f'', hrest, hdel', hlt, hmore, hstop⟩ :=
          ih (got ++ b :: bytes) { s with file := f' } hdel.succeeds hB (by omega) (by omega)
        refine ⟨b :: bytes ++ bytes', more, f'', ?_, hdel.trans hdel', ?_, ?_, ?_⟩
        · rw [freadDirect, if_pos hloop, hr]
          simp only [hrest, List.append_assoc, List.cons_append]
        · simpa [Nat.add_assoc] using hlt
        · simpa [Nat.add_assoc] using hmore
        · simpa [hdel.content] using hstop
      · refine ⟨[], false, f', ?_, hdel, ?_, by simp, ?_⟩
        · rw [freadDirect, if_pos hloop, hr]
          simp
        · simpa using hgot
        · intro _
          simpa [hdel.offset] using hend
    · refine ⟨[], true, s.file, ?_, .refl hs, ?_, ?_, by simp⟩
      · rw [freadDirect, if_neg hloop]
        simp
      · simpa using hgot
      · intro _
        simp only [List.append_nil]
        omega

/-- The last loop fills the buffer until the request is covered, or the file has ended. -/
theorem freadFill_spec (need : Nat) :
    ∀ (fuel last : Nat) (s : Stream), s.file.Succeeds → s.buffer.length = s.bufSize →
      need ≤ s.bufSize → last ≤ s.bufSize → s.bufSize < last + fuel →
      ∃ bytes f' buf e, freadFill need fuel last s =
          (last + bytes.length, { s with file := f', error := e, buffer := buf }) ∧
        s.file.Delivers f' bytes ∧ buf.length = s.bufSize ∧
        buf.take (last + bytes.length) = s.buffer.take last ++ bytes ∧
        last + bytes.length ≤ s.bufSize ∧
        ((e = s.error ∧ need ≤ last + bytes.length) ∨
          (e = .eof ∧ last + bytes.length < need ∧ s.file.content.length ≤ f'.offset)) := by
  intro fuel
  induction fuel with
  | zero => intro last s _ _ _ hlast hfuel; omega
  | succ fuel ih =>
    intro last s hs hbuf hneed hlast hfuel
    by_cases hloop : last < s.bufSize ∧ last < need
    · rcases readWrapper_spec hs (n := s.bufSize - last) (by omega) with
        ⟨b, bytes, f', hr, hdel, hle⟩ | ⟨f', hr, hdel, hend⟩
      · have hin : last + (b :: bytes).length ≤ s.buffer.length := by omega
        have hpos : 0 < (b :: bytes).length := by simp
        have hlen : (overwrite s.buffer last (b :: bytes)).length = s.bufSize := by
          rw [length_overwrite]; omega
        have hlast' : last + (b :: bytes).length ≤ s.bufSize := by omega
        have hfuel' : s.bufSize < last + (b :: bytes).length + fuel := by omega
        obtain ⟨bytes', f'', buf, e, hrest, hdel', hbuf', htake, hfit, hwhy⟩ :=
          ih (last + (b :: bytes).length)
            { s with file := f', buffer := overwrite s.buffer last (b :: bytes) }
            hdel.succeeds hlen hneed hlast' hfuel'
        refine ⟨b :: bytes ++ bytes', f'', buf, e, ?_, hdel.trans hdel', hbuf', ?_, ?_, ?_⟩
        · rw [freadFill, if_pos hloop, hr]
          simp only
          rw [Stream.store_of_le (by exact hin), hrest, List.length_append, Nat.add_assoc]
        · rw [List.length_append, ← Nat.add_assoc, htake, take_overwrite (by omega),
            List.append_assoc]
        · rw [List.length_append, ← Nat.add_assoc]; exact hfit
        · rw [List.length_append, ← Nat.add_assoc]
          simpa [hdel.content] using hwhy
      · refine ⟨[], f', s.buffer, .eof, ?_, hdel, hbuf, by simp, by simpa using hlast, ?_⟩
        · rw [freadFill, if_pos hloop, hr]
          simp
        · right
          refine ⟨rfl, by simpa using hloop.2, ?_⟩
          simpa [hdel.offset] using hend
    · refine ⟨[], s.file, s.buffer, s.error, ?_, .refl hs, hbuf, by simp, by simpa using hlast, ?_⟩
      · rw [freadFill, if_neg hloop]
        simp
      · left
        refine ⟨rfl, ?_⟩
        simp only [List.length_nil, Nat.add_zero]
        omega

/-- The stream is reading: the buffer mirrors the window, and the kernel has read ahead to its
end. -/
structure ReadWindow (s : Stream) : Prop where
  prevOp : s.prevOp = .read
  start_le : s.start ≤ s.pos
  pos_le : s.pos ≤ s.end_
  fits : s.end_ ≤ s.start + s.bufSize
  offset : s.file.offset = s.end_
  inside : s.end_ ≤ s.file.content.length
  mirror : s.buffer.take (s.end_ - s.start) = (s.file.content.drop s.start).take (s.end_ - s.start)

/-- An empty window at the kernel offset is a read window. -/
theorem ReadWindow.of_empty {s : Stream} (hop : s.prevOp = .read) (hstart : s.start = s.pos)
    (hend : s.end_ = s.pos) (hoff : s.file.offset = s.pos) (hin : s.pos ≤ s.file.content.length) :
    ReadWindow s where
  prevOp := hop
  start_le := by omega
  pos_le := by omega
  fits := by omega
  offset := by omega
  inside := by omega
  mirror := by rw [hend, hstart, Nat.sub_self, List.take_zero, List.take_zero]

/-- Inside the window, the buffer holds the bytes of the file. -/
theorem ReadWindow.load_eq {s : Stream} (hw : ReadWindow s) {n : Nat} (hn : s.pos + n ≤ s.end_) :
    s.load (s.pos - s.start) n = (s.file.content.drop s.pos).take n := by
  have hstart := hw.start_le
  have hle : s.pos - s.start + n ≤ s.end_ - s.start := by omega
  have h := take_drop_of_take_eq hw.mirror hle
  rw [List.drop_drop, Nat.add_sub_cancel' hstart] at h
  exact h

/-- What the window still holds, the file would deliver from the position of the stream. -/
theorem ReadWindow.delivers {s : Stream} (hw : ReadWindow s) (hs : s.file.Succeeds) :
    ({ s.file with offset := s.pos } : OpenFile).Delivers s.file
      ((s.file.content.drop s.pos).take (s.end_ - s.pos)) where
  content := rfl
  append := rfl
  succeeds := hs
  offset := by
    have hpos := hw.pos_le
    have hinside := hw.inside
    rw [hw.offset, List.length_take, List.length_drop]
    show s.end_ = s.pos + _
    omega
  ahead := by
    show s.file.content.drop s.pos = _
    nth_rewrite 1 [← List.take_append_drop (s.end_ - s.pos) (s.file.content.drop s.pos)]
    rw [List.drop_drop, Nat.add_sub_cancel' hw.pos_le, hw.offset]

/-- The item count of a transfer of `got` bytes: everything asked for, or the whole items in it. -/
def itemCount (size count got : Nat) : Nat := if got = size * count then count else got / size

theorem div_eq_itemCount {size count got : Nat} (h : 0 < size * count) :
    got / size = itemCount size count got := by
  unfold itemCount
  split
  · next heq => rw [heq, Nat.mul_div_cancel_left _ (Nat.pos_of_mul_pos_right h)]
  · rfl

/-- What a read in read mode amounts to: the bytes at the stream position, cut at end of file. -/
structure FreadResult (s : Stream) (size count : Nat) (r : (List Byte × Nat) × Stream) : Prop where
  bytes : r.1.1 = (s.file.content.drop s.pos).take (size * count)
  items : r.1.2 = itemCount size count r.1.1.length
  usable : Usable r.2
  backed : Backed r.2
  window : ReadWindow r.2
  content : r.2.file.content = s.file.content
  pos : r.2.pos = s.pos + r.1.1.length
  error : r.2.error = if r.1.1.length = size * count then s.error else .eof
  bufMode : r.2.bufMode = s.bufMode

/-- The last block, read with an empty window at the stream position. -/
theorem freadLast_spec {s : Stream} (size dataSize : Nat) (got : List Byte) (hu : Usable s)
    (hb : Backed s) (hop : s.prevOp = .read) (hstart : s.start = s.pos) (hend : s.end_ = s.pos)
    (hoff : s.file.offset = s.pos) (hin : s.pos ≤ s.file.content.length)
    (hgot : got.length < dataSize) (hle : dataSize ≤ got.length + s.bufSize) :
    ∃ bytes s', freadLast s size dataSize got =
        ((got ++ bytes, (got ++ bytes).length / size), s') ∧
      bytes = (s.file.content.drop s.pos).take (dataSize - got.length) ∧
      Usable s' ∧ Backed s' ∧ ReadWindow s' ∧ s'.file.content = s.file.content ∧
      s'.pos = s.pos + bytes.length ∧ s'.bufMode = s.bufMode ∧
      s'.error = if bytes.length = dataSize - got.length then s.error else .eof := by
  obtain ⟨bytes, f', buf, e, hfill, hdel, hbuf, htake, hfit, hwhy⟩ :=
    freadFill_spec (dataSize - got.length) (s.bufSize + 1) 0 s hu.succeeds hb.length_buffer
      (by omega) (by omega) (by omega)
  simp only [Nat.zero_add, List.take_zero, List.nil_append] at hfill htake hfit hwhy
  have hahead : s.file.content.drop s.pos = bytes ++ s.file.content.drop f'.offset := by
    rw [← hoff]
    exact hdel.ahead
  have hoff' : f'.offset = s.pos + bytes.length := by
    rw [hdel.offset, hoff]
  have hinside : f'.offset ≤ f'.content.length := hdel.inside (by omega)
  -- whichever way the loop stopped, the caller gets the next bytes of the file
  have hcopy : bytes.take (min (dataSize - got.length) bytes.length) =
      (s.file.content.drop s.pos).take (dataSize - got.length) := by
    rw [hahead, List.take_append]
    rcases hwhy with ⟨_, hneed⟩ | ⟨_, hneed, hend⟩
    · rw [Nat.min_eq_left hneed, Nat.sub_eq_zero_of_le hneed, List.take_zero, List.append_nil]
    · rw [List.drop_eq_nil_of_le hend, List.take_nil, List.append_nil,
        Nat.min_eq_right (by omega), List.take_length, List.take_of_length_le (by omega)]
  have herr : e = if min (dataSize - got.length) bytes.length = dataSize - got.length then s.error
      else .eof := by
    rcases hwhy with ⟨he, hneed⟩ | ⟨he, hneed, _⟩
    · rw [if_pos (Nat.min_eq_left hneed), he]
    · rw [if_neg (by omega), he]
  have hcopylen : (bytes.take (min (dataSize - got.length) bytes.length)).length =
      min (dataSize - got.length) bytes.length := by
    rw [List.length_take]; omega
  have hload : buf.take (min (dataSize - got.length) bytes.length) =
      bytes.take (min (dataSize - got.length) bytes.length) := by
    have h := congrArg (List.take (min (dataSize - got.length) bytes.length)) htake
    rwa [List.take_take, Nat.min_eq_left (Nat.min_le_right _ _)] at h
  cases hbytes : bytes.length with
  | zero =>
    -- nothing came: end of file, and the window stays empty
    refine ⟨bytes.take (min (dataSize - got.length) bytes.length),
      { s with file := f', error := e, buffer := buf }, ?_, hcopy,
      hu.update hdel.succeeds hdel.append, hb.update hbuf,
      .of_empty hop hstart hend (by simp only; omega) (by simp only; omega),
      hdel.content, ?_, rfl, ?_⟩
    · rw [freadLast, hfill, hbytes]
      simp
    · show s.pos = s.pos + _
      rw [hcopylen]; omega
    · rw [hcopylen]; exact herr
  | succ last =>
    refine ⟨bytes.take (min (dataSize - got.length) bytes.length),
      { s with
        file := f', error := e, buffer := buf, start := s.pos, end_ := s.pos + bytes.length,
        pos := s.pos + min (dataSize - got.length) bytes.length }, ?_, hcopy,
      hu.update hdel.succeeds hdel.append, hb.update hbuf, ?_, hdel.content, ?_, rfl, ?_⟩
    · rw [freadLast, hfill, hbytes]
      simp only
      rw [← hbytes, Stream.touch_of_le (by simp only; omega), Stream.load, List.drop_zero, hload,
        List.length_append, hcopylen]
    · exact {
        prevOp := hop
        start_le := Nat.le_add_right _ _
        pos_le := by simp only; omega
        fits := by simp only; omega
        offset := hoff'
        inside := by simp only; omega
        mirror := by
          simp only [Nat.add_sub_cancel_left]
          rw [htake, hdel.content, hahead, List.take_left] }
    · rw [hcopylen]
    · rw [hcopylen]; exact herr

/-- A request the window covers. -/
theorem freadBuffered_fit {s : Stream} {size count : Nat} (hu : Usable s) (hb : Backed s)
    (hw : ReadWindow s) (hfit : s.pos + size * count ≤ s.end_) :
    FreadResult s size count (freadBuffered s size count) := by
  have hstart := hw.start_le
  have hpos := hw.pos_le
  have hsize := hw.fits
  have hinside := hw.inside
  have hlen := hb.length_buffer
  have hcond : size * count ≤ s.end_ - s.pos := by omega
  have hr : freadBuffered s size count =
      (((s.file.content.drop s.pos).take (size * count), count),
        { s with pos := s.pos + size * count }) := by
    simp only [freadBuffered, Stream.checkWindow_of_le hstart hpos, sub64_of_le hstart,
      sub64_of_le hpos]
    rw [if_pos hcond, hw.load_eq hfit, Stream.touch_of_le (by omega)]
  have hbytes : ((s.file.content.drop s.pos).take (size * count)).length = size * count := by
    rw [List.length_take, List.length_drop]; omega
  rw [hr]
  exact {
    bytes := rfl
    items := by simp only [hbytes, itemCount, if_true]
    usable := hu.update hu.succeeds rfl
    backed := hb.update hb.length_buffer
    window := { hw with start_le := by simp only; omega, pos_le := hfit }
    content := rfl
    pos := by simp only [hbytes]
    error := by simp only [hbytes, if_true]
    bufMode := rfl }

/-- A request that reaches past the window: the rest of the window, then the direct loop, then the
last block. -/
theorem freadBuffered_past {s : Stream} {size count : Nat} (hu : Usable s) (hb : Backed s)
    (hw : ReadWindow s) (hpast : s.end_ < s.pos + size * count) :
    FreadResult s size count (freadBuffered s size count) := by
  have hstart := hw.start_le
  have hpos := hw.pos_le
  have hsize := hw.fits
  have hinside := hw.inside
  have hlen := hb.length_buffer
  have hcond : ¬ size * count ≤ s.end_ - s.pos := by omega
  -- the bytes the window still holds
  have hhead : (if s.pos < s.end_ then s.load (s.pos - s.start) (s.end_ - s.pos) else []) =
      (s.file.content.drop s.pos).take (s.end_ - s.pos) := by
    split
    · exact hw.load_eq (by omega)
    · rw [show s.end_ - s.pos = 0 by omega, List.take_zero]
  have htouch : (if s.pos < s.end_ then s.touch (s.pos - s.start) (s.end_ - s.pos) else s) = s := by
    split
    · exact Stream.touch_of_le (by omega)
    · rfl
  have hheld : ((s.file.content.drop s.pos).take (s.end_ - s.pos)).length < size * count := by
    rw [List.length_take, List.length_drop]
    omega
  obtain ⟨direct, more, f', hdirect, hdel, hlt, hmore, hstop⟩ :=
    freadDirect_spec (size * count) (size * count + 1)
      ((s.file.content.drop s.pos).take (s.end_ - s.pos)) s hu.succeeds hu.one_le_bufSize
      hheld (by omega)
  have hall := (hw.delivers hu.succeeds).trans hdel
  generalize (s.file.content.drop s.pos).take (s.end_ - s.pos) ++ direct = got at *
  have hahead : s.file.content.drop s.pos = got ++ s.file.content.drop f'.offset := hall.ahead
  have hoff : f'.offset = s.pos + got.length := hall.offset
  have hin : s.pos + got.length ≤ f'.content.length := by
    rw [← hoff]
    exact hall.inside (Nat.le_trans hpos hinside)
  have hr : freadBuffered s size count =
      if more then
        freadLast { s with
          file := f', error := if more then s.error else .eof, pos := s.pos + got.length,
          start := s.pos + got.length, end_ := s.pos + got.length } size (size * count) got
      else ((got, got.length / size), { s with
          file := f', error := if more then s.error else .eof, pos := s.pos + got.length,
          start := s.pos + got.length, end_ := s.pos + got.length }) := by
    simp only [freadBuffered, Stream.checkWindow_of_le hstart hpos, sub64_of_le hstart,
      sub64_of_le hpos]
    rw [if_neg hcond, hhead, htouch, hdirect]
  have htake : (s.file.content.drop s.pos).take (size * count) =
      got ++ (s.file.content.drop f'.offset).take (size * count - got.length) := by
    rw [hahead, List.take_append, List.take_of_length_le (by omega)]
  rw [hr]
  cases more with
  | false =>
    -- the file ended inside the direct loop
    have hnil : s.file.content.drop f'.offset = [] := List.drop_eq_nil_of_le (hstop rfl)
    simp only [hnil, List.take_nil, List.append_nil] at htake
    simp only [Bool.false_eq_true, if_false]
    exact {
      bytes := htake.symm
      items := div_eq_itemCount (by omega)
      usable := hu.update hdel.succeeds hdel.append
      backed := hb.update hb.length_buffer
      window := .of_empty hw.prevOp rfl rfl hoff hin
      content := hdel.content
      pos := rfl
      error := by simp only; rw [if_neg (by omega)]
      bufMode := rfl }
  | true =>
    simp only [if_true]
    obtain ⟨bytes, s', hlast, hbytes, hu', hb', hw', hcontent, hpos', hmode, herr⟩ :=
      freadLast_spec size (size * count) got
        (hu.update (e := s.error) (d := s.buffer) (a := s.pos + got.length)
          (b := s.pos + got.length) (c := s.pos + got.length) (o := s.prevOp)
          hdel.succeeds hdel.append)
        (hb.update hb.length_buffer) hw.prevOp rfl rfl hoff hin hlt (hmore rfl)
    simp only at hlast hbytes hcontent hpos' hmode herr
    rw [hdel.content, ← hoff] at hbytes
    rw [← hbytes] at htake
    rw [hlast]
    exact {
      bytes := htake.symm
      items := div_eq_itemCount (by omega)
      usable := hu'
      backed := hb'
      window := hw'
      content := hcontent.trans hdel.content
      pos := by simp only [hpos', List.length_append, Nat.add_assoc]
      error := by
        simp only [herr, List.length_append]
        congr 1
        simp only [eq_iff_iff]
        omega
      bufMode := hmode }

theorem freadBuffered_spec {s : Stream} (size count : Nat) (hu : Usable s) (hb : Backed s)
    (hw : ReadWindow s) : FreadResult s size count (freadBuffered s size count) := by
  by_cases hfit : s.pos + size * count ≤ s.end_
  · exact freadBuffered_fit hu hb hw hfit
  · exact freadBuffered_past hu hb hw (by omega)

/-! ## Writing -/

/-- The direct loop sends whole buffers until at most one buffer of data is left. -/
theorem fwriteDirect_spec (data : List Byte) :
    ∀ (fuel written : Nat) (s : Stream), s.file.Succeeds → s.file.append = false →
      s.file.offset ≤ s.file.content.length → 1 ≤ s.bufSize → written < data.length →
      data.length < written + fuel →
      ∃ direct f', fwriteDirect data fuel written s =
          (written + direct.length, true, { s with file := f' }) ∧
        s.file.Receives f' direct ∧
        data.drop written = direct ++ data.drop (written + direct.length) ∧
        written + direct.length < data.length ∧
        data.length ≤ written + direct.length + s.bufSize := by
  intro fuel
  induction fuel with
  | zero => intro written s _ _ _ _ hw hfuel; omega
  | succ fuel ih =>
    intro written s hs happ hoff hB hwritten hfuel
    by_cases hloop : written + s.bufSize < data.length
    · obtain ⟨f', hwrite, hrec⟩ :=
        OpenFile.write_spec hs happ ((data.drop written).take s.bufSize)
      have hlen : ((data.drop written).take s.bufSize).length = s.bufSize := by
        rw [List.length_take, List.length_drop]; omega
      obtain ⟨direct, f'', hrest, hrec', hdata, hlt, hle⟩ :=
        ih (written + s.bufSize) { s with file := f' } hrec.succeeds (hrec.append.trans happ)
          hrec.inside hB (by omega) (by omega)
      refine ⟨(data.drop written).take s.bufSize ++ direct, f'', ?_, hrec.trans hoff hrec', ?_, ?_,
        ?_⟩
      · rw [fwriteDirect, if_pos hloop, hwrite]
        simp only [hlen, hrest, List.length_append, Nat.add_assoc]
      · rw [List.length_append, hlen, ← Nat.add_assoc, List.append_assoc, ← hdata,
          ← List.drop_drop, List.take_append_drop]
      · rw [List.length_append, hlen]; omega
      · rw [List.length_append, hlen]; simp only at hle; omega
    · refine ⟨[], s.file, ?_, .refl hs hoff, rfl, hwritten, ?_⟩
      · rw [fwriteDirect, if_neg hloop]
        rfl
      · simp only [List.length_nil]; omega

/-- What the overflow branch sends ahead of the data that stays whole: the topped-up buffer, all
`buf_size` bytes of it, unless the window is empty and untouched. -/
def toppedUp (s : Stream) (data : List Byte) : List Byte :=
  if s.end_ - s.pos ≠ s.bufSize then
    overwrite s.buffer (s.pos - s.start) (data.take (s.end_ - s.pos))
  else []

/-- How much of the data goes into the topped-up buffer. -/
def toppedCount (s : Stream) : Nat := if s.end_ - s.pos ≠ s.bufSize then s.end_ - s.pos else 0

/-- The window of a stream that is being written to, as far as the code relies on it. -/
structure Window (s : Stream) : Prop where
  start_le : s.start ≤ s.pos
  pos_le : s.pos ≤ s.end_
  fits : s.end_ ≤ s.start + s.bufSize

theorem fwriteTopUp_spec {s : Stream} (data : List Byte) (hu : Usable s) (hb : Backed s)
    (hw : Window s) (hoff : s.file.offset ≤ s.file.content.length) :
    ∃ f' buf, fwriteTopUp s data = (some (toppedCount s), { s with file := f', buffer := buf }) ∧
      s.file.Receives f' (toppedUp s data) ∧ buf.length = s.bufSize := by
  have hstart := hw.start_le
  have hpos := hw.pos_le
  have hfits := hw.fits
  have hlen := hb.length_buffer
  unfold fwriteTopUp toppedUp toppedCount
  rw [sub64_of_le hpos, sub64_of_le hstart]
  by_cases hroom : s.end_ - s.pos ≠ s.bufSize
  · have hin : s.pos - s.start + (data.take (s.end_ - s.pos)).length ≤ s.buffer.length := by
      rw [List.length_take]; omega
    have hbuf : (overwrite s.buffer (s.pos - s.start) (data.take (s.end_ - s.pos))).length =
        s.bufSize := by
      rw [length_overwrite]; omega
    obtain ⟨f', hwrite, hrec⟩ := OpenFile.write_spec hu.succeeds hu.not_append
      (overwrite s.buffer (s.pos - s.start) (data.take (s.end_ - s.pos)))
    refine ⟨f', _, ?_, by rw [if_pos hroom]; exact hrec, hbuf⟩
    simp only [if_pos hroom, Stream.store_of_le hin]
    rw [Stream.touch_of_le (by simp only [hbuf]; omega)]
    simp only [Stream.load, List.drop_zero]
    rw [List.take_of_length_le (by omega), hwrite]
  · refine ⟨s.file, s.buffer, ?_, by rw [if_neg hroom]; exact .refl hu.succeeds hoff, hlen⟩
    simp only [if_neg hroom]

/-- **The overflow branch.** The data falls into three parts: what tops up the buffer, what is
written directly, and a non-empty rest of at most one buffer, which opens the next window. -/
theorem fwriteOverflow_spec {s : Stream} {b : Block} (hu : Usable s) (hb : Backed s) (hw : Window s)
    (hoff : s.file.offset ≤ s.file.content.length) (hover : s.end_ - s.pos < b.data.length) :
    ∃ direct rest f' buf, fwriteOverflow s b = (b.count, { s with
          file := f', buffer := buf, start := s.pos + toppedCount s + direct.length,
          end_ := s.pos + toppedCount s + direct.length + s.bufSize,
          pos := s.pos + b.data.length }) ∧
      s.file.Receives f' (toppedUp s b.data ++ direct) ∧
      b.data.drop (toppedCount s) = direct ++ rest ∧
      toppedCount s + direct.length + rest.length = b.data.length ∧
      0 < rest.length ∧ rest.length ≤ s.bufSize ∧
      buf.length = s.bufSize ∧ buf.take rest.length = rest := by
  obtain ⟨f₁, buf₁, htop, hrec₁, hbuf₁⟩ := fwriteTopUp_spec b.data hu hb hw hoff
  have hcount : toppedCount s < b.data.length := by
    unfold toppedCount
    split <;> omega
  obtain ⟨direct, f', hdirect, hrec₂, hdata, hlt, hle⟩ :=
    fwriteDirect_spec b.data (b.data.length + f₁.script.length + 1) (toppedCount s)
      { s with file := f₁, buffer := buf₁ } hrec₁.succeeds (hrec₁.append.trans hu.not_append)
      hrec₁.inside hu.one_le_bufSize hcount (by omega)
  simp only at hle
  have hrest : (b.data.drop (toppedCount s + direct.length)).length =
      b.data.length - (toppedCount s + direct.length) := List.length_drop
  have hin : 0 + (b.data.drop (toppedCount s + direct.length)).length ≤ buf₁.length := by omega
  refine ⟨direct, b.data.drop (toppedCount s + direct.length), f',
    overwrite buf₁ 0 (b.data.drop (toppedCount s + direct.length)), ?_, hrec₁.trans hoff hrec₂,
    hdata, by omega, by omega, by omega, ?_, ?_⟩
  · have hsize : 0 < b.size * b.count := by rw [← b.length_data]; omega
    have hdiv : b.data.length / b.size = b.count := by
      rw [b.length_data, Nat.mul_div_cancel_left _ (Nat.pos_of_mul_pos_right hsize)]
    rw [fwriteOverflow, htop]
    simp only [hdirect, if_true]
    rw [Stream.store_of_le (by exact hin), hrest,
      show toppedCount s + direct.length + (b.data.length - (toppedCount s + direct.length)) =
        b.data.length by omega, hdiv]
    simp only [Prod.mk.injEq, Stream.mk.injEq, true_and, and_true]
    omega
  · rw [length_overwrite]; omega
  · have h := take_overwrite (Nat.zero_le buf₁.length)
      (b.data.drop (toppedCount s + direct.length))
    simpa using h

/-- Opening an empty window moves its end only. -/
theorem openWindow_eq {s : Stream} (hb : Backed s) (hw : Window s) :
    openWindow s =
      { s with end_ := if s.start = s.end_ then s.start + s.bufSize else s.end_ } := by
  have hstart := hw.start_le
  have hpos := hw.pos_le
  unfold openWindow
  by_cases hempty : s.start = s.end_
  · have hsp : s.pos = s.start := by omega
    rw [if_pos ⟨hempty, hb.mode⟩, if_pos hempty, hsp]
  · rw [if_neg (fun h => hempty h.1), if_neg hempty]

theorem Window.openWindow {s : Stream} (hw : Window s) :
    Window { s with end_ := if s.start = s.end_ then s.start + s.bufSize else s.end_ } := by
  have hstart := hw.start_le
  have hpos := hw.pos_le
  have hfits := hw.fits
  refine ⟨hstart, ?_, ?_⟩
  all_goals
    simp only
    split <;> omega

/-- Data that fits goes into the buffer and nowhere else. -/
theorem fwriteBuffered_fit {s : Stream} {b : Block} (hb : Backed s) (hw : Window s) {e : Nat}
    (he : e = if s.start = s.end_ then s.start + s.bufSize else s.end_)
    (hfit : s.pos + b.data.length ≤ e) :
    fwriteBuffered s b = (b.count, { s with
      end_ := e, buffer := overwrite s.buffer (s.pos - s.start) b.data,
      pos := s.pos + b.data.length }) := by
  have hw' := hw.openWindow
  rw [← he] at hw'
  have hstart := hw'.start_le
  have hpos := hw'.pos_le
  have hfits := hw'.fits
  have hlen := hb.length_buffer
  simp only at hstart hpos hfits
  unfold fwriteBuffered
  rw [openWindow_eq hb hw, ← he, Stream.checkWindow_of_le hw'.start_le hw'.pos_le]
  simp only [sub64_of_le hpos, sub64_of_le hstart]
  rw [if_pos (by omega), Stream.store_of_le (by simp only; omega)]

/-- Data that does not fit takes the overflow branch in the opened window. -/
theorem fwriteBuffered_overflow {s : Stream} {b : Block} (hb : Backed s) (hw : Window s) {e : Nat}
    (he : e = if s.start = s.end_ then s.start + s.bufSize else s.end_)
    (hover : e < s.pos + b.data.length) :
    fwriteBuffered s b = fwriteOverflow { s with end_ := e } b := by
  have hw' := hw.openWindow
  rw [← he] at hw'
  have hstart := hw'.start_le
  have hpos := hw'.pos_le
  simp only at hstart hpos
  unfold fwriteBuffered
  rw [openWindow_eq hb hw, ← he, Stream.checkWindow_of_le hw'.start_le hw'.pos_le]
  simp only [sub64_of_le hpos]
  rw [if_neg (by omega)]

/-- The fast path of `common_fputc` stores one byte inside the open window. -/
theorem commonFputc_fast {s : Stream} (hb : Backed s) (hw : Window s) (ch : Byte)
    (hfast : s.bufMode.nbf = false ∧ s.prevOp = .write ∧ s.start ≠ s.end_ ∧ s.pos ≠ s.end_) :
    commonFputc s ch = (some ch, { s with
      buffer := overwrite s.buffer (s.pos - s.start) [ch], pos := s.pos + 1 }) := by
  have hne := hfast.2.2.2
  have hstart := hw.start_le
  have hpos := hw.pos_le
  have hfits := hw.fits
  have hlen := hb.length_buffer
  have hin : s.pos - s.start + [ch].length ≤ s.buffer.length := by
    rw [List.length_singleton]; omega
  rw [commonFputc, if_pos hfast, sub64_of_le hstart, decide_eq_true hstart, Stream.check_true,
    Stream.store_of_le hin]

/-- The flush sends the written part of the window and closes it up to the stream position. -/
theorem commonFflush_spec {s : Stream} (hu : Usable s) (hb : Backed s) (hw : Window s)
    (hop : s.prevOp = .write) (hrd : s.bufMode.rdonly = false)
    (hoff : s.file.offset ≤ s.file.content.length) :
    ∃ f', commonFflush s = (true, { s with file := f', start := s.pos }) ∧
      s.file.Receives f' (s.buffer.take (s.pos - s.start)) := by
  have hstart := hw.start_le
  have hpos := hw.pos_le
  have hfits := hw.fits
  have hlen := hb.length_buffer
  rw [commonFflush, if_neg (by simp [hu.buffered]), if_neg (by simp [hrd]),
    if_neg (by simp [hop])]
  by_cases hne : s.start = s.pos
  · refine ⟨s.file, ?_, ?_⟩
    · rw [if_neg (fun h => h hne)]
      cases s
      cases hne
      rfl
    · rw [hne, Nat.sub_self, List.take_zero]
      exact .refl hu.succeeds hoff
  · obtain ⟨f', hwrite, hrec⟩ := OpenFile.write_spec hu.succeeds hu.not_append
      (s.buffer.take (s.pos - s.start))
    refine ⟨f', ?_, hrec⟩
    have hin : 0 + (s.pos - s.start) ≤ s.buffer.length := by omega
    rw [if_pos hne, sub64_of_le hstart, decide_eq_true hstart, Stream.check_true]
    simp only [Stream.touch_of_le hin, Stream.load, List.drop_zero, hwrite]

end WindowsLibc.Stdio
