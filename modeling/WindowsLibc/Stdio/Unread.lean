import WindowsLibc.Stdio.Reached

/-!
# What a stream has still to deliver

`unread s` is what reading `s` to its end would give: the rest of the window, and the file behind the
kernel's offset. A sound stream delivers it in pieces of any size, whether or not the position of the
stream and the offset of the kernel agree (`commonFread_reads`).

`Mirrors s` says that the window is the part of the file before the kernel's offset, as it is where nothing
has been pushed back.
-/

namespace WindowsLibc.Stdio

open WindowsLibc.Lib

variable {s : Stream}

/-- What the window of a stream that is being read still holds. -/
def windowRest (s : Stream) : List Byte :=
  if s.prevOp = .read then s.load (s.pos - s.start) (s.end_ - s.pos) else []

/-- What there is to read: what is written goes out first. -/
def unread (s : Stream) : List Byte :=
  windowRest s ++ (flushedFile s).content.drop (flushedFile s).offset

/-- A stream in read mode whose window is the part of the file before the kernel's offset. -/
structure Mirrors (s : Stream) : Prop where
  behind : s.end_ - s.start ≤ s.file.offset
  same : s.load 0 (s.end_ - s.start) ++ s.file.content.drop s.file.offset =
    s.file.content.drop (s.file.offset - (s.end_ - s.start))

theorem flushedFile_of_ne (hop : s.prevOp ≠ .write) : flushedFile s = s.file := by
  rw [flushedFile, if_neg (fun h => hop h.1)]

theorem unread_of_read (hop : s.prevOp = .read) :
    unread s = s.load (s.pos - s.start) (s.end_ - s.pos) ++ s.file.content.drop s.file.offset := by
  rw [unread, windowRest, if_pos hop, flushedFile_of_ne (by rw [hop]; exact fun h => by contradiction)]

/-! ## Parts of the buffer -/

theorem Stream.length_load (off n : Nat) (hin : off + n ≤ s.buffer.length) : (s.load off n).length = n := by
  rw [load, List.length_take, List.length_drop]
  omega

theorem Stream.take_load (off : Nat) {n k : Nat} (hk : k ≤ n) : (s.load off n).take k = s.load off k := by
  rw [load, List.take_take, Nat.min_eq_left hk, load]

theorem Stream.drop_load (off n k : Nat) : (s.load off n).drop k = s.load (off + k) (n - k) := by
  rw [load, List.drop_take, List.drop_drop, load]

/-- Wherever in the window the position is, the file goes on from the place that the kernel has it at. -/
theorem Mirrors.unread_eq (hm : Mirrors s) (h : Sound s) (hop : s.prevOp = .read) :
    unread s = s.file.content.drop (s.file.offset - (s.end_ - s.pos)) := by
  have hstart := h.start_le
  have hpos := h.pos_le
  have hbehind := hm.behind
  have hlen : (s.load 0 (s.end_ - s.start)).length = s.end_ - s.start :=
    Stream.length_load 0 _ (h.touch_eq (by omega))
  have hdrop := congrArg (List.drop (s.pos - s.start)) hm.same
  rw [List.drop_append_of_le_length (by omega), Stream.drop_load, List.drop_drop, Nat.zero_add,
    show s.end_ - s.start - (s.pos - s.start) = s.end_ - s.pos by omega,
    show s.file.offset - (s.end_ - s.start) + (s.pos - s.start) = s.file.offset - (s.end_ - s.pos) by
      omega] at hdrop
  rw [unread_of_read hop, hdrop]

/-- An empty window is no part of the file. -/
theorem Mirrors.of_empty (hempty : s.start = s.end_) : Mirrors s where
  behind := by omega
  same := by rw [hempty, Nat.sub_self, Stream.load, List.take_zero, List.nil_append, Nat.sub_zero]

/-! ## Reading -/

/-- A read of `n` bytes. -/
structure Reads (s : Stream) (n : Nat) (bytes : List Byte) (s' : Stream) : Prop where
  delivered : bytes = (unread s).take n
  left : unread s' = (unread s).drop n
  pos : s'.pos = s.pos + bytes.length
  error : s'.error = if bytes.length = n then s.error else .eof
  prevOp : s'.prevOp = .read
  content : s'.file.content = (flushedFile s).content
  mirrors : (s.prevOp = .read → Mirrors s) → Mirrors s'

/-- The last block, read behind an empty window. -/
theorem freadLast_reads (size : Nat) {dataSize : Nat} (got : List Byte) (hs : s.file.Succeeds)
    (hlen : s.buffer.length = s.bufSize) (hstart : s.start = s.pos) (hend : s.end_ = s.pos)
    (hgot : got.length < dataSize) (hle : dataSize ≤ got.length + s.bufSize) :
    ∃ last f buf e, freadLast s size dataSize got =
        ((got ++ last.take (dataSize - got.length),
            (got ++ last.take (dataSize - got.length)).length / size),
          { s with
            file := f, error := e, buffer := buf, start := s.pos, end_ := s.pos + last.length
            pos := s.pos + (last.take (dataSize - got.length)).length }) ∧
      s.file.Delivers f last ∧ buf.length = s.bufSize ∧ buf.take last.length = last ∧
      last.length ≤ s.bufSize ∧
      ((e = s.error ∧ dataSize - got.length ≤ last.length) ∨
        (e = .eof ∧ last.length < dataSize - got.length ∧ s.file.content.length ≤ f.offset)) := by
  obtain ⟨last, f, buf, e, hfill, hdel, hbuf, htake, hfit, hwhy⟩ :=
    freadFill_spec (dataSize - got.length) (s.bufSize + 1) 0 s hs hlen (by omega) (by omega) (by omega)
  simp only [Nat.zero_add, List.take_zero, List.nil_append] at hfill htake hfit hwhy
  refine ⟨last, f, buf, e, ?_, hdel, hbuf, htake, hfit, hwhy⟩
  rw [freadLast, hfill]
  cases hlast : last.length with
  | zero =>
    have hnil := List.eq_nil_of_length_eq_zero hlast
    simp only [hnil, List.take_nil, List.append_nil, List.length_nil, Nat.add_zero]
    cases s
    cases hstart
    cases hend
    rfl
  | succ n =>
    have hload : buf.take (min (dataSize - got.length) (n + 1)) = last.take (dataSize - got.length) := by
      rw [← hlast]
      have h := congrArg (List.take (min (dataSize - got.length) last.length)) htake
      rw [List.take_take, Nat.min_eq_left (Nat.min_le_right _ _)] at h
      rw [h]
      rcases Nat.le_total (dataSize - got.length) last.length with hle | hle
      · rw [Nat.min_eq_left hle]
      · rw [Nat.min_eq_right hle, List.take_length, List.take_of_length_le hle]
    have hcount : (last.take (dataSize - got.length)).length = min (dataSize - got.length) (n + 1) := by
      rw [List.length_take, hlast]
    simp only
    rw [Stream.touch_of_le (by simp only; omega), Stream.load, List.drop_zero, hload,
      List.length_append, hcount]

/-- A request the window covers. -/
theorem freadBuffered_reads_fit (h : Sound s) (hop : s.prevOp = .read) {size count : Nat}
    (hfit : size * count ≤ s.end_ - s.pos) :
    Reads s (size * count) (freadBuffered s size count).1.1 (freadBuffered s size count).2 := by
  have hstart := h.start_le
  have hpos := h.pos_le
  have hin : s.pos - s.start + size * count ≤ s.buffer.length := h.touch_eq (by omega)
  have hwindow : s.pos - s.start + (s.end_ - s.pos) ≤ s.buffer.length := h.touch_eq (by omega)
  have hr : freadBuffered s size count =
      ((s.load (s.pos - s.start) (size * count), count), { s with pos := s.pos + size * count }) := by
    simp only [freadBuffered, Stream.checkWindow_of_le hstart hpos, sub64_of_le hstart,
      sub64_of_le hpos]
    rw [if_pos hfit, Stream.touch_of_le hin]
  have hlen := Stream.length_load _ _ hin
  have hrest := Stream.length_load _ _ hwindow
  rw [hr]
  exact {
    delivered := by
      rw [unread_of_read hop, List.take_append_of_le_length (by omega), Stream.take_load _ hfit]
    left := by
      rw [unread_of_read hop, List.drop_append_of_le_length (by omega), Stream.drop_load]
      rw [unread_of_read (by exact hop)]
      show s.load (s.pos + size * count - s.start) (s.end_ - (s.pos + size * count)) ++ _ = _
      rw [show s.pos + size * count - s.start = s.pos - s.start + size * count by omega,
        Nat.sub_add_eq]
    pos := by simp only [hlen]
    error := by simp only [hlen, if_true]
    prevOp := hop
    content := by rw [flushedFile_of_ne (by rw [hop]; exact fun h => by contradiction)]
    mirrors := fun hm => ⟨(hm hop).behind, (hm hop).same⟩ }

/-- A request that reaches past the window. -/
theorem freadBuffered_reads_past (h : Sound s) (hb : Backed s) (hop : s.prevOp = .read)
    (hs : s.file.Succeeds) {size count : Nat} (hpast : s.end_ - s.pos < size * count) :
    Reads s (size * count) (freadBuffered s size count).1.1 (freadBuffered s size count).2 := by
  have hstart := h.start_le
  have hpos := h.pos_le
  have hcond : ¬ size * count ≤ s.end_ - s.pos := by omega
  have hin : s.pos - s.start + (s.end_ - s.pos) ≤ s.buffer.length := h.touch_eq (by omega)
  have hheld := Stream.length_load _ _ hin
  have hunread := unread_of_read hop
  -- the bytes the window still holds
  obtain ⟨head, hwin⟩ : ∃ head, s.load (s.pos - s.start) (s.end_ - s.pos) = head := ⟨_, rfl⟩
  have hhead : (if s.pos < s.end_ then s.load (s.pos - s.start) (s.end_ - s.pos) else []) = head := by
    split
    · exact hwin
    · rw [← hwin, show s.end_ - s.pos = 0 by omega, Stream.load, List.take_zero]
  have htouch : (if s.pos < s.end_ then s.touch (s.pos - s.start) (s.end_ - s.pos) else s) = s := by
    split
    · exact Stream.touch_of_le hin
    · rfl
  rw [hwin] at hheld hunread
  obtain ⟨direct, more, f, hdirect, hdel, hlt, hmore, hstop⟩ :=
    freadDirect_spec (size * count) (size * count + 1) head s hs h.one_le_bufSize (by omega) (by omega)
  have hahead : unread s = head ++ direct ++ s.file.content.drop f.offset := by
    rw [hunread, hdel.ahead, List.append_assoc]
  have hlength : (head ++ direct).length = s.end_ - s.pos + direct.length := by
    rw [List.length_append, hheld]
  have hr : freadBuffered s size count =
      if more then
        freadLast { s with
          file := f, error := if more then s.error else .eof, pos := s.pos + (head ++ direct).length,
          start := s.pos + (head ++ direct).length, end_ := s.pos + (head ++ direct).length }
          size (size * count) (head ++ direct)
      else (((head ++ direct), (head ++ direct).length / size), { s with
          file := f, error := if more then s.error else .eof, pos := s.pos + (head ++ direct).length,
          start := s.pos + (head ++ direct).length, end_ := s.pos + (head ++ direct).length }) := by
    simp only [freadBuffered, Stream.checkWindow_of_le hstart hpos, sub64_of_le hstart,
      sub64_of_le hpos]
    rw [if_neg hcond, hhead, htouch, hdirect]
  have hflushed : (flushedFile s).content = s.file.content := by
    rw [flushedFile_of_ne (by rw [hop]; exact fun h => by contradiction)]
  rw [hr]
  cases more with
  | false =>
    -- the file ended inside the direct loop
    have hnil : s.file.content.drop f.offset = [] := List.drop_eq_nil_of_le (hstop rfl)
    rw [hnil, List.append_nil] at hahead
    simp only [Bool.false_eq_true, if_false]
    exact {
      delivered := by rw [hahead, List.take_of_length_le (by omega)]
      left := by
        rw [hahead, List.drop_eq_nil_of_le (by omega), unread_of_read (by exact hop)]
        simp only [Nat.sub_self, Stream.load, List.take_zero, List.nil_append]
        rw [hdel.content, hnil]
      pos := rfl
      error := by simp only; rw [if_neg (by omega)]
      prevOp := hop
      content := hdel.content.trans hflushed.symm
      mirrors := fun _ => .of_empty rfl }
  | true =>
    simp only [if_true]
    obtain ⟨last, f', buf, e, hlast, hdel', hbuf, htake, hfit, hwhy⟩ :=
      freadLast_reads (s := { s with
          file := f, error := s.error, pos := s.pos + (head ++ direct).length,
          start := s.pos + (head ++ direct).length, end_ := s.pos + (head ++ direct).length })
        size (head ++ direct) hdel.succeeds hb.length_buffer rfl rfl hlt (hmore rfl)
    have hrest : s.file.content.drop f.offset = last ++ s.file.content.drop f'.offset := by
      have hahead' := hdel'.ahead
      rw [hdel.content] at hahead'
      exact hahead'
    have hbytes : (head ++ direct ++ last.take (size * count - (head ++ direct).length)).length =
        (head ++ direct).length + min (size * count - (head ++ direct).length) last.length := by
      rw [List.length_append, List.length_take]
    have hend : last.length < size * count - (head ++ direct).length →
        s.file.content.drop f'.offset = [] := by
      intro hshort
      rcases hwhy with ⟨-, hle⟩ | ⟨-, -, hend⟩
      · omega
      · rw [hdel.content] at hend
        exact List.drop_eq_nil_of_le hend
    rw [hlast]
    exact {
      delivered := by
        rw [hahead, hrest, List.take_append, List.take_of_length_le (l := head ++ direct) (by omega)]
        rcases Nat.lt_or_ge last.length (size * count - (head ++ direct).length) with hshort | hlong
        · rw [hend hshort, List.append_nil]
        · rw [List.take_append_of_le_length hlong]
      left := by
        have hgot : (head ++ direct).drop (size * count) = [] := List.drop_eq_nil_of_le (by omega)
        rw [hahead, hrest, List.drop_append, hgot, List.nil_append, unread_of_read (by exact hop)]
        simp only [Nat.add_sub_cancel_left, Nat.add_sub_add_left, hdel'.content, hdel.content]
        have hkept : ∀ n, (buf.drop n).take (last.length - n) = last.drop n := by
          intro n
          rw [← List.drop_take, htake]
        rw [Stream.load, hkept]
        rcases Nat.lt_or_ge last.length (size * count - (head ++ direct).length) with hshort | hlong
        · rw [hend hshort, List.append_nil, List.append_nil, List.take_of_length_le (by omega),
            List.drop_length, List.drop_eq_nil_of_le (by omega)]
        · rw [List.length_take, Nat.min_eq_left hlong, List.drop_append_of_le_length hlong]
      pos := by
        simp only [List.length_append]
        omega
      error := by
        simp only [hbytes]
        rcases hwhy with ⟨he, hle⟩ | ⟨he, hlt', -⟩
        · rw [he, if_pos (by omega)]
        · rw [he, if_neg (by omega)]
      prevOp := hop
      content := (hdel'.content.trans hdel.content).trans hflushed.symm
      mirrors := by
        intro _
        have hoff : f'.offset = f.offset + last.length := hdel'.offset
        refine ⟨?_, ?_⟩
        · show s.pos + (head ++ direct).length + last.length - (s.pos + (head ++ direct).length) ≤ f'.offset
          omega
        · simp only [Nat.add_sub_cancel_left, Stream.load, List.drop_zero]
          rw [htake, hdel'.content, hdel.content, ← hrest, hoff, Nat.add_sub_cancel] }

theorem freadBuffered_reads (h : Sound s) (hb : Backed s) (hop : s.prevOp = .read)
    (hs : s.file.Succeeds) (size count : Nat) :
    Reads s (size * count) (freadBuffered s size count).1.1 (freadBuffered s size count).2 := by
  rcases Nat.lt_or_ge (s.end_ - s.pos) (size * count) with hpast | hfit
  · exact freadBuffered_reads_past h hb hop hs hpast
  · exact freadBuffered_reads_fit h hop hfit

/-- A stream that may be read, of which nothing is known to be at an end or broken. -/
structure Readable (s : Stream) : Prop where
  clear : s.error = .clear
  access : s.bufMode.wronly = false
  memory : ¬ NoMemory s

theorem not_flushFails (hs : s.file.Succeeds) : ¬ FlushFails s := fun h => hs.answer_ne h.2.2

theorem flushedFile_succeeds (hs : s.file.Succeeds) : (flushedFile s).Succeeds := by
  rw [flushedFile]
  split
  · rw [OpenFile.write, if_neg hs.answer_ne]
    exact hs.answered
  · exact hs

/-- Entering read mode: what there is to read stays. -/
theorem enterRead_unread (h : Sound s) (hs : s.file.Succeeds) :
    unread (enterRead s) = unread s ∧ (enterRead s).pos = s.pos ∧ (enterRead s).error = s.error ∧
      (enterRead s).file = flushedFile s ∧ (enterRead s).prevOp = .read ∧
      (enterRead s).bufMode = s.bufMode ∧ (enterRead s).heap = s.heap ∧
      ((s.prevOp = .read → Mirrors s) → Mirrors (enterRead s)) := by
  by_cases hop : s.prevOp = .write
  · have hempty : ∀ s' : Stream, s'.prevOp = .read → s'.pos = s'.end_ → s'.file = flushedFile s →
        unread s' = unread s := by
      intro s' hop' hend hfile
      rw [unread_of_read hop', hend, Nat.sub_self, Stream.load, List.take_zero, hfile, unread, windowRest,
        if_neg (by rw [hop]; exact fun h => by contradiction)]
    by_cases heq : s.start = s.pos
    · have henter : enterRead s = { s with end_ := s.start, prevOp := .read } := by
        rw [enterRead, if_pos hop, commonFflush_idle h (fun _ => heq)]
      have hfile : (enterRead s).file = flushedFile s := by
        rw [henter, flushedFile, if_neg (fun hp => hp.2 heq)]
      refine ⟨hempty _ (by rw [henter]) (by rw [henter]; exact heq.symm) hfile, ?_, ?_, hfile, ?_, ?_, ?_,
        fun _ => .of_empty (by rw [henter])⟩
      all_goals rw [henter]
    · have henter : enterRead s = { s with
          file := (s.file.write (s.load 0 (s.pos - s.start))).2, start := s.pos, end_ := s.pos
          prevOp := .read } := by
        rw [enterRead, if_pos hop, commonFflush_pending h hop heq, if_neg hs.answer_ne]
      have hfile : (enterRead s).file = flushedFile s := by
        rw [henter, flushedFile, if_pos ⟨hop, heq⟩]
      refine ⟨hempty _ (by rw [henter]) (by rw [henter]) hfile, ?_, ?_, hfile, ?_, ?_, ?_,
        fun _ => .of_empty (by rw [henter])⟩
      all_goals rw [henter]
  · have henter : enterRead s = { s with prevOp := .read } := by rw [enterRead, if_neg hop]
    have hfile := flushedFile_of_ne hop
    refine ⟨?_, ?_, ?_, ?_, ?_, ?_, ?_, ?_⟩
    · rw [henter, unread_of_read rfl, unread, windowRest, hfile]
      cases hprev : s.prevOp with
      | write => exact absurd hprev hop
      | read => rw [if_pos rfl]; rfl
      | nothing =>
        have hidle := h.idle hprev
        have hstart := h.start_le
        have hpos := h.pos_le
        rw [if_neg (fun h => by contradiction)]
        show s.load (s.pos - s.start) (s.end_ - s.pos) ++ _ = _
        rw [show s.end_ - s.pos = 0 by omega, Stream.load, List.take_zero]
    · rw [henter]
    · rw [henter]
    · rw [henter, hfile]
    · rw [henter]
    · rw [henter]
    · rw [henter]
    · intro hm
      rw [henter]
      cases hprev : s.prevOp with
      | write => exact absurd hprev hop
      | read => exact ⟨(hm hprev).behind, (hm hprev).same⟩
      | nothing => exact .of_empty (h.idle hprev)

/-- The allocation, if it is granted, changes the buffer only where the window is empty. -/
theorem allocateBuffer_ready (h : Sound s) (hm : ¬ NoMemory s) :
    ∃ buf alloc, allocateBuffer s =
        (true, { s with buffer := buf, bufMode := { s.bufMode with allocated := alloc } }) ∧
      Sound { s with buffer := buf, bufMode := { s.bufMode with allocated := alloc } } ∧
      Backed { s with buffer := buf, bufMode := { s.bufMode with allocated := alloc } } ∧
      (buf = s.buffer ∨ s.start = s.end_) := by
  rcases h.storage with hb | ⟨hint, hall, heq⟩
  · exact ⟨s.buffer, s.bufMode.allocated, allocateBuffer_of_backed hb, h, hb, .inl rfl⟩
  · have hheap : s.heap.isSome := by
      rw [Option.isSome_iff_ne_none]
      exact fun hnone => hm ⟨hint, hall, hnone⟩
    obtain ⟨buf, alloc, halloc, hb⟩ := allocateBuffer_spec hheap (Or.inr ⟨hint, hall⟩)
    refine ⟨buf, alloc, halloc, ?_, hb, .inr heq⟩
    exact ⟨⟨h.start_le, h.pos_le, h.fits⟩, h.no_fault, h.buffered, h.one_le_bufSize, Or.inl hb, h.idle,
      h.writable, h.readable⟩

/-- Nothing changes that a reader could see. -/
theorem allocateBuffer_unread (h : Sound s) (hop : s.prevOp = .read) (hm : ¬ NoMemory s) :
    ∃ buf alloc, allocateBuffer s =
        (true, { s with buffer := buf, bufMode := { s.bufMode with allocated := alloc } }) ∧
      Sound { s with buffer := buf, bufMode := { s.bufMode with allocated := alloc } } ∧
      Backed { s with buffer := buf, bufMode := { s.bufMode with allocated := alloc } } ∧
      unread { s with buffer := buf, bufMode := { s.bufMode with allocated := alloc } } = unread s ∧
      (Mirrors s → Mirrors { s with buffer := buf, bufMode := { s.bufMode with allocated := alloc } }) := by
  obtain ⟨buf, alloc, halloc, hsound, hb, hsame⟩ := allocateBuffer_ready h hm
  refine ⟨buf, alloc, halloc, hsound, hb, ?_⟩
  rcases hsame with rfl | hempty
  · exact ⟨rfl, fun hm => ⟨hm.behind, hm.same⟩⟩
  · have hstart := h.start_le
    have hpos := h.pos_le
    refine ⟨?_, fun _ => .of_empty hempty⟩
    rw [unread_of_read hop, unread_of_read (by exact hop)]
    dsimp only [Stream.load]
    rw [show s.end_ - s.pos = 0 by omega, List.take_zero, List.take_zero]

/-- The stream that the buffered branch of a read starts from. -/
structure ReadyToRead (s s₁ : Stream) : Prop where
  sound : Sound s₁
  backed : Backed s₁
  prevOp : s₁.prevOp = .read
  file : s₁.file = flushedFile s
  unread : unread s₁ = unread s
  pos : s₁.pos = s.pos
  error : s₁.error = s.error
  heap : s₁.heap = s.heap
  rdonly : s₁.bufMode.rdonly = s.bufMode.rdonly
  wronly : s₁.bufMode.wronly = s.bufMode.wronly
  mirrors : (s.prevOp = .read → Mirrors s) → Mirrors s₁

theorem commonFread_ready (h : Sound s) (hr : Readable s) (hs : s.file.Succeeds) (size count : Nat) :
    ∃ s₁, commonFread s size count = freadBuffered s₁ size count ∧ ReadyToRead s s₁ := by
  obtain ⟨hunread, hpos, herror, hfile, hop, hmode, hheap, hkeep⟩ := enterRead_unread h hs
  have hread := (enterRead_sound h hr.access (not_flushFails hs)).1
  have hmemory : ¬ NoMemory (enterRead s) := by
    rw [NoMemory, hmode, hheap]
    exact hr.memory
  obtain ⟨buf, alloc, halloc, hsound, hb, hleft, hmirror⟩ := allocateBuffer_unread hread hop hmemory
  refine ⟨_, ?_, hsound, hb, hop, hfile, hleft.trans hunread, hpos, herror, hheap, ?_, ?_,
    fun hm => hmirror (hkeep hm)⟩
  · rw [commonFread, if_neg (by simp [hr.clear]), if_neg (by simp [hr.access]),
      if_neg (by simp [h.buffered]), halloc]
  · show (enterRead s).bufMode.rdonly = _
    rw [hmode]
  · show (enterRead s).bufMode.wronly = _
    rw [hmode]

/-- **Reading.** A stream delivers what it has, in order. -/
theorem commonFread_reads (h : Sound s) (hr : Readable s) (hs : s.file.Succeeds) (size count : Nat) :
    Reads s (size * count) (commonFread s size count).1.1 (commonFread s size count).2 ∧
      Sound (commonFread s size count).2 ∧ (commonFread s size count).2.file.Succeeds ∧
      (commonFread s size count).2.bufMode.wronly = false ∧ ¬ NoMemory (commonFread s size count).2 ∧
      (commonFread s size count).2.heap = s.heap := by
  obtain ⟨s₁, heq, hready⟩ := commonFread_ready h hr hs size count
  have hsucceeds : s₁.file.Succeeds := by
    rw [hready.file]
    exact flushedFile_succeeds hs
  have hreads := freadBuffered_reads hready.sound hready.backed hready.prevOp hsucceeds size count
  obtain ⟨hsound', hon⟩ := freadBuffered_sound hready.sound hready.backed hready.prevOp size count
  rw [heq]
  refine ⟨?_, hsound', (hon.succeeds hsucceeds).1, ?_, ?_, hon.heap.trans hready.heap⟩
  · exact {
      delivered := by rw [hreads.delivered, hready.unread]
      left := by rw [hreads.left, hready.unread]
      pos := by
        rw [← hready.pos]
        exact hreads.pos
      error := by
        rw [← hready.error]
        exact hreads.error
      prevOp := hreads.prevOp
      content := by
        rw [hreads.content, flushedFile_of_ne (by rw [hready.prevOp]; exact fun h => by contradiction),
          hready.file]
      mirrors := fun hm => hreads.mirrors (fun _ => hready.mirrors hm) }
  · rw [hon.bufMode, hready.wronly, hr.access]
  · rintro ⟨hint, hall, -⟩
    rw [hon.bufMode] at hint hall
    exact hready.backed.not_lazy ⟨hint, hall⟩

end WindowsLibc.Stdio
