import WindowsLibc.Stdio.Flush
import WindowsLibc.Stdio.Unread

/-!
# Where what is written goes

A kernel that grants everything (`Granted`) is a file that takes what it is given: `put`. What a stream
has received is the file that a flush would leave, `flushedFile`, and a write through a window that has
not been shortened is a `put` to that file (`commonFwrite_put`). This holds for files that append and for
those that do not, and wherever the offset of the kernel is.

`fwriteOverflow_put` says what is put when a window has been shortened: a whole buffer, with whatever
stands behind the window.
-/

namespace WindowsLibc.Stdio

open WindowsLibc.Lib

variable {s : Stream}

/-! ## A file that takes what it is given -/

namespace OpenFile

variable {f : OpenFile} {bytes more : List Byte}

/-- The kernel will answer in full. -/
def Granted (f : OpenFile) : Prop := f.script = []

/-- Where `write` puts bytes. -/
def target (f : OpenFile) : Nat := if f.append then f.content.length else f.offset

/-- The file after a `write` that is granted. -/
def put (f : OpenFile) (bytes : List Byte) : OpenFile :=
  if bytes = [] then f
  else { f with content := overwrite f.content f.target bytes, offset := f.target + bytes.length }

theorem Granted.succeeds (h : f.Granted) : f.Succeeds := by
  intro a ha
  rw [h] at ha
  exact absurd ha List.not_mem_nil

theorem Granted.answer (h : f.Granted) : f.answer = .full := by
  rw [OpenFile.answer, h]
  rfl

theorem Granted.answered (h : f.Granted) : f.answered = f := by
  cases f
  cases h
  rfl

@[simp] theorem put_nil (f : OpenFile) : f.put [] = f := if_pos rfl

theorem put_granted (h : f.Granted) (bytes : List Byte) : (f.put bytes).Granted := by
  rw [put]
  split
  · exact h
  · exact h

theorem put_append_mode (f : OpenFile) (bytes : List Byte) : (f.put bytes).append = f.append := by
  rw [put]
  split
  · rfl
  · rfl

theorem write_granted (h : f.Granted) (hne : bytes ≠ []) :
    f.write bytes = (some bytes.length, f.put bytes) := by
  have hfail : f.answer ≠ .fail := by
    rw [h.answer]
    exact fun hfull => by contradiction
  rw [write, if_neg hfail, put, if_neg hne, h.answered]
  rfl

/-- What is behind bytes that have been put. -/
theorem target_put (hne : bytes ≠ []) : (f.put bytes).target = f.target + bytes.length := by
  rw [put, if_neg hne]
  show (if f.append then (overwrite f.content f.target bytes).length else f.target + bytes.length) = _
  split
  · next happ =>
    have htarget : f.target = f.content.length := if_pos happ
    rw [length_overwrite, htarget]
    exact Nat.max_eq_right (Nat.le_add_right _ _)
  · rfl

/-- **Pieces that are put one after the other.** -/
theorem put_put (f : OpenFile) (bytes more : List Byte) :
    (f.put bytes).put more = f.put (bytes ++ more) := by
  by_cases hbytes : bytes = []
  · rw [hbytes, put_nil, List.nil_append]
  by_cases hmore : more = []
  · rw [hmore, put_nil, List.append_nil]
  have htarget := target_put (f := f) hbytes
  have hne : bytes ++ more ≠ [] := fun hnil => hbytes (List.append_eq_nil_iff.mp hnil).1
  rw [put, if_neg hmore, htarget, put, if_neg hbytes, put, if_neg hne]
  simp only [overwrite_append, List.length_append, Nat.add_assoc]

theorem offset_put (hne : bytes ≠ []) : (f.put bytes).offset = f.target + bytes.length := by
  rw [put, if_neg hne]

theorem put_content (hne : bytes ≠ []) : (f.put bytes).content = overwrite f.content f.target bytes := by
  rw [put, if_neg hne]

end OpenFile

/-! ## What is pending -/

/-- What has been written and not been sent. -/
def pending (s : Stream) : List Byte := if s.prevOp = .write then s.load 0 (s.pos - s.start) else []

theorem pending_of_write (hop : s.prevOp = .write) : pending s = s.buffer.take (s.pos - s.start) := by
  rw [pending, if_pos hop, Stream.load, List.drop_zero]

theorem length_pending (h : Sound s) (hop : s.prevOp = .write) : (pending s).length = s.pos - s.start := by
  have hstart := h.start_le
  have hpos := h.pos_le
  rw [pending, if_pos hop]
  exact Stream.length_load 0 _ (h.touch_eq (by omega))

theorem pending_eq_nil_iff (h : Sound s) (hop : s.prevOp = .write) : pending s = [] ↔ s.start = s.pos := by
  have hstart := h.start_le
  rw [← List.length_eq_zero_iff, length_pending h hop]
  omega

/-- A flush puts what is pending. -/
theorem flushedFile_put (h : Sound s) (hf : s.file.Granted) : flushedFile s = s.file.put (pending s) := by
  rw [flushedFile]
  by_cases hop : s.prevOp = .write
  · by_cases hstart : s.start = s.pos
    · rw [if_neg (fun hp => hp.2 hstart), (pending_eq_nil_iff h hop).mpr hstart, OpenFile.put_nil]
    · have hne : pending s ≠ [] := fun hnil => hstart ((pending_eq_nil_iff h hop).mp hnil)
      have hload : s.load 0 (s.pos - s.start) = pending s := by rw [pending, if_pos hop]
      rw [if_pos ⟨hop, hstart⟩, hload, OpenFile.write_granted hf hne]
  · rw [if_neg (fun hp => hop hp.1), pending, if_neg hop, OpenFile.put_nil]

/-! ## Writing -/

/-- The direct loop puts whole buffers until one buffer is enough for the rest. -/
theorem fwriteDirect_put (data : List Byte) :
    ∀ (fuel written : Nat) (s : Stream), s.file.Granted → 1 ≤ s.bufSize → written < data.length →
      data.length < written + fuel →
      ∃ direct, fwriteDirect data fuel written s =
          (written + direct.length, true, { s with file := s.file.put direct }) ∧
        data.drop written = direct ++ data.drop (written + direct.length) ∧
        written + direct.length < data.length ∧
        data.length ≤ written + direct.length + s.bufSize := by
  intro fuel
  induction fuel with
  | zero =>
    intro written s _ _ hw hfuel
    omega
  | succ fuel ih =>
    intro written s hf hB hwritten hfuel
    by_cases hloop : written + s.bufSize < data.length
    · have hlen : ((data.drop written).take s.bufSize).length = s.bufSize := by
        rw [List.length_take, List.length_drop]
        omega
      have hne : (data.drop written).take s.bufSize ≠ [] := by
        intro hnil
        rw [hnil, List.length_nil] at hlen
        omega
      obtain ⟨direct, hrest, hdata, hlt, hle⟩ := ih (written + s.bufSize)
        { s with file := s.file.put ((data.drop written).take s.bufSize) } (OpenFile.put_granted hf _) hB
        (by omega) (by omega)
      refine ⟨(data.drop written).take s.bufSize ++ direct, ?_, ?_, ?_, ?_⟩
      · rw [fwriteDirect, if_pos hloop, OpenFile.write_granted hf hne]
        dsimp only
        rw [hlen, hrest, ← OpenFile.put_put, List.length_append, hlen, Nat.add_assoc]
      · rw [List.length_append, hlen, ← Nat.add_assoc, List.append_assoc, ← hdata, ← List.drop_drop,
          List.take_append_drop]
      · rw [List.length_append, hlen]
        omega
      · rw [List.length_append, hlen]
        dsimp only at hle
        omega
    · refine ⟨[], ?_, rfl, hwritten, ?_⟩
      · rw [fwriteDirect, if_neg hloop, OpenFile.put_nil]
        rfl
      · rw [List.length_nil]
        omega

/-- Topping up puts a whole buffer. -/
theorem fwriteTopUp_put (h : Sound s) (hb : Backed s) (hf : s.file.Granted) (data : List Byte) :
    ∃ buf, fwriteTopUp s data = (some (toppedCount s),
        { s with file := s.file.put (toppedUp s data), buffer := buf }) ∧
      buf.length = s.bufSize := by
  have hstart := h.start_le
  have hpos := h.pos_le
  have hfits := h.fits
  have hlen := hb.length_buffer
  have hB := h.one_le_bufSize
  unfold fwriteTopUp toppedUp toppedCount
  rw [sub64_of_le hpos, sub64_of_le hstart]
  by_cases hroom : s.end_ - s.pos ≠ s.bufSize
  · have hin : s.pos - s.start + (data.take (s.end_ - s.pos)).length ≤ s.buffer.length := by
      rw [List.length_take]
      omega
    have hbuf : (overwrite s.buffer (s.pos - s.start) (data.take (s.end_ - s.pos))).length =
        s.bufSize := by
      rw [length_overwrite]
      omega
    have hne : overwrite s.buffer (s.pos - s.start) (data.take (s.end_ - s.pos)) ≠ [] := by
      intro hnil
      rw [hnil, List.length_nil] at hbuf
      omega
    refine ⟨overwrite s.buffer (s.pos - s.start) (data.take (s.end_ - s.pos)), ?_, hbuf⟩
    simp only [if_pos hroom, Stream.store_of_le hin]
    rw [Stream.touch_of_le (by dsimp only; omega)]
    simp only [Stream.load, List.drop_zero]
    rw [List.take_of_length_le (by omega), OpenFile.write_granted hf hne]
  · refine ⟨s.buffer, ?_, hlen⟩
    simp only [if_neg hroom, OpenFile.put_nil]

/-- **The overflow branch**: the topped-up buffer, and the data that it has not taken. -/
theorem fwriteOverflow_put (h : Sound s) (hb : Backed s) (hop : s.prevOp = .write) (hf : s.file.Granted)
    {b : Block} (hover : s.end_ - s.pos < b.data.length) :
    ∃ f buf start, fwriteOverflow s b = (b.count, { s with
        file := f, buffer := buf, start := start, end_ := start + s.bufSize
        pos := s.pos + b.data.length }) ∧ f.Granted ∧
      flushedFile (fwriteOverflow s b).2 =
        (s.file.put (toppedUp s b.data)).put (b.data.drop (toppedCount s)) := by
  have hpos := h.pos_le
  have hsound := fwriteOverflow_sound h hb hop hover
  obtain ⟨buf, htop, hbuf⟩ := fwriteTopUp_put h hb hf b.data
  have hcount : toppedCount s < b.data.length := by
    unfold toppedCount
    split
    · exact hover
    · omega
  obtain ⟨direct, hdirect, hdata, hlt, hle⟩ :=
    fwriteDirect_put b.data (b.data.length + (s.file.put (toppedUp s b.data)).script.length + 1)
      (toppedCount s) { s with file := s.file.put (toppedUp s b.data), buffer := buf }
      (OpenFile.put_granted hf _) h.one_le_bufSize hcount (by omega)
  dsimp only at hle
  have hrest : (b.data.drop (toppedCount s + direct.length)).length =
      b.data.length - (toppedCount s + direct.length) := List.length_drop
  have hin : 0 + (b.data.drop (toppedCount s + direct.length)).length ≤ buf.length := by omega
  have hsize : 0 < b.size * b.count := by
    rw [← b.length_data]
    omega
  have hdiv : b.data.length / b.size = b.count := by
    rw [b.length_data, Nat.mul_div_cancel_left _ (Nat.pos_of_mul_pos_right hsize)]
  have hr : fwriteOverflow s b = (b.count, { s with
      file := (s.file.put (toppedUp s b.data)).put direct
      buffer := overwrite buf 0 (b.data.drop (toppedCount s + direct.length))
      start := s.pos + (toppedCount s + direct.length)
      end_ := s.pos + (toppedCount s + direct.length) + s.bufSize
      pos := s.pos + b.data.length }) := by
    rw [fwriteOverflow, htop]
    simp only [hdirect, if_true]
    rw [Stream.store_of_le (by exact hin), hrest,
      show toppedCount s + direct.length + (b.data.length - (toppedCount s + direct.length)) =
        b.data.length by omega, hdiv]
    simp only [Prod.mk.injEq, Stream.mk.injEq, true_and, and_true]
    omega
  rw [hr] at hsound
  refine ⟨_, _, _, hr, OpenFile.put_granted (OpenFile.put_granted hf _) _, ?_⟩
  rw [hr, flushedFile_put hsound (OpenFile.put_granted (OpenFile.put_granted hf _) _),
    pending_of_write (by exact hop), hdata, ← OpenFile.put_put]
  have htake := take_overwrite (Nat.zero_le buf.length) (b.data.drop (toppedCount s + direct.length))
  rw [List.take_zero, List.nil_append, Nat.zero_add, hrest] at htake
  have hpend : s.pos + b.data.length - (s.pos + (toppedCount s + direct.length)) =
      b.data.length - (toppedCount s + direct.length) := by omega
  dsimp only
  rw [hpend, htake]

/-- The window of a write that fits. -/
theorem pending_store (hb : Backed s) (hw : Window s) (hop : s.prevOp = .write) (data : List Byte)
    {e : Nat} : pending { s with
      end_ := e, buffer := overwrite s.buffer (s.pos - s.start) data, pos := s.pos + data.length } =
    pending s ++ data := by
  have hstart := hw.start_le
  have hpos := hw.pos_le
  have hfits := hw.fits
  have hlen := hb.length_buffer
  rw [pending_of_write (by exact hop), pending_of_write hop]
  dsimp only
  rw [show s.pos + data.length - s.start = s.pos - s.start + data.length by omega]
  exact take_overwrite (by omega) data

/-- Data that fits is put behind what is pending. -/
theorem fwriteBuffered_put_fit (h : Sound s) (hb : Backed s) (hop : s.prevOp = .write)
    (hf : s.file.Granted) {b : Block} {e : Nat}
    (he : e = if s.start = s.end_ then s.start + s.bufSize else s.end_)
    (hfit : s.pos + b.data.length ≤ e) :
    fwriteBuffered s b = (b.count, { s with
        end_ := e, buffer := overwrite s.buffer (s.pos - s.start) b.data
        pos := s.pos + b.data.length }) ∧
      flushedFile (fwriteBuffered s b).2 = (flushedFile s).put b.data := by
  have hr := fwriteBuffered_fit hb h.toWindow he hfit
  have hsound := fwriteBuffered_sound h hb hop b
  rw [hr] at hsound
  refine ⟨hr, ?_⟩
  rw [hr, flushedFile_put hsound hf, flushedFile_put h hf, pending_store hb h.toWindow hop,
    OpenFile.put_put]

/-- **Writing through a window that has not been shortened.** -/
theorem fwriteBuffered_put (h : Sound s) (hb : Backed s) (hop : s.prevOp = .write) (hf : s.file.Granted)
    (hwhole : Whole s) (b : Block) :
    ∃ f buf start e, fwriteBuffered s b = (b.count, { s with
        file := f, buffer := buf, start := start, end_ := e, pos := s.pos + b.data.length }) ∧
      f.Granted ∧ e = start + s.bufSize ∧
      flushedFile (fwriteBuffered s b).2 = (flushedFile s).put b.data := by
  have hstart := h.start_le
  have hpos := h.pos_le
  have hfits := h.fits
  have hB := h.one_le_bufSize
  obtain ⟨e, he⟩ : ∃ e, e = if s.start = s.end_ then s.start + s.bufSize else s.end_ := ⟨_, rfl⟩
  have hfull : e = s.start + s.bufSize := by
    rcases hwhole with hempty | hfull
    · rw [he, if_pos hempty.symm]
    · rw [he, if_neg (by omega), hfull]
  by_cases hfit : s.pos + b.data.length ≤ e
  · obtain ⟨hr, hput⟩ := fwriteBuffered_put_fit h hb hop hf he hfit
    exact ⟨s.file, _, s.start, e, hr, hf, hfull, hput⟩
  · -- the window is opened, and the data that tops it up follows what is pending
    have hopen : Sound { s with end_ := e } := h.update rfl hstart (by omega) (by omega)
      (fun hn => absurd hb hn) (fun hn => by rw [hop] at hn; contradiction) h.writable h.readable
    have hb' : Backed { s with end_ := e } := hb.update hb.length_buffer
    have hover : ({ s with end_ := e } : Stream).end_ - ({ s with end_ := e } : Stream).pos <
        b.data.length := by
      dsimp only
      omega
    have hr := fwriteBuffered_overflow hb h.toWindow he (Nat.lt_of_not_le hfit)
    obtain ⟨f, buf, start, hwrite, hgranted, hput⟩ := fwriteOverflow_put hopen hb' hop hf hover
    refine ⟨f, buf, start, start + s.bufSize, hr.trans hwrite, hgranted, rfl, ?_⟩
    have htop := toppedUp_full hb' hopen.toWindow hfull b.data hover
    have hpending : pending { s with end_ := e } = pending s := rfl
    rw [hr, hput, htop, ← pending_of_write (s := { s with end_ := e }) hop, hpending, OpenFile.put_put,
      List.append_assoc, List.take_append_drop, flushedFile_put h hf, OpenFile.put_put]

/-! ## The whole call -/

/-- Where the next write goes: when reading has run ahead the kernel is sent back first. -/
def place (s : Stream) : Nat :=
  if s.prevOp = .read ∧ s.file.append = false then s.pos else (flushedFile s).target

/-- The position from which the next write counts: an appending stream goes to the end of the file. -/
def base (s : Stream) : Nat :=
  if s.prevOp ≠ .write ∧ s.file.append = true then s.file.content.length else s.pos

/-- A write of `data`. -/
structure Writes (s : Stream) (data : List Byte) (s' : Stream) : Prop where
  content : (flushedFile s').content = overwrite (flushedFile s).content (place s) data
  target : (flushedFile s').target = place s + data.length
  offset : (flushedFile s').offset = place s + data.length
  pos : s'.pos = base s + data.length
  error : s'.error = s.error
  prevOp : s'.prevOp = .write

/-- A stream that may be written to. -/
structure Writable (s : Stream) : Prop where
  no_error : s.error ≠ .error
  access : s.bufMode.rdonly = false
  memory : ¬ NoMemory s
  whole : s.prevOp = .write → Whole s

theorem flushedFile_of_empty (heq : s.start = s.pos) : flushedFile s = s.file := by
  rw [flushedFile, if_neg (fun hp => hp.2 heq)]

theorem flushedFile_append (h : Sound s) (hf : s.file.Granted) :
    (flushedFile s).append = s.file.append := by
  rw [flushedFile_put h hf, OpenFile.put_append_mode]

/-- Entering write mode sends the kernel to the place. -/
theorem enterWrite_put (hf : s.file.Granted) :
    ∃ f start e pos, enterWrite s =
        { s with file := f, start := start, end_ := e, pos := pos, prevOp := .write } ∧
      f.Granted ∧ f.append = s.file.append ∧ pos = base s ∧
      (flushedFile (enterWrite s)).content = (flushedFile s).content ∧
      (flushedFile (enterWrite s)).target = place s ∧
      ((s.prevOp = .write → Whole s) → Whole (enterWrite s)) := by
  have hfail : s.file.answer ≠ .fail := hf.succeeds.answer_ne
  by_cases hop : s.prevOp = .write
  · have henter : enterWrite s = { s with prevOp := .write } := by
      rw [enterWrite, if_neg (fun hn => hn hop), ← hop]
    have hsame : ({ s with prevOp := .write } : Stream) = s := by rw [← hop]
    refine ⟨s.file, s.start, s.end_, s.pos, henter, hf, rfl, ?_, ?_, ?_, ?_⟩
    · rw [base, if_neg (fun hn => hn.1 hop)]
    · rw [henter, hsame]
    · rw [henter, hsame, place, if_neg]
      intro hread
      rw [hop] at hread
      exact absurd hread.1 (fun hr => by contradiction)
    · intro hwhole
      rw [henter, hsame]
      exact hwhole hop
  · -- an empty window at the position from which the write counts
    have hempty : ∀ (f : OpenFile) (here : Nat), enterWrite s =
        { s with file := f, start := here, end_ := here, pos := here, prevOp := .write } →
        f.content = s.file.content → f.target = place s →
        (flushedFile (enterWrite s)).content = (flushedFile s).content ∧
          (flushedFile (enterWrite s)).target = place s ∧
          ((s.prevOp = .write → Whole s) → Whole (enterWrite s)) := by
      intro f here henter hcontent htarget
      rw [henter, flushedFile_of_empty (by rfl), flushedFile_of_ne hop]
      exact ⟨hcontent, htarget, fun _ => .inl rfl⟩
    by_cases happ : s.file.append = true
    · have henter : enterWrite s = { s with
          file := { s.file with offset := s.file.content.length }, start := s.file.content.length
          end_ := s.file.content.length, pos := s.file.content.length, prevOp := .write } := by
        rw [enterWrite, if_pos hop]
        simp only [if_pos happ, OpenFile.lseek_end hfail, hf.answered]
      refine ⟨_, _, _, _, henter, hf, rfl, ?_, hempty _ _ henter rfl ?_⟩
      · rw [base, if_pos ⟨hop, happ⟩]
      · rw [place, if_neg (fun hr => by rw [happ] at hr; exact absurd hr.2 (fun hb => by contradiction)),
          flushedFile_of_ne hop]
        show (if s.file.append then _ else _) = (if s.file.append then _ else _)
        rw [if_pos happ, if_pos happ]
    · have happ' : s.file.append = false := by simpa using happ
      have hbase : s.pos = base s := by rw [base, if_neg (fun hn => happ hn.2)]
      by_cases hread : s.prevOp = .read
      · have henter : enterWrite s = { s with
            file := { s.file with offset := s.pos }, start := s.pos, end_ := s.pos, pos := s.pos
            prevOp := .write } := by
          rw [enterWrite, if_pos hop]
          simp only [if_neg happ, if_pos hread, OpenFile.lseek_set hf.succeeds, hf.answered]
        refine ⟨_, _, _, _, henter, hf, rfl, hbase, hempty _ _ henter rfl ?_⟩
        rw [place, if_pos ⟨hread, happ'⟩]
        show (if s.file.append then _ else _) = s.pos
        rw [if_neg happ]
      · have henter : enterWrite s = { s with
            file := s.file, start := s.pos, end_ := s.pos, pos := s.pos, prevOp := .write } := by
          rw [enterWrite, if_pos hop]
          simp only [if_neg happ, if_neg hread]
        refine ⟨_, _, _, _, henter, hf, rfl, hbase, hempty _ _ henter rfl ?_⟩
        rw [place, if_neg (fun hr => hread hr.1), flushedFile_of_ne hop]

/-- What a write leaves besides what it writes. -/
structure WroteOn (s s' : Stream) : Prop where
  sound : Sound s'
  granted : s'.file.Granted
  append : s'.file.append = s.file.append
  whole : Whole s'
  heap : s'.heap = s.heap
  rdonly : s'.bufMode.rdonly = s.bufMode.rdonly
  wronly : s'.bufMode.wronly = s.bufMode.wronly
  memory : ¬ NoMemory s'

/-- **Writing.** A stream takes what is written, and it goes where the stream stands. -/
theorem commonFwrite_put (h : Sound s) (hw : Writable s) (hf : s.file.Granted) {b : Block}
    (hne : b.data ≠ []) :
    (commonFwrite s b).1 = b.count ∧ Writes s b.data (commonFwrite s b).2 ∧
      WroteOn s (commonFwrite s b).2 := by
  obtain ⟨f, start, e, pos, henter, hgranted, happend, hpos, hcontent, htarget, hwhole⟩ :=
    enterWrite_put hf
  have hseek : ¬ SeekFails s := fun hfails => hf.succeeds.answer_ne hfails.2.2
  have hsound := (enterWrite_sound h hw.access hseek).1
  have hwhole := hwhole hw.whole
  rw [henter] at hsound hcontent htarget hwhole
  -- the buffer, which the allocation may have to provide
  obtain ⟨buf, alloc, halloc, hsound₁, hb₁, hsame⟩ := allocateBuffer_ready hsound hw.memory
  have hcall : commonFwrite s b = fwriteBuffered { s with
      file := f, start := start, end_ := e, pos := pos, prevOp := .write, buffer := buf
      bufMode := { s.bufMode with allocated := alloc } } b := by
    rw [commonFwrite, if_neg hw.no_error, if_neg (by simp [hw.access]), if_neg (by simp [h.buffered]),
      henter, halloc]
  obtain ⟨f', buf', start', e', hwrite, hgranted', hfull, hput⟩ :=
    fwriteBuffered_put hsound₁ hb₁ rfl hgranted hwhole b
  have hsound₂ := fwriteBuffered_sound hsound₁ hb₁ rfl b
  have hflush : flushedFile { s with
      file := f, start := start, end_ := e, pos := pos, prevOp := .write, buffer := buf
      bufMode := { s.bufMode with allocated := alloc } } =
      flushedFile { s with file := f, start := start, end_ := e, pos := pos, prevOp := .write } := by
    rcases hsame with rfl | hempty
    · rfl
    · have hstart := hsound.start_le
      have hpos_le := hsound.pos_le
      have heq : start = pos := by
        dsimp only at hempty hstart hpos_le
        omega
      rw [flushedFile_of_empty (by exact heq), flushedFile_of_empty (by exact heq)]
  rw [hflush] at hput
  rw [hcall]
  rw [hwrite] at hput hsound₂ ⊢
  refine ⟨rfl, ⟨?_, ?_, ?_, ?_, rfl, rfl⟩, ⟨hsound₂, hgranted', ?_, .inr hfull, rfl, rfl, rfl, ?_⟩⟩
  · rw [hput, OpenFile.put_content hne, hcontent, htarget]
  · rw [hput, OpenFile.target_put hne, htarget]
  · rw [hput, OpenFile.offset_put hne, htarget]
  · rw [← hpos]
  · have hmode := flushedFile_append hsound₂ hgranted'
    rw [hput, OpenFile.put_append_mode, flushedFile_append hsound hgranted] at hmode
    exact hmode.symm.trans happend
  · rintro ⟨hint, hall, -⟩
    exact hb₁.not_lazy ⟨hint, hall⟩

end WindowsLibc.Stdio
