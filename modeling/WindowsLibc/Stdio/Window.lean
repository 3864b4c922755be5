import WindowsLibc.Lib.Machine
import WindowsLibc.Stdio.Transfer

/-!
# The window of a stream, whatever the kernel answers

Every call moves `start`, `pos` and `end`, and trusts that `start <= pos <= end <= start + buf_size`.
Here any system call may fail, and the heap may be exhausted.

* `Sound` is the invariant: the window is in order, and it is empty where there is no buffer.
* Each function has a lemma that says that it keeps the stream sound. Two calls do so only under a
  condition on the state before (`CallSafe`). `common_fread` does not look at the result of the flush
  with which it leaves write mode, and sets `end = start` while `pos` is still ahead. `common_fwrite`
  takes the result of `lseek` for a position.
* `window_safe_iff` is about whole runs. A call that is not safe ends in a fault, and faults stay.
-/

namespace WindowsLibc.Stdio

open WindowsLibc.Lib

/-! ## The invariant -/

/-- A buffered stream in working order. -/
structure Sound (s : Stream) : Prop extends Window s where
  no_fault : s.fault = false
  buffered : s.bufMode.nbf = false
  one_le_bufSize : 1 ≤ s.bufSize
  storage : Backed s ∨ (s.bufMode.internal = true ∧ s.bufMode.allocated = false ∧ s.start = s.end_)
  idle : s.prevOp = .nothing → s.start = s.end_
  writable : s.prevOp = .write → s.bufMode.rdonly = false
  readable : s.prevOp = .read → s.bufMode.wronly = false

variable {s : Stream}

theorem Sound.stored (h : Sound s) : Stored s := by
  rcases h.storage with hb | ⟨hint, hall, -⟩
  · exact Or.inl hb
  · exact Or.inr ⟨hint, hall⟩

/-- Where something is buffered there is a buffer. -/
theorem Sound.backed (h : Sound s) (hne : s.start ≠ s.end_) : Backed s := by
  rcases h.storage with hb | ⟨-, -, heq⟩
  · exact hb
  · exact absurd heq hne

/-- A move of the window. Without a buffer it has to stay empty. -/
theorem Sound.update (h : Sound s) {f : OpenFile} {e : StreamError} {d : List Byte} {a b c : Nat}
    {o : PrevOp} (hlen : d.length = s.buffer.length) (hac : a ≤ c) (hcb : c ≤ b)
    (hfits : b ≤ a + s.bufSize) (hempty : ¬ Backed s → a = b) (hidle : o = .nothing → a = b)
    (hwritable : o = .write → s.bufMode.rdonly = false)
    (hreadable : o = .read → s.bufMode.wronly = false) :
    Sound { s with
      file := f, error := e, buffer := d, start := a, end_ := b, pos := c, prevOp := o } where
  start_le := hac
  pos_le := hcb
  fits := hfits
  no_fault := h.no_fault
  buffered := h.buffered
  one_le_bufSize := h.one_le_bufSize
  storage := by
    by_cases hb : Backed s
    · exact Or.inl (hb.update (hlen.trans hb.length_buffer))
    · rcases h.storage with hb' | ⟨hint, hall, -⟩
      · exact absurd hb' hb
      · exact Or.inr ⟨hint, hall, hempty hb⟩
  idle := hidle
  writable := hwritable
  readable := hreadable

/-- The window is left empty. -/
theorem Sound.reset (h : Sound s) (f : OpenFile) (e : StreamError) (here : Nat) :
    Sound { s with file := f, error := e, start := here, end_ := here, pos := here } :=
  h.update rfl (Nat.le_refl _) (Nat.le_refl _) (Nat.le_add_right _ _) (fun _ => rfl) (fun _ => rfl)
    h.writable h.readable

/-- Only the file and the error flag change. -/
theorem Sound.answered (h : Sound s) (f : OpenFile) (e : StreamError) :
    Sound { s with file := f, error := e } :=
  h.update rfl h.start_le h.pos_le h.fits
    (fun hb => by_contra fun hne => hb (h.backed hne)) h.idle h.writable h.readable

/-- What is loaded from the window, or stored there, is in the buffer. -/
theorem Sound.touch_eq (h : Sound s) {off n : Nat} (hn : off + n ≤ s.end_ - s.start) :
    off + n ≤ s.buffer.length := by
  have hfits := h.fits
  by_cases hne : s.start = s.end_
  · omega
  · rw [(h.backed hne).length_buffer]
    omega

/-- A stream that has not been used. -/
theorem Sound.of_unused (hstored : Stored s) (hbuffered : s.bufMode.nbf = false) (hsize : 1 ≤ s.bufSize)
    (hfault : s.fault = false) (hstart : s.start = s.end_) (hpos : s.pos = s.end_) (hop : s.prevOp = .nothing) :
    Sound s where
  start_le := Nat.le_of_eq (hstart.trans hpos.symm)
  pos_le := Nat.le_of_eq hpos
  fits := by
    rw [hstart]
    exact Nat.le_add_right _ _
  no_fault := hfault
  buffered := hbuffered
  one_le_bufSize := hsize
  storage := by
    rcases hstored with hb | ⟨hint, hall⟩
    · exact Or.inl hb
    · exact Or.inr ⟨hint, hall, hstart⟩
  idle := fun _ => hstart
  writable := fun hwrite => by
    rw [hop] at hwrite
    contradiction
  readable := fun hread => by
    rw [hop] at hread
    contradiction

/-! ## Flushing and allocating -/

/-- A flush with nothing to write. -/
theorem commonFflush_idle (h : Sound s) (hidle : s.prevOp = .write → s.start = s.pos) :
    (commonFflush s).2 = s := by
  rw [commonFflush, if_neg (by simp [h.buffered])]
  split
  · rfl
  split
  · rfl
  split
  · next hread hne =>
    have hstart := h.start_le
    have hpos := h.pos_le
    cases hop : s.prevOp with
    | write => exact absurd (hidle hop) hne
    | read => exact absurd hop hread
    | nothing =>
      have hidle := h.idle hop
      omega
  · rfl

/-- A flush of written bytes: they go out, or the stream has an error. -/
theorem commonFflush_pending (h : Sound s) (hop : s.prevOp = .write) (hne : s.start ≠ s.pos) :
    commonFflush s =
      if s.file.answer = .fail then (false, { s with file := s.file.answered, error := .error })
      else (true, { s with
        file := (s.file.write (s.load 0 (s.pos - s.start))).2, start := s.pos }) := by
  have hstart := h.start_le
  have hpos := h.pos_le
  have htouch : 0 + (s.pos - s.start) ≤ s.buffer.length := h.touch_eq (by omega)
  rw [commonFflush, if_neg (by simp [h.buffered]), if_neg (by simp [h.writable hop]),
    if_neg (by simp [hop]), if_pos hne]
  simp only [decide_eq_true hstart, Stream.check_true, sub64_of_le hstart,
    Stream.touch_of_le htouch]
  by_cases hfail : s.file.answer = .fail
  · simp only [OpenFile.write, if_pos hfail]
  · simp only [OpenFile.write, if_neg hfail]

theorem commonFflush_sound (h : Sound s) : Sound (commonFflush s).2 := by
  by_cases hidle : s.prevOp = .write → s.start = s.pos
  · rw [commonFflush_idle h hidle]
    exact h
  · obtain ⟨hop, hne⟩ := Classical.not_imp.mp hidle
    have hstart := h.start_le
    have hpos := h.pos_le
    have hfits := h.fits
    have hb := h.backed (by omega)
    rw [commonFflush_pending h hop hne]
    split
    · exact h.answered _ _
    · exact h.update rfl (Nat.le_refl _) hpos (by omega) (fun hn => absurd hb hn)
        (fun hnothing => by rw [hop] at hnothing; contradiction) h.writable h.readable

/-- Allocated or not, the stream stays sound, and only its storage changes. -/
theorem allocateBuffer_sound (h : Sound s) :
    ∃ granted buf m, allocateBuffer s = (granted, { s with buffer := buf, bufMode := m }) ∧
      Sound { s with buffer := buf, bufMode := m } ∧
      (granted = true → Backed { s with buffer := buf, bufMode := m }) := by
  rcases h.storage with hb | ⟨hint, hall, heq⟩
  · exact ⟨true, s.buffer, s.bufMode, allocateBuffer_of_backed hb, h, fun _ => hb⟩
  · have hlazy : (s.bufMode.internal && !s.bufMode.allocated) = true := by rw [hint, hall]; rfl
    rw [allocateBuffer, if_pos hlazy]
    split
    · refine ⟨false, [], s.bufMode, rfl, ?_, fun hfalse => by contradiction⟩
      exact ⟨⟨h.start_le, h.pos_le, h.fits⟩, h.no_fault, h.buffered, h.one_le_bufSize,
        Or.inr ⟨hint, hall, heq⟩, h.idle, h.writable, h.readable⟩
    · next g hg =>
      have hb : Backed { s with
          buffer := (List.range s.bufSize).map g
          bufMode := { s.bufMode with allocated := true } } :=
        ⟨by simp, Or.inl rfl, by simp⟩
      refine ⟨true, _, _, rfl, ?_, fun _ => hb⟩
      exact ⟨⟨h.start_le, h.pos_le, h.fits⟩, h.no_fault, h.buffered, h.one_le_bufSize, Or.inl hb,
        h.idle, h.writable, h.readable⟩

/-! ## Reading -/

/-- `read_wrapper` in one equation. -/
theorem readWrapper_eq (s : Stream) (n : Nat) :
    readWrapper s n =
      if s.file.answer = .fail then ([], { s with file := s.file.answered, error := .error })
      else (s.file.transfer n, { s with
        file := { s.file.answered with offset := s.file.offset + (s.file.transfer n).length }
        error := if s.file.transfer n = [] then .eof else s.error }) := by
  by_cases hfail : s.file.answer = .fail
  · simp only [readWrapper, OpenFile.read, if_pos hfail]
  · cases hbytes : s.file.transfer n with
    | nil => simp only [readWrapper, OpenFile.read, if_neg hfail, hbytes, if_true]
    | cons b bytes =>
      simp only [readWrapper, OpenFile.read, if_neg hfail, hbytes, List.cons_ne_nil, if_false]

theorem OpenFile.length_transfer_le (f : OpenFile) (n : Nat) : (f.transfer n).length ≤ n := by
  rw [OpenFile.transfer]
  split
  · rw [List.length_take]
    omega
  · rw [List.length_take]
    omega

/-- What reading leaves alone. If the kernel does not fail, only the end of the file is reported. -/
structure ReadsOn (s s' : Stream) : Prop where
  content : s'.file.content = s.file.content
  append : s'.file.append = s.file.append
  prevOp : s'.prevOp = s.prevOp
  bufMode : s'.bufMode = s.bufMode
  heap : s'.heap = s.heap
  succeeds : s.file.Succeeds → s'.file.Succeeds ∧ (s'.error = s.error ∨ s'.error = .eof)

theorem ReadsOn.refl (s : Stream) : ReadsOn s s :=
  ⟨rfl, rfl, rfl, rfl, rfl, fun hs => ⟨hs, Or.inl rfl⟩⟩

theorem ReadsOn.trans {s₁ s₂ s₃ : Stream} (h₁ : ReadsOn s₁ s₂) (h₂ : ReadsOn s₂ s₃) :
    ReadsOn s₁ s₃ where
  content := h₂.content.trans h₁.content
  append := h₂.append.trans h₁.append
  prevOp := h₂.prevOp.trans h₁.prevOp
  bufMode := h₂.bufMode.trans h₁.bufMode
  heap := h₂.heap.trans h₁.heap
  succeeds hs := by
    obtain ⟨hs₂, he₂⟩ := h₁.succeeds hs
    obtain ⟨hs₃, he₃⟩ := h₂.succeeds hs₂
    refine ⟨hs₃, ?_⟩
    rcases he₃ with he₃ | he₃
    · rwa [he₃]
    · exact Or.inr he₃

/-- The window and the buffer do not matter. -/
theorem ReadsOn.move {s s' : Stream} (h : ReadsOn s s') {d : List Byte} {a b c : Nat} :
    ReadsOn s { s' with buffer := d, start := a, end_ := b, pos := c } :=
  ⟨h.content, h.append, h.prevOp, h.bufMode, h.heap, h.succeeds⟩

theorem readWrapper_answer (s : Stream) (n : Nat) :
    ∃ bytes f e, readWrapper s n = (bytes, { s with file := f, error := e }) ∧
      bytes.length ≤ n ∧ ReadsOn s { s with file := f, error := e } := by
  rw [readWrapper_eq]
  split
  · next hfail =>
    refine ⟨[], s.file.answered, .error, rfl, Nat.zero_le n, rfl, rfl, rfl, rfl, rfl, ?_⟩
    intro hs
    exact absurd hfail hs.answer_ne
  · refine ⟨s.file.transfer n, _, _, rfl, s.file.length_transfer_le n, rfl, rfl, rfl, rfl, rfl, ?_⟩
    intro hs
    refine ⟨hs.answered, ?_⟩
    show (if s.file.transfer n = [] then StreamError.eof else s.error) = s.error ∨ _
    split
    · exact Or.inr rfl
    · exact Or.inl rfl

/-- The direct loop ends. -/
theorem freadDirect_ends (dataSize : Nat) :
    ∀ (fuel : Nat) (got : List Byte) (s : Stream), 1 ≤ s.bufSize → got.length ≤ dataSize →
      dataSize < got.length + fuel →
      ∃ got' more f e, freadDirect dataSize fuel got s =
          (got', more, { s with file := f, error := e }) ∧
        ReadsOn s { s with file := f, error := e } := by
  intro fuel
  induction fuel with
  | zero =>
    intro got s _ hgot hfuel
    omega
  | succ fuel ih =>
    intro got s hB hgot hfuel
    rw [freadDirect]
    by_cases hloop : got.length + s.bufSize < dataSize
    · obtain ⟨bytes, f, e, hread, hlen, hon⟩ := readWrapper_answer s s.bufSize
      rw [if_pos hloop, hread]
      cases bytes with
      | nil => exact ⟨got, false, f, e, rfl, hon⟩
      | cons b bytes =>
        have happend : (got ++ b :: bytes).length = got.length + (b :: bytes).length :=
          List.length_append
        have hpos : 0 < (b :: bytes).length := Nat.succ_pos _
        obtain ⟨got', more, f', e', hrest, hon'⟩ :=
          ih (got ++ b :: bytes) { s with file := f, error := e } hB (by omega) (by omega)
        exact ⟨got', more, f', e', hrest, hon.trans hon'⟩
    · rw [if_neg hloop]
      exact ⟨got, true, s.file, s.error, rfl, .refl s⟩

/-- The last loop ends, and stays in the buffer. -/
theorem freadFill_ends (need : Nat) :
    ∀ (fuel last : Nat) (s : Stream), s.buffer.length = s.bufSize → last ≤ s.bufSize →
      s.bufSize < last + fuel →
      ∃ last' f e buf, freadFill need fuel last s =
          (last', { s with file := f, error := e, buffer := buf }) ∧
        buf.length = s.bufSize ∧ last' ≤ s.bufSize ∧
        ReadsOn s { s with file := f, error := e, buffer := buf } := by
  intro fuel
  induction fuel with
  | zero =>
    intro last s _ hlast hfuel
    omega
  | succ fuel ih =>
    intro last s hbuf hlast hfuel
    rw [freadFill]
    by_cases hloop : last < s.bufSize ∧ last < need
    · obtain ⟨bytes, f, e, hread, hlen, hon⟩ := readWrapper_answer s (s.bufSize - last)
      rw [if_pos hloop, hread]
      cases bytes with
      | nil => exact ⟨last, f, e, s.buffer, rfl, hbuf, hlast, hon⟩
      | cons b bytes =>
        have hpos : 0 < (b :: bytes).length := Nat.succ_pos _
        have hin : last + (b :: bytes).length ≤ s.buffer.length := by omega
        have hlen' : (overwrite s.buffer last (b :: bytes)).length = s.bufSize := by
          rw [length_overwrite]
          omega
        dsimp only
        rw [Stream.store_of_le (by exact hin)]
        obtain ⟨last', f', e', buf', hrest, hbuf', hlast', hon'⟩ := ih (last + (b :: bytes).length)
          { s with file := f, error := e, buffer := overwrite s.buffer last (b :: bytes) } hlen'
          (by show _ ≤ s.bufSize; omega) (by show s.bufSize < _; omega)
        exact ⟨last', f', e', buf', hrest, hbuf', hlast', hon.move.trans hon'⟩
    · rw [if_neg hloop]
      exact ⟨last, s.file, s.error, s.buffer, rfl, hbuf, hlast, .refl s⟩

theorem freadLast_sound (h : Sound s) (hb : Backed s) (hop : s.prevOp = .read) (size dataSize : Nat) (got : List Byte) :
    Sound (freadLast s size dataSize got).2 ∧ ReadsOn s (freadLast s size dataSize got).2 := by
  obtain ⟨last, f, e, buf, hfill, hbuf, hlast, hon⟩ :=
    freadFill_ends (dataSize - got.length) (s.bufSize + 1) 0 s hb.length_buffer (Nat.zero_le _)
      (by omega)
  rw [freadLast, hfill]
  cases last with
  | zero =>
    refine ⟨?_, hon⟩
    exact h.update (hbuf.trans hb.length_buffer.symm) h.start_le h.pos_le h.fits
      (fun hn => absurd hb hn) h.idle h.writable h.readable
  | succ last =>
    simp only
    rw [Stream.touch_of_le (by simp only; omega)]
    refine ⟨?_, hon.move⟩
    exact h.update (hbuf.trans hb.length_buffer.symm) (Nat.le_add_right _ _) (by omega)
      (by omega) (fun hn => absurd hb hn)
      (fun hnothing => by rw [hop] at hnothing; contradiction) h.writable h.readable

theorem freadBuffered_sound (h : Sound s) (hb : Backed s) (hop : s.prevOp = .read)
    (size count : Nat) :
    Sound (freadBuffered s size count).2 ∧ ReadsOn s (freadBuffered s size count).2 := by
  have hstart := h.start_le
  have hpos := h.pos_le
  have hfits := h.fits
  simp only [freadBuffered, Stream.checkWindow_of_le hstart hpos, sub64_of_le hstart,
    sub64_of_le hpos]
  split
  · next hfit =>
    rw [Stream.touch_of_le (h.touch_eq (by omega))]
    refine ⟨?_, (ReadsOn.refl s).move⟩
    exact h.update rfl (by omega) (by omega) hfits (fun hn => absurd hb hn)
      (fun hnothing => by rw [hop] at hnothing; contradiction) h.writable h.readable
  · next hfit =>
    -- what is left of the window is handed out first
    have htouch : (if s.pos < s.end_ then s.touch (s.pos - s.start) (s.end_ - s.pos) else s) = s := by
      split
      · exact Stream.touch_of_le (h.touch_eq (by omega))
      · rfl
    have hhead : (if s.pos < s.end_ then s.load (s.pos - s.start) (s.end_ - s.pos) else []).length ≤
        s.end_ - s.pos := by
      split
      · rw [Stream.load, List.length_take]
        omega
      · exact Nat.zero_le _
    rw [htouch]
    obtain ⟨got, more, f, e, hdirect, hon⟩ := freadDirect_ends (size * count) (size * count + 1)
      (if s.pos < s.end_ then s.load (s.pos - s.start) (s.end_ - s.pos) else []) s
      h.one_le_bufSize (by omega) (by omega)
    rw [hdirect]
    have hreset := h.reset f e (s.pos + got.length)
    dsimp only
    split
    · obtain ⟨hsound, hlast⟩ := freadLast_sound hreset (hb.update hb.length_buffer) hop size
        (size * count) got
      exact ⟨hsound, hon.move.trans hlast⟩
    · exact ⟨hreset, hon.move⟩

/-- Leaving write mode with bytes that cannot be written. -/
def FlushFails (s : Stream) : Prop :=
  s.prevOp = .write ∧ s.start ≠ s.pos ∧ s.file.answer = .fail

theorem enterRead_sound (h : Sound s) (hwr : s.bufMode.wronly = false) (hflush : ¬ FlushFails s) :
    Sound (enterRead s) ∧ (enterRead s).prevOp = .read := by
  rw [enterRead]
  split
  · next hop =>
    refine ⟨?_, rfl⟩
    have hflushed := commonFflush_sound h
    have hempty : (commonFflush s).2.pos = (commonFflush s).2.start ∧
        (commonFflush s).2.bufMode = s.bufMode := by
      by_cases heq : s.start = s.pos
      · rw [commonFflush_idle h (fun _ => heq)]
        exact ⟨heq.symm, rfl⟩
      · rw [commonFflush_pending h hop heq, if_neg (fun hfail => hflush ⟨hop, heq, hfail⟩)]
        exact ⟨rfl, rfl⟩
    exact hflushed.update rfl hflushed.start_le (Nat.le_of_eq hempty.1) (Nat.le_add_right _ _)
      (fun _ => rfl) (fun _ => rfl) (fun hop => by contradiction) (fun _ => by rw [hempty.2, hwr])
  · refine ⟨?_, rfl⟩
    exact h.update rfl h.start_le h.pos_le h.fits
      (fun hb => by_contra fun hne => hb (h.backed hne)) (fun hop => by contradiction)
      (fun hop => by contradiction) (fun _ => hwr)

theorem commonFread_sound (h : Sound s) (size count : Nat)
    (hflush : s.error = .clear → s.bufMode.wronly = false → ¬ FlushFails s) :
    Sound (commonFread s size count).2 := by
  rw [commonFread]
  split
  · exact h
  next herror =>
  split
  · exact h.answered _ _
  next hwr =>
  rw [if_neg (by simp [h.buffered])]
  have hclear : s.error = .clear := by
    cases he : s.error with
    | clear => rfl
    | eof => exact absurd (Or.inl he) herror
    | error => exact absurd (Or.inr he) herror
  have hwr' : s.bufMode.wronly = false := by simpa using hwr
  obtain ⟨hread, hop⟩ := enterRead_sound h hwr' (hflush hclear hwr')
  obtain ⟨granted, buf, m, halloc, hsound, hbacked⟩ := allocateBuffer_sound hread
  rw [halloc]
  cases granted with
  | false => exact hsound
  | true => exact (freadBuffered_sound hsound (hbacked rfl) hop size count).1

/-! ## Writing -/

theorem OpenFile.write_eq (f : OpenFile) (bytes : List Byte) :
    f.write bytes =
      if f.answer = .fail then (none, f.answered)
      else (some bytes.length, (f.write bytes).2) := by
  rw [OpenFile.write]
  split
  · rfl
  · rfl

/-- The direct loop ends. -/
theorem fwriteDirect_ends (data : List Byte) :
    ∀ (fuel written : Nat) (s : Stream), 1 ≤ s.bufSize → written ≤ data.length →
      data.length < written + fuel →
      ∃ written' more f, fwriteDirect data fuel written s = (written', more, { s with file := f }) ∧
        written' ≤ data.length ∧ (more = true → data.length ≤ written' + s.bufSize) := by
  intro fuel
  induction fuel with
  | zero =>
    intro written s _ hwritten hfuel
    omega
  | succ fuel ih =>
    intro written s hB hwritten hfuel
    rw [fwriteDirect]
    by_cases hloop : written + s.bufSize < data.length
    · rw [if_pos hloop, OpenFile.write_eq]
      by_cases hfail : s.file.answer = .fail
      · rw [if_pos hfail]
        exact ⟨written, false, _, rfl, hwritten, fun hmore => by contradiction⟩
      · have hlen : ((data.drop written).take s.bufSize).length = s.bufSize := by
          rw [List.length_take, List.length_drop]
          omega
        rw [if_neg hfail]
        exact ih _ _ hB (by rw [hlen]; omega) (by rw [hlen]; omega)
    · rw [if_neg hloop]
      exact ⟨written, true, s.file, rfl, hwritten, fun _ => by omega⟩

/-- A buffer that is not empty is topped up, or the stream has an error. -/
theorem fwriteTopUp_sound (h : Sound s) (hb : Backed s) {data : List Byte}
    (hlong : s.end_ - s.pos < data.length) :
    ∃ topped f e buf, fwriteTopUp s data = (topped, { s with file := f, error := e, buffer := buf }) ∧
      buf.length = s.bufSize ∧ ∀ n, topped = some n → n ≤ data.length := by
  have hstart := h.start_le
  have hpos := h.pos_le
  have hfits := h.fits
  have hlen := hb.length_buffer
  simp only [fwriteTopUp, sub64_of_le hpos, sub64_of_le hstart]
  split
  · have hroom : (data.take (s.end_ - s.pos)).length = s.end_ - s.pos := by
      rw [List.length_take]
      omega
    have hbuf : (overwrite s.buffer (s.pos - s.start) (data.take (s.end_ - s.pos))).length =
        s.bufSize := by
      rw [length_overwrite, hroom]
      omega
    rw [Stream.store_of_le (by omega), Stream.touch_of_le (by simp only; omega),
      OpenFile.write_eq]
    by_cases hfail : s.file.answer = .fail
    · simp only [if_pos hfail]
      exact ⟨none, _, _, _, rfl, hbuf, fun n hn => by contradiction⟩
    · simp only [if_neg hfail]
      refine ⟨_, _, _, _, rfl, hbuf, fun n hn => ?_⟩
      obtain rfl := Option.some.inj hn
      exact Nat.le_of_lt hlong
  · exact ⟨some 0, s.file, s.error, s.buffer, rfl, hlen, fun n hn => by
      obtain rfl := Option.some.inj hn
      exact Nat.zero_le _⟩

theorem fwriteOverflow_sound (h : Sound s) (hb : Backed s) (hop : s.prevOp = .write) {b : Block}
    (hlong : s.end_ - s.pos < b.data.length) : Sound (fwriteOverflow s b).2 := by
  obtain ⟨topped, f, e, buf, htop, hbuf, hle⟩ := fwriteTopUp_sound h hb hlong
  have hlen := hbuf.trans hb.length_buffer.symm
  rw [fwriteOverflow, htop]
  cases topped with
  | none =>
    exact h.update hlen h.start_le h.pos_le h.fits (fun hn => absurd hb hn) h.idle h.writable
      h.readable
  | some n =>
    have hn := hle n rfl
    obtain ⟨written, more, f', hdirect, hwritten, hmore⟩ :=
      fwriteDirect_ends b.data (b.data.length + f.script.length + 1) n
        { s with file := f, error := e, buffer := buf } h.one_le_bufSize hn (by omega)
    simp only [hdirect]
    have hrest : (b.data.drop written).length = b.data.length - written := List.length_drop
    split
    · next hm =>
      have hmore := hmore hm
      simp only at hmore
      rw [Stream.store_of_le (by simp only; omega)]
      refine h.update ?_ (Nat.le_add_right _ _) (by omega) (Nat.le_refl _)
        (fun hn => absurd hb hn) (fun hnothing => by rw [hop] at hnothing; contradiction)
        h.writable h.readable
      simp only [length_overwrite]
      have hlen' := hb.length_buffer
      omega
    · exact h.update hlen (Nat.le_refl _) (Nat.le_refl _) (Nat.le_add_right _ _)
        (fun _ => rfl) (fun _ => rfl) h.writable h.readable

theorem fwriteBuffered_sound (h : Sound s) (hb : Backed s) (hop : s.prevOp = .write) (b : Block) :
    Sound (fwriteBuffered s b).2 := by
  have hne : PrevOp.write = .nothing → False := fun hnothing => by contradiction
  have hopen : Sound (openWindow s) ∧ (openWindow s).prevOp = .write ∧ Backed (openWindow s) := by
    rw [openWindow]
    split
    · exact ⟨h.update rfl (Nat.le_refl _) (Nat.le_add_right _ _) (Nat.le_refl _)
        (fun hn => absurd hb hn) (fun hnothing => (hne (hop ▸ hnothing)).elim) h.writable
        h.readable, hop, hb.update hb.length_buffer⟩
    · exact ⟨h, hop, hb⟩
  obtain ⟨hsound, hop', hb'⟩ := hopen
  have hstart := hsound.start_le
  have hpos := hsound.pos_le
  simp only [fwriteBuffered, Stream.checkWindow_of_le hstart hpos, sub64_of_le hstart,
    sub64_of_le hpos]
  split
  · next hfit =>
    have hin : (openWindow s).pos - (openWindow s).start + b.data.length ≤
        (openWindow s).buffer.length := hsound.touch_eq (by omega)
    rw [Stream.store_of_le hin]
    refine hsound.update ?_ (by simp only; omega) (by simp only; omega) hsound.fits
      (fun hn => absurd hb' hn)
      (fun hnothing => (hne (hop' ▸ hnothing)).elim) hsound.writable hsound.readable
    rw [length_overwrite]
    omega
  · next hfit => exact fwriteOverflow_sound hsound hb' hop' (by omega)

/-- Starting to append at a position that cannot be found. -/
def SeekFails (s : Stream) : Prop :=
  s.prevOp ≠ .write ∧ s.file.append = true ∧ s.file.answer = .fail

theorem enterWrite_sound (h : Sound s) (hrd : s.bufMode.rdonly = false) (hseek : ¬ SeekFails s) :
    Sound (enterWrite s) ∧ (enterWrite s).prevOp = .write := by
  have hreset : ∀ (f : OpenFile) (here : Nat), Sound { s with
      file := f, start := here, end_ := here, pos := here, prevOp := .write } := fun f here =>
    h.update rfl (Nat.le_refl _) (Nat.le_refl _) (Nat.le_add_right _ _) (fun _ => rfl)
      (fun _ => rfl) (fun _ => hrd) (fun hop => by contradiction)
  rw [enterWrite]
  split
  · next hop =>
    refine ⟨?_, rfl⟩
    by_cases happ : s.file.append = true
    · have hfail : s.file.answer ≠ .fail := fun hfail => hseek ⟨hop, happ, hfail⟩
      simp only [if_pos happ, OpenFile.lseek_end hfail]
      exact hreset _ _
    · simp only [if_neg happ]
      split
      · exact hreset _ _
      · exact hreset _ _
  · next hop => exact ⟨h, Decidable.not_not.mp hop⟩

theorem commonFwrite_sound (h : Sound s) (b : Block)
    (hseek : s.error ≠ .error → s.bufMode.rdonly = false → ¬ SeekFails s) :
    Sound (commonFwrite s b).2 := by
  rw [commonFwrite]
  split
  · exact h
  next herror =>
  split
  · exact h.answered _ _
  next hrd =>
  rw [if_neg (by simp [h.buffered])]
  have hrd' : s.bufMode.rdonly = false := by simpa using hrd
  obtain ⟨hwrite, hop⟩ := enterWrite_sound h hrd' (hseek herror hrd')
  obtain ⟨granted, buf, m, halloc, hsound, hbacked⟩ := allocateBuffer_sound hwrite
  rw [halloc]
  cases granted with
  | false => exact hsound
  | true => exact fwriteBuffered_sound hsound (hbacked rfl) hop b

/-! ## Single bytes and seeking -/

/-- Without room in a window that is being written, `common_fputc` is a write of one byte. -/
theorem commonFputc_slow {ch : Byte}
    (hslow : ¬ (s.bufMode.nbf = false ∧ s.prevOp = .write ∧ s.start ≠ s.end_ ∧ s.pos ≠ s.end_)) :
    commonFputc s ch =
      (if (commonFwrite s (Block.single ch)).1 = 1 then some ch else none,
        (commonFwrite s (Block.single ch)).2) := by
  rw [commonFputc, if_neg hslow]
  split
  · next heq => rw [heq, if_pos rfl]
  · next hne heq =>
    rw [heq, if_neg]
    rintro rfl
    exact hne rfl

theorem commonFputc_sound (h : Sound s) (ch : Byte)
    (hseek : s.error ≠ .error → s.bufMode.rdonly = false → ¬ SeekFails s) :
    Sound (commonFputc s ch).2 := by
  have hstart := h.start_le
  have hpos := h.pos_le
  by_cases hfast : s.bufMode.nbf = false ∧ s.prevOp = .write ∧ s.start ≠ s.end_ ∧ s.pos ≠ s.end_
  · have hb := h.backed hfast.2.2.1
    have hfits := h.fits
    have hlen := hb.length_buffer
    rw [commonFputc_fast hb h.toWindow ch hfast]
    obtain ⟨-, hop, -, hroom⟩ := hfast
    refine h.update ?_ (by omega) (by omega) hfits (fun hn => absurd hb hn)
      (fun hnothing => by rw [hop] at hnothing; contradiction) h.writable h.readable
    rw [length_overwrite, List.length_singleton]
    omega
  · rw [commonFputc_slow hfast]
    exact commonFwrite_sound h (Block.single ch) hseek

theorem commonFgetc_sound (h : Sound s) (ch : Byte)
    (hflush : s.error = .clear → s.bufMode.wronly = false → ¬ FlushFails s) :
    Sound (commonFgetc ch s).2 := by
  have hstart := h.start_le
  have hpos := h.pos_le
  rw [commonFgetc]
  split
  · next hfast =>
    obtain ⟨-, hop, hne, hroom⟩ := hfast
    have hb := h.backed hne
    simp only [decide_eq_true hstart, Stream.check_true, sub64_of_le hstart]
    rw [Stream.touch_of_le (h.touch_eq (by omega))]
    exact h.update rfl (by omega) (by omega) h.fits (fun hn => absurd hb hn)
      (fun hnothing => by rw [hop] at hnothing; contradiction) h.writable h.readable
  · exact commonFread_sound h 1 1 hflush

theorem commonUngetc_sound (h : Sound s) (ch : Byte) : Sound (commonUngetc s ch).2 := by
  have hpos := h.pos_le
  rw [commonUngetc]
  split
  · next hback =>
    obtain ⟨hop, hlt⟩ := hback
    have hb := h.backed (by omega)
    have hin : s.pos - 1 - s.start + [ch].length ≤ s.buffer.length :=
      h.touch_eq (by rw [List.length_singleton]; omega)
    rw [sub64_of_le (by omega), Stream.store_of_le hin]
    rw [List.length_singleton] at hin
    refine h.update ?_ (by simp only; omega) (by simp only; omega) h.fits
      (fun hn => absurd hb hn) (fun hnothing => by rw [hop] at hnothing; contradiction) h.writable
      h.readable
    rw [length_overwrite, List.length_singleton]
    omega
  · exact h

theorem seekFile_sound (h : Sound s) (offset : Int) (whence : Whence) :
    Sound (seekFile s offset whence).2 := by
  rw [seekFile]
  split
  · exact h.answered _ _
  · exact h.reset _ _ _

theorem commonFseek_sound (h : Sound s) (offset : Int) (whence : Whence) :
    Sound (commonFseek s offset whence).2 := by
  have hflushed : Sound (if s.prevOp = .write then (commonFflush s).2 else s) := by
    split
    · exact commonFflush_sound h
    · exact h
  rw [commonFseek]
  generalize (if s.prevOp = .write then (commonFflush s).2 else s) = s' at hflushed ⊢
  split
  · next hnear =>
    obtain ⟨-, hop, hge, hle, hne⟩ := hnear
    exact hflushed.update rfl hge hle hflushed.fits (fun hn => absurd (hflushed.backed hne) hn)
      (fun hnothing => by rw [hop] at hnothing; contradiction) hflushed.writable hflushed.readable
  · exact seekFile_sound hflushed offset whence

/-! ## Faults stay -/

theorem fault_check (hf : s.fault = true) (ok : Bool) : (s.check ok).fault = true := by
  rw [Stream.check, hf]
  rfl

theorem fault_commonFflush (hf : s.fault = true) : (commonFflush s).2.fault = true := by
  have htouch : ∀ n, ((s.check (s.start ≤ s.pos)).touch 0 n).fault = true := fun n =>
    fault_check (fault_check hf _) _
  rw [commonFflush]
  split
  · exact hf
  split
  · exact hf
  split
  · exact hf
  split
  · dsimp only
    split
    · exact htouch _
    · exact htouch _
  · exact hf

theorem fault_readWrapper (hf : s.fault = true) (n : Nat) : (readWrapper s n).2.fault = true := by
  obtain ⟨bytes, f, e, hread, -, -⟩ := readWrapper_answer s n
  rw [hread]
  exact hf

theorem fault_freadDirect (dataSize fuel : Nat) (got : List Byte) (hf : s.fault = true) :
    (freadDirect dataSize fuel got s).2.2.fault = true := by
  induction fuel generalizing got s with
  | zero => exact fault_check hf _
  | succ fuel ih =>
    have hread := fault_readWrapper hf s.bufSize
    rw [freadDirect]
    split
    · split
      · next heq =>
        rw [heq] at hread
        exact hread
      · next heq =>
        rw [heq] at hread
        exact ih _ hread
    · exact hf

theorem fault_freadFill (need fuel last : Nat) (hf : s.fault = true) :
    (freadFill need fuel last s).2.fault = true := by
  induction fuel generalizing last s with
  | zero => exact fault_check hf _
  | succ fuel ih =>
    have hread := fault_readWrapper hf (s.bufSize - last)
    rw [freadFill]
    split
    · split
      · next heq =>
        rw [heq] at hread
        exact hread
      · next heq =>
        rw [heq] at hread
        exact ih _ (fault_check hread _)
    · exact hf

theorem fault_freadLast (hf : s.fault = true) (size dataSize : Nat) (got : List Byte) :
    (freadLast s size dataSize got).2.fault = true := by
  have hfill := fault_freadFill (dataSize - got.length) (s.bufSize + 1) 0 hf
  rw [freadLast]
  split
  · next heq =>
    rw [heq] at hfill
    exact hfill
  · next heq =>
    rw [heq] at hfill
    exact fault_check hfill _

theorem fault_freadBuffered (hf : s.checkWindow.fault = true) (size count : Nat) :
    (freadBuffered s size count).2.fault = true := by
  rw [freadBuffered]
  dsimp only
  split
  · exact fault_check hf _
  · have htouch : (if s.checkWindow.pos < s.checkWindow.end_ then
        s.checkWindow.touch (sub64 s.checkWindow.pos s.checkWindow.start)
          (s.checkWindow.end_ - s.checkWindow.pos)
        else s.checkWindow).fault = true := by
      split
      · exact fault_check hf _
      · exact hf
    have hdirect := fun got => fault_freadDirect (size * count) (size * count + 1) got htouch
    generalize (if s.checkWindow.pos < s.checkWindow.end_ then
      s.checkWindow.load (sub64 s.checkWindow.pos s.checkWindow.start)
        (s.checkWindow.end_ - s.checkWindow.pos) else []) = head
    replace hdirect := hdirect head
    generalize freadDirect _ _ _ _ = r at hdirect ⊢
    have hreset : { r.2.2 with
        pos := r.2.2.pos + r.1.length
        start := r.2.2.pos + r.1.length
        end_ := r.2.2.pos + r.1.length }.fault = true := hdirect
    split
    · exact fault_freadLast hreset _ _ _
    · exact hdirect

theorem fault_allocateBuffer (hf : s.fault = true) : (allocateBuffer s).2.fault = true := by
  rw [allocateBuffer]
  split
  · split
    · exact hf
    · exact hf
  · exact hf

theorem fault_enterRead (hf : s.fault = true) : (enterRead s).fault = true := by
  rw [enterRead]
  split
  · exact fault_commonFflush hf
  · exact hf

theorem fault_freadUnbuffered (hf : s.fault = true) (size count : Nat) :
    (freadUnbuffered s size count).2.fault = true := by
  have hread := fault_readWrapper hf (size * count)
  rw [freadUnbuffered]
  split
  · next heq =>
    rw [heq] at hread
    exact hread
  · next heq =>
    rw [heq] at hread
    exact hread

theorem fault_commonFread (hf : s.fault = true) (size count : Nat) :
    (commonFread s size count).2.fault = true := by
  have halloc := fault_allocateBuffer (fault_enterRead hf)
  rw [commonFread]
  split
  · exact hf
  split
  · exact hf
  split
  · exact fault_freadUnbuffered hf size count
  split
  · next heq =>
    rw [heq] at halloc
    exact halloc
  · next heq =>
    rw [heq] at halloc
    exact fault_freadBuffered (fault_check halloc _) size count

theorem fault_fwriteDirect (data : List Byte) (fuel written : Nat) (hf : s.fault = true) :
    (fwriteDirect data fuel written s).2.2.fault = true := by
  induction fuel generalizing written s with
  | zero => exact fault_check hf _
  | succ fuel ih =>
    rw [fwriteDirect]
    split
    · split
      · exact hf
      · exact ih _ hf
    · exact hf

theorem fault_fwriteTopUp (hf : s.fault = true) (data : List Byte) :
    (fwriteTopUp s data).2.fault = true := by
  have htouch : ∀ off bytes n, ((s.store off bytes).touch 0 n).fault = true := fun off bytes n =>
    fault_check (fault_check hf _) _
  rw [fwriteTopUp]
  dsimp only
  split
  · split
    · exact htouch _ _ _
    · exact htouch _ _ _
  · exact hf

/-- A fault on the way to the direct loop, or in it. -/
theorem fault_fwriteOverflow_of {b : Block} (htop : (fwriteTopUp s b.data).2.fault = true) :
    (fwriteOverflow s b).2.fault = true := by
  rw [fwriteOverflow]
  split
  · next heq =>
    rw [heq] at htop
    exact htop
  · next topped s' heq =>
    rw [heq] at htop
    have hdirect :=
      fault_fwriteDirect b.data (b.data.length + s'.file.script.length + 1) topped htop
    dsimp only at hdirect ⊢
    generalize fwriteDirect _ _ _ _ = r at hdirect ⊢
    split
    · exact fault_check hdirect _
    · exact hdirect

theorem fault_fwriteOverflow (hf : s.fault = true) (b : Block) :
    (fwriteOverflow s b).2.fault = true :=
  fault_fwriteOverflow_of (fault_fwriteTopUp hf b.data)

theorem fault_fwriteBuffered (hf : s.fault = true) (b : Block) :
    (fwriteBuffered s b).2.fault = true := by
  have hopen : (openWindow s).checkWindow.fault = true := by
    apply fault_check
    rw [openWindow]
    split
    · exact hf
    · exact hf
  rw [fwriteBuffered]
  dsimp only
  split
  · exact fault_check hopen _
  · exact fault_fwriteOverflow hopen b

theorem fault_enterWrite (hf : s.fault = true) : (enterWrite s).fault = true := by
  rw [enterWrite]
  split
  · dsimp only
    split
    · split
      · exact fault_check hf _
      · exact hf
    · split
      · exact hf
      · exact hf
  · exact hf

theorem fault_commonFwrite (hf : s.fault = true) (b : Block) :
    (commonFwrite s b).2.fault = true := by
  have halloc := fault_allocateBuffer (fault_enterWrite hf)
  rw [commonFwrite]
  split
  · exact hf
  split
  · exact hf
  split
  · rw [fwriteUnbuffered]
    split
    · exact hf
    · exact hf
  split
  · next heq =>
    rw [heq] at halloc
    exact halloc
  · next heq =>
    rw [heq] at halloc
    exact fault_fwriteBuffered halloc b

/-! ## Runs -/

/-- The calls on a stream. `fgetc` comes with what its uninitialised variable holds. -/
inductive IoCall where
  | fread (size count : Nat)
  | fwrite (b : Block)
  | fputc (ch : Byte)
  | fgetc (junk : Byte)
  | ungetc (ch : Byte)
  | fflush
  | fseek (offset : Int) (whence : Whence)

/-- The stream after a call. -/
def IoCall.apply (s : Stream) : IoCall → Stream
  | .fread size count => (commonFread s size count).2
  | .fwrite b => (commonFwrite s b).2
  | .fputc ch => (commonFputc s ch).2
  | .fgetc junk => (commonFgetc junk s).2
  | .ungetc ch => (commonUngetc s ch).2
  | .fflush => (commonFflush s).2
  | .fseek offset whence => (commonFseek s offset whence).2

def ioMachine : Machine Stream IoCall Unit where
  step s c := some (c.apply s, ())

/-- The branch that goes wrong is not taken: no read follows on written bytes that cannot be flushed,
and no write starts to append where the end of the file cannot be found. -/
def CallSafe (s : Stream) : IoCall → Prop
  | .fread _ _ | .fgetc _ => s.error = .clear → s.bufMode.wronly = false → ¬ FlushFails s
  | .fwrite _ | .fputc _ => s.error ≠ .error → s.bufMode.rdonly = false → ¬ SeekFails s
  | _ => True

/-- **One call.** -/
theorem apply_sound (h : Sound s) {c : IoCall} (hc : CallSafe s c) : Sound (c.apply s) := by
  cases c with
  | fread size count => exact commonFread_sound h size count hc
  | fwrite b => exact commonFwrite_sound h b hc
  | fputc ch => exact commonFputc_sound h ch hc
  | fgetc junk => exact commonFgetc_sound h junk hc
  | ungetc ch => exact commonUngetc_sound h ch
  | fflush => exact commonFflush_sound h
  | fseek offset whence => exact commonFseek_sound h offset whence

theorem fault_apply (hf : s.fault = true) (c : IoCall) : (c.apply s).fault = true := by
  cases c with
  | fread size count => exact fault_commonFread hf size count
  | fwrite b => exact fault_commonFwrite hf b
  | fputc ch =>
    show (commonFputc s ch).2.fault = true
    by_cases hfast : s.bufMode.nbf = false ∧ s.prevOp = .write ∧ s.start ≠ s.end_ ∧ s.pos ≠ s.end_
    · rw [commonFputc, if_pos hfast]
      exact fault_check (fault_check hf _) _
    · rw [commonFputc_slow hfast]
      exact fault_commonFwrite hf (Block.single ch)
  | fgetc junk =>
    show (commonFgetc junk s).2.fault = true
    rw [commonFgetc]
    split
    · exact fault_check (fault_check hf _) _
    · exact fault_commonFread hf 1 1
  | ungetc ch =>
    show (commonUngetc s ch).2.fault = true
    rw [commonUngetc]
    split
    · exact fault_check hf _
    · exact hf
  | fflush => exact fault_commonFflush hf
  | fseek offset whence =>
    show (commonFseek s offset whence).2.fault = true
    have hflushed : (if s.prevOp = .write then (commonFflush s).2 else s).fault = true := by
      split
      · exact fault_commonFflush hf
      · exact hf
    rw [commonFseek]
    generalize (if s.prevOp = .write then (commonFflush s).2 else s) = s' at hflushed ⊢
    split
    · exact hflushed
    · rw [seekFile]
      split
      · exact hflushed
      · exact hflushed

/-- Reading on after a flush that failed: `end` is behind `pos`. -/
theorem commonFread_fault (h : Sound s) (hclear : s.error = .clear)
    (hwr : s.bufMode.wronly = false) (hflush : FlushFails s) (size count : Nat) :
    (commonFread s size count).2.fault = true := by
  obtain ⟨hop, hne, hfail⟩ := hflush
  have hstart := h.start_le
  have hpos := h.pos_le
  have hb := h.backed (by omega)
  have henter : enterRead s = { s with
      file := s.file.answered, error := .error, end_ := s.start, prevOp := .read } := by
    rw [enterRead, if_pos hop, commonFflush_pending h hop hne, if_pos hfail]
  have halloc : allocateBuffer (enterRead s) = (true, enterRead s) := by
    rw [henter]
    exact allocateBuffer_of_backed (hb.update hb.length_buffer)
  rw [commonFread, if_neg (by simp [hclear]), if_neg (by simp [hwr]), if_neg (by simp [h.buffered]),
    halloc]
  apply fault_freadBuffered
  have hbehind : ¬ (enterRead s).pos ≤ (enterRead s).end_ := by
    rw [henter]
    show ¬ s.pos ≤ s.start
    omega
  rw [Stream.checkWindow, Stream.check, decide_eq_false hbehind, Bool.and_false, Bool.not_false,
    Bool.or_true]

theorem commonFwrite_fault (h : Sound s) (herror : s.error ≠ .error)
    (hrd : s.bufMode.rdonly = false) (hseek : SeekFails s) (b : Block) :
    (commonFwrite s b).2.fault = true := by
  obtain ⟨hop, happ, hfail⟩ := hseek
  have henter : (enterWrite s).fault = true := by
    have hlseek : s.file.lseek 0 .end_ = (none, s.file.answered) := by
      simp [OpenFile.lseek, hfail]
    rw [enterWrite, if_pos hop]
    simp only [if_pos happ, hlseek, Stream.check, Bool.not_false, Bool.or_true]
  have halloc := fault_allocateBuffer henter
  rw [commonFwrite, if_neg herror, if_neg (by simp [hrd]), if_neg (by simp [h.buffered])]
  split
  · next heq =>
    rw [heq] at halloc
    exact halloc
  · next heq =>
    rw [heq] at halloc
    exact fault_fwriteBuffered halloc b

/-- A call that is not safe ends in a fault. -/
theorem apply_fault (h : Sound s) {c : IoCall} (hc : ¬ CallSafe s c) : (c.apply s).fault = true := by
  cases c with
  | fread size count =>
    simp only [CallSafe, Classical.not_imp, not_not] at hc
    exact commonFread_fault h hc.1 hc.2.1 hc.2.2 size count
  | fwrite b =>
    simp only [CallSafe, Classical.not_imp, not_not] at hc
    exact commonFwrite_fault h hc.1 hc.2.1 hc.2.2 b
  | fputc ch =>
    simp only [CallSafe, Classical.not_imp, not_not] at hc
    show (commonFputc s ch).2.fault = true
    rw [commonFputc_slow (fun hfast => hc.2.2.1 hfast.2.1)]
    exact commonFwrite_fault h hc.1 hc.2.1 hc.2.2 (Block.single ch)
  | fgetc junk =>
    simp only [CallSafe, Classical.not_imp, not_not] at hc
    have hread := commonFread_fault h hc.1 hc.2.1 hc.2.2 1 1
    show (commonFgetc junk s).2.fault = true
    rw [commonFgetc, if_neg]
    · exact hread
    · rintro ⟨-, hop, -⟩
      rw [hc.2.2.1] at hop
      contradiction
  | ungetc ch => exact absurd trivial hc
  | fflush => exact absurd trivial hc
  | fseek offset whence => exact absurd trivial hc

/-- What `fopen` returns. Its buffers have 512 bytes; the results hold for any size but 0. -/
def Fopened (s : Stream) : Prop :=
  ∃ file access bufSize heap, 1 ≤ bufSize ∧ s = createStream file (getBufMode access) bufSize heap

theorem Fopened.sound (h : Fopened s) : Sound s := by
  obtain ⟨file, access, bufSize, heap, hsize, rfl⟩ := h
  exact .of_unused (Or.inr ⟨rfl, rfl⟩) rfl hsize rfl rfl rfl rfl

/-- After every call of the run, the window is in order and nothing has gone wrong. -/
def WindowSafe (s₀ : Stream) (cs : List IoCall) : Prop :=
  ∀ k, ∃ s os, ioMachine.run s₀ (cs.take k) = some (s, os) ∧ Window s ∧ s.fault = false

theorem Sound.windowSafe_iff (h : Sound s) (cs : List IoCall) :
    WindowSafe s cs ↔ ioMachine.Along CallSafe s cs := by
  constructor
  · intro hsafe
    induction cs generalizing s with
    | nil => exact trivial
    | cons c cs ih =>
      have hc : CallSafe s c := by
        by_contra hc
        obtain ⟨s', os, hrun, -, hfault⟩ := hsafe 1
        have hrun' : ioMachine.run s [c] = some (c.apply s, [()]) := rfl
        rw [List.take_succ_cons, List.take_zero, hrun'] at hrun
        cases hrun
        rw [apply_fault h hc] at hfault
        contradiction
      refine ⟨hc, ?_⟩
      intro s' o hstep
      cases hstep
      apply ih (apply_sound h hc)
      intro k
      obtain ⟨s', os, hrun, hwindow, hfault⟩ := hsafe (k + 1)
      rw [List.take_succ_cons, Machine.run_cons (M := ioMachine) rfl] at hrun
      obtain ⟨⟨s₂, os₂⟩, hrun₂, heq⟩ := Option.map_eq_some_iff.mp hrun
      cases heq
      exact ⟨s₂, os₂, hrun₂, hwindow, hfault⟩
  · intro hsafe k
    obtain ⟨s', os, hrun, hsound⟩ := Machine.run_invariant (M := ioMachine) (I := Sound)
      (P := CallSafe) (fun s c hs hc => ⟨c.apply s, (), rfl, apply_sound hs hc⟩) (cs.take k) h (hsafe.take k)
    exact ⟨s', os, hrun, hsound.toWindow, hsound.no_fault⟩

/-- **Window safety.** In a run from `fopen`, whatever the kernel and the heap answer, the window stays
in order, and no access leaves the buffer, if and only if every call is safe where it is made. -/
theorem window_safe_iff (s₀ : Stream) (h₀ : Fopened s₀) (cs : List IoCall) :
    WindowSafe s₀ cs ↔ ioMachine.Along CallSafe s₀ cs :=
  h₀.sound.windowSafe_iff cs

/-- An empty file, opened for reading and writing, with these answers of the kernel. -/
def emptyFile (append : Bool) (script : List Answer) : Stream :=
  createStream ⟨[], 0, append, script⟩ (getBufMode .rdwr) 4 (some fun _ => 0)

theorem fopened_emptyFile (append : Bool) (script : List Answer) :
    Fopened (emptyFile append script) :=
  ⟨_, .rdwr, 4, _, by decide, rfl⟩

/-- A byte is written and flushed, and then a read fails. -/
theorem window_safe_flushed :
    WindowSafe (emptyFile false [.full, .fail]) [.fputc 97, .fflush, .fread 1 1] := by
  apply (window_safe_iff _ (fopened_emptyFile false [.full, .fail]) _).mpr
  refine ⟨fun _ _ hseek => absurd hseek.2.1 (by decide), ?_⟩
  intro s₁ o₁ h₁
  cases h₁
  refine ⟨trivial, ?_⟩
  intro s₂ o₂ h₂
  cases h₂
  refine ⟨fun _ _ hflush => absurd hflush.2.1 (by decide), fun _ _ _ => trivial⟩

/-- A byte is written, and then one is read while the write of the first fails. -/
theorem window_unsafe_read :
    ¬ ∀ s₀, Fopened s₀ → ∀ cs, WindowSafe s₀ cs := by
  intro h
  obtain ⟨s, os, hrun, -, hfault⟩ :=
    h (emptyFile false [.fail]) (fopened_emptyFile false [.fail]) [.fputc 97, .fread 1 1] 2
  have hbroken : (ioMachine.run (emptyFile false [.fail]) [.fputc 97, .fread 1 1]).map
      (fun r => r.1.fault) = some true := by decide
  rw [List.take_of_length_le (by decide)] at hrun
  rw [hrun, Option.map_some, hfault] at hbroken
  contradiction

end WindowsLibc.Stdio
