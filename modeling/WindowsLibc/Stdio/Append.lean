import WindowsLibc.Stdio.Flush
import WindowsLibc.Stdio.Window

/-!
# Append streams

On a descriptor with `O_APPEND` the kernel puts whatever is written at the end of the file. The
stream position and the kernel's offset need not agree then, and where the window lies says nothing
about where its bytes will go. What counts is the order in which the bytes are sent.

* `appended` is the file with what is pending in a window that is being written.
* `Appends content` is the invariant: `appended` is `content`, and a window that is being written is
  empty or a whole buffer long, for `common_fseek`, unlike a flush alone, closes the window it has
  flushed.
* `append_stream_content` is about whole runs: every call appends the bytes that it writes
  (`apply_appends`), and a flush changes nothing but where they are.
-/

namespace WindowsLibc.Stdio

open WindowsLibc.Lib

variable {s : Stream} {content : List Byte}

/-! ## The kernel's side -/

/-- The kernel has appended `bytes`. -/
structure OpenFile.Gains (f f' : OpenFile) (bytes : List Byte) : Prop where
  content : f'.content = f.content ++ bytes
  append : f'.append = true
  succeeds : f'.Succeeds

theorem OpenFile.Gains.trans {f₁ f₂ f₃ : OpenFile} {bytes more : List Byte}
    (h₁ : f₁.Gains f₂ bytes) (h₂ : f₂.Gains f₃ more) : f₁.Gains f₃ (bytes ++ more) where
  content := by rw [h₂.content, h₁.content, List.append_assoc]
  append := h₂.append
  succeeds := h₂.succeeds

theorem OpenFile.Gains.refl {f : OpenFile} (hs : f.Succeeds) (happ : f.append = true) :
    f.Gains f [] :=
  ⟨(List.append_nil _).symm, happ, hs⟩

theorem OpenFile.write_gains {f : OpenFile} (hs : f.Succeeds) (happ : f.append = true)
    (bytes : List Byte) :
    ∃ f', f.write bytes = (some bytes.length, f') ∧ f.Gains f' bytes := by
  rw [OpenFile.write, if_neg hs.answer_ne]
  refine ⟨_, rfl, ?_, happ, hs.answered⟩
  simp only [happ, if_true]
  exact overwrite_length _ _

/-! ## The invariant -/

/-- The file, and what is pending for it. -/
def appended (s : Stream) : List Byte := if s.prevOp = .write then held s else s.file.content

/-- A stream that appends, and has received `content` in all. -/
structure Appends (content : List Byte) (s : Stream) : Prop extends Sound s where
  append : s.file.append = true
  succeeds : s.file.Succeeds
  heap : s.heap.isSome
  no_error : s.error ≠ .error
  appended_eq : appended s = content
  whole : s.prevOp = .write → Whole s

theorem appended_of_write (hop : s.prevOp = .write) : appended s = held s := if_pos hop

theorem appended_of_empty (hempty : s.start = s.pos) : appended s = s.file.content := by
  rw [appended]
  split
  · rw [held, hempty, Nat.sub_self, List.take_zero, List.append_nil]
  · rfl

/-- A flush sends what is pending, and nothing else changes. -/
theorem commonFflush_appends (h : Appends content s) :
    ∃ f, (commonFflush s).2 =
        { s with file := f, start := if s.prevOp = .write then s.pos else s.start } ∧
      f.content = content ∧ f.append = true ∧ f.Succeeds := by
  have happended := h.appended_eq
  by_cases hop : s.prevOp = .write
  · rw [appended_of_write hop] at happended
    by_cases hempty : s.start = s.pos
    · refine ⟨s.file, ?_, ?_, h.append, h.succeeds⟩
      · rw [commonFflush_idle h.toSound (fun _ => hempty), if_pos hop]
        exact congrArg (fun a => { s with start := a }) hempty
      · rw [← happended, held, hempty, Nat.sub_self, List.take_zero, List.append_nil]
    · obtain ⟨f, hwrite, hgains⟩ :=
        OpenFile.write_gains h.succeeds h.append (s.load 0 (s.pos - s.start))
      refine ⟨f, ?_, ?_, hgains.append, hgains.succeeds⟩
      · rw [commonFflush_pending h.toSound hop hempty, if_neg h.succeeds.answer_ne, hwrite,
          if_pos hop]
      · rw [hgains.content, Stream.load, List.drop_zero]
        exact happended
  · refine ⟨s.file, ?_, ?_, h.append, h.succeeds⟩
    · rw [commonFflush_idle h.toSound (fun hw => absurd hw hop), if_neg hop]
    · rwa [appended, if_neg hop] at happended

/-- With a heap that does not run out, the buffer is there after the allocation. -/
theorem allocateBuffer_appends (h : Appends content s) :
    (allocateBuffer s).1 = true ∧ Appends content (allocateBuffer s).2 ∧
      Backed (allocateBuffer s).2 ∧ (allocateBuffer s).2.prevOp = s.prevOp := by
  by_cases hb : Backed s
  · rw [allocateBuffer_of_backed hb]
    exact ⟨rfl, h, hb, rfl⟩
  · -- a window without a buffer is empty, so nothing is pending
    have hempty : s.start = s.end_ := by_contra fun hne => hb (h.backed hne)
    have hstart := h.start_le
    have hpos := h.pos_le
    have hnone : s.start = s.pos := by omega
    obtain ⟨buf, alloc, halloc, hbacked⟩ := allocateBuffer_spec h.heap h.stored
    obtain ⟨granted, buf', m', halloc', hsound, -⟩ := allocateBuffer_sound h.toSound
    have heq := congrArg Prod.snd (halloc.symm.trans halloc')
    simp only at heq
    rw [← heq] at hsound
    rw [halloc]
    refine ⟨rfl, ⟨hsound, h.append, h.succeeds, h.heap, h.no_error, ?_, h.whole⟩, hbacked, rfl⟩
    have happended := h.appended_eq
    rw [appended_of_empty hnone] at happended
    rw [appended_of_empty (by exact hnone)]
    exact happended

/-! ## Reading and seeking -/

theorem enterRead_appends (h : Appends content s) (hwr : s.bufMode.wronly = false) :
    Appends content (enterRead s) := by
  have hnofail : ¬ FlushFails s := fun hflush => h.succeeds.answer_ne hflush.2.2
  obtain ⟨hsound, hop⟩ := enterRead_sound h.toSound hwr hnofail
  have happended : appended (enterRead s) = (enterRead s).file.content := by
    rw [appended, if_neg (by rw [hop]; decide)]
  have hwhole : (enterRead s).prevOp = .write → Whole (enterRead s) := by
    rw [hop]
    intro hw
    contradiction
  by_cases hw : s.prevOp = .write
  · obtain ⟨f, hflush, hcontent, happ, hsucc⟩ := commonFflush_appends h
    have henter : enterRead s =
        { s with file := f, start := s.pos, end_ := s.pos, prevOp := .read } := by
      rw [enterRead, if_pos hw, hflush, if_pos hw]
    rw [henter] at hsound happended hwhole ⊢
    exact ⟨hsound, happ, hsucc, h.heap, h.no_error, happended.trans hcontent, hwhole⟩
  · have henter : enterRead s = { s with prevOp := .read } := by rw [enterRead, if_neg hw]
    have hcontent := h.appended_eq
    rw [appended, if_neg hw] at hcontent
    rw [henter] at hsound happended hwhole ⊢
    exact ⟨hsound, h.append, h.succeeds, h.heap, h.no_error, happended.trans hcontent, hwhole⟩

theorem commonFread_appends (h : Appends content s) (hwr : s.bufMode.wronly = false)
    (size count : Nat) : Appends content (commonFread s size count).2 := by
  rw [commonFread]
  split
  · exact h
  rw [if_neg (by simp [hwr]), if_neg (by simp [h.buffered])]
  have hread : (enterRead s).prevOp = .read := by
    rw [enterRead]
    split
    · rfl
    · rfl
  obtain ⟨hgranted, ha, hb, hop⟩ := allocateBuffer_appends (enterRead_appends h hwr)
  generalize allocateBuffer (enterRead s) = r at hgranted ha hb hop ⊢
  obtain ⟨granted, s'⟩ := r
  obtain rfl : granted = true := hgranted
  have hop' : s'.prevOp = .read := hop.trans hread
  obtain ⟨hsound, hon⟩ := freadBuffered_sound ha.toSound hb hop' size count
  obtain ⟨hsucc, herror⟩ := hon.succeeds ha.succeeds
  have hstill : (freadBuffered s' size count).2.prevOp ≠ .write := by
    rw [hon.prevOp, hop']
    decide
  refine ⟨hsound, hon.append.trans ha.append, hsucc, by rw [hon.heap]; exact ha.heap, ?_, ?_,
    fun hw => absurd hw hstill⟩
  · rcases herror with he | he
    · rw [he]
      exact ha.no_error
    · rw [he]
      decide
  · have hcontent := ha.appended_eq
    rw [appended, if_neg (by rw [hop']; decide)] at hcontent
    rw [appended, if_neg hstill, hon.content]
    exact hcontent

/-- A seek of the kernel that finds its target leaves an empty window. -/
theorem seekFile_appends (hs : Sound s) (happ : s.file.append = true) (hsucc : s.file.Succeeds)
    (hheap : s.heap.isSome) (herror : s.error ≠ .error) {offset : Int} {whence : Whence}
    (hok : (seekFile s offset whence).1 = true) :
    Appends s.file.content (seekFile s offset whence).2 := by
  have hsound := seekFile_sound hs offset whence
  rw [seekFile] at hsound hok ⊢
  rcases hlseek : s.file.lseek offset whence with ⟨_ | n, f⟩
  · rw [hlseek] at hok
    contradiction
  · rw [hlseek] at hsound
    obtain rfl := OpenFile.lseek_some hlseek
    refine ⟨hsound, happ, hsucc.answered, hheap, ?_, appended_of_empty rfl, fun _ => Or.inl rfl⟩
    show (if whence = .set ∧ offset = 0 then StreamError.clear else s.error.withoutEof) ≠ .error
    split
    · decide
    · cases he : s.error with
      | clear => decide
      | eof => decide
      | error => exact absurd he herror

theorem commonFseek_appends (h : Appends content s) {offset : Int} {whence : Whence}
    (hok : (commonFseek s offset whence).1 = true) :
    Appends content (commonFseek s offset whence).2 := by
  obtain ⟨f, hflush, hcontent, happ, hsucc⟩ := commonFflush_appends h
  have hsound := commonFflush_sound h.toSound
  -- flushed or not, the file holds everything
  have hfile : (if s.prevOp = .write then (commonFflush s).2 else s) = (commonFflush s).2 := by
    split
    · rfl
    · next hw => rw [commonFflush_idle h.toSound (fun hop => absurd hop hw)]
  rw [commonFseek, hfile] at hok ⊢
  rw [hflush] at hok hsound ⊢
  generalize (if s.prevOp = .write then s.pos else s.start) = a at hok hsound ⊢
  split
  · next hnear =>
    obtain ⟨-, hop, hge, hle, hne⟩ := hnear
    have hw : ¬ s.prevOp = .write := by
      intro hw
      rw [show s.prevOp = .read from hop] at hw
      contradiction
    refine ⟨?_, happ, hsucc, h.heap, h.no_error, (if_neg hw).trans hcontent,
      fun hop' => absurd hop' hw⟩
    exact hsound.update rfl hge hle hsound.fits (fun hn => absurd (hsound.backed hne) hn)
      (fun hnothing => by rw [hop] at hnothing; contradiction) hsound.writable hsound.readable
  · next hfar =>
    rw [if_neg hfar] at hok
    rw [← hcontent]
    exact seekFile_appends hsound happ hsucc h.heap h.no_error hok

/-! ## Writing -/

/-- The direct loop appends whole buffers until at most one buffer of data is left. -/
theorem fwriteDirect_gains (data : List Byte) :
    ∀ (fuel written : Nat) (s : Stream), s.file.Succeeds → s.file.append = true → 1 ≤ s.bufSize →
      written ≤ data.length → data.length < written + fuel →
      ∃ direct f, fwriteDirect data fuel written s =
          (written + direct.length, true, { s with file := f }) ∧
        s.file.Gains f direct ∧
        data.drop written = direct ++ data.drop (written + direct.length) ∧
        written + direct.length ≤ data.length ∧
        data.length ≤ written + direct.length + s.bufSize := by
  intro fuel
  induction fuel with
  | zero =>
    intro written s _ _ _ hwritten hfuel
    omega
  | succ fuel ih =>
    intro written s hs happ hB hwritten hfuel
    rw [fwriteDirect]
    by_cases hloop : written + s.bufSize < data.length
    · obtain ⟨f, hwrite, hgains⟩ :=
        OpenFile.write_gains hs happ ((data.drop written).take s.bufSize)
      have hlen : ((data.drop written).take s.bufSize).length = s.bufSize := by
        rw [List.length_take, List.length_drop]
        omega
      obtain ⟨direct, f', hrest, hgains', hdata, hle, hlast⟩ :=
        ih (written + s.bufSize) { s with file := f } hgains.succeeds hgains.append hB (by omega)
          (by omega)
      refine ⟨(data.drop written).take s.bufSize ++ direct, f', ?_, hgains.trans hgains', ?_, ?_, ?_⟩
      · rw [if_pos hloop, hwrite]
        simp only [hlen, hrest, List.length_append, Nat.add_assoc]
      · rw [List.length_append, hlen, ← Nat.add_assoc, List.append_assoc, ← hdata,
          ← List.drop_drop, List.take_append_drop]
      · rw [List.length_append, hlen]
        omega
      · rw [List.length_append, hlen]
        simp only at hlast
        omega
    · refine ⟨[], s.file, ?_, .refl hs happ, rfl, hwritten, ?_⟩
      · rw [if_neg hloop]
        rfl
      · rw [List.length_nil]
        omega

theorem fwriteTopUp_gains (h : Appends content s) (hb : Backed s) (data : List Byte) :
    ∃ f buf, fwriteTopUp s data = (some (toppedCount s), { s with file := f, buffer := buf }) ∧
      s.file.Gains f (toppedUp s data) ∧ buf.length = s.bufSize := by
  have hstart := h.start_le
  have hpos := h.pos_le
  have hfits := h.fits
  have hlen := hb.length_buffer
  unfold fwriteTopUp toppedUp toppedCount
  rw [sub64_of_le hpos, sub64_of_le hstart]
  by_cases hroom : s.end_ - s.pos ≠ s.bufSize
  · have hin : s.pos - s.start + (data.take (s.end_ - s.pos)).length ≤ s.buffer.length := by
      rw [List.length_take]
      omega
    have hbuf : (overwrite s.buffer (s.pos - s.start) (data.take (s.end_ - s.pos))).length =
        s.bufSize := by
      rw [length_overwrite]
      omega
    obtain ⟨f, hwrite, hgains⟩ := OpenFile.write_gains h.succeeds h.append
      (overwrite s.buffer (s.pos - s.start) (data.take (s.end_ - s.pos)))
    refine ⟨f, _, ?_, by rw [if_pos hroom]; exact hgains, hbuf⟩
    simp only [if_pos hroom, Stream.store_of_le hin]
    rw [Stream.touch_of_le (by simp only [hbuf]; omega)]
    simp only [Stream.load, List.drop_zero]
    rw [List.take_of_length_le (by omega), hwrite]
  · refine ⟨s.file, s.buffer, ?_, ?_, hlen⟩
    · simp only [if_neg hroom]
    · rw [if_neg hroom]
      exact .refl h.succeeds h.append

/-- The overflow branch of a whole window: what was pending goes out ahead of the data. -/
theorem fwriteOverflow_appends (h : Appends content s) (hb : Backed s) (hop : s.prevOp = .write)
    (hfull : s.end_ = s.start + s.bufSize) {b : Block} (hover : s.end_ - s.pos < b.data.length) :
    Appends (content ++ b.data) (fwriteOverflow s b).2 := by
  have hpos := h.pos_le
  have hsound := fwriteOverflow_sound h.toSound hb hop hover
  obtain ⟨f₁, buf, htop, hgains₁, hbuf⟩ := fwriteTopUp_gains h hb b.data
  have hcount : toppedCount s < b.data.length := by
    unfold toppedCount
    split
    · exact hover
    · omega
  obtain ⟨direct, f, hdirect, hgains₂, hdata, hle, hlast⟩ :=
    fwriteDirect_gains b.data (b.data.length + f₁.script.length + 1) (toppedCount s)
      { s with file := f₁, buffer := buf } hgains₁.succeeds hgains₁.append h.one_le_bufSize
      (Nat.le_of_lt hcount) (by omega)
  have hgains := hgains₁.trans hgains₂
  simp only at hlast
  -- the rest of the data, which opens the next window
  have hrest : (b.data.drop (toppedCount s + direct.length)).length =
      b.data.length - (toppedCount s + direct.length) := List.length_drop
  have hin : 0 + (b.data.drop (toppedCount s + direct.length)).length ≤ buf.length := by omega
  have hresult : (fwriteOverflow s b).2 = { s with
      file := f
      buffer := overwrite buf 0 (b.data.drop (toppedCount s + direct.length))
      start := s.pos + (toppedCount s + direct.length)
      end_ := s.pos + (toppedCount s + direct.length) + s.bufSize
      pos := s.pos + (toppedCount s + direct.length) +
        (b.data.drop (toppedCount s + direct.length)).length } := by
    rw [fwriteOverflow, htop]
    simp only [hdirect, if_true]
    rw [Stream.store_of_le (by exact hin)]
  have hstored := take_overwrite (Nat.zero_le buf.length)
    (b.data.drop (toppedCount s + direct.length))
  rw [Nat.zero_add, List.take_zero, List.nil_append] at hstored
  have hpending := h.appended_eq
  rw [appended_of_write hop, held] at hpending
  rw [hresult] at hsound ⊢
  refine ⟨hsound, hgains.append, hgains.succeeds, h.heap, h.no_error, ?_, fun _ => Or.inr rfl⟩
  rw [appended_of_write (by exact hop), held]
  show f.content ++ _ = _
  rw [show ∀ a n : Nat, a + n - a = n from fun a n => Nat.add_sub_cancel_left a n, hstored,
    hgains.content, toppedUp_full hb h.toWindow hfull b.data hover]
  calc s.file.content ++ (s.buffer.take (s.pos - s.start) ++ b.data.take (toppedCount s) ++ direct) ++
        b.data.drop (toppedCount s + direct.length)
      = (s.file.content ++ s.buffer.take (s.pos - s.start)) ++ (b.data.take (toppedCount s) ++
          (direct ++ b.data.drop (toppedCount s + direct.length))) := by
        simp only [List.append_assoc]
    _ = content ++ b.data := by rw [hpending, ← hdata, List.take_append_drop]

/-- A window that is being written is whole, so that no stale bytes are sent. -/
theorem fwriteBuffered_appends (h : Appends content s) (hb : Backed s) (hop : s.prevOp = .write)
    (b : Block) : Appends (content ++ b.data) (fwriteBuffered s b).2 := by
  have hsound := fwriteBuffered_sound h.toSound hb hop b
  have hstart := h.start_le
  have hpos := h.pos_le
  have hfits := h.fits
  have hlen := hb.length_buffer
  have hB := h.one_le_bufSize
  have hend : s.start + s.bufSize = if s.start = s.end_ then s.start + s.bufSize else s.end_ := by
    rcases h.whole hop with hempty | hfull
    · rw [if_pos hempty.symm]
    · rw [if_neg (by omega), hfull]
  have hpending := h.appended_eq
  rw [appended_of_write hop] at hpending
  by_cases hfit : s.pos + b.data.length ≤ s.start + s.bufSize
  · rw [fwriteBuffered_fit hb h.toWindow hend hfit] at hsound ⊢
    refine ⟨hsound, h.append, h.succeeds, h.heap, h.no_error, ?_, fun _ => Or.inr rfl⟩
    rw [appended_of_write (by exact hop), ← hpending]
    exact held_store hb h.toWindow b.data
  · rw [fwriteBuffered_overflow hb h.toWindow hend (by omega)]
    have hopened : Appends content { s with end_ := s.start + s.bufSize } := by
      refine ⟨?_, h.append, h.succeeds, h.heap, h.no_error, ?_, fun _ => Or.inr rfl⟩
      · exact h.update rfl hstart (by omega) (Nat.le_refl _) (fun hn => absurd hb hn)
          (fun hnothing => by rw [hop] at hnothing; contradiction) h.writable h.readable
      · exact h.appended_eq
    exact fwriteOverflow_appends hopened (hb.update hlen) hop rfl (by simp only; omega)

theorem enterWrite_appends (h : Appends content s) (hrd : s.bufMode.rdonly = false) :
    Appends content (enterWrite s) := by
  have hnofail : ¬ SeekFails s := fun hseek => h.succeeds.answer_ne hseek.2.2
  obtain ⟨hsound, -⟩ := enterWrite_sound h.toSound hrd hnofail
  by_cases hop : s.prevOp ≠ .write
  · have hcontent := h.appended_eq
    rw [appended, if_neg hop] at hcontent
    have henter : enterWrite s = { s with
        file := { s.file.answered with offset := s.file.content.length }
        start := s.file.content.length
        end_ := s.file.content.length
        pos := s.file.content.length
        prevOp := .write } := by
      rw [enterWrite, if_pos hop]
      simp only [if_pos h.append, OpenFile.lseek_end h.succeeds.answer_ne]
    rw [henter] at hsound ⊢
    exact ⟨hsound, h.append, h.succeeds.answered, h.heap, h.no_error,
      (appended_of_empty rfl).trans hcontent, fun _ => Or.inl rfl⟩
  · rw [enterWrite, if_neg hop]
    exact h

theorem commonFwrite_appends (h : Appends content s) (hrd : s.bufMode.rdonly = false) (b : Block) :
    Appends (content ++ b.data) (commonFwrite s b).2 := by
  rw [commonFwrite, if_neg h.no_error, if_neg (by simp [hrd]), if_neg (by simp [h.buffered])]
  have hnofail : ¬ SeekFails s := fun hseek => h.succeeds.answer_ne hseek.2.2
  obtain ⟨-, hwrite⟩ := enterWrite_sound h.toSound hrd hnofail
  obtain ⟨hgranted, ha, hb, hop⟩ := allocateBuffer_appends (enterWrite_appends h hrd)
  generalize allocateBuffer (enterWrite s) = r at hgranted ha hb hop ⊢
  obtain ⟨granted, s'⟩ := r
  obtain rfl : granted = true := hgranted
  exact fwriteBuffered_appends ha hb (hop.trans hwrite) b

theorem commonFputc_appends (h : Appends content s) (hrd : s.bufMode.rdonly = false) (ch : Byte) :
    Appends (content ++ [ch]) (commonFputc s ch).2 := by
  by_cases hfast : s.bufMode.nbf = false ∧ s.prevOp = .write ∧ s.start ≠ s.end_ ∧ s.pos ≠ s.end_
  · have hb := h.backed hfast.2.2.1
    have hop := hfast.2.1
    have hsound := commonFputc_sound h.toSound ch
      (fun _ _ hseek => h.succeeds.answer_ne hseek.2.2)
    have hpending := h.appended_eq
    rw [appended_of_write hop] at hpending
    rw [commonFputc_fast hb h.toWindow ch hfast] at hsound ⊢
    refine ⟨hsound, h.append, h.succeeds, h.heap, h.no_error, ?_, h.whole⟩
    rw [appended_of_write (by exact hop), ← hpending]
    exact held_store hb h.toWindow [ch]
  · rw [commonFputc_slow hfast]
    exact commonFwrite_appends h hrd (Block.single ch)

/-! ## Runs -/

/-- What a call writes. -/
def IoCall.bytes : IoCall → List Byte
  | .fwrite b => b.data
  | .fputc ch => [ch]
  | _ => []

/-- The calls that are made on an append stream: reads and writes that its mode permits, and seeks
that succeed. -/
def AppendCall (s : Stream) : IoCall → Prop
  | .fread _ _ => s.bufMode.wronly = false
  | .fwrite _ | .fputc _ => s.bufMode.rdonly = false
  | .fseek offset whence => (commonFseek s offset whence).1 = true
  | _ => False

/-- **One call** appends what it writes. -/
theorem apply_appends (h : Appends content s) {c : IoCall} (hc : AppendCall s c) :
    Appends (content ++ c.bytes) (c.apply s) := by
  cases c with
  | fread size count =>
    rw [show (IoCall.fread size count).bytes = [] from rfl, List.append_nil]
    exact commonFread_appends h hc size count
  | fwrite b => exact commonFwrite_appends h hc b
  | fputc ch => exact commonFputc_appends h hc ch
  | fseek offset whence =>
    rw [show (IoCall.fseek offset whence).bytes = [] from rfl, List.append_nil]
    exact commonFseek_appends h hc
  | fgetc junk => exact absurd hc not_false
  | ungetc ch => exact absurd hc not_false
  | fflush => exact absurd hc not_false

theorem run_appends (cs : List IoCall) :
    ∀ {s : Stream} {content : List Byte}, Appends content s → ioMachine.Along AppendCall s cs →
      ∃ s' os, ioMachine.run s cs = some (s', os) ∧
        Appends (content ++ cs.flatMap IoCall.bytes) s' := by
  induction cs with
  | nil =>
    intro s content h _
    exact ⟨s, [], rfl, by rwa [List.flatMap_nil, List.append_nil]⟩
  | cons c cs ih =>
    intro s content h hcs
    obtain ⟨s', os, hrun, h'⟩ := ih (apply_appends h hcs.1) (hcs.2 _ _ rfl)
    refine ⟨s', () :: os, ?_, ?_⟩
    · rw [Machine.run_cons (M := ioMachine) rfl, hrun]
      rfl
    · rwa [List.flatMap_cons, ← List.append_assoc]

/-- A stream on a file with `O_APPEND`, as `fopen` returns it. -/
theorem appends_createStream {file : OpenFile} (happ : file.append = true) (hs : file.Succeeds)
    (access : Access) {bufSize : Nat} (hB : 1 ≤ bufSize) (heap : Nat → Byte) :
    Appends file.content (createStream file (getBufMode access) bufSize (some heap)) where
  toSound := Fopened.sound ⟨file, access, bufSize, some heap, hB, rfl⟩
  append := happ
  succeeds := hs
  heap := rfl
  no_error := by intro he; contradiction
  appended_eq := rfl
  whole := by intro hw; contradiction

/-- **Append streams.** After any run of reads, writes and seeks, and the flush at close, the file is
what it was, followed by all bytes written, in the order of the calls. -/
theorem append_stream_content (file : OpenFile) (happ : file.append = true) (hs : file.Succeeds)
    (access : Access) (bufSize : Nat) (hB : 1 ≤ bufSize) (heap : Nat → Byte) (cs : List IoCall)
    (hcs : ioMachine.Along AppendCall
      (createStream file (getBufMode access) bufSize (some heap)) cs) :
    ∃ s os, ioMachine.run (createStream file (getBufMode access) bufSize (some heap)) cs =
        some (s, os) ∧
      commonFclose s = file.content ++ cs.flatMap IoCall.bytes ∧ s.fault = false := by
  obtain ⟨s, os, hrun, h⟩ := run_appends cs (appends_createStream happ hs access hB heap) hcs
  refine ⟨s, os, hrun, ?_, h.no_fault⟩
  obtain ⟨f, hflush, hcontent, -, -⟩ := commonFflush_appends h
  rw [commonFclose, hflush]
  exact hcontent

/-- A seek to the start between two writes, and a short read behind them. -/
theorem append_stream_content_seek :
    ∃ s os, ioMachine.run (createStream ⟨[65, 66], 0, true, [.full, .short 1]⟩ (getBufMode .rdwr) 2
          (some fun _ => 0))
        [.fputc 97, .fseek 0 .set, .fwrite ⟨1, 3, [98, 99, 100], rfl⟩, .fread 1 1] = some (s, os) ∧
      commonFclose s = [65, 66, 97, 98, 99, 100] ∧ s.fault = false := by
  apply append_stream_content ⟨[65, 66], 0, true, [.full, .short 1]⟩ rfl (by decide) .rdwr 2
    (by decide) (fun _ => 0)
  refine ⟨rfl, fun s₁ _ h₁ => ?_⟩
  cases h₁
  refine ⟨rfl, fun s₂ _ h₂ => ?_⟩
  cases h₂
  refine ⟨rfl, fun s₃ _ h₃ => ?_⟩
  cases h₃
  exact ⟨rfl, fun _ _ _ => trivial⟩

end WindowsLibc.Stdio
