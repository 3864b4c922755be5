import WindowsLibc.Fcntl.FdTable.Refinement
import WindowsLibc.Stdio.Closing
import WindowsLibc.Stdio.View

/-!
# What closing does to one stream, and to the list

* `Owns` and `Leaves` are about the buffer of a stream, and about what its file will have. `commonFwrite_leaves`
  says that a write is put to the file, whether a flush has shortened the window or not.
* `Describes` is what is known of a stream of which the list has an entry. `Describes.write` and
  `Describes.reset` are the output calls and `freopen`.
* `flushLoop_spec` and `closeLoop_spec` are the two loops of `close_all_streams`.
-/

namespace WindowsLibc.Stdio

open WindowsLibc.Lib WindowsLibc.Fcntl

/-! ## One stream -/

variable {s s' : Stream}

/-- What no transfer changes. -/
structure Kept (s s' : Stream) : Prop where
  bufMode : s'.bufMode = s.bufMode
  bufSize : s'.bufSize = s.bufSize
  heap : s'.heap = s.heap

theorem Kept.refl (s : Stream) : Kept s s := ⟨rfl, rfl, rfl⟩

theorem Kept.trans {s₁ s₂ s₃ : Stream} (h₁ : Kept s₁ s₂) (h₂ : Kept s₂ s₃) : Kept s₁ s₃ :=
  ⟨h₂.bufMode.trans h₁.bufMode, h₂.bufSize.trans h₁.bufSize, h₂.heap.trans h₁.heap⟩

theorem commonFflush_kept (s : Stream) : Kept s (commonFflush s).2 ∧ (commonFflush s).2.buffer = s.buffer := by
  rw [commonFflush]
  split
  · exact ⟨.refl s, rfl⟩
  split
  · exact ⟨.refl s, rfl⟩
  split
  · exact ⟨.refl s, rfl⟩
  split
  · simp only
    split
    · exact ⟨⟨rfl, rfl, rfl⟩, rfl⟩
    · exact ⟨⟨rfl, rfl, rfl⟩, rfl⟩
  · exact ⟨.refl s, rfl⟩

theorem fwriteDirect_kept (data : List Byte) (fuel written : Nat) (s : Stream) :
    Kept s (fwriteDirect data fuel written s).2.2 := by
  induction fuel generalizing written s with
  | zero => exact ⟨rfl, rfl, rfl⟩
  | succ fuel ih =>
    rw [fwriteDirect]
    split
    · split
      · exact ⟨rfl, rfl, rfl⟩
      · next n f _ =>
        have hfile : Kept s { s with file := f } := ⟨rfl, rfl, rfl⟩
        exact hfile.trans (ih (written + n) { s with file := f })
    · exact .refl s

theorem fwriteTopUp_kept (s : Stream) (data : List Byte) : Kept s (fwriteTopUp s data).2 := by
  rw [fwriteTopUp]
  simp only
  split
  · split
    · exact ⟨rfl, rfl, rfl⟩
    · exact ⟨rfl, rfl, rfl⟩
  · exact .refl s

theorem fwriteOverflow_kept (s : Stream) (b : Block) : Kept s (fwriteOverflow s b).2 := by
  have htop := fwriteTopUp_kept s b.data
  rw [fwriteOverflow]
  split
  · next heq =>
    rw [heq] at htop
    exact htop
  · next topped s₁ heq =>
    rw [heq] at htop
    have hdirect := fwriteDirect_kept b.data (b.data.length + s₁.file.script.length + 1) topped s₁
    split
    next written more s₂ hr =>
    rw [hr] at hdirect
    simp only
    split
    · exact htop.trans (hdirect.trans ⟨rfl, rfl, rfl⟩)
    · exact htop.trans (hdirect.trans ⟨rfl, rfl, rfl⟩)

theorem openWindow_kept (s : Stream) : Kept s (openWindow s) := by
  rw [openWindow]
  split
  · exact ⟨rfl, rfl, rfl⟩
  · exact .refl s

theorem fwriteBuffered_kept (s : Stream) (b : Block) : Kept s (fwriteBuffered s b).2 := by
  have hopen : Kept s (openWindow s).checkWindow := (openWindow_kept s).trans ⟨rfl, rfl, rfl⟩
  rw [fwriteBuffered]
  simp only
  split
  · exact hopen.trans ⟨rfl, rfl, rfl⟩
  · exact hopen.trans (fwriteOverflow_kept _ b)

theorem enterWrite_kept (s : Stream) : Kept s (enterWrite s) := by
  rw [enterWrite]
  split
  · simp only
    split
    · split
      · exact ⟨rfl, rfl, rfl⟩
      · exact ⟨rfl, rfl, rfl⟩
    · split
      · exact ⟨rfl, rfl, rfl⟩
      · exact ⟨rfl, rfl, rfl⟩
  · exact .refl s

/-- The buffer of a stream, which has one of its own if `buffered`, or will have. -/
structure Owns (s : Stream) (buffered : Bool) : Prop where
  allocated : s.bufMode.allocated = buffered
  internal : s.bufMode.internal = true
  length : s.buffer.length = if buffered then s.bufSize else 0
  one_le_bufSize : 1 ≤ s.bufSize
  heap : s.heap.isSome

/-- A stream that keeps its buffer keeps owning it. -/
theorem Owns.of_kept {buffered : Bool} (h : Owns s buffered) (hkept : Kept s s')
    (hbuffer : s'.buffer.length = s.buffer.length) : Owns s' buffered where
  allocated := by rw [hkept.bufMode, h.allocated]
  internal := by rw [hkept.bufMode, h.internal]
  length := by rw [hbuffer, hkept.bufSize, h.length]
  one_le_bufSize := hkept.bufSize ▸ h.one_le_bufSize
  heap := hkept.heap ▸ h.heap

theorem Owns.bufferAllocated {buffered : Bool} (h : Owns s buffered) : s.bufferAllocated = buffered := by
  rw [Stream.bufferAllocated, h.internal, h.allocated, Bool.true_and]

/-- Both conditions for freeing the buffer are the same. -/
theorem Owns.bufferInternal {buffered : Bool} (h : Owns s buffered) : s.bufferInternal = buffered := by
  have hlength := h.length
  have hpos := h.one_le_bufSize
  rw [Stream.bufferInternal, h.internal, Bool.and_true]
  cases buffered with
  | false =>
    rw [if_neg Bool.false_ne_true, List.length_eq_zero_iff] at hlength
    rw [hlength]
    rfl
  | true =>
    rw [if_pos rfl] at hlength
    cases hbuffer : s.buffer with
    | nil =>
      rw [hbuffer, List.length_nil] at hlength
      omega
    | cons => rfl

/-- A stream that takes what is written to it. -/
structure Taking (s : Stream) : Prop where
  granted : s.file.Granted
  access : s.bufMode.rdonly = false
  no_error : s.error ≠ .error
  not_read : s.prevOp ≠ .read

/-- A write leaves a buffer, and the mode otherwise as it was. -/
theorem commonFwrite_owns {buffered : Bool} (h : Owns s buffered) (hs : Sound s) (ht : Taking s) {b : Block}
    (hs' : Sound (commonFwrite s b).2) : Owns (commonFwrite s b).2 true := by
  have henter := enterWrite_kept s
  -- the mode, after the allocation and in the end
  have hmode : ∃ s₁, allocateBuffer (enterWrite s) = (true, s₁) ∧
      s₁.bufMode = { s.bufMode with allocated := true } ∧ s₁.bufSize = s.bufSize ∧ s₁.heap = s.heap := by
    obtain ⟨g, hg⟩ := Option.isSome_iff_exists.mp h.heap
    rw [allocateBuffer, henter.bufMode, h.internal, h.allocated, henter.heap, hg]
    cases buffered with
    | false => exact ⟨_, rfl, rfl, henter.bufSize, rfl⟩
    | true => exact ⟨_, rfl, by rw [henter.bufMode, ← h.allocated], henter.bufSize, henter.heap.trans hg⟩
  obtain ⟨s₁, halloc, hmode, hsize, hheap⟩ := hmode
  have hkept : Kept s₁ (commonFwrite s b).2 := by
    rw [commonFwrite, if_neg ht.no_error, if_neg (by simp [ht.access]), if_neg (by simp [hs.buffered]), halloc]
    exact fwriteBuffered_kept s₁ b
  have hallocated : (commonFwrite s b).2.bufMode.allocated = true := by rw [hkept.bufMode, hmode]
  refine ⟨hallocated, by rw [hkept.bufMode, hmode, h.internal], ?_,
    by rw [hkept.bufSize, hsize]; exact h.one_le_bufSize, by rw [hkept.heap, hheap]; exact h.heap⟩
  rcases hs'.stored with hb | ⟨-, hnot⟩
  · rw [if_pos rfl, hb.length_buffer]
  · rw [hnot] at hallocated
    contradiction

/-! ## What its file will have -/

/-- After a flush the file has what `f` has, and the next write goes where one to `f` would go. -/
structure Leaves (s : Stream) (f : OpenFile) : Prop where
  content : (flushedFile s).content = f.content
  target : (flushedFile s).target = f.target

theorem Leaves.of_empty {f : OpenFile} (hempty : s.start = s.pos) (hfile : s.file = f) : Leaves s f := by
  have hflush := flushedFile_of_empty hempty
  exact ⟨by rw [hflush, hfile], by rw [hflush, hfile]⟩

/-- What is put to both changes both alike. -/
theorem Leaves.put {f : OpenFile} {data : List Byte} (h : Leaves s f) (hne : data ≠ [])
    (hcontent : (flushedFile s').content = overwrite (flushedFile s).content (flushedFile s).target data)
    (htarget : (flushedFile s').target = (flushedFile s).target + data.length) : Leaves s' (f.put data) where
  content := by rw [hcontent, h.content, h.target, OpenFile.put_content hne]
  target := by rw [htarget, h.target, OpenFile.target_put hne]

/-- A flush sends what is pending, and leaves the rest to what it was. -/
theorem flushedFile_commonFflush (h : Sound s) (hf : s.prevOp = .write → s.file.Granted) :
    flushedFile (commonFflush s).2 = flushedFile s := by
  by_cases hpending : s.prevOp = .write ∧ s.start ≠ s.pos
  · obtain ⟨hop, hne⟩ := hpending
    have hfail : s.file.answer ≠ .fail := (hf hop).succeeds.answer_ne
    rw [commonFflush_pending h hop hne, if_neg hfail, flushedFile_of_empty rfl, flushedFile, if_pos ⟨hop, hne⟩]
  · rw [commonFflush_idle h fun hop => not_not.mp fun hne => hpending ⟨hop, hne⟩]

theorem commonFflush_taking (h : Sound s) (ht : Taking s) : Taking (commonFflush s).2 := by
  by_cases hpending : s.prevOp = .write ∧ s.start ≠ s.pos
  · obtain ⟨hop, hne⟩ := hpending
    have hgranted : (s.file.write (s.load 0 (s.pos - s.start))).2.Granted := by
      have hput := flushedFile_put h ht.granted
      rw [flushedFile, if_pos ⟨hop, hne⟩] at hput
      rw [hput]
      exact OpenFile.put_granted ht.granted _
    rw [commonFflush_pending h hop hne, if_neg ht.granted.succeeds.answer_ne]
    exact ⟨hgranted, ht.access, ht.no_error, ht.not_read⟩
  · rw [commonFflush_idle h fun hop => not_not.mp fun hne => hpending ⟨hop, hne⟩]
    exact ht

/-- A write through a window that is whole, or has room for it. -/
theorem commonFwrite_leaves {f : OpenFile} (h : Sound s) (ht : Taking s) (hheap : s.heap.isSome)
    (hf : Leaves s f) {b : Block} (hne : b.data ≠ []) (hsafe : StepSafe s b.data.length) :
    Sound (commonFwrite s b).2 ∧ Taking (commonFwrite s b).2 ∧ Leaves (commonFwrite s b).2 (f.put b.data) := by
  by_cases hwhole : s.prevOp = .write → Whole s
  · have hmemory : ¬ NoMemory s := by
      rintro ⟨-, -, hnone⟩
      rw [hnone] at hheap
      contradiction
    obtain ⟨-, hwrites, hon⟩ := commonFwrite_put h ⟨ht.no_error, ht.access, hmemory, hwhole⟩ ht.granted hne
    have hplace : place s = (flushedFile s).target := if_neg fun hread => ht.not_read hread.1
    have hcontent := hwrites.content
    have htarget := hwrites.target
    rw [hplace] at hcontent htarget
    refine ⟨hon.sound, ⟨hon.granted, hon.rdonly.trans ht.access, hwrites.error ▸ ht.no_error, ?_⟩,
      hf.put hne hcontent htarget⟩
    rw [hwrites.prevOp]
    exact fun hread => by contradiction
  · -- a flush has shortened the window, and there is room in it
    obtain ⟨hop, hnot⟩ := Classical.not_imp.mp hwhole
    have hopen : s.start ≠ s.end_ := fun hempty => hnot (Or.inl hempty.symm)
    have hfit : s.pos + b.data.length ≤ s.end_ := hsafe.resolve_right hnot
    have hb := h.backed hopen
    have henter : enterWrite s = s := if_neg fun hn => hn hop
    have hcall : commonFwrite s b = fwriteBuffered s b := by
      rw [commonFwrite, if_neg ht.no_error, if_neg (by simp [ht.access]), if_neg (by simp [h.buffered]), henter,
        allocateBuffer_of_backed hb]
    obtain ⟨hwrite, hput⟩ := fwriteBuffered_put_fit h hb hop ht.granted (if_neg hopen).symm hfit
    have hsound := fwriteBuffered_sound h hb hop b
    rw [hcall]
    refine ⟨hsound, ?_, hf.put hne ?_ ?_⟩
    · rw [hwrite]
      exact ⟨ht.granted, ht.access, ht.no_error, ht.not_read⟩
    · rw [hput, OpenFile.put_content hne]
    · rw [hput, OpenFile.target_put hne]

/-- Without a buffer a write goes to the file at once. -/
theorem commonFwrite_unbuffered (ht : Taking s) (hnbf : s.bufMode.nbf = true) {b : Block} (hne : b.data ≠ []) :
    (commonFwrite s b).2 = { s with
      file := s.file.put b.data, prevOp := .write, pos := s.pos + b.data.length
      start := s.pos + b.data.length, end_ := s.pos + b.data.length } := by
  rw [commonFwrite, if_neg ht.no_error, if_neg (by simp [ht.access]), if_pos hnbf, fwriteUnbuffered,
    OpenFile.write_granted ht.granted hne]

/-- `common_fputc` leaves what a write of the byte leaves. -/
theorem commonFputc_state (h : s.bufMode.nbf = false → Sound s) (herror : s.error ≠ .error) (ch : Byte) :
    (commonFputc s ch).2 = (commonFwrite s (.single ch)).2 := by
  by_cases hfast : FastPut s
  · exact commonFputc_eq_fwrite (h hfast.1) hfast herror ch
  · rw [commonFputc_slow hfast]

/-! ## What is known of a stream of the list -/

/-- A stream with a buffer, or with one to come. -/
structure Buffers (s : Stream) (e : OpenStream) : Prop where
  sound : Sound s
  owns : Owns s e.buffered
  bare : e.bare = false

/-- A stream without one. -/
structure Bypasses (s : Stream) (e : OpenStream) : Prop where
  empty : s.start = s.pos
  buffer : s.buffer = []
  not_allocated : s.bufMode.allocated = false
  not_buffered : e.buffered = false
  bare : e.bare = true

/-- What is known of a stream of the list. -/
structure Describes (s : Stream) (e : OpenStream) : Prop where
  buffers : s.bufMode.nbf = false → Buffers s e
  bypasses : s.bufMode.nbf = true → Bypasses s e
  content : (flushedFile s).content = e.file.content
  taking : s.bufMode.rdonly = false → Taking s ∧ Leaves s e.file

variable {e : OpenStream}

/-- What closing the stream leaves. -/
theorem Describes.closed (h : Describes s e) : commonFclose s = e.file.content := by
  cases hnbf : s.bufMode.nbf with
  | false => rw [commonFclose_eq (h.buffers hnbf).sound, h.content]
  | true =>
    rw [commonFclose, commonFflush, if_pos hnbf, ← h.content,
      flushedFile_of_empty (h.bypasses hnbf).empty]

theorem Describes.bufferAllocated (h : Describes s e) : s.bufferAllocated = e.buffered := by
  cases hnbf : s.bufMode.nbf with
  | false => exact (h.buffers hnbf).owns.bufferAllocated
  | true =>
    have hbypasses := h.bypasses hnbf
    rw [Stream.bufferAllocated, hbypasses.not_allocated, Bool.and_false, hbypasses.not_buffered]

theorem Describes.bufferInternal (h : Describes s e) : s.bufferInternal = e.buffered := by
  cases hnbf : s.bufMode.nbf with
  | false => exact (h.buffers hnbf).owns.bufferInternal
  | true =>
    have hbypasses := h.bypasses hnbf
    rw [Stream.bufferInternal, hbypasses.buffer, hbypasses.not_buffered]
    rfl

/-- Only the buffer decides what is freed, and a flush leaves it. -/
theorem flushed_bufferAllocated (s : Stream) : (commonFflush s).2.bufferAllocated = s.bufferAllocated := by
  rw [Stream.bufferAllocated, (commonFflush_kept s).1.bufMode]
  rfl

theorem flushed_bufferInternal (s : Stream) : (commonFflush s).2.bufferInternal = s.bufferInternal := by
  rw [Stream.bufferInternal, (commonFflush_kept s).1.bufMode, (commonFflush_kept s).2]
  rfl

theorem createStream_describes {file : OpenFile} {bufMode : BufMode} {bufSize : Nat}
    {heap : Option (Nat → Byte)} (h : Creatable file bufMode bufSize heap) (p : Nat) (fd : Int) :
    Describes (createStream file bufMode bufSize heap) ⟨p, fd, file, bufMode.nbf, false⟩ where
  buffers hnbf := by
    obtain ⟨hinternal, hsize, hheap⟩ := h.buffered hnbf
    exact ⟨.of_unused (Or.inr ⟨hinternal, h.not_allocated⟩) hnbf hsize rfl rfl rfl rfl,
      ⟨h.not_allocated, hinternal, rfl, hsize, hheap⟩, hnbf⟩
  bypasses hnbf := ⟨rfl, rfl, h.not_allocated, rfl, hnbf⟩
  content := rfl
  taking hrd := by
    refine ⟨⟨h.granted hrd, hrd, ?_, ?_⟩, .of_empty rfl rfl⟩
    · exact fun herror => by contradiction
    · exact fun hread => by contradiction

/-- A write of something. -/
theorem Describes.fwrite (h : Describes s e) (hrd : s.bufMode.rdonly = false) {b : Block} (hne : b.data ≠ [])
    (hsafe : s.bufMode.nbf = false → StepSafe s b.data.length) :
    Describes (commonFwrite s b).2 { e with file := e.file.put b.data, buffered := !e.bare } := by
  obtain ⟨ht, hleaves⟩ := h.taking hrd
  cases hnbf : s.bufMode.nbf with
  | false =>
    obtain ⟨hs, howns, hbare⟩ := h.buffers hnbf
    obtain ⟨hs', ht', hleaves'⟩ := commonFwrite_leaves hs ht howns.heap hleaves hne (hsafe hnbf)
    refine ⟨fun _ => ⟨hs', ?_, hbare⟩, fun hnbf' => ?_, hleaves'.content, fun _ => ⟨ht', hleaves'⟩⟩
    · rw [hbare]
      exact commonFwrite_owns howns hs ht hs'
    · rw [hs'.buffered] at hnbf'
      contradiction
  | true =>
    obtain ⟨hempty, hbuffer, hnot, -, hbare⟩ := h.bypasses hnbf
    have hwrite := commonFwrite_unbuffered ht hnbf hne
    have hflush : flushedFile s = s.file := flushedFile_of_empty hempty
    have hflush' : flushedFile (commonFwrite s b).2 = (flushedFile s).put b.data := by
      rw [hwrite, flushedFile_of_empty rfl, hflush]
    have hleaves' : Leaves (commonFwrite s b).2 (e.file.put b.data) :=
      hleaves.put hne (by rw [hflush', OpenFile.put_content hne]) (by rw [hflush', OpenFile.target_put hne])
    refine ⟨fun hnbf' => ?_, fun _ => ?_, hleaves'.content, fun _ => ⟨?_, hleaves'⟩⟩
    · rw [hwrite] at hnbf'
      exact absurd (hnbf.symm.trans hnbf') fun hbool => by contradiction
    · rw [hwrite]
      exact ⟨rfl, hbuffer, hnot, by rw [hbare]; rfl, hbare⟩
    · rw [hwrite]
      exact ⟨OpenFile.put_granted ht.granted _, ht.access, ht.no_error, fun hread => by contradiction⟩

/-- A flush leaves what the file will have. -/
theorem Describes.flush (h : Describes s e) : Describes (commonFflush s).2 e := by
  cases hnbf : s.bufMode.nbf with
  | true =>
    have hsame : (commonFflush s).2 = s := by rw [commonFflush, if_pos hnbf]
    rw [hsame]
    exact h
  | false =>
    obtain ⟨hs, howns, hbare⟩ := h.buffers hnbf
    obtain ⟨hkept, hbuffer⟩ := commonFflush_kept s
    have hflush : flushedFile (commonFflush s).2 = flushedFile s :=
      flushedFile_commonFflush hs fun hop => (h.taking (hs.writable hop)).1.granted
    refine ⟨fun _ => ⟨commonFflush_sound hs, howns.of_kept hkept (congrArg List.length hbuffer), hbare⟩,
      fun hnbf' => ?_, by rw [hflush, h.content], fun hrd => ?_⟩
    · rw [hkept.bufMode, hnbf] at hnbf'
      contradiction
    · rw [hkept.bufMode] at hrd
      obtain ⟨ht, hleaves⟩ := h.taking hrd
      exact ⟨commonFflush_taking hs ht, by rw [hflush, hleaves.content], by rw [hflush, hleaves.target]⟩

/-- One output call, on a stream that takes it. -/
theorem Describes.write (h : Describes s e) {o : Output} (hsome : o.isNothing = false)
    (hop : o.bytes ≠ [] → SafeWrite s o) :
    ∃ s' n, outputMachine.step s o = some (s', n) ∧ Describes s' (e.write o) := by
  have hwrite {b : Block} (hne : b.data ≠ []) (hbytes : o.bytes = b.data) :
      e.write o = { e with file := e.file.put b.data, buffered := !e.bare } := by
    have hbuffered : (e.buffered || (!e.bare && !o.bytes.isEmpty)) = !e.bare := by
      have hfull : o.bytes.isEmpty = false := by
        rw [hbytes]
        exact List.isEmpty_eq_false_iff.mpr hne
      rw [hfull, Bool.not_false, Bool.and_true]
      cases hbare : e.bare with
      | false => rw [Bool.not_false, Bool.or_true]
      | true =>
        have hnbf : s.bufMode.nbf = true := by
          cases hnbf : s.bufMode.nbf with
          | false => exact absurd (hbare.symm.trans (h.buffers hnbf).bare) fun hbool => by contradiction
          | true => rfl
        rw [(h.bypasses hnbf).not_buffered]
        rfl
    rw [OpenStream.write, hbuffered, hbytes]
  cases o with
  | fwrite b =>
    have hne : b.data ≠ [] := fun hnil => by
      rw [Output.isNothing, hnil] at hsome
      contradiction
    obtain ⟨hrd, hsafe⟩ := hop hne
    refine ⟨_, _, rfl, ?_⟩
    rw [hwrite hne rfl]
    exact h.fwrite hrd hne hsafe
  | fputc ch =>
    have hne : (Block.single ch).data ≠ [] := List.cons_ne_nil _ _
    obtain ⟨hrd, hsafe⟩ := hop hne
    refine ⟨_, _, rfl, ?_⟩
    rw [hwrite hne rfl, commonFputc_state (fun hnbf => (h.buffers hnbf).sound) (h.taking hrd).1.no_error ch]
    exact h.fwrite hrd hne hsafe
  | fflush =>
    refine ⟨_, _, rfl, ?_⟩
    have hsame : e.write .fflush = e := by
      rw [OpenStream.write, Output.bytes, OpenFile.put_nil, List.isEmpty_nil, Bool.not_true, Bool.and_false,
        Bool.or_false]
    rw [hsame]
    exact h.flush

/-- A stream on another file keeps its buffer. -/
theorem Describes.reset (h : Describes s e) {r : StdioState.Reopened}
    (hr : r.access ≠ .rdonly → r.file.Granted) (fd : Int) :
    Describes (StdioState.reset (commonFflush s).2 r) { e with fd := fd, file := r.file } := by
  have hflush := h.flush
  refine ⟨fun hnbf => ?_, fun hnbf => ?_, rfl, fun hrd => ⟨⟨?_, hrd, ?_, ?_⟩, .of_empty rfl rfl⟩⟩
  · obtain ⟨hs, howns, hbare⟩ := hflush.buffers hnbf
    have howns' : Owns (StdioState.reset (commonFflush s).2 r) e.buffered :=
      ⟨howns.allocated, howns.internal, howns.length, howns.one_le_bufSize, howns.heap⟩
    have hstored : Stored (StdioState.reset (commonFflush s).2 r) :=
      hs.stored.imp (fun hb => ⟨hb.length_buffer, hb.mode, hb.not_lazy⟩) id
    exact ⟨.of_unused hstored hnbf hs.one_le_bufSize hs.no_fault rfl rfl rfl, howns', hbare⟩
  · obtain ⟨-, hbuffer, hnot, hbuffered, hbare⟩ := hflush.bypasses hnbf
    exact ⟨rfl, hbuffer, hnot, hbuffered, hbare⟩
  · exact hr (of_decide_eq_false hrd)
  · exact fun herror => by contradiction
  · exact fun hread => by contradiction

/-! ## The list -/

/-- The stream at an address. -/
def StreamList.stream (l : StreamList) (p : Nat) : Option Stream := (l.file p).map File.stream

section
variable {l l' : StreamList} {p q : Nat} {ps : List Nat}

theorem StreamList.stream_eq_none : l.stream p = none ↔ l.file p = none := Option.map_eq_none_iff

theorem StreamList.file_of_stream {stream : Stream} (h : l.stream p = some stream) :
    ∃ file, l.file p = some file ∧ file.stream = stream :=
  Option.map_eq_some_iff.mp h

/-- A store to one stream, that leaves the links alone. -/
theorem Lists.store (h : Lists l ps) {file : File} (hfile : l.file p = some file) (file' : File)
    (hlinks : file'.links = file.links) : Lists { l with file := Function.update l.file p (some file') } ps := by
  have hsame (q : Nat) :
      StreamList.links { l with file := Function.update l.file p (some file') } q = l.links q := by
    by_cases hq : q = p
    · subst hq
      simp only [StreamList.links, Function.update_self, hfile, Option.map_some, hlinks]
    · simp only [StreamList.links, Function.update_of_ne hq]
  refine ⟨h.nodup, ?_, h.head, h.linked.congr fun q _ => hsame q⟩
  intro q
  rw [h.alive q]
  by_cases hq : q = p
  · subst hq
    simp [hfile]
  · simp [hq]

theorem StreamList.modify_stream {f : File → File} (hf : ∀ file, (f file).stream = file.stream)
    (h : l.modify p f = some l') (q : Nat) : l'.stream q = l.stream q := by
  obtain ⟨file, hfile, rfl⟩ := Option.map_eq_some_iff.mp h
  by_cases hq : q = p
  · subst hq
    simp only [StreamList.stream, Function.update_self, Option.map_some, hf, hfile]
  · simp only [StreamList.stream, Function.update_of_ne hq]

theorem StreamList.setNext_stream {v : Option Nat} (h : l.setNext p v = some l') (q : Nat) :
    l'.stream q = l.stream q :=
  modify_stream (f := fun file => { file with links := { file.links with next := v } }) (fun _ => rfl) h q

theorem StreamList.setPrev_stream {v : Option Nat} (h : l.setPrev p v = some l') (q : Nat) :
    l'.stream q = l.stream q :=
  modify_stream (f := fun file => { file with links := { file.links with prev := v } }) (fun _ => rfl) h q

theorem StreamList.setNextOf_stream {o v : Option Nat} (h : l.setNextOf o v = some l') (q : Nat) :
    l'.stream q = l.stream q := by
  cases o with
  | none =>
    cases h
    rfl
  | some r => exact setNext_stream h q

theorem StreamList.setPrevOf_stream {o v : Option Nat} (h : l.setPrevOf o v = some l') (q : Nat) :
    l'.stream q = l.stream q := by
  cases o with
  | none =>
    cases h
    rfl
  | some r => exact setPrev_stream h q

/-- `delete_stream` takes one stream and leaves the others. -/
theorem deleteStream_stream (h : deleteStream p l = some l') (q : Nat) :
    l'.stream q = if q = p then none else l.stream q := by
  cases hfile : l.file p with
  | none =>
    rw [deleteStream, hfile] at h
    cases h
  | some file =>
    rw [deleteStream_eq hfile] at h
    obtain ⟨l₁, h₁, h⟩ := Option.bind_eq_some_iff.mp h
    obtain ⟨l₂, h₂, h⟩ := Option.bind_eq_some_iff.mp h
    cases h
    by_cases hq : q = p
    · subst hq
      simp only [StreamList.stream, StreamList.free, Function.update_self, Option.map_none, if_true]
    · rw [if_neg hq, ← StreamList.setNextOf_stream h₁ q, ← StreamList.setPrevOf_stream h₂ q]
      simp only [StreamList.stream, StreamList.free, Function.update_of_ne hq]

/-- `create_stream` adds one stream and leaves the others. -/
theorem createFile_stream {stream : Stream} {o : Option Nat}
    (h : createFile (some p) stream l = some (l', o)) (q : Nat) :
    l'.stream q = if q = p then some stream else l.stream q := by
  obtain ⟨l₄, hinsert, heq⟩ := Option.map_eq_some_iff.mp h
  cases heq
  simp only [insertStream, Option.bind_eq_bind] at hinsert
  obtain ⟨l₁, h₁, hinsert⟩ := Option.bind_eq_some_iff.mp hinsert
  obtain ⟨l₂, h₂, hinsert⟩ := Option.bind_eq_some_iff.mp hinsert
  have hhead : l'.stream q = l₂.stream q := by
    cases hold : l₂.head with
    | none =>
      rw [hold] at hinsert
      cases hinsert
      rfl
    | some head =>
      rw [hold] at hinsert
      obtain ⟨l₃, h₃, hinsert⟩ := Option.bind_eq_some_iff.mp hinsert
      cases hinsert
      exact StreamList.setNext_stream h₃ q
  rw [hhead, StreamList.setNext_stream h₂ q, StreamList.setPrev_stream h₁ q]
  by_cases hq : q = p
  · subst hq
    simp only [StreamList.stream, Function.update_self, Option.map_some, if_true]
  · rw [if_neg hq]
    simp only [StreamList.stream, Function.update_of_ne hq]

end

/-! ## The loops of `close_all_streams` -/

section
open StdioState
variable {t : StdioState} {es : List OpenStream}

/-- The stream of an entry. -/
def Shows (t : StdioState) (e : OpenStream) (P : Stream → Prop) : Prop :=
  ∃ stream, t.streams.stream e.stream = some stream ∧ P stream

/-- The first loop flushes every stream, and frees the buffers that there are. -/
theorem flushLoop_spec {head : Option Nat} (hvisits : Visits t.streams.links head (es.map OpenStream.stream))
    (hnodup : (es.map OpenStream.stream).Nodup) (hes : ∀ e ∈ es, Shows t e (Describes · e)) {fuel : Nat}
    (hfuel : es.length ≤ fuel) :
    ∃ t', flushLoop fuel head t = some ((es.filter OpenStream.buffered).map OpenStream.stream, t') ∧
      t'.fd = t.fd ∧ t'.table = t.table ∧ (∀ q, t'.streams.links q = t.streams.links q) ∧
      ∀ q, t'.streams.stream q =
        if q ∈ es.map OpenStream.stream then (t.streams.stream q).map fun s => (commonFflush s).2
        else t.streams.stream q := by
  induction es generalizing t head fuel with
  | nil =>
    cases hvisits
    exact ⟨t, by rw [flushLoop]; rfl, rfl, rfl, fun _ => rfl, fun q => (if_neg List.not_mem_nil).symm⟩
  | cons e es ih =>
    rw [List.map_cons] at hvisits hnodup
    cases hvisits with
    | cons hlinks hrest =>
      obtain ⟨fuel, rfl⟩ := Nat.exists_eq_add_one_of_ne_zero
        (Nat.ne_of_gt (Nat.lt_of_lt_of_le (Nat.succ_pos _) hfuel))
      obtain ⟨hnot, hnodup⟩ := List.nodup_cons.mp hnodup
      obtain ⟨file, hfile, rfl⟩ := StreamList.exists_file hlinks
      obtain ⟨stream, hstream, hdescribes⟩ := hes e List.mem_cons_self
      obtain ⟨file', hfile', rfl⟩ := StreamList.file_of_stream hstream
      cases hfile.symm.trans hfile'
      obtain ⟨t₁, ht₁⟩ : ∃ t₁ : StdioState, t₁ = { t with streams := { t.streams with
        file := Function.update t.streams.file e.stream (some file.flushed) } } := ⟨_, rfl⟩
      have hsame (q : Nat) : t₁.streams.links q = t.streams.links q := by
        by_cases hq : q = e.stream
        · subst hq
          simp only [ht₁, StreamList.links, Function.update_self, hfile, Option.map_some, File.flushed]
        · simp only [ht₁, StreamList.links, Function.update_of_ne hq]
      have hothers (q : Nat) (hq : q ≠ e.stream) : t₁.streams.stream q = t.streams.stream q := by
        simp only [ht₁, StreamList.stream, Function.update_of_ne hq]
      have hes₁ : ∀ e' ∈ es, Shows t₁ e' (Describes · e') := by
        intro e' he'
        obtain ⟨stream, hstream, hdescribes⟩ := hes e' (List.mem_cons_of_mem e he')
        refine ⟨stream, ?_, hdescribes⟩
        rw [hothers e'.stream fun heq => hnot (heq ▸ List.mem_map_of_mem he'), hstream]
      obtain ⟨t', hloop, hfd, htable, hlinks', hstreams⟩ :=
        ih (hrest.congr hsame) hnodup hes₁ (Nat.le_of_succ_le_succ hfuel)
      refine ⟨t', ?_, by rw [hfd, ht₁], by rw [htable, ht₁], fun q => (hlinks' q).trans (hsame q), ?_⟩
      · rw [flushLoop, hfile]
        simp only [Option.bind_eq_bind, Option.bind_some]
        rw [← ht₁, hloop]
        have hbuffer : file.flushed.stream.bufferInternal = e.buffered :=
          (flushed_bufferInternal file.stream).trans hdescribes.bufferInternal
        rw [Option.bind_some, hbuffer, List.filter_cons]
        cases e.buffered <;> rfl
      · intro q
        rw [hstreams q, List.map_cons]
        by_cases hq : q = e.stream
        · subst hq
          rw [if_neg hnot, if_pos List.mem_cons_self, hstream, ht₁]
          simp only [StreamList.stream, Function.update_self, Option.map_some, File.flushed]
        · simp only [hothers q hq, List.mem_cons, hq, false_or]

/-- The second loop closes the descriptors and frees the streams. -/
theorem closeLoop_spec {head : Option Nat} (hvisits : Visits t.streams.links head (es.map OpenStream.stream))
    (hnodup : (es.map OpenStream.stream).Nodup)
    (hes : ∀ e ∈ es, t.fd e.stream = e.fd ∧ Shows t e fun s => s.file.content = e.file.content)
    (hw : WellFormed t.table) (hbound : ∀ e ∈ es, t.table.binding e.fd ≠ none)
    (hdistinct : (es.map OpenStream.fd).Nodup) {fuel : Nat} (hfuel : es.length ≤ fuel) :
    ∃ t', closeLoop fuel head t = some (es.map OpenStream.closed, t') ∧ t'.streams.head = none ∧
      WellFormed t'.table ∧ t'.table.binding = OpenStreams.freeAll es t.table.binding ∧
      ∀ q, t'.streams.file q = if q ∈ es.map OpenStream.stream then none else t.streams.file q := by
  induction es generalizing t head fuel with
  | nil =>
    cases hvisits
    exact ⟨{ t with streams := { t.streams with head := none } }, by rw [closeLoop]; rfl, rfl, hw, rfl,
      fun q => (if_neg List.not_mem_nil).symm⟩
  | cons e es ih =>
    rw [List.map_cons] at hvisits hnodup hdistinct
    cases hvisits with
    | cons hlinks hrest =>
      obtain ⟨fuel, rfl⟩ := Nat.exists_eq_add_one_of_ne_zero
        (Nat.ne_of_gt (Nat.lt_of_lt_of_le (Nat.succ_pos _) hfuel))
      obtain ⟨hnot, hnodup⟩ := List.nodup_cons.mp hnodup
      obtain ⟨hnotfd, hdistinct⟩ := List.nodup_cons.mp hdistinct
      obtain ⟨file, hfile, rfl⟩ := StreamList.exists_file hlinks
      obtain ⟨hfd, stream, hstream, hcontent⟩ := hes e List.mem_cons_self
      obtain ⟨file', hfile', rfl⟩ := StreamList.file_of_stream hstream
      cases hfile.symm.trans hfile'
      have hvalid : validateFd t.table (t.fd e.stream) = true := by
        rw [validateFd_eq hw, hfd]
        exact Option.isSome_iff_ne_none.mpr (hbound e List.mem_cons_self)
      obtain ⟨table, hclose, hbinding, -, hw₁⟩ := closeFd_spec hw hvalid
      obtain ⟨t₁, ht₁⟩ : ∃ t₁ : StdioState, t₁ = { t with
        streams := t.streams.free e.stream, table := table } := ⟨_, rfl⟩
      have hothers (q : Nat) (hq : q ≠ e.stream) : t₁.streams.file q = t.streams.file q := by
        simp only [ht₁, StreamList.free, Function.update_of_ne hq]
      have hrest₁ : Visits t₁.streams.links file.links.prev (es.map OpenStream.stream) :=
        hrest.congr_of_mem fun q hq => congrArg (Option.map File.links) (hothers q fun heq => hnot (heq ▸ hq))
      have hes₁ : ∀ e' ∈ es, t₁.fd e'.stream = e'.fd ∧ Shows t₁ e' fun s => s.file.content = e'.file.content := by
        intro e' he'
        obtain ⟨hfd', stream, hstream, hcontent⟩ := hes e' (List.mem_cons_of_mem e he')
        have hne : e'.stream ≠ e.stream := fun heq => hnot (heq ▸ List.mem_map_of_mem he')
        refine ⟨by rw [ht₁]; exact hfd', stream, ?_, hcontent⟩
        rw [StreamList.stream, hothers e'.stream hne]
        exact hstream
      have htable : t₁.table = table := by rw [ht₁]
      have hbound₁ : ∀ e' ∈ es, t₁.table.binding e'.fd ≠ none := by
        intro e' he'
        rw [htable, hbinding, hfd, FdMap.free, Function.update_of_ne]
        · exact hbound e' (List.mem_cons_of_mem e he')
        · exact fun heq => hnotfd (heq ▸ List.mem_map_of_mem he')
      obtain ⟨t', hloop, hhead', hw', hfree, hfiles⟩ :=
        ih hrest₁ hnodup hes₁ (htable ▸ hw₁) hbound₁ hdistinct (Nat.le_of_succ_le_succ hfuel)
      refine ⟨t', ?_, hhead', hw', ?_, ?_⟩
      · rw [closeLoop, hfile]
        simp only [hclose, Option.bind_eq_bind, Option.bind_some]
        rw [← ht₁, hloop]
        simp only [Option.bind_some, hfd, hcontent, List.map_cons]
        rfl
      · rw [hfree, htable, hbinding, hfd]
        rfl
      · intro q
        rw [hfiles q, List.map_cons]
        by_cases hq : q = e.stream
        · subst hq
          rw [if_neg hnot, if_pos List.mem_cons_self, ht₁]
          exact Function.update_self _ _ _
        · simp only [hothers q hq, List.mem_cons, hq, false_or]

end

end WindowsLibc.Stdio
