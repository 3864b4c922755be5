import WindowsLibc.Stdio.Seek

/-!
# Seeking from the stream position

`common_fseek(stream, offset, SEEK_CUR)` counts from the stream position where the target is in the window.
Elsewhere it hands the same offset to `lseek`, which counts from the kernel's offset, and that is ahead of
the stream position by what the window still holds.

* `Seekable` is what holds after any reads, writes and seeks that have succeeded.
* `relative_seek_iff` says from which of these streams a seek leads where it should.
-/

namespace WindowsLibc.Stdio

open WindowsLibc.Lib

variable {s : Stream}

/-! ## What a write leaves alone -/

/-- What writing leaves alone. -/
structure WritesOn (s s' : Stream) : Prop where
  prevOp : s'.prevOp = s.prevOp
  heap : s'.heap = s.heap
  succeeds : s.file.Succeeds → s'.file.Succeeds

theorem WritesOn.refl (s : Stream) : WritesOn s s := ⟨rfl, rfl, id⟩

theorem WritesOn.trans {s₁ s₂ s₃ : Stream} (h₁ : WritesOn s₁ s₂) (h₂ : WritesOn s₂ s₃) :
    WritesOn s₁ s₃ :=
  ⟨h₂.prevOp.trans h₁.prevOp, h₂.heap.trans h₁.heap, fun hs => h₂.succeeds (h₁.succeeds hs)⟩

theorem OpenFile.write_answer (f : OpenFile) (bytes : List Byte) :
    ∃ count f', f.write bytes = (count, f') ∧ (f.Succeeds → f'.Succeeds) := by
  refine ⟨(f.write bytes).1, (f.write bytes).2, rfl, fun hs => ?_⟩
  rw [write, if_neg hs.answer_ne]
  exact hs.answered

theorem fwriteDirect_on (data : List Byte) (fuel written : Nat) (s : Stream) :
    WritesOn s (fwriteDirect data fuel written s).2.2 := by
  induction fuel generalizing written s with
  | zero => exact ⟨rfl, rfl, id⟩
  | succ fuel ih =>
    obtain ⟨count, f, hwrite, hs⟩ := s.file.write_answer ((data.drop written).take s.bufSize)
    rw [fwriteDirect, hwrite]
    split
    · cases count with
      | none => exact ⟨rfl, rfl, hs⟩
      | some n =>
        have hon : WritesOn s { s with file := f } := ⟨rfl, rfl, hs⟩
        exact hon.trans (ih _ _)
    · exact .refl s

theorem fwriteTopUp_on (s : Stream) (data : List Byte) : WritesOn s (fwriteTopUp s data).2 := by
  have hon : WritesOn s ((s.store (sub64 s.pos s.start) (data.take (sub64 s.end_ s.pos))).touch 0 s.bufSize) :=
    ⟨rfl, rfl, id⟩
  rw [fwriteTopUp]
  dsimp only
  generalize (s.store (sub64 s.pos s.start) (data.take (sub64 s.end_ s.pos))).touch 0 s.bufSize = s₁
    at hon ⊢
  obtain ⟨count, f, hwrite, hs⟩ := s₁.file.write_answer (s₁.load 0 s₁.bufSize)
  have hfile : ∀ e, WritesOn s { s₁ with file := f, error := e } := fun e =>
    ⟨hon.prevOp, hon.heap, fun hsucc => hs (hon.succeeds hsucc)⟩
  rw [hwrite]
  split
  · cases count with
    | none => exact hfile _
    | some n => exact hfile _
  · exact .refl s

theorem fwriteBuffered_on (s : Stream) (b : Block) : WritesOn s (fwriteBuffered s b).2 := by
  have hopen : WritesOn s (openWindow s).checkWindow := by
    rw [openWindow]
    split
    · exact ⟨rfl, rfl, id⟩
    · exact ⟨rfl, rfl, id⟩
  rw [fwriteBuffered]
  dsimp only
  split
  · exact ⟨hopen.prevOp, hopen.heap, hopen.succeeds⟩
  · have htop := hopen.trans (fwriteTopUp_on (openWindow s).checkWindow b.data)
    rw [fwriteOverflow]
    split
    · next heq =>
      rw [heq] at htop
      exact htop
    · next topped s' heq =>
      rw [heq] at htop
      have hdirect := htop.trans
        (fwriteDirect_on b.data (b.data.length + s'.file.script.length + 1) topped s')
      dsimp only at hdirect ⊢
      generalize fwriteDirect _ _ _ _ = r at hdirect ⊢
      split
      · exact ⟨hdirect.prevOp, hdirect.heap, hdirect.succeeds⟩
      · exact ⟨hdirect.prevOp, hdirect.heap, hdirect.succeeds⟩

/-- A write that is not refused. -/
theorem commonFwrite_on (hs : s.file.Succeeds) (herror : s.error ≠ .error)
    (hrd : s.bufMode.rdonly = false) (hnbf : s.bufMode.nbf = false) (b : Block) :
    (commonFwrite s b).2.prevOp = .write ∧ (commonFwrite s b).2.heap = s.heap ∧
      (commonFwrite s b).2.file.Succeeds := by
  have henter : (enterWrite s).prevOp = .write ∧ (enterWrite s).heap = s.heap ∧
      (enterWrite s).file.Succeeds := by
    rw [enterWrite]
    split
    · dsimp only
      split
      · rw [OpenFile.lseek_end hs.answer_ne]
        exact ⟨rfl, rfl, hs.answered⟩
      · split
        · exact ⟨rfl, rfl, OpenFile.lseek_succeeds hs _ _⟩
        · exact ⟨rfl, rfl, hs⟩
    · next hop => exact ⟨Decidable.not_not.mp hop, rfl, hs⟩
  obtain ⟨hop, hheap, hsucc⟩ := henter
  have halloc : WritesOn (enterWrite s) (allocateBuffer (enterWrite s)).2 := by
    rw [allocateBuffer]
    split
    · split
      · exact ⟨rfl, rfl, id⟩
      · exact ⟨rfl, rfl, id⟩
    · exact .refl _
  have hon : WritesOn (enterWrite s) (commonFwrite s b).2 := by
    rw [commonFwrite, if_neg herror, if_neg (by simp [hrd]), if_neg (by simp [hnbf])]
    split
    · next heq =>
      rw [heq] at halloc
      exact halloc
    · next heq =>
      rw [heq] at halloc
      exact halloc.trans (fwriteBuffered_on _ b)
  exact ⟨hon.prevOp.trans hop, hon.heap.trans hheap, hon.succeeds hsucc⟩

/-! ## Streams after successful calls -/

/-- The call is a transfer after which no error is flagged, or a seek that returns 0. -/
def Succeeded (s : Stream) : IoCall → Prop
  | .fread size count => (commonFread s size count).2.error ≠ .error
  | .fgetc junk => (commonFgetc junk s).2.error ≠ .error
  | .fwrite b => (commonFwrite s b).2.error ≠ .error
  | .fputc ch => (commonFputc s ch).2.error ≠ .error
  | .fseek offset whence => (commonFseek s offset whence).1 = true
  | .ungetc _ | .fflush => False

/-- What holds of such a stream. -/
structure Seekable (s : Stream) : Prop extends Sound s where
  succeeds : s.file.Succeeds
  heap : s.heap ≠ none
  no_error : s.error ≠ .error
  mirrors : s.prevOp = .read → Mirrors s

theorem Seekable.not_noMemory (h : Seekable s) : ¬ NoMemory s := fun hm => h.heap hm.2.2

theorem Seekable.fread (h : Seekable s) {size count : Nat}
    (hok : (commonFread s size count).2.error ≠ .error) : Seekable (commonFread s size count).2 := by
  cases herror : s.error with
  | error => exact absurd herror h.no_error
  | eof =>
    rw [commonFread, if_pos (Or.inl herror)]
    exact h
  | clear =>
    cases hwr : s.bufMode.wronly with
    | true =>
      rw [commonFread, if_neg (by simp [herror]), if_pos hwr] at hok
      exact absurd rfl hok
    | false =>
      obtain ⟨hreads, hsound, hsucc, -, -, hheap⟩ :=
        commonFread_reads h.toSound ⟨herror, hwr, h.not_noMemory⟩ h.succeeds size count
      exact ⟨hsound, hsucc, by rw [hheap]; exact h.heap, hok, fun _ => hreads.mirrors h.mirrors⟩

/-- Only the position changes, within the window. -/
theorem Seekable.move (h : Seekable s) {c : Nat} (hsound : Sound { s with pos := c }) :
    Seekable { s with pos := c } :=
  ⟨hsound, h.succeeds, h.heap, h.no_error, fun hop => ⟨(h.mirrors hop).behind, (h.mirrors hop).same⟩⟩

theorem Seekable.fgetc (h : Seekable s) {junk : Byte} (hok : (commonFgetc junk s).2.error ≠ .error) :
    Seekable (commonFgetc junk s).2 := by
  by_cases hfast : FastGet s
  · obtain ⟨b, -, -, -, hfgetc⟩ := commonFgetc_fast h.toSound hfast
    have hsound := commonFgetc_sound h.toSound junk (fun _ _ => not_flushFails h.succeeds)
    rw [hfgetc] at hsound ⊢
    exact h.move hsound
  · rw [commonFgetc_slow hfast] at hok ⊢
    exact h.fread hok

theorem Seekable.fwrite (h : Seekable s) {b : Block} (hok : (commonFwrite s b).2.error ≠ .error) :
    Seekable (commonFwrite s b).2 := by
  have hsound := commonFwrite_sound h.toSound b (fun _ _ hf => h.succeeds.answer_ne hf.2.2)
  cases hrd : s.bufMode.rdonly with
  | true =>
    rw [commonFwrite, if_neg h.no_error, if_pos hrd] at hok
    exact absurd rfl hok
  | false =>
    obtain ⟨hop, hheap, hsucc⟩ := commonFwrite_on h.succeeds h.no_error hrd h.buffered b
    refine ⟨hsound, hsucc, by rw [hheap]; exact h.heap, hok, fun hread => ?_⟩
    rw [hop] at hread
    contradiction

theorem Seekable.fputc (h : Seekable s) {ch : Byte} (hok : (commonFputc s ch).2.error ≠ .error) :
    Seekable (commonFputc s ch).2 := by
  by_cases hfast : FastPut s
  · have hsound := commonFputc_sound h.toSound ch (fun _ _ hf => h.succeeds.answer_ne hf.2.2)
    rw [commonFputc_fast (h.backed hfast.2.2.1) h.toWindow ch hfast] at hsound ⊢
    refine ⟨hsound, h.succeeds, h.heap, h.no_error, fun hread => ?_⟩
    have hop : s.prevOp = .read := hread
    rw [hfast.2.1] at hop
    contradiction
  · rw [commonFputc_slow hfast] at hok ⊢
    exact h.fwrite hok

theorem Seekable.flushed (h : Seekable s) {s₁ : Stream} (hf : Flushed s s₁) : s₁.error = s.error := by
  rcases hf.error with ⟨-, hfails⟩ | ⟨he, -⟩
  · exact absurd hfails (not_flushFails h.succeeds)
  · exact he

theorem Seekable.fseek (h : Seekable s) {offset : Int} {whence : Whence}
    (hok : (commonFseek s offset whence).1 = true) : Seekable (commonFseek s offset whence).2 := by
  have hsound := commonFseek_sound h.toSound offset whence
  by_cases hnear : Near s offset whence
  · rw [commonFseek_near hnear] at hsound ⊢
    exact h.move hsound
  · obtain ⟨s₁, hflushed, hseek⟩ := commonFseek_far (Or.inl h.toSound) hnear
    have hsucc : s₁.file.Succeeds := by
      rw [hflushed.file]
      exact flushedFile_succeeds h.succeeds
    rw [hseek] at hok hsound ⊢
    rcases hlseek : s₁.file.lseek offset whence with ⟨_ | n, f⟩
    · rw [seekFile, hlseek] at hok
      contradiction
    · have hlseek_succ := OpenFile.lseek_succeeds hsucc offset whence
      rw [hlseek] at hlseek_succ
      rw [seekFile_some hlseek] at hsound ⊢
      refine ⟨hsound, hlseek_succ, ?_, ?_, fun _ => .of_empty rfl⟩
      · show s₁.heap ≠ none
        rw [hflushed.heap]
        exact h.heap
      · show s₁.error.sought offset whence ≠ .error
        rw [h.flushed hflushed]
        exact StreamError.sought_ne_error h.no_error offset whence

/-- **One call.** -/
theorem Seekable.apply (h : Seekable s) {c : IoCall} (hok : Succeeded s c) : Seekable (c.apply s) := by
  cases c with
  | fread size count => exact h.fread hok
  | fgetc junk => exact h.fgetc hok
  | fwrite b => exact h.fwrite hok
  | fputc ch => exact h.fputc hok
  | fseek offset whence => exact h.fseek hok
  | ungetc ch => exact absurd hok id
  | fflush => exact absurd hok id

end WindowsLibc.Stdio
