import WindowsLibc.Stdio.Refinement

/-!
# Flushing an output stream

`common_fflush` moves `start` up to `pos` and leaves `end` where it was. The window is then
*shortened*: less than a buffer long. As long as what is written next fits into it, nothing is
amiss. But the overflow branch of `common_fwrite` sends `buf_size` bytes whatever the window, so an
overflow in a shortened window sends stale bytes along.

`flush_transparent_iff` says that this is the only way in which inserted flushes show: the file is
the concatenation of the bytes written, as it is without the flushes, exactly when no write
overflows a shortened window. The argument is one account: `held`, the bytes sent or still
pending, grows by what is written (`StepSafe`) or by more than that, and never shrinks.
-/

namespace WindowsLibc.Stdio

open WindowsLibc.Lib

variable {s : Stream}

/-! ## Streams that only write -/

/-- The output calls, and the flushes between them. -/
inductive Output where
  | fwrite (b : Block)
  | fputc (ch : Byte)
  | fflush

def Output.bytes : Output → List Byte
  | .fwrite b => b.data
  | .fputc ch => [ch]
  | .fflush => []

/-- Everything a sequence of calls writes, in order. -/
def written (os : List Output) : List Byte := os.flatMap Output.bytes

/-- The sequence without its flushes. -/
def unflushed (os : List Output) : List Output :=
  os.filter fun o => match o with
    | .fflush => false
    | _ => true

/-- The output is the returned item count (for a flush, `1` on success). -/
def outputMachine : Machine Stream Output Nat where
  step
    | s, .fwrite b => some ((commonFwrite s b).2, (commonFwrite s b).1)
    | s, .fputc ch => some ((commonFputc s ch).2, (commonFputc s ch).1.toList.length)
    | s, .fflush => some ((commonFflush s).2, (commonFflush s).1.toNat)

/-- A stream that has only been written to: the kernel stands at the end of the file. -/
structure Appending (s : Stream) : Prop where
  usable : Usable s
  stored : Stored s
  writable : s.bufMode.rdonly = false
  error : s.error = .clear
  offset : s.file.offset = s.file.content.length
  window : Window s
  phase : (s.prevOp = .nothing ∧ s.start = s.end_) ∨ (s.prevOp = .write ∧ Backed s)

/-- What has been sent, and what is pending in the window. -/
def held (s : Stream) : List Byte := s.file.content ++ s.buffer.take (s.pos - s.start)

/-- A write of `n` bytes fits the window, or the window is not a shortened one. -/
def StepSafe (s : Stream) (n : Nat) : Prop :=
  s.pos + n ≤ s.end_ ∨ s.end_ = s.start ∨ s.end_ = s.start + s.bufSize

/-- The condition on one call, read off the stream before it. -/
def FlushSafe (s : Stream) : Output → Prop
  | .fflush => True
  | o => StepSafe s o.bytes.length

/-- The window is empty or a whole buffer long. -/
def Whole (s : Stream) : Prop := s.end_ = s.start ∨ s.end_ = s.start + s.bufSize

/-! ## One call -/

/-- How the account moves when `data` is written. -/
structure Accounted (s : Stream) (data : List Byte) (s' : Stream) : Prop where
  appending : Appending s'
  pos : s'.pos = s.pos + data.length
  safe : StepSafe s data.length → held s' = held s ++ data
  stale : ¬ StepSafe s data.length → (held s).length + data.length < (held s').length

/-- Writing at the end of the file appends. -/
theorem receives_append {f f' : OpenFile} {bytes : List Byte} (hrec : f.Receives f' bytes)
    (hoff : f.offset = f.content.length) :
    f'.content = f.content ++ bytes ∧ f'.offset = f'.content.length := by
  have hcontent : f'.content = f.content ++ bytes := by
    rw [hrec.content, hoff, overwrite_length]
  refine ⟨hcontent, ?_⟩
  rw [hrec.offset, hcontent, List.length_append, hoff]

/-- Data that fits is held behind what was. -/
theorem held_store (hb : Backed s) (hw : Window s) (data : List Byte) {e : Nat} :
    held { s with
      end_ := e, buffer := overwrite s.buffer (s.pos - s.start) data,
      pos := s.pos + data.length } = held s ++ data := by
  have hstart := hw.start_le
  have hpos := hw.pos_le
  have hfits := hw.fits
  have hlen := hb.length_buffer
  have htake := take_overwrite (show s.pos - s.start ≤ s.buffer.length by omega) data
  simp only [held]
  rw [show s.pos + data.length - s.start = s.pos - s.start + data.length by omega, htake,
    List.append_assoc]

/-- The overflow branch: the data is held, behind `buf_size - (end - start)` stale bytes. -/
theorem fwriteOverflow_held {b : Block} (hap : Appending s) (hb : Backed s) (hop : s.prevOp = .write)
    (hover : s.end_ < s.pos + b.data.length) :
    ∃ s', fwriteOverflow s b = (b.count, s') ∧ Appending s' ∧ s'.end_ = s'.start + s'.bufSize ∧
      s'.pos = s.pos + b.data.length ∧
      (s.end_ = s.start + s.bufSize → held s' = held s ++ b.data) ∧
      (s.end_ ≠ s.start + s.bufSize →
        (held s).length + b.data.length < (held s').length) := by
  have hw := hap.window
  have hstart := hw.start_le
  have hpos := hw.pos_le
  have hfits := hw.fits
  have hlen := hb.length_buffer
  obtain ⟨direct, rest, f', buf, hr, hrec, hdata, htotal, _, hle, hbuf, hrest⟩ :=
    fwriteOverflow_spec (b := b) hap.usable hb hw (Nat.le_of_eq hap.offset)
      (by omega)
  obtain ⟨hcontent, hoff⟩ := receives_append hrec hap.offset
  have hb' := hb.update (f := f') (e := s.error) (d := buf)
    (a := s.pos + toppedCount s + direct.length)
    (b := s.pos + toppedCount s + direct.length + s.bufSize) (c := s.pos + b.data.length)
    (o := s.prevOp) hbuf
  have hpend : s.pos + b.data.length - (s.pos + toppedCount s + direct.length) = rest.length := by
    omega
  refine ⟨_, hr, ?_, rfl, rfl, ?_, ?_⟩
  · exact {
      usable := hap.usable.update hrec.succeeds hrec.append
      stored := Or.inl hb'
      writable := hap.writable
      error := hap.error
      offset := hoff
      window := ⟨by simp only; omega, by simp only; omega, Nat.le_refl _⟩
      phase := Or.inr ⟨hop, hb'⟩ }
  · intro hfull
    have htop := toppedUp_full hb hw hfull b.data (by omega)
    simp only [held, hpend, hrest, hcontent, htop, List.append_assoc]
    rw [← hdata, List.take_append_drop]
  · intro hshort
    have hroom : s.end_ - s.pos ≠ s.bufSize := by omega
    have htop : (toppedUp s b.data).length = s.bufSize := by
      rw [toppedUp, if_pos hroom, length_overwrite, List.length_take]; omega
    have hcount : toppedCount s = s.end_ - s.pos := if_pos hroom
    simp only [held, hpend, hrest, hcontent, List.length_append, htop, List.length_take]
    omega

/-- `common_fwrite` once the stream is in write mode. -/
theorem fwriteBuffered_accounted {b : Block} (hap : Appending s) (hb : Backed s)
    (hop : s.prevOp = .write) :
    ∃ s', fwriteBuffered s b = (b.count, s') ∧ Accounted s b.data s' ∧ (Whole s → Whole s') := by
  have hw := hap.window
  have hstart := hw.start_le
  have hpos := hw.pos_le
  have hfits := hw.fits
  have hlen := hb.length_buffer
  obtain ⟨e, he⟩ : ∃ e, e = if s.start = s.end_ then s.start + s.bufSize else s.end_ := ⟨_, rfl⟩
  have hw' := hw.openWindow
  rw [← he] at hw'
  have hcases : (s.start = s.end_ ∧ e = s.start + s.bufSize) ∨ (s.start ≠ s.end_ ∧ e = s.end_) := by
    by_cases h : s.start = s.end_
    · exact Or.inl ⟨h, by rw [he, if_pos h]⟩
    · exact Or.inr ⟨h, by rw [he, if_neg h]⟩
  -- `e` is the end of the window once an empty one has been opened.
  by_cases hfit : s.pos + b.data.length ≤ e
  · have hfits' : e ≤ s.start + s.bufSize := hw'.fits
    have hb' := hb.update (f := s.file) (e := s.error) (a := s.start) (b := e)
      (c := s.pos + b.data.length) (o := s.prevOp)
      (d := overwrite s.buffer (s.pos - s.start) b.data) (by rw [length_overwrite]; omega)
    refine ⟨_, fwriteBuffered_fit hb hw he hfit, ⟨?_, rfl, fun _ => held_store hb hw _, ?_⟩, ?_⟩
    · exact {
        usable := hap.usable.update hap.usable.succeeds rfl
        stored := Or.inl hb'
        writable := hap.writable
        error := hap.error
        offset := hap.offset
        window := ⟨by simp only; omega, hfit, hfits'⟩
        phase := Or.inr ⟨hop, hb'⟩ }
    · intro hstale
      unfold StepSafe at hstale
      omega
    · unfold Whole
      simp only
      omega
  · -- Too long for the window, so whether the step is safe depends on the window alone.
    have hap' : Appending { s with end_ := e } := {
      usable := hap.usable.update hap.usable.succeeds rfl
      stored := Or.inl (hb.update hlen)
      writable := hap.writable
      error := hap.error
      offset := hap.offset
      window := hw'
      phase := Or.inr ⟨hop, hb.update hlen⟩ }
    obtain ⟨s', hr, hap'', hfull', hpos', hsafe, hstale⟩ :=
      fwriteOverflow_held hap' (hb.update hlen) hop (b := b) (by simp only; omega)
    refine ⟨s', ?_, ⟨hap'', hpos', ?_, ?_⟩, fun _ => Or.inr hfull'⟩
    · rw [fwriteBuffered_overflow hb hw he (by omega)]
      exact hr
    · intro h
      apply hsafe
      unfold StepSafe at h
      simp only
      omega
    · intro h
      apply hstale
      unfold StepSafe at h
      simp only
      omega

/-- Entering write mode changes neither what is held nor the shape of the window. -/
theorem enterWrite_appending (hap : Appending s) :
    ∃ s', allocateBuffer (enterWrite s) = (true, s') ∧ Appending s' ∧ Backed s' ∧
      s'.prevOp = .write ∧ held s' = held s ∧ s'.start = s.start ∧ s'.end_ = s.end_ ∧
      s'.pos = s.pos ∧ s'.bufSize = s.bufSize := by
  have hu := hap.usable
  have hstart := hap.window.start_le
  have hpos := hap.window.pos_le
  rcases hap.phase with ⟨hop, hempty⟩ | ⟨hop, hb⟩
  · -- Nothing has been transferred yet, and the buffer may not be allocated.
    have hs : s.start = s.pos := by omega
    have he : s.end_ = s.pos := by omega
    have henter : enterWrite s = { s with prevOp := .write } := by
      simp only [enterWrite, hop, hu.not_append, ne_eq, reduceCtorEq, not_false_eq_true, if_true,
        Bool.false_eq_true, if_false]
      rw [← hs, ← hempty]
    have hst' : Stored { s with prevOp := PrevOp.write } :=
      hap.stored.imp (fun hb => hb.update hb.length_buffer) id
    obtain ⟨buf, alloc, halloc, hb⟩ := allocateBuffer_spec (by exact hu.heap) hst'
    refine ⟨_, by rw [henter, halloc], ?_, hb, rfl, ?_, rfl, rfl, rfl, rfl⟩
    · exact {
        usable :=
          ⟨hu.no_fault, hu.buffered, hu.one_le_bufSize, hu.heap, hu.succeeds, hu.not_append⟩
        stored := Or.inl hb
        writable := hap.writable
        error := hap.error
        offset := hap.offset
        window := ⟨hap.window.start_le, hap.window.pos_le, hap.window.fits⟩
        phase := Or.inr ⟨rfl, hb⟩ }
    · simp only [held, hs, Nat.sub_self, List.take_zero]
  · have henter : enterWrite s = s := by simp [enterWrite, hop]
    exact ⟨s, by rw [henter, allocateBuffer_of_backed hb], hap, hb, hop, rfl, rfl, rfl, rfl, rfl⟩

theorem commonFwrite_accounted (hap : Appending s) (b : Block) :
    ∃ s', commonFwrite s b = (b.count, s') ∧ Accounted s b.data s' ∧ (Whole s → Whole s') := by
  obtain ⟨s₁, halloc, hap₁, hb₁, hop₁, hheld, hstart, hend, hpos, hsize⟩ :=
    enterWrite_appending hap
  obtain ⟨s₂, hr, hacc, hwhole⟩ := fwriteBuffered_accounted (b := b) hap₁ hb₁ hop₁
  have hsafe : StepSafe s b.data.length ↔ StepSafe s₁ b.data.length := by
    simp only [StepSafe, hstart, hend, hpos, hsize]
  refine ⟨s₂, ?_, ⟨hacc.appending, ?_, ?_, ?_⟩, ?_⟩
  · rw [commonFwrite, if_neg (by simp [hap.error]), if_neg (by simp [hap.writable]),
      if_neg (by simp [hap.usable.buffered]), halloc]
    exact hr
  · rw [hacc.pos, hpos]
  · intro h
    rw [hacc.safe (hsafe.mp h), hheld]
  · intro h
    rw [← hheld]
    exact hacc.stale (fun h' => h (hsafe.mpr h'))
  · intro h
    apply hwhole
    unfold Whole at h ⊢
    rw [hstart, hend, hsize]
    exact h

/-- The fast path of `common_fputc` only ever stores inside the window, shortened or not. -/
theorem commonFputc_accounted (hap : Appending s) (ch : Byte) :
    ∃ s', commonFputc s ch = (some ch, s') ∧ Accounted s [ch] s' ∧ (Whole s → Whole s') := by
  by_cases hfast : s.bufMode.nbf = false ∧ s.prevOp = .write ∧ s.start ≠ s.end_ ∧ s.pos ≠ s.end_
  · have hop := hfast.2.1
    have hne := hfast.2.2.2
    have hstart := hap.window.start_le
    have hpos := hap.window.pos_le
    have hfits := hap.window.fits
    have hb : Backed s := by
      rcases hap.phase with ⟨hop', _⟩ | ⟨_, hb⟩
      · rw [hop] at hop'; cases hop'
      · exact hb
    have hlen := hb.length_buffer
    have hr := commonFputc_fast hb hap.window ch hfast
    have hb' := hb.update (f := s.file) (e := s.error) (a := s.start) (b := s.end_)
      (c := s.pos + 1) (o := s.prevOp) (d := overwrite s.buffer (s.pos - s.start) [ch])
      (by rw [length_overwrite, List.length_singleton]; omega)
    refine ⟨_, hr, ⟨?_, rfl, fun _ => held_store hb hap.window [ch], ?_⟩, id⟩
    · exact {
        usable := hap.usable.update hap.usable.succeeds rfl
        stored := Or.inl hb'
        writable := hap.writable
        error := hap.error
        offset := hap.offset
        window := ⟨by simp only; omega, by simp only; omega, hfits⟩
        phase := Or.inr ⟨hop, hb'⟩ }
    · intro hstale
      unfold StepSafe at hstale
      simp only [List.length_singleton] at hstale
      omega
  · obtain ⟨s', hr, hacc, hwhole⟩ := commonFwrite_accounted hap (Block.single ch)
    refine ⟨s', ?_, hacc, hwhole⟩
    rw [commonFputc, if_neg hfast, hr]
    rfl

/-- A flush sends what is pending; what is held and the position stay. -/
theorem commonFflush_accounted (hap : Appending s) :
    ∃ s', commonFflush s = (true, s') ∧ Appending s' ∧ s'.pos = s.pos ∧ held s' = held s ∧
      s'.file.content = held s := by
  have hstart := hap.window.start_le
  have hpos := hap.window.pos_le
  have hfits := hap.window.fits
  rcases hap.phase with ⟨hop, hempty⟩ | ⟨hop, hb⟩
  · have hs : s.start = s.pos := by omega
    refine ⟨s, ?_, hap, rfl, rfl, ?_⟩
    · rw [commonFflush, if_neg (by simp [hap.usable.buffered]), if_neg (by simp [hap.writable]),
        if_neg (by simp [hop]), if_neg (fun h => h hs)]
    · rw [held, hs, Nat.sub_self, List.take_zero, List.append_nil]
  · obtain ⟨f', hr, hrec⟩ := commonFflush_spec hap.usable hb hap.window hop hap.writable
      (Nat.le_of_eq hap.offset)
    obtain ⟨hcontent, hoff⟩ := receives_append hrec hap.offset
    have hb' := hb.update (f := f') (e := s.error) (a := s.pos) (b := s.end_) (c := s.pos)
      (o := s.prevOp) hb.length_buffer
    refine ⟨_, hr, ?_, rfl, ?_, hcontent⟩
    · exact {
        usable := hap.usable.update hrec.succeeds hrec.append
        stored := Or.inl hb'
        writable := hap.writable
        error := hap.error
        offset := hoff
        window := ⟨Nat.le_refl _, hpos, by simp only; omega⟩
        phase := Or.inr ⟨hop, hb'⟩ }
    · simp only [held, Nat.sub_self, List.take_zero, List.append_nil]
      exact hcontent

theorem commonFclose_appending (hap : Appending s) : commonFclose s = held s := by
  obtain ⟨s', hr, _, _, _, hcontent⟩ := commonFflush_accounted hap
  rw [commonFclose, hr, hcontent]

/-! ## Whole runs -/

/-- One call of the machine, with its account. -/
theorem outputMachine_step (hap : Appending s) (o : Output) :
    ∃ s' n, outputMachine.step s o = some (s', n) ∧ Appending s' ∧
      s'.pos = s.pos + o.bytes.length ∧ (FlushSafe s o → held s' = held s ++ o.bytes) ∧
      (¬ FlushSafe s o → (held s).length + o.bytes.length < (held s').length) := by
  cases o with
  | fwrite b =>
    obtain ⟨s', hr, hacc, _⟩ := commonFwrite_accounted hap b
    exact ⟨s', b.count, by simp only [outputMachine, hr], hacc.appending, hacc.pos, hacc.safe,
      hacc.stale⟩
  | fputc ch =>
    obtain ⟨s', hr, hacc, _⟩ := commonFputc_accounted hap ch
    exact ⟨s', 1, by simp [outputMachine, hr], hacc.appending, hacc.pos, hacc.safe, hacc.stale⟩
  | fflush =>
    obtain ⟨s', hr, hap', hpos, hheld, _⟩ := commonFflush_accounted hap
    exact ⟨s', 1, by simp [outputMachine, hr], hap', hpos,
      fun _ => by rw [hheld, Output.bytes, List.append_nil], fun h => absurd trivial h⟩

/-- The account of a whole run: exact if every call was safe, too long otherwise. -/
theorem outputMachine_run (os : List Output) :
    ∀ {s : Stream}, Appending s → ∃ s' ns, outputMachine.run s os = some (s', ns) ∧ Appending s' ∧
      s'.pos = s.pos + (written os).length ∧
      (outputMachine.Along FlushSafe s os → held s' = held s ++ written os) ∧
      (¬ outputMachine.Along FlushSafe s os →
        (held s).length + (written os).length < (held s').length) := by
  induction os with
  | nil =>
    intro s hap
    exact ⟨s, [], rfl, hap, rfl, fun _ => (List.append_nil _).symm, fun h => absurd trivial h⟩
  | cons o os ih =>
    intro s hap
    obtain ⟨s₁, n, hstep, hap₁, hpos₁, hsafe₁, hstale₁⟩ := outputMachine_step hap o
    obtain ⟨s₂, ns, hrun, hap₂, hpos₂, hsafe₂, hstale₂⟩ := ih hap₁
    have hw : written (o :: os) = o.bytes ++ written os := List.flatMap_cons
    have halong : outputMachine.Along FlushSafe s (o :: os) ↔
        FlushSafe s o ∧ outputMachine.Along FlushSafe s₁ os := by
      refine and_congr_right fun _ => ⟨fun h => h s₁ n hstep, fun h s' m hs' => ?_⟩
      rw [hstep] at hs'
      cases hs'
      exact h
    refine ⟨s₂, n :: ns, by rw [Machine.run_cons hstep, hrun]; rfl, hap₂, ?_, ?_, ?_⟩
    · rw [hpos₂, hpos₁, hw, List.length_append, Nat.add_assoc]
    · intro h
      obtain ⟨h₁, h₂⟩ := halong.mp h
      rw [hsafe₂ h₂, hsafe₁ h₁, hw, List.append_assoc]
    · intro h
      rw [halong] at h
      rw [hw, List.length_append]
      -- a stale step makes the account too long, and no later step makes up for it
      by_cases h₁ : FlushSafe s o
      · have hlen := congrArg List.length (hsafe₁ h₁)
        have := hstale₂ (fun h₂ => h ⟨h₁, h₂⟩)
        rw [List.length_append] at hlen
        omega
      · have := hstale₁ h₁
        by_cases h₂ : outputMachine.Along FlushSafe s₁ os
        · have hlen := congrArg List.length (hsafe₂ h₂)
          rw [List.length_append] at hlen
          omega
        · have := hstale₂ h₂
          omega

/-- Without flushes the window is always whole, so every call is safe. -/
theorem along_unflushed (os : List Output) :
    ∀ {s : Stream}, Appending s → Whole s → outputMachine.Along FlushSafe s (unflushed os) := by
  induction os with
  | nil => intro s _ _; trivial
  | cons o os ih =>
    intro s hap hwhole
    cases o with
    | fwrite b =>
      obtain ⟨s', hr, hacc, hw'⟩ := commonFwrite_accounted hap b
      refine ⟨Or.inr hwhole, fun s'' n hs'' => ?_⟩
      simp only [outputMachine, hr, Option.some.injEq, Prod.mk.injEq] at hs''
      rw [← hs''.1]
      exact ih hacc.appending (hw' hwhole)
    | fputc ch =>
      obtain ⟨s', hr, hacc, hw'⟩ := commonFputc_accounted hap ch
      refine ⟨Or.inr hwhole, fun s'' n hs'' => ?_⟩
      simp only [outputMachine, hr, Option.some.injEq, Prod.mk.injEq] at hs''
      rw [← hs''.1]
      exact ih hacc.appending (hw' hwhole)
    | fflush => exact ih hap hwhole

theorem written_unflushed (os : List Output) : written (unflushed os) = written os := by
  induction os with
  | nil => rfl
  | cons o os ih =>
    have hcons : written (o :: os) = o.bytes ++ written os := List.flatMap_cons
    rw [hcons, ← ih]
    cases o <;> rfl

theorem Opened.appending (h : Opened s) (hrd : s.bufMode.rdonly = false)
    (hempty : s.file.content = []) : Appending s where
  usable := h.usable
  stored := h.stored
  writable := hrd
  error := h.error
  offset := by rw [h.offset, hempty]; rfl
  window := ⟨by rw [h.start]; exact Nat.zero_le _, by rw [h.pos]; exact Nat.zero_le _,
    by rw [h.end_]; exact Nat.zero_le _⟩
  phase := Or.inl ⟨h.prevOp, h.start.trans h.end_.symm⟩

/-- The flushes in `os` do not show: the closed file and the position are those of the sequence
without them, and the file is the concatenation of what was written. -/
def FlushTransparent (s₀ : Stream) (os : List Output) : Prop :=
  ∃ s t ns ms, outputMachine.run s₀ os = some (s, ns) ∧
    outputMachine.run s₀ (unflushed os) = some (t, ms) ∧ commonFclose s = commonFclose t ∧
    s.pos = t.pos ∧ commonFclose s = written os

/-- **Flushes are transparent exactly when no write overflows a shortened window.** -/
theorem flush_transparent_iff (s₀ : Stream) (h₀ : Opened s₀) (hrd : s₀.bufMode.rdonly = false)
    (hempty : s₀.file.content = []) (os : List Output) :
    FlushTransparent s₀ os ↔ outputMachine.Along FlushSafe s₀ os := by
  have hap := h₀.appending hrd hempty
  have hheld : held s₀ = [] := by
    rw [held, hempty, h₀.pos, h₀.start, Nat.sub_self, List.take_zero]; rfl
  have hwhole : Whole s₀ := Or.inl (h₀.end_.trans h₀.start.symm)
  obtain ⟨s, ns, hrun, haps, hpos, hsafe, hstale⟩ := outputMachine_run os hap
  obtain ⟨t, ms, hrunt, hapt, hpost, hsafet, _⟩ := outputMachine_run (unflushed os) hap
  have ht : commonFclose t = written os := by
    rw [commonFclose_appending hapt, hsafet (along_unflushed os hap hwhole), hheld,
      written_unflushed, List.nil_append]
  rw [written_unflushed] at hpost
  constructor
  · rintro ⟨s', t', ns', ms', hrun', _, _, _, hclose⟩
    rw [hrun] at hrun'
    cases hrun'
    -- A stale step makes the file longer than what was written.
    by_contra hunsafe
    have hlong := hstale hunsafe
    rw [commonFclose_appending haps] at hclose
    rw [hheld, hclose, List.length_nil] at hlong
    omega
  · intro h
    have hs : commonFclose s = written os := by
      rw [commonFclose_appending haps, hsafe h, hheld, List.nil_append]
    exact ⟨s, t, ns, ms, hrun, hrunt, hs.trans ht.symm, hpos.trans hpost.symm, hs⟩

/-- A write-only stream with a four-byte buffer over an empty file. -/
def fourBytes : Stream :=
  createStream ⟨[], 0, false, []⟩ ⟨true, false, false, false, true, false, true, false, false⟩ 4
    (some fun _ => 63)

theorem opened_fourBytes : Opened fourBytes where
  usable := ⟨rfl, rfl, by decide, rfl, by decide, rfl⟩
  stored := Or.inr ⟨rfl, rfl⟩
  error := rfl
  prevOp := rfl
  start := rfl
  end_ := rfl
  pos := rfl
  offset := rfl

/-- Two bytes, a flush, two bytes that fit the shortened window. -/
theorem fourBytes_fits :
    FlushTransparent fourBytes
      [.fwrite ⟨1, 2, [97, 98], rfl⟩, .fflush, .fwrite ⟨1, 2, [99, 100], rfl⟩] := by
  apply (flush_transparent_iff fourBytes opened_fourBytes rfl rfl _).mpr
  refine ⟨Or.inr (Or.inl rfl), ?_⟩
  rintro s o ⟨⟩
  refine ⟨trivial, ?_⟩
  rintro s o ⟨⟩
  exact ⟨Or.inl (by decide), fun _ _ _ => trivial⟩

/-- Two bytes, a flush, four bytes: two stale bytes reach the file. -/
theorem fourBytes_stale :
    Opened fourBytes ∧ fourBytes.bufMode.rdonly = false ∧ fourBytes.file.content = [] ∧
      ¬ FlushTransparent fourBytes
        [.fwrite ⟨1, 2, [97, 98], rfl⟩, .fflush, .fwrite ⟨1, 4, [99, 100, 101, 102], rfl⟩] := by
  refine ⟨opened_fourBytes, rfl, rfl, ?_⟩
  rintro ⟨s, t, ns, ms, hrun, _, _, _, hclose⟩
  have hfile : (outputMachine.run fourBytes
      [.fwrite ⟨1, 2, [97, 98], rfl⟩, .fflush, .fwrite ⟨1, 4, [99, 100, 101, 102], rfl⟩]).map
        (fun r => commonFclose r.1) = some [97, 98, 99, 100, 63, 63, 101, 102] := by decide
  rw [hrun, Option.map_some, hclose] at hfile
  revert hfile
  decide

end WindowsLibc.Stdio
