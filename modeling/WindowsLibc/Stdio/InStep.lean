import WindowsLibc.Stdio.Seek

/-!
# Where the kernel is

A stream keeps no record of the kernel's offset. While it reads, the kernel has been at the end of the window;
while it writes, at its start; and nothing ever takes it back from there, except to where the stream is then.

* `InStep` says so. Only a file that appends, or a stream with the error flag set, is excused.
* `Reached.inStep` shows it for every stream that can be reached.
-/

namespace WindowsLibc.Stdio

open WindowsLibc.Lib

variable {s : Stream}

/-- The kernel is not behind the part of the window that it has transferred. -/
def InStep (s : Stream) : Prop :=
  s.file.append = false → s.error ≠ .error →
    (if s.prevOp = .write then s.start else s.end_) ≤ s.file.offset

/-- What a call leads to: the kernel is still there. -/
structure StaysInStep (s s' : Stream) : Prop where
  append : s'.file.append = s.file.append
  inStep : InStep s'

theorem StaysInStep.refl (h : InStep s) : StaysInStep s s := ⟨rfl, h⟩

theorem InStep.writing (h : InStep s) (happend : s.file.append = false) (herror : s.error ≠ .error)
    (hop : s.prevOp = .write) : s.start ≤ s.file.offset := by
  have hle := h happend herror
  rwa [if_pos hop] at hle

theorem InStep.not_writing (h : InStep s) (happend : s.file.append = false) (herror : s.error ≠ .error)
    (hop : s.prevOp ≠ .write) : s.end_ ≤ s.file.offset := by
  have hle := h happend herror
  rwa [if_neg hop] at hle

theorem Held.window (h : Held s) : Window s := by
  rcases h with hs | hb
  · exact hs.toWindow
  · have hstart := hb.start
    have hend := hb.end_
    exact ⟨by omega, by omega, by omega⟩

/-- Where nothing is pending the kernel is not behind the position either. -/
theorem InStep.pos_le (h : InStep s) (hw : Window s) (hsettled : Settled s) (happend : s.file.append = false)
    (herror : s.error ≠ .error) : s.pos ≤ s.file.offset := by
  by_cases hop : s.prevOp = .write
  · rw [← hsettled hop]
    exact h.writing happend herror hop
  · exact Nat.le_trans hw.pos_le (h.not_writing happend herror hop)

/-! ## Reading -/

/-- The kernel goes ahead by `n`. -/
structure OpenFile.Moves (f f' : OpenFile) (n : Nat) : Prop where
  append : f'.append = f.append
  offset : f.append = false → f'.offset = f.offset + n

namespace OpenFile

variable {f f' f'' : OpenFile} {m n : Nat}

theorem Moves.stay (happend : f'.append = f.append) (hoffset : f'.offset = f.offset) : f.Moves f' 0 :=
  ⟨happend, fun _ => hoffset⟩

theorem Moves.trans (h₁ : f.Moves f' m) (h₂ : f'.Moves f'' n) : f.Moves f'' (m + n) where
  append := h₂.append.trans h₁.append
  offset happend := by
    rw [h₂.offset (h₁.append.trans happend), h₁.offset happend, Nat.add_assoc]

/-- A write moves it by what has been written. -/
theorem write_moves (f : OpenFile) (bytes : List Byte) : f.Moves (f.write bytes).2 ((f.write bytes).1.getD 0) := by
  rw [write]
  split
  · exact .stay rfl rfl
  · refine ⟨rfl, fun happend => ?_⟩
    show (if f.append then f.content.length else f.offset) + bytes.length = f.offset + bytes.length
    rw [if_neg (by rw [happend]; exact Bool.false_ne_true)]

theorem lseek_set_file (f : OpenFile) (n : Nat) :
    (f.lseek n .set).2 = { f.answered with offset := if f.answer = .fail then f.offset else n } := by
  have hn : ¬ ((0 : Int) + n < 0) := by omega
  rw [OpenFile.lseek]
  dsimp only
  split
  · next hfail =>
    rw [if_pos (hfail.resolve_right hn)]
    rfl
  · next hok =>
    rw [if_neg (fun hfail => hok (Or.inl hfail)), Int.zero_add, Int.toNat_natCast]

theorem lseek_none {offset : Int} {whence : Whence} (h : f.lseek offset whence = (none, f')) :
    f' = f.answered := by
  unfold lseek at h
  extract_lets base at h
  split at h
  · cases h
    rfl
  · cases h

end OpenFile

theorem readWrapper_moves (s : Stream) (n : Nat) :
    ∃ bytes f e, readWrapper s n = (bytes, { s with file := f, error := e }) ∧
      s.file.Moves f bytes.length := by
  rw [readWrapper_eq]
  split
  · exact ⟨[], _, _, rfl, .stay rfl rfl⟩
  · exact ⟨_, _, _, rfl, rfl, fun _ => rfl⟩

theorem freadDirect_moves (dataSize fuel : Nat) (got : List Byte) (s : Stream) :
    ∃ bytes more f e fault, freadDirect dataSize fuel got s =
        (got ++ bytes, more, { s with file := f, error := e, fault := fault }) ∧
      s.file.Moves f bytes.length := by
  induction fuel generalizing got s with
  | zero => exact ⟨[], true, s.file, s.error, _, by rw [freadDirect, List.append_nil]; rfl, .stay rfl rfl⟩
  | succ fuel ih =>
    by_cases hloop : got.length + s.bufSize < dataSize
    · obtain ⟨bytes, f, e, hread, hmoves⟩ := readWrapper_moves s s.bufSize
      rw [freadDirect, if_pos hloop, hread]
      cases bytes with
      | nil => exact ⟨[], false, f, e, s.fault, by rw [List.append_nil], hmoves⟩
      | cons b bytes =>
        obtain ⟨bytes', more, f', e', fault, hrest, hmoves'⟩ := ih (got ++ b :: bytes) { s with file := f, error := e }
        refine ⟨b :: bytes ++ bytes', more, f', e', fault, ?_, ?_⟩
        · dsimp only
          rw [hrest, List.append_assoc]
        · rw [List.length_append]
          exact hmoves.trans hmoves'
    · exact ⟨[], true, s.file, s.error, s.fault, by rw [freadDirect, if_neg hloop, List.append_nil], .stay rfl rfl⟩

theorem freadFill_moves (need fuel last : Nat) (s : Stream) :
    ∃ n f e buf fault, freadFill need fuel last s =
        (last + n, { s with file := f, error := e, buffer := buf, fault := fault }) ∧ s.file.Moves f n := by
  induction fuel generalizing last s with
  | zero => exact ⟨0, s.file, s.error, s.buffer, _, rfl, .stay rfl rfl⟩
  | succ fuel ih =>
    by_cases hloop : last < s.bufSize ∧ last < need
    · obtain ⟨bytes, f, e, hread, hmoves⟩ := readWrapper_moves s (s.bufSize - last)
      rw [freadFill, if_pos hloop, hread]
      cases bytes with
      | nil => exact ⟨0, f, e, s.buffer, s.fault, rfl, hmoves⟩
      | cons b bytes =>
        obtain ⟨n, f', e', buf, fault, hrest, hmoves'⟩ :=
          ih (last + (b :: bytes).length) (({ s with file := f, error := e } : Stream).store last (b :: bytes))
        refine ⟨(b :: bytes).length + n, f', e', buf, fault, ?_, hmoves.trans hmoves'⟩
        dsimp only
        rw [hrest, ← Nat.add_assoc]
        rfl
    · exact ⟨0, s.file, s.error, s.buffer, s.fault, by rw [freadFill, if_neg hloop, Nat.add_zero], .stay rfl rfl⟩

/-- A stream that is being read. -/
structure Reading (s : Stream) : Prop where
  op : s.prevOp = .read
  offset : s.file.append = false → s.end_ ≤ s.file.offset

theorem Reading.inStep (h : Reading s) : InStep s := fun happend _ => by
  rw [if_neg (by rw [h.op]; exact fun hop => by contradiction)]
  exact h.offset happend

theorem freadLast_reading (h : Reading s) (hpos : s.pos = s.end_) (size dataSize : Nat) (got : List Byte) :
    Reading (freadLast s size dataSize got).2 ∧ (freadLast s size dataSize got).2.file.append = s.file.append := by
  obtain ⟨n, f, e, buf, fault, hfill, hmoves⟩ := freadFill_moves (dataSize - got.length) (s.bufSize + 1) 0 s
  rw [Nat.zero_add] at hfill
  rw [freadLast, hfill]
  have hoffset : f.append = false → s.end_ + n ≤ f.offset := fun happend => by
    have happend' : s.file.append = false := hmoves.append.symm.trans happend
    have hle := h.offset happend'
    have hmove := hmoves.offset happend'
    omega
  cases n with
  | zero => exact ⟨⟨h.op, hoffset⟩, hmoves.append⟩
  | succ n =>
    refine ⟨⟨h.op, fun happend => ?_⟩, hmoves.append⟩
    have hle := hoffset happend
    rw [← hpos] at hle
    exact hle

theorem freadBuffered_reading (hw : Window s) (h : Reading s) (size count : Nat) :
    Reading (freadBuffered s size count).2 ∧ (freadBuffered s size count).2.file.append = s.file.append := by
  have hstart := hw.start_le
  have hpos := hw.pos_le
  rw [freadBuffered, Stream.checkWindow_of_le hstart hpos]
  dsimp only
  split
  · exact ⟨⟨h.op, h.offset⟩, rfl⟩
  · -- what the window has got comes first
    generalize hhead : (if s.pos < s.end_ then s.load (sub64 s.pos s.start) (s.end_ - s.pos) else []) = head
    generalize hfirst :
      (if s.pos < s.end_ then s.touch (sub64 s.pos s.start) (s.end_ - s.pos) else s) = s₁
    have hlen : head.length ≤ s.end_ - s.pos := by
      rw [← hhead]
      split
      · exact List.length_take_le _ _
      · exact Nat.zero_le _
    have hsame : s₁.file = s.file ∧ s₁.prevOp = s.prevOp ∧ s₁.pos = s.pos := by
      rw [← hfirst]
      split
      · exact ⟨rfl, rfl, rfl⟩
      · exact ⟨rfl, rfl, rfl⟩
    obtain ⟨hfile, hop, hat⟩ := hsame
    obtain ⟨bytes, more, f, e, fault, hdirect, hmoves⟩ :=
      freadDirect_moves (size * count) (size * count + 1) head s₁
    rw [hfile] at hmoves
    have hreading : Reading { s₁ with
        file := f, error := e, fault := fault, start := s₁.pos + (head ++ bytes).length
        end_ := s₁.pos + (head ++ bytes).length, pos := s₁.pos + (head ++ bytes).length } := by
      refine ⟨hop.trans h.op, fun happend => ?_⟩
      have happend' : s.file.append = false := hmoves.append.symm.trans happend
      have hmove := hmoves.offset happend'
      have hle := h.offset happend'
      show s₁.pos + (head ++ bytes).length ≤ f.offset
      rw [List.length_append, hat]
      omega
    rw [hdirect]
    dsimp only
    split
    · obtain ⟨hlast, happend⟩ := freadLast_reading hreading rfl size (size * count) (head ++ bytes)
      exact ⟨hlast, happend.trans hmoves.append⟩
    · exact ⟨hreading, hmoves.append⟩

theorem freadUnbuffered_inStep (h : InStep s) (hw : Window s) (hbare : s.start = s.pos) (hend : s.end_ = s.pos)
    (herror : s.error ≠ .error) (size count : Nat) : StaysInStep s (freadUnbuffered s size count).2 := by
  obtain ⟨bytes, f, e, hread, hmoves⟩ := readWrapper_moves s (size * count)
  rw [freadUnbuffered, hread]
  have hat : f.append = false → s.pos + bytes.length ≤ f.offset := fun happend => by
    have happend' : s.file.append = false := hmoves.append.symm.trans happend
    have hle := h.pos_le hw (fun _ => hbare) happend' herror
    have hmove := hmoves.offset happend'
    omega
  cases bytes with
  | nil =>
    refine ⟨hmoves.append, Reading.inStep ⟨rfl, fun happend => ?_⟩⟩
    rw [hend]
    exact hat happend
  | cons b bytes => exact ⟨hmoves.append, Reading.inStep ⟨rfl, hat⟩⟩

/-! ## Flushing -/

theorem Sound.flush_inStep (h : Sound s) (hs : InStep s) : StaysInStep s (commonFflush s).2 ∧
    ((commonFflush s).2.error = .error ∨ Settled (commonFflush s).2) := by
  by_cases hidle : s.prevOp = .write → s.start = s.pos
  · rw [commonFflush_idle h hidle]
    exact ⟨.refl hs, .inr hidle⟩
  · obtain ⟨hop, hne⟩ := Classical.not_imp.mp hidle
    have hstart := h.start_le
    have hpos := h.pos_le
    have hlen : (s.load 0 (s.pos - s.start)).length = s.pos - s.start :=
      Stream.length_load _ _ (h.touch_eq (by omega))
    rw [commonFflush_pending h hop hne]
    split
    · exact ⟨⟨rfl, fun _ herror => absurd rfl herror⟩, .inl rfl⟩
    · next hok =>
      have hmoves := s.file.write_moves (s.load 0 (s.pos - s.start))
      rw [OpenFile.write_eq, if_neg hok, hlen] at hmoves
      refine ⟨⟨hmoves.append, fun happend herror => ?_⟩, .inr (fun _ => rfl)⟩
      have happend' : s.file.append = false := hmoves.append.symm.trans happend
      have hle := hs.writing happend' herror hop
      have hmove := hmoves.offset happend'
      rw [if_pos hop]
      show s.pos ≤ (s.file.write (s.load 0 (s.pos - s.start))).2.offset
      dsimp only at hmove
      rw [Option.getD_some] at hmove
      omega

theorem Held.flush_inStep (h : Held s) (hs : InStep s) : StaysInStep s (commonFflush s).2 ∧
    ((commonFflush s).2.error = .error ∨ Settled (commonFflush s).2) := by
  rcases h with hsound | hb
  · exact hsound.flush_inStep hs
  · rw [hb.commonFflush_eq]
    exact ⟨.refl hs, .inr (fun _ => hb.start)⟩

/-- What was pending has gone out, and the stream enters read mode. -/
theorem enterRead_reading (h : Held s) (hs : InStep s) (hflush : ¬ FlushFails s) (herror : s.error ≠ .error) :
    Window (enterRead s) ∧ Reading (enterRead s) ∧ (enterRead s).file.append = s.file.append := by
  have hw := h.window
  by_cases hop : s.prevOp = .write
  · obtain ⟨hstays, hsettled⟩ := h.flush_inStep hs
    have hflushed := flush_flushed h
    rw [if_pos hop] at hflushed
    have herr : (commonFflush s).2.error ≠ .error := by
      rcases hflushed.error with ⟨-, hfails⟩ | ⟨heq, -⟩
      · exact absurd hfails hflush
      · rw [heq]
        exact herror
    have hop' : (commonFflush s).2.prevOp = .write := hflushed.prevOp.trans hop
    have hat := hsettled.resolve_left herr hop'
    rw [enterRead, if_pos hop]
    exact ⟨⟨Nat.le_of_eq hat, Nat.le_of_eq hat.symm, Nat.le_add_right _ _⟩,
      ⟨rfl, fun happend => hstays.inStep.writing happend herr hop'⟩, hstays.append⟩
  · rw [enterRead, if_neg hop]
    exact ⟨⟨hw.start_le, hw.pos_le, hw.fits⟩,
      ⟨rfl, fun happend => hs.not_writing happend herror hop⟩, rfl⟩

theorem allocateBuffer_only (s : Stream) :
    ∃ granted buf m, allocateBuffer s = (granted, { s with buffer := buf, bufMode := m }) := by
  rw [allocateBuffer]
  split
  · split
    · exact ⟨false, _, s.bufMode, rfl⟩
    · exact ⟨true, _, _, rfl⟩
  · exact ⟨true, s.buffer, s.bufMode, rfl⟩

theorem Held.fread_inStep (h : Held s) (hs : InStep s) {size count : Nat}
    (hok : (commonFread s size count).2.fault = false) : StaysInStep s (commonFread s size count).2 := by
  by_cases hset : s.error = .eof ∨ s.error = .error
  · rw [commonFread, if_pos hset]
    exact .refl hs
  rw [not_or] at hset
  by_cases hwr : s.bufMode.wronly = true
  · rw [commonFread, if_neg (by simp [hset]), if_pos hwr]
    exact ⟨rfl, fun _ herror => absurd rfl herror⟩
  by_cases hnbf : s.bufMode.nbf = true
  · have hb : Bare s := h.resolve_left (fun hs => by rw [hs.buffered] at hnbf; contradiction)
    rw [commonFread, if_neg (by simp [hset]), if_neg hwr, if_pos hnbf]
    exact freadUnbuffered_inStep hs h.window hb.start hb.end_ hset.2 size count
  have hflush : ¬ FlushFails s := fun hfails => by
    rcases h with hsound | hb
    · have hclear : s.error = .clear := by
        cases herror : s.error with
        | clear => rfl
        | eof => exact absurd herror hset.1
        | error => exact absurd herror hset.2
      rw [commonFread_fault hsound hclear (by simpa using hwr) hfails] at hok
      contradiction
    · exact hb.not_flushFails hfails
  obtain ⟨hw, hreading, happend⟩ := enterRead_reading h hs hflush hset.2
  obtain ⟨granted, buf, m, halloc⟩ := allocateBuffer_only (enterRead s)
  have hw' : Window { enterRead s with buffer := buf, bufMode := m } := ⟨hw.start_le, hw.pos_le, hw.fits⟩
  have hreading' : Reading { enterRead s with buffer := buf, bufMode := m } := ⟨hreading.op, hreading.offset⟩
  rw [commonFread, if_neg (by simp [hset]), if_neg hwr, if_neg hnbf, halloc]
  cases granted with
  | false => exact ⟨happend, hreading'.inStep⟩
  | true =>
    obtain ⟨hread, happend'⟩ := freadBuffered_reading hw' hreading' size count
    exact ⟨happend'.trans happend, hread.inStep⟩

/-! ## Writing -/

/-- A stream that is being written to. -/
structure Writing (s : Stream) : Prop where
  op : s.prevOp = .write
  offset : s.file.append = false → s.start ≤ s.file.offset

theorem Writing.inStep (h : Writing s) : InStep s := fun happend _ => by
  rw [if_pos h.op]
  exact h.offset happend

theorem fwriteDirect_moves (data : List Byte) (fuel written : Nat) (s : Stream) :
    ∃ n more f fault, fwriteDirect data fuel written s = (written + n, more, { s with file := f, fault := fault }) ∧
      s.file.Moves f n := by
  induction fuel generalizing written s with
  | zero => exact ⟨0, true, s.file, _, rfl, .stay rfl rfl⟩
  | succ fuel ih =>
    by_cases hloop : written + s.bufSize < data.length
    · have hmoves := s.file.write_moves ((data.drop written).take s.bufSize)
      rw [fwriteDirect, if_pos hloop]
      rcases hwrite : s.file.write ((data.drop written).take s.bufSize) with ⟨count, f⟩
      rw [hwrite] at hmoves
      cases count with
      | none => exact ⟨0, false, f, s.fault, rfl, hmoves⟩
      | some n =>
        obtain ⟨n', more, f', fault, hrest, hmoves'⟩ := ih (written + n) { s with file := f }
        refine ⟨n + n', more, f', fault, ?_, hmoves.trans hmoves'⟩
        dsimp only
        rw [hrest, Nat.add_assoc]
    · exact ⟨0, true, s.file, s.fault, by rw [fwriteDirect, if_neg hloop, Nat.add_zero], .stay rfl rfl⟩

/-- The buffer, topped up, goes out whole: the kernel is past the end of the window then. -/
theorem fwriteTopUp_moves (hw : Window s) (h : Writing s) {data : List Byte}
    (hok : (fwriteTopUp s data).2.fault = false) :
    ∃ topped f e buf fault, fwriteTopUp s data =
        (topped, { s with file := f, error := e, buffer := buf, fault := fault }) ∧ f.append = s.file.append ∧
      (s.file.append = false → s.start ≤ f.offset ∧ ∀ n, topped = some n → s.pos + n ≤ f.offset) := by
  have hstart := hw.start_le
  have hpos := hw.pos_le
  have hfits := hw.fits
  rw [fwriteTopUp] at hok ⊢
  dsimp only at hok ⊢
  rw [sub64_of_le hpos] at hok ⊢
  by_cases hroom : s.end_ - s.pos ≠ s.bufSize
  · rw [if_pos hroom] at hok ⊢
    generalize hfull : (s.store (sub64 s.pos s.start) (data.take (s.end_ - s.pos))).touch 0 s.bufSize = s₁ at hok ⊢
    have hsame : ∃ buf fault, s₁ = { s with buffer := buf, fault := fault } := ⟨_, _, hfull.symm⟩
    have hin : s₁.fault = false → s.bufSize ≤ s₁.buffer.length := fun hfault => by
      rw [← hfull, Stream.touch, Stream.check] at hfault
      dsimp only at hfault
      rw [Bool.or_eq_false_iff, Bool.not_eq_false', decide_eq_true_eq, Nat.zero_add] at hfault
      rw [← hfull]
      exact hfault.2
    obtain ⟨buf, fault, rfl⟩ := hsame
    have hmoves := s.file.write_moves (({ s with buffer := buf, fault := fault } : Stream).load 0 s.bufSize)
    dsimp only at hok ⊢
    rw [OpenFile.write_eq] at hmoves hok ⊢
    by_cases hfail : s.file.answer = .fail
    · rw [if_pos hfail]
      exact ⟨none, s.file.answered, .error, buf, fault, rfl, rfl, fun happend =>
        ⟨h.offset happend, fun n hn => by contradiction⟩⟩
    · rw [if_neg hfail] at hmoves hok ⊢
      have hlen : (({ s with buffer := buf, fault := fault } : Stream).load 0 s.bufSize).length = s.bufSize :=
        Stream.length_load 0 s.bufSize (by rw [Nat.zero_add]; exact hin hok)
      rw [hlen] at hmoves
      refine ⟨some (s.end_ - s.pos), _, s.error, buf, fault, rfl, hmoves.append, fun happend => ?_⟩
      have hle := h.offset happend
      have hmove := hmoves.offset happend
      dsimp only at hmove
      rw [Option.getD_some] at hmove
      refine ⟨by omega, fun n hn => ?_⟩
      cases hn
      omega
  · rw [if_neg hroom]
    refine ⟨some 0, s.file, s.error, s.buffer, s.fault, rfl, rfl, fun happend => ⟨h.offset happend, fun n hn => ?_⟩⟩
    have hle := h.offset happend
    cases hn
    omega

theorem fwriteOverflow_writing (hw : Window s) (h : Writing s) {b : Block}
    (hok : (fwriteOverflow s b).2.fault = false) :
    Writing (fwriteOverflow s b).2 ∧ (fwriteOverflow s b).2.file.append = s.file.append := by
  have htopped : (fwriteTopUp s b.data).2.fault = false := by
    cases htop : (fwriteTopUp s b.data).2.fault with
    | false => rfl
    | true =>
      rw [fault_fwriteOverflow_of htop] at hok
      contradiction
  obtain ⟨topped, f, e, buf, fault, htop, happend, hat⟩ := fwriteTopUp_moves hw h htopped
  rw [fwriteOverflow, htop]
  cases topped with
  | none => exact ⟨⟨h.op, fun ha => (hat (happend.symm.trans ha)).1⟩, happend⟩
  | some n =>
    obtain ⟨m, more, f', fault', hdirect, hmoves⟩ :=
      fwriteDirect_moves b.data (b.data.length + f.script.length + 1) n
        { s with file := f, error := e, buffer := buf, fault := fault }
    have hpast : f'.append = false → s.pos + (n + m) ≤ f'.offset := fun ha => by
      have ha' : f.append = false := hmoves.append.symm.trans ha
      have hle := (hat (happend.symm.trans ha')).2 n rfl
      have hmove := hmoves.offset ha'
      dsimp only at hmove
      omega
    have happend' := hmoves.append.trans happend
    dsimp only
    rw [hdirect]
    dsimp only
    split
    · exact ⟨⟨h.op, hpast⟩, happend'⟩
    · exact ⟨⟨h.op, hpast⟩, happend'⟩

theorem fwriteBuffered_writing (hw : Window s) (h : Writing s) {b : Block}
    (hok : (fwriteBuffered s b).2.fault = false) :
    Writing (fwriteBuffered s b).2 ∧ (fwriteBuffered s b).2.file.append = s.file.append := by
  have hopen : Window (openWindow s) ∧ Writing (openWindow s) ∧ (openWindow s).file = s.file := by
    have hstart := hw.start_le
    have hpos := hw.pos_le
    rw [openWindow]
    split
    · next hempty =>
      refine ⟨⟨Nat.le_refl _, Nat.le_add_right _ _, Nat.le_refl _⟩, ⟨h.op, fun happend => ?_⟩, rfl⟩
      have hle := h.offset happend
      show s.pos ≤ s.file.offset
      omega
    · exact ⟨hw, h, rfl⟩
  obtain ⟨hw', h', hfile⟩ := hopen
  rw [← hfile]
  rw [fwriteBuffered, Stream.checkWindow_of_le hw'.start_le hw'.pos_le] at hok ⊢
  dsimp only at hok ⊢
  split
  · exact ⟨⟨h'.op, h'.offset⟩, rfl⟩
  · next hover =>
    rw [if_neg hover] at hok
    exact fwriteOverflow_writing hw' h' hok

theorem fwriteUnbuffered_inStep (h : InStep s) (hw : Window s) (hbare : s.start = s.pos)
    (herror : s.error ≠ .error) (b : Block) : StaysInStep s (fwriteUnbuffered s b).2 := by
  have hmoves := s.file.write_moves b.data
  rw [fwriteUnbuffered]
  rcases hwrite : s.file.write b.data with ⟨count, f⟩
  rw [hwrite] at hmoves
  cases count with
  | none => exact ⟨hmoves.append, fun _ herror => absurd rfl herror⟩
  | some n =>
    refine ⟨hmoves.append, Writing.inStep ⟨rfl, fun happend => ?_⟩⟩
    have happend' : s.file.append = false := hmoves.append.symm.trans happend
    have hle := h.pos_le hw (fun _ => hbare) happend' herror
    have hmove := hmoves.offset happend'
    dsimp only at hmove
    rw [Option.getD_some] at hmove
    show s.pos + n ≤ f.offset
    omega

/-- The kernel is taken back to the position, but no further. -/
theorem enterWrite_writing (h : InStep s) (hw : Window s) (herror : s.error ≠ .error) :
    Window (enterWrite s) ∧ Writing (enterWrite s) ∧ (enterWrite s).file.append = s.file.append := by
  have hempty : ∀ here : Nat, here ≤ here + s.bufSize := fun here => Nat.le_add_right _ _
  by_cases hop : s.prevOp = .write
  · rw [enterWrite, if_neg (fun hne => hne hop)]
    exact ⟨hw, ⟨hop, fun happend => h.writing happend herror hop⟩, rfl⟩
  rw [enterWrite, if_pos hop]
  by_cases happ : s.file.append = true
  · have hexcused : ∀ f : OpenFile, f.append = s.file.append → f.append = false → False := fun f heq hf => by
      rw [heq, happ] at hf
      contradiction
    dsimp only
    rw [if_pos happ]
    rcases hseek : s.file.lseek 0 .end_ with ⟨n, f⟩
    have hf : f.append = s.file.append := by
      have hlseek := congrArg (fun r => r.2.append) hseek
      rw [OpenFile.lseek] at hlseek
      dsimp only at hlseek
      rw [← hlseek]
      split
      · rfl
      · rfl
    cases n with
    | none => exact ⟨⟨Nat.le_refl _, Nat.le_refl _, hempty _⟩, ⟨rfl, fun ha => (hexcused f hf ha).elim⟩, hf⟩
    | some n => exact ⟨⟨Nat.le_refl _, Nat.le_refl _, hempty _⟩, ⟨rfl, fun ha => (hexcused f hf ha).elim⟩, hf⟩
  · have happend : s.file.append = false := by simpa using happ
    have hle := Nat.le_trans hw.pos_le (h.not_writing happend herror hop)
    dsimp only
    rw [if_neg happ]
    split
    · rw [OpenFile.lseek_set_file]
      refine ⟨⟨Nat.le_refl _, Nat.le_refl _, hempty _⟩, ⟨rfl, fun _ => ?_⟩, rfl⟩
      show s.pos ≤ if s.file.answer = .fail then s.file.offset else s.pos
      split
      · exact hle
      · exact Nat.le_refl _
    · exact ⟨⟨Nat.le_refl _, Nat.le_refl _, hempty _⟩, ⟨rfl, fun _ => hle⟩, rfl⟩

theorem Held.fwrite_inStep (h : Held s) (hs : InStep s) {b : Block} (hok : (commonFwrite s b).2.fault = false) :
    StaysInStep s (commonFwrite s b).2 := by
  by_cases herror : s.error = .error
  · rw [commonFwrite, if_pos herror]
    exact .refl hs
  by_cases hrd : s.bufMode.rdonly = true
  · rw [commonFwrite, if_neg herror, if_pos hrd]
    exact ⟨rfl, fun _ herror => absurd rfl herror⟩
  by_cases hnbf : s.bufMode.nbf = true
  · have hb : Bare s := h.resolve_left (fun hs => by rw [hs.buffered] at hnbf; contradiction)
    rw [commonFwrite, if_neg herror, if_neg hrd, if_pos hnbf]
    exact fwriteUnbuffered_inStep hs h.window hb.start herror b
  obtain ⟨hw, hwriting, happend⟩ := enterWrite_writing hs h.window herror
  obtain ⟨granted, buf, m, halloc⟩ := allocateBuffer_only (enterWrite s)
  have hw' : Window { enterWrite s with buffer := buf, bufMode := m } := ⟨hw.start_le, hw.pos_le, hw.fits⟩
  have hwriting' : Writing { enterWrite s with buffer := buf, bufMode := m } := ⟨hwriting.op, hwriting.offset⟩
  rw [commonFwrite, if_neg herror, if_neg hrd, if_neg hnbf, halloc] at hok ⊢
  cases granted with
  | false => exact ⟨happend, hwriting'.inStep⟩
  | true =>
    obtain ⟨hwrite, happend'⟩ := fwriteBuffered_writing hw' hwriting' hok
    exact ⟨happend'.trans happend, hwrite.inStep⟩

/-! ## Seeking, and choosing a buffer -/

theorem seekFile_inStep (h : InStep s) (offset : Int) (whence : Whence) :
    StaysInStep s (seekFile s offset whence).2 := by
  rw [seekFile]
  rcases hseek : s.file.lseek offset whence with ⟨n, f⟩
  cases n with
  | none =>
    rw [OpenFile.lseek_none hseek]
    exact ⟨rfl, h⟩
  | some n =>
    rw [OpenFile.lseek_some hseek]
    refine ⟨rfl, fun _ _ => ?_⟩
    dsimp only
    rw [ite_self]

theorem Held.fseek_inStep (h : Held s) (hs : InStep s) (offset : Int) (whence : Whence) :
    StaysInStep s (commonFseek s offset whence).2 := by
  have hflush : StaysInStep s (if s.prevOp = .write then (commonFflush s).2 else s) := by
    split
    · exact (h.flush_inStep hs).1
    · exact .refl hs
  rw [commonFseek]
  generalize (if s.prevOp = .write then (commonFflush s).2 else s) = s₁ at hflush ⊢
  split
  · exact ⟨hflush.append, hflush.inStep⟩
  · have hseek := seekFile_inStep hflush.inStep offset whence
    exact ⟨hseek.append.trans hflush.append, hseek.inStep⟩

/-- The kernel goes to the position, or stays where it is. -/
theorem dropWindow_inStep (h : InStep s) (hw : Window s) (hsettled : s.error = .error ∨ Settled s) :
    StaysInStep s (dropWindow s) := by
  refine ⟨by rw [dropWindow, OpenFile.lseek_set_file]; rfl, fun happend herror => ?_⟩
  rw [dropWindow, OpenFile.lseek_set_file] at happend ⊢
  have hle := h.pos_le hw (hsettled.resolve_left herror) happend herror
  dsimp only
  rw [ite_self]
  split
  · exact hle
  · exact Nat.le_refl _

theorem SetvbufResult.inStep (h : InStep s) (hw : Window s) (hsettled : s.error = .error ∨ Settled s)
    {mode : Buffering} {c : SetvbufCall} {r : Bool × Stream} (hr : SetvbufResult s mode c r) :
    StaysInStep s r.2 := by
  have hdrop := dropWindow_inStep h hw hsettled
  cases hr
  all_goals exact ⟨hdrop.append, hdrop.inStep⟩

theorem Held.setvbuf_inStep (h : Held s) (hs : InStep s) (c : SetvbufCall) : StaysInStep s (c.apply s).2 := by
  rw [SetvbufCall.apply]
  split
  · exact .refl hs
  · next mode _ =>
    obtain ⟨hflush, hsettled⟩ := h.flush_inStep hs
    have hresult := (commonSetvbuf_result (commonFflush s).2 mode c).inStep hflush.inStep h.flush.window hsettled
    exact ⟨hresult.append.trans hflush.append, hresult.inStep⟩

/-! ## Runs -/

/-- **One call.** -/
theorem Held.apply_inStep (h : Held s) (hs : InStep s) {c : StreamCall} (hok : (c.apply s).fault = false) :
    StaysInStep s (c.apply s) := by
  cases c with
  | setvbuf c => exact h.setvbuf_inStep hs c
  | io c =>
    by_cases hidle : c.Idle
    · rw [StreamCall.apply, if_pos hidle]
      exact .refl hs
    rw [StreamCall.apply, if_neg hidle] at hok ⊢
    cases c with
    | fread size count => exact h.fread_inStep hs hok
    | fwrite b => exact h.fwrite_inStep hs hok
    | fputc ch =>
      simp only [IoCall.apply] at hok ⊢
      by_cases hfast : s.bufMode.nbf = false ∧ s.prevOp = .write ∧ s.start ≠ s.end_ ∧ s.pos ≠ s.end_
      · rw [commonFputc, if_pos hfast]
        exact ⟨rfl, hs⟩
      · rw [commonFputc_slow hfast] at hok ⊢
        exact h.fwrite_inStep hs hok
    | fgetc junk =>
      simp only [IoCall.apply] at hok ⊢
      by_cases hfast : s.bufMode.nbf = false ∧ s.prevOp = .read ∧ s.start ≠ s.end_ ∧ s.pos ≠ s.end_
      · rw [commonFgetc, if_pos hfast]
        exact ⟨rfl, hs⟩
      · rw [commonFgetc_slow hfast] at hok ⊢
        exact h.fread_inStep hs hok
    | ungetc ch =>
      simp only [IoCall.apply]
      rw [commonUngetc]
      split
      · refine ⟨rfl, fun happend herror => hs happend ?_⟩
        intro heq
        refine herror ?_
        show s.error.withoutEof = .error
        rw [heq]
        rfl
      · exact .refl hs
    | fflush => exact (h.flush_inStep hs).1
    | fseek offset whence => exact h.fseek_inStep hs offset whence

theorem Fopened.inStep (h : Fopened s) : InStep s := by
  obtain ⟨file, access, bufSize, heap, -, rfl⟩ := h
  exact fun _ _ => Nat.zero_le _

/-- **Any stream.** -/
theorem Reached.inStep (h : Reached s) : InStep s := by
  obtain ⟨s₀, cs, os, h₀, hrun, hfault⟩ := h
  have hkept : (Held s ∧ InStep s) ∨ s.fault = true := by
    refine Machine.run_keeps (M := streamCalls) (I := fun s => (Held s ∧ InStep s) ∨ s.fault = true) ?_ cs
      (.inl ⟨.inl h₀.sound, h₀.inStep⟩) hrun
    intro s c s' o h hstep
    cases hstep
    rcases h with ⟨hheld, hs⟩ | hbroken
    · cases hfault' : (c.apply s).fault with
      | true => exact .inr rfl
      | false =>
        refine .inl ⟨(apply_held (.inl hheld) c).resolve_right ?_, (hheld.apply_inStep hs hfault').inStep⟩
        rw [hfault']
        exact Bool.false_ne_true
    · exact .inr (c.fault_apply hbroken)
  rcases hkept with ⟨-, hs⟩ | hbroken
  · exact hs
  · rw [hfault] at hbroken
    contradiction

end WindowsLibc.Stdio
