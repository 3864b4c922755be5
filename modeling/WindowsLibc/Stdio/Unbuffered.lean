import WindowsLibc.Stdio.Unnoticed

/-!
# Losing the place

A stream without a buffer has no window to lose: of what `setvbuf` does before it fails only the seek can be
noticed, where the kernel was not at the position of the stream.

* `Apart` are two such streams that differ in that, and of which no call can tell them apart.
* `Bare.unnoticed_iff` is what `Sound.unnoticed_iff` is for streams with a buffer.
-/

namespace WindowsLibc.Stdio

open WindowsLibc.Lib

variable {s : Stream}

/-! ## Reading and writing without a buffer -/

/-- A read of nothing, by a kernel that grants everything. -/
theorem readWrapper_nil (hf : s.file.Granted) {n : Nat}
    (hnil : (s.file.content.drop s.file.offset).take n = []) :
    readWrapper s n = ([], { s with error := .eof }) := by
  have htransfer : s.file.transfer n = [] := by
    rw [OpenFile.transfer, hf.answer]
    exact hnil
  rw [readWrapper_eq, if_neg hf.succeeds.answer_ne, htransfer, hf.answered]
  rfl

theorem freadLast_nil (hf : s.file.Granted) (hend : s.file.content.length ≤ s.file.offset)
    (hB : 1 ≤ s.bufSize) (size : Nat) {dataSize : Nat} (hsome : 0 < dataSize) :
    freadLast s size dataSize [] = (([], 0), { s with error := .eof }) := by
  have hfill : freadFill (dataSize - ([] : List Byte).length) (s.bufSize + 1) 0 s =
      (0, { s with error := .eof }) := by
    have hnil : (s.file.content.drop s.file.offset).take (s.bufSize - 0) = [] := by
      rw [List.drop_eq_nil_of_le hend, List.take_nil]
    rw [freadFill, if_pos ⟨hB, hsome⟩, readWrapper_nil hf hnil]
  rw [freadLast, hfill]
  show (([], ([] : List Byte).length / size), { s with error := .eof }) = _
  rw [List.length_nil, Nat.zero_div]

/-- At the end of the file, or with a buffer of size 0, reading ends with the end-of-file flag. -/
theorem Bare.fread_eof (h : Bare s) (hf : s.file.Granted) (hclear : s.error = .clear)
    (hwr : s.bufMode.wronly = false)
    (hend : s.bufMode.nbf = true ∨ 1 ≤ s.bufSize → s.file.content.length ≤ s.file.offset)
    {size count : Nat} (hsome : 0 < size * count) :
    commonFread s size count = (([], 0), { s with prevOp := .read, error := .eof }) := by
  by_cases hnbf : s.bufMode.nbf = true
  · have hnil : (s.file.content.drop s.file.offset).take (size * count) = [] := by
      rw [List.drop_eq_nil_of_le (hend (.inl hnbf)), List.take_nil]
    rw [commonFread, if_neg (by simp [hclear]), if_neg (by simp [hwr]), if_pos hnbf, freadUnbuffered,
      readWrapper_nil hf hnil]
  · have hnbf' : s.bufMode.nbf = false := by simpa using hnbf
    have hread : Bare { s with prevOp := .read } :=
      h.answered (fun hop => by contradiction) (fun _ => hwr)
    have hstay : ∀ e, ({ s with
        error := e, prevOp := .read, pos := s.pos + 0, start := s.pos + 0, end_ := s.pos + 0 } : Stream) =
          { s with error := e, prevOp := .read } := by
      intro e
      cases s
      cases h.start
      cases h.end_
      rfl
    rw [h.commonFread_eq hnbf' hclear hwr, hread.freadBuffered_eq hsome]
    by_cases hloop : 0 + s.bufSize < size * count
    · have hnil : (s.file.content.drop s.file.offset).take s.bufSize = [] := by
        rcases Nat.eq_zero_or_pos s.bufSize with hB | hB
        · rw [hB, List.take_zero]
        · rw [List.drop_eq_nil_of_le (hend (.inr hB)), List.take_nil]
      have hdirect : freadDirect (size * count) (size * count + 1) [] { s with prevOp := .read } =
          ([], false, { s with error := .eof, prevOp := .read }) := by
        rw [freadDirect, if_pos (by exact hloop), readWrapper_nil (s := { s with prevOp := .read }) hf hnil]
      rw [hdirect]
      dsimp only
      rw [if_neg Bool.false_ne_true, List.length_nil, Nat.zero_div]
      exact congrArg (Prod.mk _) (hstay .eof)
    · have hdirect : freadDirect (size * count) (size * count + 1) [] { s with prevOp := .read } =
          ([], true, { s with prevOp := .read }) := by
        rw [freadDirect, if_neg (by exact hloop)]
      have hB : 1 ≤ s.bufSize := by omega
      rw [hdirect]
      dsimp only
      rw [if_pos rfl, List.length_nil, hstay s.error]
      exact freadLast_nil (s := { s with prevOp := .read }) hf (hend (.inr hB)) hB size hsome

/-- A read that is long enough gets everything, and leaves the missing buffer alone. -/
theorem Bare.fread_all (h : Bare s) (hf : s.file.Granted) (hr : ReadsOffset s) {n : Nat}
    (hn : s.file.content.length + s.bufSize < n) :
    (commonFread s 1 n).1.1 = s.file.content.drop s.file.offset ∧ (commonFread s 1 n).2.fault = false := by
  have hlen : (s.file.content.drop s.file.offset).length ≤ s.file.content.length := by
    rw [List.length_drop]
    exact Nat.sub_le _ _
  by_cases hnbf : s.bufMode.nbf = true
  · obtain ⟨hbytes, hfault⟩ := h.read_unbuffered hnbf hr.clear hr.access hf.answer 1 n
    rw [List.take_of_length_le (by omega)] at hbytes
    exact ⟨hbytes, hfault⟩
  · have hnbf' : s.bufMode.nbf = false := by simpa using hnbf
    have hB := hr.equipped.resolve_left hnbf
    have hread : Bare { s with prevOp := .read } :=
      h.answered (fun hop => by contradiction) (fun _ => hr.access)
    obtain ⟨bytes, more, f, hdirect, hdelivers, hlt, hmore, hend⟩ :=
      freadDirect_spec (1 * n) (1 * n + 1) [] { s with prevOp := .read } hf.succeeds hB
        (by rw [List.length_nil]; omega) (by rw [List.length_nil]; omega)
    have hahead := hdelivers.ahead
    have hshort : bytes.length ≤ s.file.content.length := by
      have hall := congrArg List.length hahead
      rw [List.length_append, List.length_drop] at hall
      dsimp only at hall
      omega
    have hstop : more = false := by
      cases more with
      | false => rfl
      | true =>
        have hle := hmore rfl
        rw [List.nil_append] at hle
        dsimp only at hle
        omega
    have hbytes : bytes = s.file.content.drop s.file.offset := by
      have hat := hend hstop
      dsimp only at hahead hat
      rw [hahead, List.drop_eq_nil_of_le hat, List.append_nil]
    rw [h.commonFread_eq hnbf' hr.clear hr.access, hread.freadBuffered_eq (by omega), hdirect, hstop]
    dsimp only
    rw [if_neg Bool.false_ne_true, List.nil_append]
    exact ⟨hbytes, h.no_fault⟩

/-! ## Two streams in different places -/

/-- The kernel is somewhere else. -/
def Stream.movedTo (s : Stream) (offset : Nat) : Stream := { s with file := { s.file with offset := offset } }

/-- Neither reading nor writing can tell where the kernel is. -/
structure Apart (s : Stream) (offset : Nat) : Prop where
  bare : Bare s
  granted : s.file.Granted
  reads : ReadsOffset s → s.file.content.length ≤ s.file.offset ∧ s.file.content.length ≤ offset
  writes : ¬ WritesOffset s

theorem Bare.movedTo (h : Bare s) (offset : Nat) : Bare (s.movedTo offset) := h.answered h.writable h.readable

namespace Apart

variable {offset : Nat}

/-- Reading. -/
theorem fread (h : Apart s offset) (hwr : s.bufMode.wronly = false) {size count : Nat}
    (hsome : 0 < size * count) :
    ∃ s', commonFread s size count = (([], 0), s') ∧
      commonFread (s.movedTo offset) size count = (([], 0), s'.movedTo offset) ∧ Apart s' offset ∧
      s'.bufMode = s.bufMode := by
  by_cases hclear : s.error = .clear
  · have hread := h.bare.fread_eof h.granted hclear hwr (fun he => (h.reads ⟨hclear, hwr, he⟩).1) hsome
    have hread' := (h.bare.movedTo offset).fread_eof h.granted hclear hwr
      (fun he => (h.reads ⟨hclear, hwr, he⟩).2) hsome
    refine ⟨_, hread, hread', ⟨h.bare.answered (fun hop => by contradiction) (fun _ => hwr), h.granted,
      fun hr => ?_, fun hw => ?_⟩, rfl⟩
    · have hflag := hr.clear
      contradiction
    · -- a write that would go to the offset now would have done so before
      refine h.writes ⟨by rw [hclear]; exact fun hc => by contradiction, hw.access, hw.append, ?_⟩
      rcases hw.equipped with hnbf | ⟨hop, -⟩
      · exact .inl hnbf
      · exact absurd rfl hop
  · have hset : s.error = .eof ∨ s.error = .error := by
      cases herror : s.error with
      | clear => exact absurd herror hclear
      | eof => exact .inl rfl
      | error => exact .inr rfl
    exact ⟨s, by rw [commonFread, if_pos hset], by rw [commonFread]; exact if_pos hset, h, rfl⟩

/-- Writing. -/
theorem fwrite (h : Apart s offset) (hrd : s.bufMode.rdonly = false) {b : Block} (hsome : b.data ≠ []) :
    ((commonFwrite s b).2.fault = true ∧ (commonFwrite (s.movedTo offset) b).2.fault = true) ∨
      commonFwrite (s.movedTo offset) b = commonFwrite s b ∨
      (commonFwrite s b = (0, s) ∧ commonFwrite (s.movedTo offset) b = (0, s.movedTo offset)) := by
  by_cases herror : s.error = .error
  · exact .inr (.inr ⟨by rw [commonFwrite, if_pos herror], by rw [commonFwrite]; exact if_pos herror⟩)
  by_cases hnbf : s.bufMode.nbf = true
  · -- only a file that appends is left
    have happ : s.file.append = true := by
      by_contra happ
      exact h.writes ⟨herror, hrd, by simpa using happ, .inl hnbf⟩
    have hput : (s.movedTo offset).file.put b.data = s.file.put b.data := by
      have htarget : s.file.target = s.file.content.length := if_pos happ
      have htarget' : (s.movedTo offset).file.target = s.file.content.length := if_pos happ
      rw [OpenFile.put, OpenFile.put, if_neg hsome, if_neg hsome, htarget, htarget']
      rfl
    have hcall : ∀ t : Stream, t.error = s.error → t.bufMode = s.bufMode →
        commonFwrite t b = fwriteUnbuffered t b := by
      intro t herr hmode
      rw [commonFwrite, if_neg (by rw [herr]; exact herror), if_neg (by rw [hmode, hrd]; exact Bool.false_ne_true),
        if_pos (by rw [hmode]; exact hnbf)]
    right
    left
    have hgranted' : (s.movedTo offset).file.Granted := h.granted
    rw [hcall s rfl rfl, hcall (s.movedTo offset) rfl rfl, fwriteUnbuffered, fwriteUnbuffered,
      OpenFile.write_granted h.granted hsome, OpenFile.write_granted hgranted' hsome, hput]
    rfl
  · left
    have hnbf' : s.bufMode.nbf = false := by simpa using hnbf
    have hfault : ∀ t : Stream, Bare t → t.file.Granted → t.error = s.error → t.bufMode = s.bufMode →
        (commonFwrite t b).2.fault = true := by
      intro t ht hgranted herr hmode
      have hwrite := ht.fwrite_buffered (by rw [herr]; exact herror) (by rw [hmode]; exact hrd)
        (by rw [hmode]; exact hnbf') hsome
      refine hwrite.resolve_left (fun hkept => hkept.2 ?_)
      obtain ⟨f, start, e, pos, henter, hf, -⟩ := enterWrite_put hgranted
      rw [henter]
      exact hf.succeeds
    exact ⟨hfault s h.bare h.granted rfl rfl, hfault _ (h.bare.movedTo offset) h.granted rfl rfl⟩

theorem slow (h : Apart s offset) : s.start = s.end_ := h.bare.start.trans h.bare.end_.symm

/-- Any call: the two fault together, or are the same from then on, or stay apart. -/
theorem serve (h : Apart s offset) {c : Transfer} (hc : c.Permitted s.bufMode.rdonly s.bufMode.wronly) :
    ((c.serve s).2.fault = true ∧ (c.serve (s.movedTo offset)).2.fault = true) ∨
      c.serve (s.movedTo offset) = c.serve s ∨
      ∃ o s', c.serve s = (o, s') ∧ c.serve (s.movedTo offset) = (o, s'.movedTo offset) ∧
        Apart s' offset ∧ s'.bufMode = s.bufMode := by
  have hslow := h.slow
  cases c with
  | fread size count =>
    by_cases hnone : size * count = 0
    · simp only [Transfer.serve, if_pos hnone]
      exact .inr (.inr ⟨_, s, rfl, rfl, h, rfl⟩)
    · obtain ⟨s', hread, hread', happ, hmode⟩ := h.fread hc (Nat.pos_of_ne_zero hnone)
      simp only [Transfer.serve, if_neg hnone, hread, hread']
      exact .inr (.inr ⟨_, s', rfl, rfl, happ, hmode⟩)
  | fwrite b =>
    by_cases hnone : b.data = []
    · simp only [Transfer.serve, if_pos hnone]
      exact .inr (.inr ⟨_, s, rfl, rfl, h, rfl⟩)
    · simp only [Transfer.serve, if_neg hnone]
      rcases h.fwrite hc hnone with hfault | hsame | ⟨hwrite, hwrite'⟩
      · exact .inl hfault
      · rw [hsame]
        exact .inr (.inl rfl)
      · rw [hwrite, hwrite']
        exact .inr (.inr ⟨_, s, rfl, rfl, h, rfl⟩)
  | fputc ch =>
    simp only [Transfer.serve]
    rw [commonFputc_slow (s := s) (fun hfast => hfast.2.2.1 hslow),
      commonFputc_slow (s := s.movedTo offset) (fun hfast => hfast.2.2.1 hslow)]
    rcases h.fwrite hc (b := .single ch) (List.cons_ne_nil _ _) with hfault | hsame | ⟨hwrite, hwrite'⟩
    · exact .inl hfault
    · rw [hsame]
      exact .inr (.inl rfl)
    · rw [hwrite, hwrite']
      exact .inr (.inr ⟨_, s, rfl, rfl, h, rfl⟩)
  | fgetc junk =>
    have hsome : 0 < 1 * 1 := Nat.one_pos
    obtain ⟨s', hread, hread', happ, hmode⟩ := h.fread hc hsome
    simp only [Transfer.serve]
    rw [commonFgetc_slow (s := s) (fun hfast => hfast.2.2.1 hslow),
      commonFgetc_slow (s := s.movedTo offset) (fun hfast => hfast.2.2.1 hslow), hread, hread']
    exact .inr (.inr ⟨_, s', rfl, rfl, happ, hmode⟩)

end Apart

/-! ## What is noticed -/

theorem Bare.granted (h : Bare s) (g : Nat → Byte) : Bare (s.granted g) :=
  ⟨h.no_fault, h.start, h.end_, h.unusable, h.writable, h.readable⟩

theorem Bare.flushedFile_eq (h : Bare s) : flushedFile s = s.file :=
  if_neg (fun hp => hp.2 h.start)

/-- Only the kernel has moved. -/
theorem Bare.dropped_granted (h : Bare s) (g : Nat → Byte) :
    (dropped s).granted g = (s.granted g).movedTo (soughtOffset s) := by
  have hflush : (commonFflush s).2 = s := congrArg Prod.snd h.commonFflush_eq
  have hstart := h.start
  have hend := h.end_
  rw [dropped, hflush, dropWindow, OpenFile.lseek_set_file, soughtOffset, h.flushedFile_eq]
  cases s
  cases hstart
  cases hend
  rfl

theorem commonFclose_bare (h : Bare s) : commonFclose s = s.file.content := by
  rw [commonFclose, h.commonFflush_eq]

theorem Bare.unnoticed_of_resumes (h : Bare s) (hr : Resumes s) : Unnoticed s (dropped s) := by
  intro g cs hcs
  rw [h.dropped_granted]
  by_cases hmoved : s.file.offset = soughtOffset s
  · have hstays : (s.granted g).movedTo (soughtOffset s) = s.granted g := by
      rw [← hmoved]
      rfl
    rw [hstays]
  have hunread : unread s = s.file.content.drop s.file.offset := h.unread_eq
  have hahead := hr.ahead
  have hplace := hr.place
  rw [h.flushedFile_eq] at hahead hplace
  have happ : Apart (s.granted g) (soughtOffset s) := by
    refine ⟨h.granted g, rfl, fun hreads => ?_, fun hw => ?_⟩
    · have hsame := hahead ⟨hreads.clear, hreads.access, hreads.equipped⟩
      rw [hunread] at hsame
      -- two tails of different lengths are the same only if there is nothing in them
      have hlen := congrArg List.length hsame
      rw [List.length_drop, List.length_drop] at hlen
      show s.file.content.length ≤ s.file.offset ∧ s.file.content.length ≤ soughtOffset s
      omega
    · refine hmoved (hplace ⟨hw.no_error, hw.access, hw.append, hw.equipped.imp id ?_⟩)
      rintro ⟨hop, hsize, hstored⟩
      exact ⟨hop, hsize, hstored.imp (fun hb => ⟨hb.length_buffer, hb.mode, hb.not_lazy⟩) id⟩
  refine Machine.observe_eq
    (R := fun t u => t = u ∨ ∃ o, Apart t o ∧ u = t.movedTo o ∧ t.bufMode = s.bufMode)
    (P := fun c => c.Permitted s.bufMode.rdonly s.bufMode.wronly) ?_ ?_ cs (.inr ⟨_, happ, rfl, rfl⟩) hcs
  · rintro t u (rfl | ⟨o, hto, rfl, -⟩)
    · rfl
    · rw [commonFclose_bare hto.bare, commonFclose_bare (hto.bare.movedTo o)]
      rfl
  · intro t u c hR hc
    have hfaulty : ∀ v : Stream, (c.serve v).2.fault = true → transferMachine.step v c = none :=
      fun v hv => if_pos hv
    rcases hR with rfl | ⟨o, hto, rfl, hmode⟩
    · by_cases hfault : (c.serve t).2.fault = true
      · exact .inl ⟨hfaulty t hfault, hfaulty t hfault⟩
      · have hstep := transferMachine_step (by simpa using hfault)
        exact .inr ⟨_, _, _, hstep, hstep, .inl rfl⟩
    · rcases hto.serve (by rw [hmode]; exact hc) with ⟨hfault, hfault'⟩ | hsame | ⟨out, t', ht, hu, happ', hmode'⟩
      · exact .inl ⟨hfaulty t hfault, hfaulty _ hfault'⟩
      · by_cases hfault : (c.serve t).2.fault = true
        · exact .inl ⟨hfaulty t hfault, hfaulty _ (by rw [hsame]; exact hfault)⟩
        · have hstep := transferMachine_step (by simpa using hfault)
          have hstep' : transferMachine.step (t.movedTo o) c = some ((c.serve t).2, (c.serve t).1) := by
            rw [← hsame]
            exact transferMachine_step (by rw [hsame]; simpa using hfault)
          exact .inr ⟨_, _, _, hstep, hstep', .inl rfl⟩
      · have hfault : (c.serve t).2.fault = false := by
          rw [ht]
          exact happ'.bare.no_fault
        have hfault' : (c.serve (t.movedTo o)).2.fault = false := by
          rw [hu]
          exact happ'.bare.no_fault
        have hstep := transferMachine_step hfault
        have hstep' := transferMachine_step hfault'
        rw [ht] at hstep
        rw [hu] at hstep'
        exact .inr ⟨_, _, _, hstep, hstep', .inr ⟨o, happ', rfl, hmode'.trans hmode⟩⟩

/-- A write of one byte, by a kernel that grants everything. -/
theorem Bare.fwrite_single (h : Bare s) (hf : s.file.Granted) (hnbf : s.bufMode.nbf = true)
    (herror : s.error ≠ .error) (hrd : s.bufMode.rdonly = false) (happend : s.file.append = false) (ch : Byte) :
    (commonFwrite s (.single ch)).2.fault = false ∧
      commonFclose (commonFwrite s (.single ch)).2 = overwrite s.file.content s.file.offset [ch] := by
  have hne : (Block.single ch).data ≠ [] := List.cons_ne_nil _ _
  have htarget : s.file.target = s.file.offset := if_neg (by rw [happend]; exact Bool.false_ne_true)
  rw [commonFwrite, if_neg herror, if_neg (by rw [hrd]; exact Bool.false_ne_true), if_pos hnbf,
    fwriteUnbuffered, OpenFile.write_granted hf hne]
  refine ⟨h.no_fault, ?_⟩
  rw [commonFclose, commonFflush, if_pos hnbf]
  show (s.file.put (Block.single ch).data).content = _
  rw [OpenFile.put_content hne, htarget]
  rfl

theorem Bare.resumes_of_unnoticed (h : Bare s) (hun : Unnoticed s (dropped s)) : Resumes s := by
  have hdropped := h.dropped_granted fun _ => 0
  refine ⟨fun hf => absurd hf h.not_flushFails, fun _ => h.end_.symm,
    fun _ _ => .inl (h.end_.trans h.start.symm), fun hr => ?_, fun hw => ?_⟩
  · -- a read of more than there is
    obtain ⟨n, hn⟩ : ∃ n, s.file.content.length + s.bufSize < n := ⟨_, Nat.lt_succ_self _⟩
    have hsome : ¬ 1 * n = 0 := by omega
    have hreads : ReadsOffset (s.granted fun _ => 0) := ⟨hr.clear, hr.access, hr.equipped⟩
    have hreads' : ReadsOffset ((s.granted fun _ => 0).movedTo (soughtOffset s)) :=
      ⟨hr.clear, hr.access, hr.equipped⟩
    obtain ⟨hbytes, hfault⟩ := (h.granted fun _ => 0).fread_all rfl hreads hn
    obtain ⟨hbytes', hfault'⟩ :=
      ((h.granted fun _ => 0).movedTo (soughtOffset s)).fread_all rfl hreads' hn
    have hserved := (hun.served (c := .fread 1 n) hr.access (fun _ => 0)
      (by simp only [Transfer.serve, if_neg hsome]; exact hfault)
      (by rw [hdropped]; simp only [Transfer.serve, if_neg hsome]; exact hfault')).1
    have hsame := congrArg Served.bytes hserved
    rw [hdropped] at hsame
    simp only [Transfer.serve, if_neg hsome] at hsame
    rw [hbytes, hbytes'] at hsame
    rw [h.unread_eq, h.flushedFile_eq]
    exact hsame
  · have hnbf : s.bufMode.nbf = true := by
      rcases hw.equipped with hnbf | ⟨-, hsize, hstored⟩
      · exact hnbf
      · refine h.unusable.resolve_right ?_
        rintro ⟨hlazy, hnone⟩
        have hb := hstored.resolve_right hlazy
        rcases hnone with hzero | hnull
        · omega
        · have hlen := hb.length_buffer
          rw [hnull, List.length_nil] at hlen
          omega
    -- a write of a byte that does not stand there
    have hput : ∀ ch : Byte, overwrite s.file.content s.file.offset [ch] =
        overwrite s.file.content (soughtOffset s) [ch] := fun ch => by
      have hne : ¬ (Block.single ch).data = [] := List.cons_ne_nil _ _
      obtain ⟨hfault, hclosed⟩ := (h.granted fun _ => 0).fwrite_single rfl hnbf hw.no_error hw.access
        hw.append ch
      obtain ⟨hfault', hclosed'⟩ := ((h.granted fun _ => 0).movedTo (soughtOffset s)).fwrite_single rfl
        hnbf hw.no_error hw.access hw.append ch
      have hseen := (hun.served (c := .fwrite (.single ch)) hw.access (fun _ => 0)
        (by simp only [Transfer.serve, if_neg hne]; exact hfault)
        (by rw [hdropped]; simp only [Transfer.serve, if_neg hne]; exact hfault')).2
      rw [hdropped] at hseen
      simp only [Transfer.serve, if_neg hne] at hseen
      rw [hclosed, hclosed'] at hseen
      exact hseen
    rw [h.flushedFile_eq]
    exact eq_of_overwrite (show (0 : Byte) ≠ 1 by decide) (hput 0) (hput 1)

/-- **Streams without a buffer.** The call is not noticed exactly if the stream resumes. -/
theorem Bare.unnoticed_iff (h : Bare s) : Unnoticed s (dropped s) ↔ Resumes s :=
  ⟨h.resumes_of_unnoticed, h.unnoticed_of_resumes⟩

end WindowsLibc.Stdio
