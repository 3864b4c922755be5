import WindowsLibc.Stdio.Getc

/-!
# Pushing bytes back

`common_ungetc` writes into the read buffer, behind the position, so that there has to be something of the
window there. A read that ends with whole blocks, which go to the caller directly, leaves none.

* `pushesBack_iff` is about a stream that has been read: what makes `common_ungetc` do what it should.
* `leavesRoom_iff` says which reads leave a byte of the window behind the position.
* `pushback_iff` puts these together, for every call that has delivered something.
-/

namespace WindowsLibc.Stdio

open WindowsLibc.Lib

variable {s : Stream}

/-! ## What there is to read behind the bytes pushed back -/

/-- `common_ungetc` again and again, as long as it succeeds. -/
def pushes : Machine Stream Byte Unit where
  step s ch := if (commonUngetc s ch).1 then some ((commonUngetc s ch).2, ()) else none

/-- A stream that has been read has a byte of its window behind the position. -/
def RoomBehind (s : Stream) : Prop := s.prevOp = .read ∧ s.start < s.pos

/-- Bytes pushed back one by one: each is taken, the next reads deliver them in reverse order and then what
they would have delivered, and the position is back by one each. -/
def PushesBack (s : Stream) : Prop :=
  (∀ ch, (commonUngetc s ch).1 = true) ∧
    ∀ pushed os s', pushes.run s pushed = some (s', os) →
      s'.pos + pushed.length = s.pos ∧ ∀ bytes, Delivers s bytes → Delivers s' (pushed.reverse ++ bytes)

theorem commonUngetc_eq (h : Sound s) (hback : RoomBehind s) (ch : Byte) :
    commonUngetc s ch = (true, { s with
      buffer := overwrite s.buffer (s.pos - 1 - s.start) [ch], pos := s.pos - 1
      error := s.error.withoutEof }) := by
  obtain ⟨hop, hlt⟩ := hback
  have hpos := h.pos_le
  have hin : s.pos - 1 - s.start + [ch].length ≤ s.buffer.length :=
    h.touch_eq (by rw [List.length_singleton]; omega)
  rw [commonUngetc, if_pos ⟨hop, hlt⟩, sub64_of_le (by omega), Stream.store_of_le hin]

theorem commonUngetc_refused (hback : ¬ RoomBehind s) (ch : Byte) : commonUngetc s ch = (false, s) := by
  rw [commonUngetc]
  exact if_neg hback

/-- A byte that is pushed back is the next to be read. -/
theorem unread_pushed (h : Sound s) (hback : RoomBehind s) (ch : Byte) :
    unread (commonUngetc s ch).2 = ch :: unread s := by
  obtain ⟨hop, hlt⟩ := id hback
  have hpos := h.pos_le
  have hin : s.pos - 1 - s.start + 1 ≤ s.buffer.length := h.touch_eq (by omega)
  rw [commonUngetc_eq h hback, unread_of_read (by exact hop), unread_of_read hop]
  simp only [Stream.load]
  rw [overwrite_of_le (by omega), List.append_assoc, List.drop_append_of_le_length (by rw [List.length_take]; omega),
    List.drop_eq_nil_of_le (by rw [List.length_take]; omega), List.nil_append, List.singleton_append,
    show s.end_ - (s.pos - 1) = s.end_ - s.pos + 1 by omega, List.take_succ_cons, List.length_singleton,
    show s.pos - 1 - s.start + 1 = s.pos - s.start by omega, List.cons_append]

theorem settled_of_read (hop : s.prevOp = .read) : Settled s := fun hwrite => by
  rw [hop] at hwrite
  contradiction

/-- A stream with a window can be read, if nothing is flagged. -/
theorem Sound.canRead (h : Sound s) (hop : s.prevOp = .read) (hne : s.start ≠ s.end_)
    (hclear : s.error = .clear) : CanRead s :=
  ⟨hclear, h.readable hop, Or.inr ⟨h.one_le_bufSize, Or.inl (h.backed hne)⟩⟩

/-- What a read of a stream with a window delivers. -/
theorem delivers_iff (h : Sound s) (hback : RoomBehind s) (bytes : List Byte) :
    Delivers s bytes ↔ bytes = if s.error = .clear then unread s else [] := by
  obtain ⟨hop, hlt⟩ := hback
  have hpos := h.pos_le
  have hsettled := settled_of_read hop
  have hserves : Serves s [] := fun a ha => by contradiction
  by_cases hclear : s.error = .clear
  · have hr := h.canRead hop (by omega) hclear
    rw [if_pos hclear, eq_comm, ← forall_take_eq_iff]
    constructor
    · intro hdelivers size count hsome
      rw [← (commonFread_served (Or.inl h) hsettled hr hserves size count).1]
      exact (hdelivers [] hserves size count hsome).1
    · intro hsame script hscript size count hsome
      obtain ⟨hbytes, hfault⟩ := commonFread_served (Or.inl h) hsettled hr hscript size count
      exact ⟨hbytes.trans (hsame size count hsome), hfault⟩
  · have hnone : ∀ script size count, (commonFread (s.withScript script) size count).1.1 = [] ∧
        (commonFread (s.withScript script) size count).2.fault = false := by
      intro script size count
      obtain ⟨hbytes, hfault⟩ :=
        commonFread_refused (s := s.withScript script) (fun hgo => hclear hgo.1) size count
      exact ⟨hbytes, hfault.trans h.no_fault⟩
    rw [if_neg hclear, eq_comm, ← forall_take_eq_iff]
    constructor
    · intro hdelivers size count hsome
      rw [← (hdelivers [] hserves size count hsome).1, (hnone [] size count).1, List.take_nil]
    · intro hsame script _ size count hsome
      obtain ⟨hbytes, hfault⟩ := hnone script size count
      rw [← hsame size count hsome, List.take_nil]
      exact ⟨hbytes, hfault⟩

/-- A successful run of pushes. -/
theorem pushes_run {pushed : List Byte} {os : List Unit} {s' : Stream} (h : Sound s) (hop : s.prevOp = .read)
    (hrun : pushes.run s pushed = some (s', os)) :
    Sound s' ∧ s'.prevOp = .read ∧ s'.pos + pushed.length = s.pos ∧ s'.end_ = s.end_ ∧
      unread s' = pushed.reverse ++ unread s ∧
      s'.error = if pushed = [] then s.error else s.error.withoutEof := by
  induction pushed generalizing s os with
  | nil =>
    cases hrun
    exact ⟨h, hop, rfl, rfl, rfl, rfl⟩
  | cons ch pushed ih =>
    by_cases hback : RoomBehind s
    · have heq := commonUngetc_eq h hback ch
      have hsound := commonUngetc_sound h ch
      have hunread := unread_pushed h hback ch
      have hstep : pushes.step s ch = some ((commonUngetc s ch).2, ()) := by
        show (if (commonUngetc s ch).1 = true then _ else _) = _
        rw [heq]
        exact if_pos rfl
      rw [Machine.run_cons hstep] at hrun
      obtain ⟨⟨s₂, os₂⟩, hrun₂, hpair⟩ := Option.map_eq_some_iff.mp hrun
      cases hpair
      obtain ⟨hsound', hop', hpos', hend', hunread', herror'⟩ := ih hsound (by rw [heq]; exact hop) hrun₂
      have hlt := hback.2
      rw [heq] at hpos' hend' herror'
      refine ⟨hsound', hop', ?_, hend', ?_, ?_⟩
      · have hleft : s₂.pos + pushed.length = s.pos - 1 := hpos'
        show s₂.pos + (ch :: pushed).length = s.pos
        rw [List.length_cons]
        omega
      · rw [hunread', hunread, List.reverse_cons, List.append_assoc, List.singleton_append]
      · rw [herror', if_neg (List.cons_ne_nil ch pushed)]
        cases s.error
        all_goals exact ite_self _
    · have hstep : pushes.step s ch = none := by
        show (if (commonUngetc s ch).1 = true then _ else _) = _
        rw [commonUngetc_refused hback]
        exact if_neg Bool.false_ne_true
      rw [Machine.run, hstep] at hrun
      contradiction

/-- **Pushing back on a stream that has been read.** There has to be a byte of the window behind the position,
and no error; at the end of the file there must be nothing left. -/
theorem pushesBack_iff (h : Sound s) (hop : s.prevOp = .read) :
    PushesBack s ↔ s.start < s.pos ∧ s.error ≠ .error ∧ (s.error = .eof → unread s = []) := by
  constructor
  · rintro ⟨htaken, hpushed⟩
    have hback : RoomBehind s := by
      by_contra hno
      have hrefused := htaken 0
      rw [commonUngetc_refused hno] at hrefused
      contradiction
    have heq := commonUngetc_eq h hback 0
    have hrun : pushes.run s [0] = some ((commonUngetc s 0).2, [()]) := by
      have hstep : pushes.step s 0 = some ((commonUngetc s 0).2, ()) := by
        show (if (commonUngetc s 0).1 = true then _ else _) = _
        rw [heq]
        exact if_pos rfl
      rw [Machine.run_cons hstep]
      rfl
    obtain ⟨-, hdelivers⟩ := hpushed [0] _ _ hrun
    have hsound := commonUngetc_sound h 0
    have hop' : (commonUngetc s 0).2.prevOp = .read := by
      rw [heq]
      exact hop
    have herror' : (commonUngetc s 0).2.error = s.error.withoutEof := by rw [heq]
    have hnext := hdelivers _ ((delivers_iff h hback _).mpr rfl)
    refine ⟨hback.2, fun herror => ?_, fun heof => ?_⟩
    · have hrefused := (hnext [] (fun a ha => by contradiction) 1 1 Nat.one_pos).1
      rw [herror] at herror'
      rw [(commonFread_refused (fun hgo => by
        have hclear : (commonUngetc s 0).2.error = .clear := hgo.1
        rw [herror'] at hclear
        contradiction) 1 1).1] at hrefused
      contradiction
    · have hmove := hback.2
      have hpos := h.pos_le
      have hr : CanRead (commonUngetc s 0).2 :=
        hsound.canRead hop' (by rw [heq]; show s.start ≠ s.end_; omega) (by rw [herror', heof]; rfl)
      have hserved := fun size count => (commonFread_served (Or.inl hsound) (settled_of_read hop') hr
        (fun a ha => by contradiction : Serves (commonUngetc s 0).2 []) size count).1
      have hsame : unread (commonUngetc s 0).2 = [0] := by
        rw [heof, if_neg (by exact fun hf => by contradiction)] at hnext
        rw [← forall_take_eq_iff]
        intro size count hsome
        rw [← hserved size count]
        exact (hnext [] (fun a ha => by contradiction) size count hsome).1
      rw [unread_pushed h hback] at hsame
      exact (List.cons.inj hsame).2
  · rintro ⟨hlt, hno_error, heof⟩
    have hback : RoomBehind s := ⟨hop, hlt⟩
    refine ⟨fun ch => by rw [commonUngetc_eq h hback], ?_⟩
    intro pushed os s' hrun
    obtain ⟨hsound, hop', hpos, hend, hunread, herror⟩ := pushes_run h hop hrun
    refine ⟨hpos, fun bytes hdelivers => ?_⟩
    rw [delivers_iff h hback] at hdelivers
    cases pushed with
    | nil =>
      cases hrun
      rw [hdelivers]
      exact (delivers_iff h hback _).mpr rfl
    | cons ch pushed =>
      have hclear : s'.error = .clear := by
        rw [herror, if_neg (List.cons_ne_nil ch pushed)]
        cases he : s.error with
        | error => exact absurd he hno_error
        | clear => rfl
        | eof => rfl
      have hrest : bytes = unread s := by
        rw [hdelivers]
        cases he : s.error with
        | error => exact absurd he hno_error
        | clear => exact if_pos rfl
        | eof => rw [heof he, if_neg (by exact fun hf => by contradiction)]
      have hne : s'.start ≠ s'.end_ := by
        have hle := hsound.start_le
        have hpos' := h.pos_le
        rw [List.length_cons] at hpos
        omega
      intro script hscript size count _
      rw [hrest, ← hunread]
      exact commonFread_served (Or.inl hsound) (settled_of_read hop') (hsound.canRead hop' hne hclear) hscript
        size count

/-! ## Which reads leave a byte behind the position -/

/-- The file after so many reads of `count` bytes. -/
def OpenFile.reads (f : OpenFile) (count : Nat) : Nat → OpenFile
  | 0 => f
  | k + 1 => (f.read count).2.reads count k

theorem OpenFile.read_offset_le (f : OpenFile) (count : Nat) : f.offset ≤ (f.read count).2.offset := by
  rw [read]
  split
  · exact Nat.le_refl _
  · exact Nat.le_add_right _ _

theorem OpenFile.read_content (f : OpenFile) (count : Nat) : (f.read count).2.content = f.content := by
  rw [read]
  split
  · rfl
  · rfl

theorem OpenFile.reads_content (f : OpenFile) (count k : Nat) : (f.reads count k).content = f.content := by
  induction k generalizing f with
  | zero => rfl
  | succ k ih => exact (ih _).trans (f.read_content count)

theorem OpenFile.reads_offset_le (f : OpenFile) (count : Nat) {j k : Nat} (hjk : j ≤ k) :
    (f.reads count j).offset ≤ (f.reads count k).offset := by
  induction k generalizing f j with
  | zero => rw [Nat.le_zero.mp hjk]
  | succ k ih =>
    cases j with
    | zero => exact Nat.le_trans (f.read_offset_le count) (ih _ (Nat.zero_le k))
    | succ j => exact ih _ (Nat.le_of_succ_le_succ hjk)

/-- The direct loop and the reads that it makes: they go on until one buffer is enough for the rest, or one
delivers nothing. -/
theorem freadDirect_reads (dataSize : Nat) :
    ∀ (fuel : Nat) (got : List Byte) (s : Stream), 1 ≤ s.bufSize → got.length ≤ dataSize →
      dataSize < got.length + fuel →
      ∃ m got' more f e, freadDirect dataSize fuel got s = (got', more, { s with file := f, error := e }) ∧
        (∀ k < m, got.length + ((s.file.reads s.bufSize k).offset - s.file.offset) + s.bufSize < dataSize) ∧
        (more = true → f = s.file.reads s.bufSize m ∧ e = s.error ∧
          got'.length = got.length + (f.offset - s.file.offset) ∧
          (got.length < dataSize → got'.length < dataSize) ∧ dataSize ≤ got'.length + s.bufSize) ∧
        (more = false →
          got.length + ((s.file.reads s.bufSize m).offset - s.file.offset) + s.bufSize < dataSize ∧
          (e = .error ∨ s.file.content.length ≤ (s.file.reads s.bufSize m).offset)) := by
  intro fuel
  induction fuel with
  | zero =>
    intro got s _ _ hfuel
    omega
  | succ fuel ih =>
    intro got s hB hgot hfuel
    rw [freadDirect]
    by_cases hloop : got.length + s.bufSize < dataSize
    · rw [if_pos hloop, readWrapper_eq]
      by_cases hfail : s.file.answer = .fail
      · rw [if_pos hfail]
        refine ⟨0, got, false, _, _, rfl, fun k hk => absurd hk (Nat.not_lt_zero k),
          fun hmore => by contradiction, fun _ => ⟨?_, Or.inl rfl⟩⟩
        rw [OpenFile.reads, Nat.sub_self]
        exact hloop
      · rw [if_neg hfail]
        have hhead := s.file.head?_transfer hB
        have hread : (s.file.read s.bufSize).2 = { s.file.answered with
            offset := s.file.offset + (s.file.transfer s.bufSize).length } := by
          rw [OpenFile.read, if_neg hfail]
        cases hbytes : s.file.transfer s.bufSize with
        | nil =>
          rw [hbytes, List.head?_nil] at hhead
          refine ⟨0, got, false, _, _, rfl, fun k hk => absurd hk (Nat.not_lt_zero k),
            fun hmore => by contradiction, fun _ => ⟨?_, Or.inr (List.getElem?_eq_none_iff.mp hhead.symm)⟩⟩
          rw [OpenFile.reads, Nat.sub_self]
          exact hloop
        | cons b bytes =>
          rw [hbytes] at hread
          have hle := s.file.length_transfer_le s.bufSize
          rw [hbytes] at hle
          have happend : (got ++ b :: bytes).length = got.length + (b :: bytes).length := List.length_append
          have hpos : 0 < (b :: bytes).length := Nat.succ_pos _
          obtain ⟨m, got', more, f, e, hrest, hbefore, hmore, hless⟩ := ih (got ++ b :: bytes)
            { s with file := (s.file.read s.bufSize).2, error := s.error } hB (by omega) (by omega)
          have hoff : (s.file.read s.bufSize).2.offset = s.file.offset + (b :: bytes).length := by rw [hread]
          have hmono := fun k => (s.file.read s.bufSize).2.reads_offset_le s.bufSize (Nat.zero_le k)
          simp only [OpenFile.reads, hoff] at hmono
          simp only [happend, hoff, OpenFile.read_content] at hbefore hmore hless
          refine ⟨m + 1, got', more, f, e, ?_, ?_, ?_, ?_⟩
          · rw [← hrest, hread]
            rfl
          · intro k hk
            cases k with
            | zero =>
              rw [OpenFile.reads, Nat.sub_self]
              exact hloop
            | succ k =>
              have hk' := hbefore k (Nat.lt_of_succ_lt_succ hk)
              have hk'' := hmono k
              rw [OpenFile.reads]
              omega
          · intro hm
            obtain ⟨hf, he, hlen, hlt, hfit⟩ := hmore hm
            have hm' := hmono m
            rw [← hf] at hm'
            exact ⟨hf, he, by omega, fun _ => hlt (by omega), hfit⟩
          · intro hm
            obtain ⟨hlt, hwhy⟩ := hless hm
            have hm' := hmono m
            rw [OpenFile.reads]
            exact ⟨by omega, hwhy⟩
    · rw [if_neg hloop]
      refine ⟨0, got, true, s.file, s.error, rfl, fun k hk => absurd hk (Nat.not_lt_zero k), fun _ => ?_,
        fun hmore => by contradiction⟩
      rw [OpenFile.reads, Nat.sub_self]
      exact ⟨rfl, rfl, rfl, id, by omega⟩

theorem le_freadFill (need : Nat) : ∀ (fuel last : Nat) (s : Stream), last ≤ (freadFill need fuel last s).1 := by
  intro fuel
  induction fuel with
  | zero => exact fun last s => Nat.le_refl _
  | succ fuel ih =>
    intro last s
    rw [freadFill]
    split
    · split
      · exact Nat.le_refl _
      · exact Nat.le_trans (Nat.le_add_right _ _) (ih _ _)
    · exact Nat.le_refl _

/-- The last block leaves a byte behind the position unless its first read delivers nothing. -/
theorem freadLast_room (hB : 1 ≤ s.bufSize) (hlen : s.buffer.length = s.bufSize) (hstart : s.start = s.pos)
    {dataSize : Nat} {got : List Byte} (hneed : got.length < dataSize) (size : Nat)
    (hok : (freadLast s size dataSize got).2.error ≠ .error) :
    (freadLast s size dataSize got).2.start < (freadLast s size dataSize got).2.pos ↔
      s.file.offset < s.file.content.length := by
  obtain ⟨last, f, e, buf, hfill, -, -, -⟩ :=
    freadFill_ends (dataSize - got.length) (s.bufSize + 1) 0 s hlen (Nat.zero_le _) (by omega)
  have hfirst := hfill
  rw [freadFill, if_pos ⟨hB, by omega⟩, Nat.sub_zero, readWrapper_eq] at hfirst
  have hhead := s.file.head?_transfer hB
  rw [freadLast, hfill] at hok ⊢
  by_cases hfail : s.file.answer = .fail
  · -- then the error is flagged
    rw [if_pos hfail] at hfirst
    cases hfirst
    exact absurd rfl hok
  · rw [if_neg hfail] at hfirst
    cases hbytes : s.file.transfer s.bufSize with
    | nil =>
      rw [hbytes, List.head?_nil] at hhead
      rw [hbytes] at hfirst
      have hlast : last = 0 := (congrArg Prod.fst hfirst).symm
      subst hlast
      have hend := List.getElem?_eq_none_iff.mp hhead.symm
      simp only [hstart]
      omega
    | cons b bytes =>
      rw [hbytes, List.head?_cons] at hhead
      rw [hbytes] at hfirst
      have hle := le_freadFill (dataSize - got.length) s.bufSize (0 + (b :: bytes).length)
        (Stream.store { s with
          file := { s.file.answered with offset := s.file.offset + (b :: bytes).length }
          error := if (b :: bytes : List Byte) = [] then .eof else s.error } 0 (b :: bytes))
      have hlast : 0 < last := by
        have heq := congrArg Prod.fst hfirst
        dsimp only at heq
        rw [← heq]
        exact Nat.lt_of_lt_of_le (by rw [List.length_cons]; omega) hle
      have hin := (List.getElem?_eq_some_iff.mp hhead.symm).1
      obtain ⟨n, rfl⟩ : ∃ n, last = n + 1 := ⟨last - 1, by omega⟩
      simp only [hin, iff_true]
      show s.pos < s.pos + min (dataSize - got.length) (n + 1)
      omega

/-- A read leaves a byte behind the position if the window covers it, or if, behind the reads into the
caller's buffer after which one buffer is enough for the rest, the file still has a byte. -/
def LeavesRoom (s : Stream) (n : Nat) : Prop :=
  n ≤ (windowRest s).length ∨ ∃ k,
    n ≤ (windowRest s).length +
        (((flushedFile s).reads s.bufSize k).offset - (flushedFile s).offset) + s.bufSize ∧
      ((flushedFile s).reads s.bufSize k).offset < (flushedFile s).content.length

theorem commonFflush_bufSize (s : Stream) : (commonFflush s).2.bufSize = s.bufSize := by
  unfold commonFflush
  dsimp only
  split_ifs
  · rfl
  · rfl
  · rfl
  · split <;> rfl
  · rfl

theorem enterRead_bufSize (s : Stream) : (enterRead s).bufSize = s.bufSize := by
  rw [enterRead]
  split
  · exact commonFflush_bufSize s
  · rfl

/-- A read that delivers something is one of the buffered branch. -/
theorem commonFread_entered (h : Sound s) {size count : Nat}
    (hfault : (commonFread s size count).2.fault = false) (hsome : (commonFread s size count).1.1 ≠ []) :
    ∃ s', commonFread s size count = freadBuffered s' size count ∧ Sound s' ∧ Backed s' ∧ s'.prevOp = .read ∧
      s'.file = flushedFile s ∧ s'.bufSize = s.bufSize ∧ s'.end_ - s'.pos = (windowRest s).length := by
  by_cases hgo : s.error = .clear ∧ s.bufMode.wronly = false
  · obtain ⟨hclear, hwr⟩ := hgo
    have hflush : ¬ FlushFails s := fun hf => by
      rw [commonFread_fault h hclear hwr hf] at hfault
      contradiction
    obtain ⟨hread, hop⟩ := enterRead_sound h hwr hflush
    obtain ⟨granted, buf, m, halloc, hsound, hbacked⟩ := allocateBuffer_sound hread
    have heq : commonFread s size count =
        if granted then freadBuffered { enterRead s with buffer := buf, bufMode := m } size count
        else (([], 0), { enterRead s with buffer := buf, bufMode := m }) := by
      rw [commonFread, if_neg (by simp [hclear]), if_neg (by simp [hwr]), if_neg (by simp [h.buffered]),
        halloc]
      cases granted with
      | false => rfl
      | true => rfl
    cases granted with
    | false =>
      rw [heq] at hsome
      exact absurd rfl hsome
    | true =>
      refine ⟨_, heq, hsound, hbacked rfl, hop, ?_, enterRead_bufSize s, ?_⟩
      · by_cases hfast : FastGet s
        · have hne : ¬ s.prevOp = .write := by
            rw [hfast.2.1]
            exact fun hf => by contradiction
          show (enterRead s).file = flushedFile s
          rw [enterRead, if_neg hne, flushedFile_of_ne hne]
        · exact (enterRead_slow h hfast hflush).2.1
      · show (enterRead s).end_ - (enterRead s).pos = (windowRest s).length
        have hstart := h.start_le
        have hpos := h.pos_le
        by_cases hfast : FastGet s
        · have hne : ¬ s.prevOp = .write := by
            rw [hfast.2.1]
            exact fun hf => by contradiction
          rw [enterRead, if_neg hne, windowRest, if_pos hfast.2.1,
            Stream.length_load _ _ (h.touch_eq (by omega))]
        · rw [(enterRead_slow h hfast hflush).1, Nat.sub_self, windowRest]
          split
          · next hprev =>
            have hend : s.pos = s.end_ := by
              by_contra hne
              exact hfast ⟨h.buffered, hprev, fun heq => by omega, hne⟩
            rw [hend, Nat.sub_self, Stream.load, List.take_zero, List.length_nil]
          · rfl
  · exact absurd (commonFread_refused hgo size count).1 hsome

/-- **Which reads leave a byte behind the position**, of those that deliver something and end in no error. -/
theorem leavesRoom_iff (h : Sound s) {size count : Nat} (hfault : (commonFread s size count).2.fault = false)
    (hsome : (commonFread s size count).1.1 ≠ []) (hok : (commonFread s size count).2.error ≠ .error) :
    (commonFread s size count).2.start < (commonFread s size count).2.pos ↔ LeavesRoom s (size * count) := by
  obtain ⟨s', heq, hs, hb, hop, hfile, hsize, hwindow⟩ := commonFread_entered h hfault hsome
  rw [LeavesRoom, ← hwindow, ← hfile, ← hsize]
  rw [heq] at hsome hok ⊢
  have hstart := hs.start_le
  have hpos := hs.pos_le
  by_cases hfit : size * count ≤ s'.end_ - s'.pos
  · have hn : size * count ≠ 0 := by
      intro hzero
      refine hsome ?_
      simp only [freadBuffered, Stream.checkWindow_of_le hstart hpos, sub64_of_le hstart, sub64_of_le hpos]
      rw [if_pos hfit, hzero, Stream.load, List.take_zero]
    simp only [freadBuffered, Stream.checkWindow_of_le hstart hpos, sub64_of_le hstart, sub64_of_le hpos]
    rw [if_pos hfit, Stream.touch_of_le (hs.touch_eq (by omega))]
    refine ⟨fun _ => Or.inl hfit, fun _ => ?_⟩
    show s'.start < s'.pos + size * count
    omega
  · have hin : s'.pos - s'.start + (s'.end_ - s'.pos) ≤ s'.buffer.length := hs.touch_eq (by omega)
    have hheld := Stream.length_load _ _ hin
    obtain ⟨head, hhead⟩ : ∃ head, (if s'.pos < s'.end_ then s'.load (s'.pos - s'.start) (s'.end_ - s'.pos)
        else []) = head := ⟨_, rfl⟩
    have hlen : head.length = s'.end_ - s'.pos := by
      rw [← hhead]
      split
      · exact hheld
      · rw [List.length_nil]
        omega
    have htouch : (if s'.pos < s'.end_ then s'.touch (s'.pos - s'.start) (s'.end_ - s'.pos) else s') = s' := by
      split
      · exact Stream.touch_of_le hin
      · rfl
    obtain ⟨m, got, more, f, e, hdirect, hbefore, hmore, hless⟩ :=
      freadDirect_reads (size * count) (size * count + 1) head s' hs.one_le_bufSize (by omega) (by omega)
    rw [hlen] at hbefore hmore hless
    simp only [freadBuffered, Stream.checkWindow_of_le hstart hpos, sub64_of_le hstart, sub64_of_le hpos,
      hhead, htouch, hdirect, if_neg hfit] at hok ⊢
    simp only [hfit, false_or]
    have hmono := fun {j k : Nat} (hjk : j ≤ k) => s'.file.reads_offset_le s'.bufSize hjk
    cases more with
    | false =>
      -- the direct loop has found the end of the file
      obtain ⟨hlt, hwhy⟩ := hless rfl
      simp only [Bool.false_eq_true, if_false] at hok ⊢
      have hend := hwhy.resolve_left hok
      refine ⟨fun hroom => by omega, ?_⟩
      rintro ⟨k, hk, hbyte⟩
      rcases Nat.lt_or_ge m k with hlater | hearlier
      · have hm := hmono (Nat.le_of_lt hlater)
        omega
      · rcases Nat.lt_or_eq_of_le hearlier with hearlier | rfl
        · have hlt' := hbefore k hearlier
          omega
        · omega
    | true =>
      obtain ⟨hf, -, hgot, hlt, hfits⟩ := hmore rfl
      simp only [if_true] at hok ⊢
      have hroom := freadLast_room (s := { s' with
          file := f, error := e, pos := s'.pos + got.length, start := s'.pos + got.length
          end_ := s'.pos + got.length }) hs.one_le_bufSize hb.length_buffer rfl (hlt (by omega)) size hok
      rw [hroom]
      simp only [hf, OpenFile.reads_content]
      rw [hf] at hgot
      constructor
      · exact fun hbyte => ⟨m, by omega, hbyte⟩
      · rintro ⟨k, hk, hbyte⟩
        rcases Nat.lt_or_ge k m with hearlier | hlater
        · have hlt' := hbefore k hearlier
          omega
        · exact Nat.lt_of_le_of_lt (hmono hlater) hbyte

/-! ## Pushing back after a read -/

inductive ReadCall where
  | fread (size count : Nat)
  | fgetc

namespace ReadCall

/-- The stream after the call. -/
def apply (s : Stream) : ReadCall → Stream
  | fread size count => (commonFread s size count).2
  | fgetc => (commonFgetc 0 s).2

/-- The bytes that the call delivers. -/
def delivers (s : Stream) : ReadCall → List Byte
  | fread size count => (commonFread s size count).1.1
  | fgetc => (gotByte s).toList

/-- `common_fgetc` always leaves the byte it has delivered. -/
def Leaves (s : Stream) : ReadCall → Prop
  | fread size count => LeavesRoom s (size * count)
  | fgetc => True

end ReadCall

theorem commonFread_read (h : Sound s) {size count : Nat} (hfault : (commonFread s size count).2.fault = false)
    (hsome : (commonFread s size count).1.1 ≠ []) :
    Sound (commonFread s size count).2 ∧ (commonFread s size count).2.prevOp = .read := by
  obtain ⟨s', heq, hs, hb, hop, -⟩ := commonFread_entered h hfault hsome
  obtain ⟨hsound, hon⟩ := freadBuffered_sound hs hb hop size count
  rw [heq]
  exact ⟨hsound, hon.prevOp.trans hop⟩

/-- A byte that `common_fgetc` delivers past the window is the file's. -/
theorem leavesRoom_one (h : Sound s) (hslow : ¬ FastGet s) (hfault : (commonFread s 1 1).2.fault = false)
    (hsome : (commonFread s 1 1).1.1 ≠ []) : LeavesRoom s 1 := by
  have hgo : s.error = .clear ∧ s.bufMode.wronly = false := by
    by_contra hno
    exact hsome (commonFread_refused hno 1 1).1
  have hflush : ¬ FlushFails s := fun hf => by
    rw [commonFread_fault h hgo.1 hgo.2 hf] at hfault
    contradiction
  obtain ⟨hdenied, hfailed, hdone⟩ := commonFread_slow h hslow hgo.1 hgo.2 hflush
  have hmemory : ¬ NoMemory s := fun hm => hsome (hdenied hm).1
  have hanswer : (flushedFile s).answer ≠ .fail := fun hf => hsome (hfailed hmemory hf).1
  have hhead := (hdone hmemory hanswer).1
  obtain ⟨b, bytes, hbytes⟩ := List.exists_cons_of_ne_nil hsome
  rw [hbytes, List.head?_cons] at hhead
  have hB := h.one_le_bufSize
  refine Or.inr ⟨0, ?_, (List.getElem?_eq_some_iff.mp hhead.symm).1⟩
  rw [OpenFile.reads]
  omega

/-- What a call leaves that has delivered something. -/
theorem ReadCall.apply_read (h : Sound s) {c : ReadCall} (hfault : (c.apply s).fault = false)
    (hsome : c.delivers s ≠ []) :
    Sound (c.apply s) ∧ (c.apply s).prevOp = .read ∧
      ((c.apply s).error ≠ .error → ((c.apply s).start < (c.apply s).pos ↔ c.Leaves s)) := by
  cases c with
  | fread size count =>
    obtain ⟨hsound, hop⟩ := commonFread_read h hfault hsome
    exact ⟨hsound, hop, leavesRoom_iff h hfault hsome⟩
  | fgetc =>
    rw [apply] at hfault ⊢
    rw [delivers, gotByte] at hsome
    by_cases hfast : FastGet s
    · obtain ⟨b, -, -, -, hfgetc⟩ := commonFgetc_fast h hfast
      have hsound := commonFgetc_sound h 0 (fun _ _ hf => by
        have hop := hfast.2.1
        rw [hf.1] at hop
        contradiction)
      rw [hfgetc] at hsound ⊢
      refine ⟨hsound, hfast.2.1, fun _ => ⟨fun _ => trivial, fun _ => ?_⟩⟩
      exact Nat.lt_succ_of_le h.start_le
    · rw [if_neg hfast] at hsome
      rw [commonFgetc_slow hfast] at hfault ⊢
      have hsome' : (commonFread s 1 1).1.1 ≠ [] := fun hnil => hsome (by rw [hnil]; rfl)
      obtain ⟨hsound, hop⟩ := commonFread_read h hfault hsome'
      refine ⟨hsound, hop, fun hok => ⟨fun _ => trivial, fun _ => ?_⟩⟩
      exact (leavesRoom_iff h hfault hsome' hok).mpr (leavesRoom_one h hfast hfault hsome')

/-- **Pushback.** After a read that has delivered something, on a buffered stream, `common_ungetc` does what it
should if and only if the read leaves a byte behind the position, and ends in no error, nor at the end of
the file with something left. -/
theorem pushback_iff (h : Reached s) (hbuf : s.bufMode.nbf = false) (hequipped : Equipped s) (c : ReadCall)
    (hfault : (c.apply s).fault = false) (hsome : c.delivers s ≠ []) :
    PushesBack (c.apply s) ↔ c.Leaves s ∧ (c.apply s).error ≠ .error ∧
      ((c.apply s).error = .eof → unread (c.apply s) = []) := by
  have hs : Sound s := by
    rcases h.held with hs | hb
    · exact hs
    · have hnbf := hb.equipped_iff.mp hequipped
      rw [hbuf] at hnbf
      contradiction
  obtain ⟨hsound, hop, hroom⟩ := ReadCall.apply_read hs hfault hsome
  rw [pushesBack_iff hsound hop]
  constructor
  · rintro ⟨hlt, hok, heof⟩
    exact ⟨(hroom hok).mp hlt, hok, heof⟩
  · rintro ⟨hleaves, hok, heof⟩
    exact ⟨(hroom hok).mpr hleaves, hok, heof⟩

/-- A file of two bytes, and a buffer of two. -/
def fullBuffer : Stream := createStream ⟨[97, 98], 0, false, []⟩ (getBufMode .rdonly) 2 (some fun _ => 0)

theorem reached_fullBuffer : Reached fullBuffer :=
  Reached.of_fopened ⟨⟨[97, 98], 0, false, []⟩, .rdonly, 2, some fun _ => 0, by decide, rfl⟩

theorem equipped_fullBuffer : Equipped fullBuffer :=
  Or.inr ⟨by decide, Or.inr ⟨rfl, rfl, Option.some_ne_none _⟩⟩

theorem pushback_one_byte : PushesBack (ReadCall.fgetc.apply fullBuffer) := by
  apply (pushback_iff reached_fullBuffer rfl equipped_fullBuffer .fgetc (by decide) (by decide)).mpr
  exact ⟨trivial, by decide, fun heof => absurd heof (by decide)⟩

/-- A read of the file that asks for one more byte ends behind the last whole buffer. -/
theorem not_pushback :
    ¬ ∀ s, Reached s → s.bufMode.nbf = false → Equipped s → ∀ c : ReadCall, (c.apply s).fault = false →
      c.delivers s ≠ [] → PushesBack (c.apply s) := by
  intro h
  have htaken := (h fullBuffer reached_fullBuffer rfl equipped_fullBuffer (.fread 1 3) (by decide) (by decide)).1 0
  exact absurd htaken (by decide)

end WindowsLibc.Stdio
