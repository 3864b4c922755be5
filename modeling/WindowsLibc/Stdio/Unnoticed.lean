import WindowsLibc.Stdio.InStep
import WindowsLibc.Stdio.View

/-!
# Losing the window

A call of `setvbuf` that fails has flushed the stream and dropped its window by then. `Unnoticed` compares
what comes after with what would have come without the call: any reads and writes that the stream is open
for, and the file when it is closed, with a kernel and a heap that grant everything from then on.

`Sound.unnoticed_iff`, and for streams without a buffer `Bare.unnoticed_iff`, say that the two are the same
exactly if the stream `Resumes`.
-/

namespace WindowsLibc.Stdio

open WindowsLibc.Lib

variable {s : Stream}

/-! ## The calls that follow -/

/-- From here on everything is granted. -/
def Stream.granted (s : Stream) (g : Nat → Byte) : Stream := { s.withScript [] with heap := some g }

/-- Permitted calls on the one stream look like those on the other. -/
def Unnoticed (s s' : Stream) : Prop :=
  ∀ g (cs : List Transfer), (∀ c ∈ cs, c.Permitted s.bufMode.rdonly s.bufMode.wronly) →
    transferMachine.observe commonFclose (s.granted g) cs =
      transferMachine.observe commonFclose (s'.granted g) cs

/-- The stream without its window: `setvbuf`, as far as it has got when it fails. -/
def dropped (s : Stream) : Stream := dropWindow (commonFflush s).2

/-- Where the kernel's offset is then. -/
def soughtOffset (s : Stream) : Nat :=
  if (flushedFile s).answer = .fail then (flushedFile s).offset else s.pos

/-- A read gets to the offset of the kernel. -/
structure ReadsOffset (s : Stream) : Prop where
  clear : s.error = .clear
  access : s.bufMode.wronly = false
  equipped : s.bufMode.nbf = true ∨ 1 ≤ s.bufSize

/-- A write goes to the offset of the kernel. -/
structure WritesOffset (s : Stream) : Prop where
  no_error : s.error ≠ .error
  access : s.bufMode.rdonly = false
  append : s.file.append = false
  equipped : s.bufMode.nbf = true ∨ (s.prevOp ≠ .read ∧ 1 ≤ s.bufSize ∧ Stored s)

/-- The window and the offset of the kernel hold nothing that the file and the position do not. -/
structure Resumes (s : Stream) : Prop where
  /-- What is pending has been sent, or it changes nothing. -/
  flushed : FlushFails s → s.error = .error ∧ (s.file.put (pending s)).content = s.file.content
  /-- Where a flag is set, the fast paths, which do not look at it, are shut. -/
  flagged : s.error = .error ∨ (s.error = .eof ∧ s.prevOp = .read) → s.pos = s.end_
  /-- The window has not been shortened. -/
  whole : s.error ≠ .error → s.prevOp = .write → Whole s
  /-- What there is to read is what is in the file behind the position. -/
  ahead : ReadsOffset s → unread s = (flushedFile s).content.drop (soughtOffset s)
  /-- Writing goes on at the position. -/
  place : WritesOffset s → (flushedFile s).offset = soughtOffset s

/-! ## The stream without its window -/

theorem Held.flush_eq (h : Held s) :
    (commonFflush s).2 = if s.prevOp = .write then (commonFflush s).2 else s := by
  by_cases hop : s.prevOp = .write
  · rw [if_pos hop]
  · rw [if_neg hop]
    rcases h with hs | hb
    · exact commonFflush_idle hs (fun hw => absurd hw hop)
    · rw [hb.commonFflush_eq]

/-- What is left when the window has been dropped. -/
structure Dropped (s s' : Stream) : Prop where
  file : s'.file = { (flushedFile s).answered with offset := soughtOffset s }
  bufMode : s'.bufMode = s.bufMode
  bufSize : s'.bufSize = s.bufSize
  buffer : s'.buffer = s.buffer
  start : s'.start = s.pos
  end_ : s'.end_ = s.pos
  pos : s'.pos = s.pos
  prevOp : s'.prevOp = s.prevOp
  error : (s'.error = .error ∧ FlushFails s) ∨ (s'.error = s.error ∧ ¬ FlushFails s)

theorem Held.dropped_spec (h : Held s) : Dropped s (dropped s) := by
  have hflushed := flush_flushed h
  rw [← h.flush_eq] at hflushed
  refine ⟨?_, hflushed.bufMode, hflushed.bufSize, hflushed.buffer, hflushed.pos,
    hflushed.pos, hflushed.pos, hflushed.prevOp, hflushed.error⟩
  show (((commonFflush s).2.file.lseek (commonFflush s).2.pos .set).2) = _
  rw [hflushed.file, hflushed.pos, OpenFile.lseek_set_file, soughtOffset]

/-! ## Streams with a buffer -/

theorem Sound.granted (h : Sound s) (g : Nat → Byte) : Sound (s.granted g) :=
  ⟨⟨h.start_le, h.pos_le, h.fits⟩, h.no_fault, h.buffered, h.one_le_bufSize,
    h.storage.imp (fun hb => ⟨hb.length_buffer, hb.mode, hb.not_lazy⟩) id, h.idle, h.writable, h.readable⟩

theorem not_noMemory_granted (g : Nat → Byte) : ¬ NoMemory (s.granted g) := by
  rintro ⟨-, -, hnone⟩
  contradiction

theorem sound_dropped (h : Sound s) : Sound (dropped s) := (commonFflush_sound h).drop

theorem Sound.plain_dropped (h : Sound s) (g : Nat → Byte) : Plain ((dropped s).granted g) where
  toSound := (sound_dropped h).granted g
  granted := rfl
  memory := not_noMemory_granted g
  whole _ _ := .inl rfl
  flagged _ := rfl

theorem Sound.plain_granted (h : Sound s) (g : Nat → Byte)
    (hflagged : s.error = .error ∨ (s.error = .eof ∧ s.prevOp = .read) → s.pos = s.end_)
    (hwhole : s.error ≠ .error → s.prevOp = .write → Whole s) : Plain (s.granted g) where
  toSound := h.granted g
  granted := rfl
  memory := not_noMemory_granted g
  whole := hwhole
  flagged := hflagged

/-- The file that a flush leaves does not depend on what is answered, unless the flush fails. -/
theorem flushedFile_granted (hfails : ¬ FlushFails s) (g : Nat → Byte) :
    (flushedFile (s.granted g)).content = (flushedFile s).content ∧
      (flushedFile (s.granted g)).offset = (flushedFile s).offset ∧
      (flushedFile s).append = s.file.append := by
  by_cases hpending : s.prevOp = .write ∧ s.start ≠ s.pos
  · have hanswer : ¬ s.file.answer = .fail := fun hfail => hfails ⟨hpending.1, hpending.2, hfail⟩
    have hanswer' : ¬ (s.granted g).file.answer = .fail := fun hfail => by contradiction
    have hflushed : flushedFile s = (s.file.write (s.load 0 (s.pos - s.start))).2 := if_pos hpending
    have hflushed' : flushedFile (s.granted g) =
        ((s.granted g).file.write (s.load 0 (s.pos - s.start))).2 := if_pos hpending
    rw [hflushed, hflushed', OpenFile.write, OpenFile.write, if_neg hanswer, if_neg hanswer']
    exact ⟨rfl, rfl, rfl⟩
  · have hflushed : flushedFile s = s.file := if_neg hpending
    have hflushed' : flushedFile (s.granted g) = (s.granted g).file := if_neg hpending
    rw [hflushed, hflushed']
    exact ⟨rfl, rfl, rfl⟩

theorem flushedFile_of_fails (hfails : FlushFails s) : (flushedFile s).content = s.file.content ∧
    (flushedFile s).append = s.file.append := by
  have hflushed : flushedFile s = (s.file.write (s.load 0 (s.pos - s.start))).2 := if_pos ⟨hfails.1, hfails.2.1⟩
  rw [hflushed, OpenFile.write, if_pos hfails.2.2]
  exact ⟨rfl, rfl⟩

/-- What there is to see of the stream without its window. -/
theorem viewOf_dropped (h : Held s) (g : Nat → Byte) : viewOf ((dropped s).granted g) =
    { content := (flushedFile s).content
      ahead := (flushedFile s).content.drop (soughtOffset s)
      place := if s.prevOp = .read ∧ s.file.append = false then s.pos
        else if s.file.append then (flushedFile s).content.length else soughtOffset s
      base := if s.prevOp ≠ .write ∧ s.file.append = true then (flushedFile s).content.length else s.pos
      pos := s.pos
      error := (dropped s).error
      append := s.file.append } := by
  have hspec := h.dropped_spec
  have happend : (flushedFile s).append = s.file.append := by
    by_cases hfails : FlushFails s
    · exact (flushedFile_of_fails hfails).2
    · exact (flushedFile_granted hfails g).2.2
  have hfile : ((dropped s).granted g).file =
      { (flushedFile s) with offset := soughtOffset s, script := [] } := by
    show { (dropped s).file with script := [] } = _
    rw [hspec.file]
    rfl
  have hflushed : flushedFile ((dropped s).granted g) = ((dropped s).granted g).file :=
    flushedFile_of_empty (hspec.start.trans hspec.pos.symm)
  have hrest : windowRest ((dropped s).granted g) = [] := by
    have hnone : ((dropped s).granted g).end_ - ((dropped s).granted g).pos = 0 := by
      show (dropped s).end_ - (dropped s).pos = 0
      rw [hspec.end_, hspec.pos, Nat.sub_self]
    rw [windowRest, hnone, Stream.load, List.take_zero, ite_self]
  have hop : ((dropped s).granted g).prevOp = s.prevOp := hspec.prevOp
  have hpos : ((dropped s).granted g).pos = s.pos := hspec.pos
  rw [viewOf, unread, hrest, hflushed, place, base, hflushed, OpenFile.target, hop, hpos, hfile, happend]
  rfl

/-- What there is to see of the stream as it is. -/
theorem viewOf_granted (hfails : ¬ FlushFails s) (g : Nat → Byte) : viewOf (s.granted g) =
    { content := (flushedFile s).content
      ahead := unread s
      place := if s.prevOp = .read ∧ s.file.append = false then s.pos
        else if s.file.append then (flushedFile s).content.length else (flushedFile s).offset
      base := if s.prevOp ≠ .write ∧ s.file.append = true then (flushedFile s).content.length else s.pos
      pos := s.pos
      error := s.error
      append := s.file.append } := by
  obtain ⟨hcontent, hoffset, happend⟩ := flushedFile_granted hfails g
  have happend' : (flushedFile (s.granted g)).append = s.file.append :=
    (flushedFile_granted (s := s.granted g) (fun hf => by cases hf.2.2) g).2.2
  have hunread : unread (s.granted g) = unread s := by
    rw [unread, unread, hcontent, hoffset]
    rfl
  have hbase : base (s.granted g) =
      if s.prevOp ≠ .write ∧ s.file.append = true then (flushedFile s).content.length else s.pos := by
    by_cases hop : s.prevOp = .write
    · rw [base, if_neg (fun hn => hn.1 hop), if_neg (fun hn => hn.1 hop)]
      rfl
    · rw [base, flushedFile_of_ne hop]
      rfl
  rw [viewOf, hunread, hbase, place, OpenFile.target, hcontent, hoffset, happend']
  rfl

/-- A stream whose flush succeeds shows the same without its window if it resumes, and only then. -/
theorem Sound.same_iff (h : Sound s) (hfails : ¬ FlushFails s) (g : Nat → Byte) :
    View.Same s.bufMode.rdonly s.bufMode.wronly (viewOf (s.granted g)) (viewOf ((dropped s).granted g)) ↔
      (ReadsOffset s → unread s = (flushedFile s).content.drop (soughtOffset s)) ∧
        (WritesOffset s → (flushedFile s).offset = soughtOffset s) := by
  have herror : (dropped s).error = s.error := by
    rcases (Held.dropped_spec (.inl h)).error with ⟨-, hf⟩ | ⟨heq, -⟩
    · exact absurd hf hfails
    · exact heq
  rw [viewOf_granted hfails g, viewOf_dropped (.inl h) g, herror]
  constructor
  · intro hsame
    refine ⟨fun hr => hsame.ahead hr.clear hr.access, fun hw => ?_⟩
    have hplace := hsame.place hw.no_error hw.access
    dsimp only at hplace
    have hread : ¬ (s.prevOp = .read ∧ s.file.append = false) := by
      rintro ⟨hop, -⟩
      rcases hw.equipped with hnbf | ⟨hne, -⟩
      · rw [h.buffered] at hnbf
        contradiction
      · exact hne hop
    have happ : ¬ s.file.append = true := by
      rw [hw.append]
      exact Bool.false_ne_true
    rwa [if_neg hread, if_neg hread, if_neg happ, if_neg happ] at hplace
  · rintro ⟨hahead, hplace⟩
    refine ⟨rfl, rfl, rfl, rfl, rfl, fun hclear hwr => hahead ⟨hclear, hwr, .inr h.one_le_bufSize⟩,
      fun hne hrd => ?_⟩
    dsimp only
    split
    · rfl
    · next hread =>
      split
      · rfl
      · next happ =>
        have happ' : s.file.append = false := by simpa using happ
        exact hplace ⟨hne, hrd, happ', .inr ⟨fun hop => hread ⟨hop, happ'⟩, h.one_le_bufSize, h.stored⟩⟩

theorem Sound.content_granted (h : Sound s) (g : Nat → Byte) :
    (flushedFile (s.granted g)).content = (s.file.put (pending s)).content := by
  rw [flushedFile_put (h.granted g) rfl]
  show ({ s.file with script := [] }.put (pending s)).content = _
  rw [OpenFile.put, OpenFile.put]
  split
  · rfl
  · rfl

/-- **What resumes is the same as before.** -/
theorem Sound.unnoticed_of_resumes (h : Sound s) (hr : Resumes s) : Unnoticed s (dropped s) := by
  intro g cs hcs
  have hspec := Held.dropped_spec (.inl h)
  have hmode : ((dropped s).granted g).bufMode = s.bufMode := hspec.bufMode
  rw [observe_view (h.plain_granted g hr.flagged hr.whole) hcs,
    observe_view (h.plain_dropped g) (by rw [hmode]; exact hcs)]
  suffices hsame : View.Same s.bufMode.rdonly s.bufMode.wronly (viewOf (s.granted g))
      (viewOf ((dropped s).granted g)) from hsame.alike cs hcs
  by_cases hfails : FlushFails s
  · -- the flag is set on both sides, and shuts everything
    obtain ⟨herror, hcontent⟩ := hr.flushed hfails
    have hdropped : (dropped s).error = .error := by
      rcases hspec.error with ⟨heq, -⟩ | ⟨-, hf⟩
      · exact heq
      · exact absurd hfails hf
    rw [viewOf_dropped (.inl h) g, hdropped]
    refine ⟨?_, ?_, rfl, herror, rfl, fun hclear => ?_, fun hne => absurd herror hne⟩
    · show (flushedFile (s.granted g)).content = (flushedFile s).content
      rw [h.content_granted g, hcontent, (flushedFile_of_fails hfails).1]
    · have hbase : base (s.granted g) = s.pos := if_neg (fun hn => hn.1 hfails.1)
      exact hbase.trans (if_neg (fun hn => hn.1 hfails.1)).symm
    · have hclear' : s.error = .clear := hclear
      rw [herror] at hclear'
      contradiction
  · exact (h.same_iff hfails g).mpr ⟨hr.ahead, hr.place⟩

/-! ### What is noticed -/

theorem transferMachine_step {c : Transfer} (hfault : (c.serve s).2.fault = false) :
    transferMachine.step s c = some ((c.serve s).2, (c.serve s).1) := by
  show (if (c.serve s).2.fault = true then none else some ((c.serve s).2, (c.serve s).1)) = _
  rw [if_neg (by rw [hfault]; exact Bool.false_ne_true)]

/-- One call that would tell. -/
theorem Unnoticed.served {s' : Stream} (h : Unnoticed s s') {c : Transfer}
    (hc : c.Permitted s.bufMode.rdonly s.bufMode.wronly) (g : Nat → Byte)
    (hfault : (c.serve (s.granted g)).2.fault = false) (hfault' : (c.serve (s'.granted g)).2.fault = false) :
    (c.serve (s.granted g)).1 = (c.serve (s'.granted g)).1 ∧
      commonFclose (c.serve (s.granted g)).2 = commonFclose (c.serve (s'.granted g)).2 :=
  Machine.eq_of_observe (transferMachine_step hfault) (transferMachine_step hfault')
    (h g [c] (fun c' hc' => by rw [List.mem_singleton.mp hc']; exact hc))

/-- A fast path that is open with a flag set: the call would have been refused. -/
theorem Sound.flagged_of_unnoticed (h : Sound s) (hun : Unnoticed s (dropped s))
    (hflag : s.error = .error ∨ (s.error = .eof ∧ s.prevOp = .read)) : s.pos = s.end_ := by
  by_contra hne
  have hstart := h.start_le
  have hpos := h.pos_le
  have hwindow : s.start ≠ s.end_ := by omega
  have hspec := Held.dropped_spec (.inl h)
  have hdropped : ((dropped s).granted fun _ => 0).error ≠ .clear := by
    show (dropped s).error ≠ .clear
    rcases hspec.error with ⟨heq, -⟩ | ⟨heq, -⟩
    · rw [heq]
      exact fun hc => by contradiction
    · rw [heq]
      rcases hflag with herr | ⟨herr, -⟩
      · rw [herr]
        exact fun hc => by contradiction
      · rw [herr]
        exact fun hc => by contradiction
  have hplain := h.plain_dropped (fun _ => 0)
  have hempty : ((dropped s).granted fun _ => 0).start = ((dropped s).granted fun _ => 0).end_ :=
    hspec.start.trans hspec.end_.symm
  have hsame : ((dropped s).granted fun _ => 0).pos = s.pos := hspec.pos
  cases hop : s.prevOp with
  | nothing => exact hwindow (h.idle hop)
  | read =>
    have hfast : FastGet (s.granted fun _ => 0) := ⟨h.buffered, hop, hwindow, hne⟩
    obtain ⟨b, -, -, -, hget⟩ := commonFgetc_fast (h.granted _) hfast
    have hrefused : commonFread ((dropped s).granted fun _ => 0) 1 1 =
        (([], 0), (dropped s).granted fun _ => 0) := by
      rw [commonFread, if_pos]
      cases herr : ((dropped s).granted fun _ => 0).error with
      | clear => exact absurd herr hdropped
      | eof => exact .inl rfl
      | error => exact .inr rfl
    have hslow := commonFgetc_slow (fun hfast' => hfast'.2.2.1 hempty) 0
    rw [hrefused] at hslow
    have hserved := (hun.served (c := .fgetc 0) (h.readable hop) (fun _ => 0)
      (by simp only [Transfer.serve]; rw [hget 0]; exact h.no_fault)
      (by simp only [Transfer.serve]; rw [hslow]; exact hplain.no_fault)).1
    have hat := congrArg Served.pos hserved
    simp only [Transfer.serve] at hat
    rw [hget 0, hslow, hsame] at hat
    exact absurd hat (Nat.succ_ne_self s.pos)
  | write =>
    have herror : s.error = .error := by
      rcases hflag with herr | ⟨-, hread⟩
      · exact herr
      · rw [hop] at hread
        contradiction
    have hfast : FastPut (s.granted fun _ => 0) := ⟨h.buffered, hop, hwindow, hne⟩
    have hput := commonFputc_fast ((h.granted _).backed hwindow) (h.granted fun _ => 0).toWindow 0 hfast
    have hdropped' : ((dropped s).granted fun _ => 0).error = .error := by
      rcases hspec.error with ⟨heq, -⟩ | ⟨heq, -⟩
      · exact heq
      · exact heq.trans herror
    have hslow := @commonFputc_slow ((dropped s).granted fun _ => 0) 0 (fun hfast' => hfast'.2.2.1 hempty)
    rw [commonFwrite, if_pos hdropped'] at hslow
    have hserved := (hun.served (c := .fputc 0) (h.writable hop) (fun _ => 0)
      (by simp only [Transfer.serve]; rw [hput]; exact h.no_fault)
      (by simp only [Transfer.serve]; rw [hslow]; exact hplain.no_fault)).1
    have hat := congrArg Served.pos hserved
    simp only [Transfer.serve] at hat
    rw [hput, hslow, hsame] at hat
    exact absurd hat (Nat.succ_ne_self s.pos)

theorem OpenFile.length_put (f : OpenFile) (bytes : List Byte) :
    (f.put bytes).content.length ≤ max f.content.length (f.target + bytes.length) := by
  rw [OpenFile.put]
  split
  · exact Nat.le_max_left _ _
  · exact Nat.le_of_eq (length_overwrite _ _ _)

theorem OpenFile.le_length_put {f : OpenFile} {bytes : List Byte} (hne : bytes ≠ []) :
    f.target + bytes.length ≤ (f.put bytes).content.length := by
  rw [OpenFile.put_content hne, length_overwrite]
  exact Nat.le_max_right _ _

/-- A write beyond a window that has been shortened is longer than what is written: the buffer is sent whole. -/
theorem Sound.fwrite_shortened (h : Sound s) (hf : s.file.Granted) (hop : s.prevOp = .write)
    (herror : s.error ≠ .error) (hshort : ¬ Whole s) {b : Block} (hover : s.end_ - s.pos < b.data.length) :
    (commonFwrite s b).1 = b.count ∧ Sound (commonFwrite s b).2 ∧
      s.file.target + s.bufSize + (b.data.length - (s.end_ - s.pos)) ≤
        (commonFclose (commonFwrite s b).2).length := by
  have hstart := h.start_le
  have hpos := h.pos_le
  have hfits := h.fits
  have hwindow : s.start ≠ s.end_ := fun heq => hshort (.inl heq.symm)
  have hfull : s.end_ ≠ s.start + s.bufSize := fun heq => hshort (.inr heq)
  have hb := h.backed hwindow
  have hlen := hb.length_buffer
  have hcall : commonFwrite s b = fwriteOverflow s b := by
    have henter : enterWrite s = s := if_neg (fun hne => hne hop)
    rw [commonFwrite, if_neg herror, if_neg (by rw [h.writable hop]; exact Bool.false_ne_true),
      if_neg (by rw [h.buffered]; exact Bool.false_ne_true), henter, allocateBuffer_of_backed hb]
    exact fwriteBuffered_overflow hb h.toWindow (if_neg hwindow).symm (by omega)
  have hsound := fwriteOverflow_sound h hb hop hover
  obtain ⟨f, buf, start, hwrite, -, hput⟩ := fwriteOverflow_put h hb hop hf hover
  rw [hcall]
  refine ⟨congrArg Prod.fst hwrite, hsound, ?_⟩
  have hcount : toppedCount s = s.end_ - s.pos := if_pos (by omega)
  have htop : (toppedUp s b.data).length = s.bufSize := by
    rw [toppedUp, if_pos (by omega), length_overwrite, List.length_take, hlen]
    omega
  have htop' : toppedUp s b.data ≠ [] := by
    intro hnil
    rw [hnil, List.length_nil] at htop
    omega
  have hrest : (b.data.drop (toppedCount s)).length = b.data.length - (s.end_ - s.pos) := by
    rw [List.length_drop, hcount]
  have hrest' : b.data.drop (toppedCount s) ≠ [] := by
    intro hnil
    rw [hnil, List.length_nil] at hrest
    omega
  have hle := OpenFile.le_length_put (f := s.file.put (toppedUp s b.data)) hrest'
  rw [OpenFile.target_put htop', htop, hrest] at hle
  rw [commonFclose_eq hsound, hput]
  exact hle

/-- Where a stream without its window goes on is not behind what has been pending. -/
theorem Sound.place_dropped_le (h : Sound s) (hstep : InStep s) (herror : s.error ≠ .error) (hop : s.prevOp = .write)
    (hfails : ¬ FlushFails s) (g : Nat → Byte) :
    (flushedFile s).content.length ≤ max s.file.content.length (s.file.target + (s.pos - s.start)) ∧
      (viewOf ((dropped s).granted g)).place ≤ s.file.target + (s.pos - s.start) := by
  have hstart := h.start_le
  have hlen := length_pending h hop
  have hcontent : (flushedFile s).content = (s.file.put (pending s)).content :=
    (flushedFile_granted hfails g).1.symm.trans (h.content_granted g)
  have hlength := OpenFile.length_put s.file (pending s)
  rw [hlen, ← hcontent] at hlength
  refine ⟨hlength, ?_⟩
  rw [viewOf_dropped (.inl h) g]
  dsimp only
  rw [if_neg (fun hread => by rw [hop] at hread; exact absurd hread.1 (fun hr => by contradiction))]
  split
  · next happ =>
    have htarget : s.file.target = s.file.content.length := if_pos happ
    omega
  · next happ =>
    have htarget : s.file.target = s.file.offset := if_neg happ
    have hbehind := hstep.writing (by simpa using happ) herror hop
    rw [soughtOffset]
    split
    · rw [← (flushedFile_granted hfails g).2.1, flushedFile_put (h.granted g) rfl]
      by_cases hnone : pending (s.granted g) = []
      · rw [hnone, OpenFile.put_nil, htarget]
        exact Nat.le_add_right _ _
      · have hlen' : (pending (s.granted g)).length = s.pos - s.start := hlen
        have htarget' : (s.granted g).file.target = s.file.target := rfl
        rw [OpenFile.offset_put hnone, hlen', htarget']
    · omega

/-- A window that has been shortened gives itself away. -/
theorem Sound.whole_of_unnoticed (h : Sound s) (hstep : InStep s) (hun : Unnoticed s (dropped s))
    (herror : s.error ≠ .error) (hop : s.prevOp = .write) : Whole s := by
  by_contra hshort
  have hstart := h.start_le
  have hpos := h.pos_le
  have hfits := h.fits
  have hrd := h.writable hop
  have hspec := Held.dropped_spec (.inl h)
  obtain ⟨n, hn⟩ : ∃ n, n = s.file.content.length + (s.end_ - s.pos) + 1 := ⟨_, rfl⟩
  obtain ⟨b, hb⟩ : ∃ b : Block, b.data.length = n ∧ b.count = n :=
    ⟨⟨1, n, List.replicate n 0, by rw [List.length_replicate, Nat.one_mul]⟩, List.length_replicate, rfl⟩
  obtain ⟨hlen, hcount⟩ := hb
  have hne : b.data ≠ [] := by
    intro hnil
    rw [hnil, List.length_nil] at hlen
    omega
  have hover : s.end_ - s.pos < b.data.length := by omega
  obtain ⟨hitems, hsound, hlong⟩ :=
    (h.granted fun _ => 0).fwrite_shortened rfl hop herror (fun hw => hshort hw) hover
  have hplain := h.plain_dropped (fun _ => 0)
  have hmode : ((dropped s).granted fun _ => 0).bufMode = s.bufMode := hspec.bufMode
  obtain ⟨hitems', hon⟩ := hplain.fwrite (b := b) (by rw [hmode]; exact hrd) hne
  obtain ⟨hserved, hclosed⟩ := hun.served (c := .fwrite b) hrd (fun _ => 0)
    (by simp only [Transfer.serve, if_neg hne]; exact hsound.no_fault)
    (by simp only [Transfer.serve, if_neg hne]; exact hon.plain.no_fault)
  have hresult := congrArg Served.result hserved
  simp only [Transfer.serve, if_neg hne] at hresult hclosed
  rw [hitems, hitems', hcount] at hresult
  by_cases hfails : FlushFails s
  · -- the one write is refused
    have hdropped : (viewOf ((dropped s).granted fun _ => 0)).error = .error := by
      show (dropped s).error = .error
      rcases hspec.error with ⟨heq, -⟩ | ⟨-, hf⟩
      · exact heq
      · exact absurd hfails hf
    rw [View.fwrite, if_pos hdropped] at hresult
    omega
  · have hdropped : ¬ (viewOf ((dropped s).granted fun _ => 0)).error = .error := by
      show ¬ (dropped s).error = .error
      rcases hspec.error with ⟨-, hf⟩ | ⟨heq, -⟩
      · exact absurd hf hfails
      · rw [heq]
        exact herror
    obtain ⟨hcontent, hplace⟩ := h.place_dropped_le hstep herror hop hfails (fun _ => 0)
    have hview := congrArg View.content hon.view
    rw [View.fwrite, if_neg hdropped] at hview
    rw [commonFclose_eq hon.plain.toSound] at hclosed
    have hcontent' : (viewOf ((dropped s).granted fun _ => 0)).content = (flushedFile s).content := by
      rw [viewOf_dropped (.inl h)]
    have hshown : (flushedFile (commonFwrite ((dropped s).granted fun _ => 0) b).2).content =
        overwrite (flushedFile s).content (viewOf ((dropped s).granted fun _ => 0)).place b.data := by
      rw [← hcontent']
      exact hview
    rw [hclosed, hshown, length_overwrite, hlen] at hlong
    have htarget : (s.granted fun _ => 0).file.target = s.file.target := rfl
    have hsize : (s.granted fun _ => 0).bufSize = s.bufSize := rfl
    have hend : (s.granted fun _ => 0).end_ - (s.granted fun _ => 0).pos = s.end_ - s.pos := rfl
    rw [htarget, hsize, hend] at hlong
    have hwhole : s.end_ - s.start ≠ s.bufSize := fun heq => hshort (.inr (by omega))
    omega

theorem Sound.closed_of_unnoticed (h : Sound s) (hun : Unnoticed s (dropped s)) :
    (s.file.put (pending s)).content = (flushedFile s).content := by
  have hnil := hun (fun _ => 0) [] (fun c hc => absurd hc List.not_mem_nil)
  rw [Machine.observe_nil, Machine.observe_nil, commonFclose_eq (h.granted _),
    commonFclose_eq ((sound_dropped h).granted _), h.content_granted] at hnil
  have hclosed := congrArg Prod.snd (Option.some.inj hnil)
  have hcontent : (viewOf ((dropped s).granted fun _ => 0)).content = (flushedFile s).content := by
    rw [viewOf_dropped (.inl h)]
  exact hclosed.trans hcontent

/-- After a flush that has failed the stream refuses what it would have taken. -/
theorem Sound.error_of_unnoticed (h : Sound s) (hstep : InStep s) (hun : Unnoticed s (dropped s))
    (hfails : FlushFails s) : s.error = .error := by
  by_contra herror
  have hrd := h.writable hfails.1
  have hspec := Held.dropped_spec (.inl h)
  have hdropped : (viewOf ((dropped s).granted fun _ => 0)).error = .error := by
    show (dropped s).error = .error
    rcases hspec.error with ⟨heq, -⟩ | ⟨-, hf⟩
    · exact heq
    · exact absurd hfails hf
  have hmode : ((dropped s).granted fun _ => 0).bufMode = s.bufMode := hspec.bufMode
  have hplain := h.plain_granted (fun _ => 0) (h.flagged_of_unnoticed hun) (h.whole_of_unnoticed hstep hun)
  obtain ⟨hserve, hon⟩ := hplain.fputc hrd 0
  obtain ⟨hserve', hon'⟩ := (h.plain_dropped fun _ => 0).fputc (by rw [hmode]; exact hrd) 0
  have hserved := (hun.served (c := .fputc 0) hrd (fun _ => 0) hon.plain.no_fault hon'.plain.no_fault).1
  rw [hserve, hserve'] at hserved
  have hresult := congrArg Served.result hserved
  simp only [Transfer.view] at hresult
  have herror' : ¬ (viewOf (s.granted fun _ => 0)).error = .error := herror
  rw [View.fwrite, if_neg herror', View.fwrite, if_pos hdropped] at hresult
  have hbyte : (0 : Int) = eof := hresult
  exact absurd hbyte (by decide)

/-- **Streams with a buffer.** The call is not noticed exactly if the stream resumes. -/
theorem Sound.unnoticed_iff (h : Sound s) (hstep : InStep s) : Unnoticed s (dropped s) ↔ Resumes s := by
  refine ⟨fun hun => ?_, h.unnoticed_of_resumes⟩
  have hflagged := h.flagged_of_unnoticed hun
  have hwhole := h.whole_of_unnoticed hstep hun
  have hoffset : s.error ≠ .error →
      (ReadsOffset s → unread s = (flushedFile s).content.drop (soughtOffset s)) ∧
        (WritesOffset s → (flushedFile s).offset = soughtOffset s) := by
    intro herror
    have hfails : ¬ FlushFails s := fun hf => herror (h.error_of_unnoticed hstep hun hf)
    have hspec := Held.dropped_spec (.inl h)
    have herr : (dropped s).error = s.error := by
      rcases hspec.error with ⟨-, hf⟩ | ⟨heq, -⟩
      · exact absurd hf hfails
      · exact heq
    have hmode : ((dropped s).granted fun _ => 0).bufMode = s.bufMode := hspec.bufMode
    have halike : View.Alike s.bufMode.rdonly s.bufMode.wronly (viewOf (s.granted fun _ => 0))
        (viewOf ((dropped s).granted fun _ => 0)) := by
      intro cs hcs
      rw [← observe_view (h.plain_granted _ hflagged hwhole) hcs,
        ← observe_view (h.plain_dropped _) (by rw [hmode]; exact hcs)]
      exact hun _ cs hcs
    refine (h.same_iff hfails fun _ => 0).mp (halike.same ?_ ?_ ?_ ?_)
    all_goals rw [viewOf_granted hfails, viewOf_dropped (.inl h), herr]
  refine ⟨fun hf => ⟨h.error_of_unnoticed hstep hun hf, ?_⟩, hflagged, hwhole,
    fun hr => (hoffset (by rw [hr.clear]; exact fun hc => by contradiction)).1 hr,
    fun hw => (hoffset hw.no_error).2 hw⟩
  rw [h.closed_of_unnoticed hun, (flushedFile_of_fails hf).1]

end WindowsLibc.Stdio
