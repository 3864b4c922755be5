import WindowsLibc.Stdio.Unread

/-!
# Where reading goes on after a seek

`common_fseek` has two ways to succeed. In the window of a stream that is being read it moves `pos` and
leaves the rest as it is, the end-of-file flag too. Otherwise it asks the kernel, whose offset is ahead of
the stream position by what the window still holds.

* `DeliversFrom s`: whatever is read next are the bytes of the file from the position of the stream.
  `deliversFrom_iff` says when.
* `seek_ends_eof_iff` is about every seek, from every stream that can be reached.
-/

namespace WindowsLibc.Stdio

open WindowsLibc.Lib

variable {s : Stream}

/-! ## What a read after the seek delivers -/

/-- No call to come fails, and an unbuffered stream, which asks once, gets what it asks for. -/
def Serves (s : Stream) (script : List Answer) : Prop :=
  ∀ a ∈ script, a ≠ .fail ∧ (s.bufMode.nbf = true → a = .full)

/-- The kernel will answer like this. -/
def Stream.withScript (s : Stream) (script : List Answer) : Stream :=
  { s with file := { s.file with script := script } }

/-- A read delivers the beginning of `bytes`. -/
def Delivers (s : Stream) (bytes : List Byte) : Prop :=
  ∀ script, Serves s script → ∀ size count, 0 < size * count →
    (commonFread (s.withScript script) size count).1.1 = bytes.take (size * count) ∧
      (commonFread (s.withScript script) size count).2.fault = false

/-- A read delivers the file from the stream position on, as far as it goes. -/
def DeliversFrom (s : Stream) : Prop := Delivers s (s.file.content.drop s.pos)

/-- The stream is unbuffered, or it has a buffer, or can have one. -/
def Equipped (s : Stream) : Prop :=
  s.bufMode.nbf = true ∨ (1 ≤ s.bufSize ∧
    (Backed s ∨ (s.bufMode.internal = true ∧ s.bufMode.allocated = false ∧ s.heap ≠ none)))

/-- A read will not be refused. -/
structure CanRead (s : Stream) : Prop where
  clear : s.error = .clear
  access : s.bufMode.wronly = false
  equipped : Equipped s

theorem Sound.equipped_iff (h : Sound s) : Equipped s ↔ ¬ NoMemory s := by
  constructor
  · rintro (hnbf | ⟨-, hb | ⟨-, -, hheap⟩⟩) ⟨hint, hall, hnone⟩
    · rw [h.buffered] at hnbf
      contradiction
    · exact hb.not_lazy ⟨hint, hall⟩
    · exact hheap hnone
  · intro hm
    refine Or.inr ⟨h.one_le_bufSize, ?_⟩
    rcases h.storage with hb | ⟨hint, hall, -⟩
    · exact Or.inl hb
    · exact Or.inr ⟨hint, hall, fun hnone => hm ⟨hint, hall, hnone⟩⟩

theorem Bare.equipped_iff (h : Bare s) : Equipped s ↔ s.bufMode.nbf = true := by
  refine ⟨?_, Or.inl⟩
  rintro (hnbf | ⟨hB, hstored⟩)
  · exact hnbf
  · rcases h.unusable with hnbf | ⟨hlazy, hnone⟩
    · exact hnbf
    · rcases hstored with hb | ⟨hint, hall, -⟩
      · have hlen := hb.length_buffer
        rcases hnone with hzero | hnull
        · omega
        · rw [hnull, List.length_nil] at hlen
          omega
      · exact absurd ⟨hint, hall⟩ hlazy

/-- A read is refused where an error is pending, or the access mode forbids it. -/
theorem commonFread_refused (h : ¬ (s.error = .clear ∧ s.bufMode.wronly = false)) (size count : Nat) :
    (commonFread s size count).1.1 = [] ∧ (commonFread s size count).2.fault = s.fault := by
  rw [commonFread]
  split
  · exact ⟨rfl, rfl⟩
  next herror =>
  split
  · exact ⟨rfl, rfl⟩
  next hwr =>
  refine absurd ⟨?_, by simpa using hwr⟩ h
  cases he : s.error with
  | clear => rfl
  | eof => exact absurd (Or.inl he) herror
  | error => exact absurd (Or.inr he) herror

/-- There is nothing written that would have to go out first. -/
def Settled (s : Stream) : Prop := s.prevOp = .write → s.start = s.pos

theorem Settled.flushedFile_eq (h : Settled s) : flushedFile s = s.file := by
  rw [flushedFile, if_neg (fun hp => hp.2 (h hp.1))]

theorem commonFread_noMemory (h : Sound s) (hsettled : Settled s) (hclear : s.error = .clear)
    (hwr : s.bufMode.wronly = false) (hm : NoMemory s) (size count : Nat) :
    (commonFread s size count).1.1 = [] ∧ (commonFread s size count).2.fault = false := by
  have hflush : ¬ FlushFails s := fun hf => hf.2.1 (hsettled hf.1)
  have hread := (enterRead_sound h hwr hflush).1
  have hsame : (enterRead s).bufMode = s.bufMode ∧ (enterRead s).heap = s.heap := by
    rw [enterRead, commonFflush_idle h hsettled]
    split
    · exact ⟨rfl, rfl⟩
    · exact ⟨rfl, rfl⟩
  have hgranted := allocateBuffer_granted hread.stored
  rw [NoMemory, hsame.1, hsame.2] at hgranted
  obtain ⟨granted, buf, m, halloc, hsound, -⟩ := allocateBuffer_sound hread
  rw [halloc] at hgranted
  rw [commonFread, if_neg (by simp [hclear]), if_neg (by simp [hwr]), if_neg (by simp [h.buffered]), halloc]
  cases granted with
  | true => exact absurd hm (hgranted.mp rfl)
  | false => exact ⟨rfl, hsound.no_fault⟩

theorem Bare.not_flushFails (h : Bare s) : ¬ FlushFails s := fun hf => hf.2.1 h.start

theorem Bare.unread_eq (h : Bare s) : unread s = s.file.content.drop s.file.offset := by
  have hstart := h.start
  have hend := h.end_
  have hsettled : Settled s := fun _ => hstart
  rw [unread, hsettled.flushedFile_eq, windowRest]
  split
  · rw [Stream.load, show s.end_ - s.pos = 0 by omega, List.take_zero, List.nil_append]
  · rfl

/-- One system call, that is answered in full. -/
theorem Bare.read_unbuffered (h : Bare s) (hnbf : s.bufMode.nbf = true) (hclear : s.error = .clear)
    (hwr : s.bufMode.wronly = false) (hfull : s.file.answer = .full) (size count : Nat) :
    (commonFread s size count).1.1 = (s.file.content.drop s.file.offset).take (size * count) ∧
      (commonFread s size count).2.fault = false := by
  have hfail : ¬ s.file.answer = .fail := by
    rw [hfull]
    exact fun hfalse => by contradiction
  have htransfer : s.file.transfer (size * count) =
      (s.file.content.drop s.file.offset).take (size * count) := by
    rw [OpenFile.transfer, hfull]
  rw [commonFread, if_neg (by simp [hclear]), if_neg (by simp [hwr]), if_pos hnbf, freadUnbuffered,
    readWrapper_eq, if_neg hfail, htransfer]
  cases hbytes : (s.file.content.drop s.file.offset).take (size * count) with
  | nil => exact ⟨rfl, h.no_fault⟩
  | cons b bytes => exact ⟨rfl, h.no_fault⟩

theorem Bare.commonFread_eq (h : Bare s) (hnbf : s.bufMode.nbf = false) (hclear : s.error = .clear)
    (hwr : s.bufMode.wronly = false) (size count : Nat) :
    commonFread s size count = freadBuffered { s with prevOp := .read } size count := by
  have hread : Bare { s with prevOp := .read } :=
    h.answered (fun hop => by contradiction) (fun _ => hwr)
  rw [commonFread, if_neg (by simp [hclear]), if_neg (by simp [hwr]), if_neg (by simp [hnbf]),
    h.enterRead_eq, hread.not_lazy hnbf]

/-- At the end of the file there is nothing to read. -/
theorem readWrapper_exhausted (hend : s.file.content.length ≤ s.file.offset) (n : Nat) :
    ∃ f e, readWrapper s n = ([], { s with file := f, error := e }) := by
  have hnil : s.file.transfer n = [] := by
    rw [OpenFile.transfer, List.drop_eq_nil_of_le hend]
    split
    · exact List.take_nil
    · exact List.take_nil
  rw [readWrapper_eq, hnil]
  split
  · exact ⟨_, _, rfl⟩
  · exact ⟨_, _, rfl⟩

theorem freadDirect_exhausted (hend : s.file.content.length ≤ s.file.offset) (dataSize fuel : Nat) :
    (∃ f e, freadDirect dataSize (fuel + 1) [] s = ([], false, { s with file := f, error := e })) ∨
      freadDirect dataSize (fuel + 1) [] s = ([], true, s) := by
  rw [freadDirect]
  split
  · obtain ⟨f, e, hread⟩ := readWrapper_exhausted hend s.bufSize
    rw [hread]
    exact Or.inl ⟨f, e, rfl⟩
  · exact Or.inr rfl

theorem freadLast_exhausted (hend : s.file.content.length ≤ s.file.offset) (size dataSize : Nat)
    (got : List Byte) :
    (freadLast s size dataSize got).1.1 = got ∧ (freadLast s size dataSize got).2.fault = s.fault := by
  have hfill : ∃ f e, freadFill (dataSize - got.length) (s.bufSize + 1) 0 s =
      (0, { s with file := f, error := e }) := by
    rw [freadFill]
    split
    · obtain ⟨f, e, hread⟩ := readWrapper_exhausted hend (s.bufSize - 0)
      rw [hread]
      exact ⟨f, e, rfl⟩
    · exact ⟨s.file, s.error, rfl⟩
  obtain ⟨f, e, hfill⟩ := hfill
  rw [freadLast, hfill]
  exact ⟨rfl, rfl⟩

/-- At the end of the file a stream does without the memory that it has not got. -/
theorem Bare.read_exhausted (h : Bare s) (hnbf : s.bufMode.nbf = false) (hclear : s.error = .clear)
    (hwr : s.bufMode.wronly = false) (hend : s.file.content.length ≤ s.file.offset) {size count : Nat}
    (hsome : 0 < size * count) :
    (commonFread s size count).1.1 = [] ∧ (commonFread s size count).2.fault = false := by
  have hread : Bare { s with prevOp := .read } :=
    h.answered (fun hop => by contradiction) (fun _ => hwr)
  rw [h.commonFread_eq hnbf hclear hwr, hread.freadBuffered_eq hsome]
  rcases freadDirect_exhausted (s := { s with prevOp := .read }) hend (size * count) (size * count) with
    ⟨f, e, hdirect⟩ | hdirect
  · rw [hdirect]
    exact ⟨rfl, h.no_fault⟩
  · rw [hdirect]
    obtain ⟨hbytes, hfault⟩ := freadLast_exhausted
      (s := { s with pos := s.pos + 0, start := s.pos + 0, end_ := s.pos + 0, prevOp := .read })
      hend size (size * count) []
    exact ⟨hbytes, hfault.trans h.no_fault⟩

/-- Elsewhere it does not: the first byte is lost, or goes to NULL. -/
theorem Bare.read_broken (h : Bare s) (hnbf : s.bufMode.nbf = false) (hclear : s.error = .clear)
    (hwr : s.bufMode.wronly = false) (hin : s.file.offset < s.file.content.length)
    (hanswer : s.file.answer = .full) :
    (commonFread s 1 1).1.1 = [] ∨ (commonFread s 1 1).2.fault = true := by
  have hread : Bare { s with prevOp := .read } :=
    h.answered (fun hop => by contradiction) (fun _ => hwr)
  obtain ⟨-, hnone⟩ := h.unusable.resolve_left (by rw [hnbf]; exact Bool.false_ne_true)
  rw [h.commonFread_eq hnbf hclear hwr, hread.freadBuffered_eq Nat.one_pos]
  by_cases hB : s.bufSize = 0
  · obtain ⟨f, e, hdirect⟩ := freadDirect_zero (s := { s with prevOp := .read }) hB Nat.one_pos 1
    rw [hdirect]
    exact Or.inl rfl
  · right
    have hnull := hnone.resolve_left hB
    have hpos : 1 ≤ s.bufSize := Nat.pos_of_ne_zero hB
    have hdirect : freadDirect (1 * 1) (1 * 1 + 1) [] { s with prevOp := .read } =
        ([], true, { s with prevOp := .read }) := by
      rw [freadDirect, List.length_nil, if_neg (by show ¬ 0 + s.bufSize < 1 * 1; omega)]
    have hfill := freadFill_one
      { s with pos := s.pos + 0, start := s.pos + 0, end_ := s.pos + 0, prevOp := .read } hpos
    have htransfer : s.file.transfer s.bufSize = (s.file.content.drop s.file.offset).take s.bufSize := by
      rw [OpenFile.transfer, hanswer]
    have hsome : s.file.transfer s.bufSize ≠ [] := by
      intro hnil
      have hlen := congrArg List.length hnil
      rw [htransfer, List.length_take, List.length_drop, List.length_nil] at hlen
      omega
    rw [readWrapper_eq, if_neg (by rw [hanswer]; exact fun hfalse => by contradiction)] at hfill
    simp only [if_neg hsome] at hfill
    rw [hdirect]
    simp only [if_true, freadLast, List.length_nil, Nat.mul_one, Nat.sub_zero, hfill]
    obtain ⟨b, bytes, hbytes⟩ := List.exists_cons_of_ne_nil hsome
    simp only [hbytes, List.length_cons]
    refine fault_check (fault_touch ?_) _
    show s.buffer.length < 0 + (bytes.length + 1)
    rw [hnull, List.length_nil]
    omega

theorem forall_take_eq_iff {xs ys : List Byte} :
    (∀ size count, 0 < size * count → xs.take (size * count) = ys.take (size * count)) ↔ xs = ys := by
  constructor
  · intro h
    have hall := h 1 (xs.length + ys.length + 1) (by omega)
    rwa [List.take_of_length_le (by omega), List.take_of_length_le (by omega)] at hall
  · intro h size count _
    rw [h]

theorem Stream.unread_withScript (hsettled : Settled s) (script : List Answer) :
    unread (s.withScript script) = unread s := by
  have hsettled' : Settled (s.withScript script) := hsettled
  rw [unread, unread, hsettled.flushedFile_eq, hsettled'.flushedFile_eq]
  rfl

theorem Sound.withScript (h : Sound s) (script : List Answer) : Sound (s.withScript script) :=
  h.answered { s.file with script := script } s.error

theorem Bare.withScript (h : Bare s) (script : List Answer) : Bare (s.withScript script) :=
  ⟨h.no_fault, h.start, h.end_, h.unusable, h.writable, h.readable⟩

/-- What a stream that can be read delivers. -/
theorem commonFread_served (h : Held s) (hsettled : Settled s) (hr : CanRead s) {script : List Answer}
    (hserves : Serves s script) (size count : Nat) :
    (commonFread (s.withScript script) size count).1.1 = (unread s).take (size * count) ∧
      (commonFread (s.withScript script) size count).2.fault = false := by
  rcases h with hs | hb
  · have hreadable : Readable (s.withScript script) :=
      ⟨hr.clear, hr.access, hs.equipped_iff.mp hr.equipped⟩
    obtain ⟨hreads, hsound, -⟩ := commonFread_reads (hs.withScript script) hreadable
      (fun a ha => (hserves a ha).1) size count
    rw [hreads.delivered, Stream.unread_withScript hsettled]
    exact ⟨rfl, hsound.no_fault⟩
  · have hnbf := hb.equipped_iff.mp hr.equipped
    have hfull : (s.withScript script).file.answer = .full := by
      show script.headD .full = .full
      cases script with
      | nil => rfl
      | cons a script => exact (hserves a List.mem_cons_self).2 hnbf
    rw [hb.unread_eq]
    exact (hb.withScript script).read_unbuffered hnbf hr.clear hr.access hfull size count

/-- A stream that cannot be read delivers nothing where nothing is left, and nowhere else what is. -/
theorem not_canRead_deliversFrom (h : Held s) (hsettled : Settled s) (hr : ¬ CanRead s)
    (hbare : Bare s → s.file.offset = s.pos) :
    DeliversFrom s ↔ s.file.content.length ≤ s.pos := by
  have hnothing : (∀ script, Serves s script → ∀ size count, 0 < size * count →
        (commonFread (s.withScript script) size count).1.1 = [] ∧
          (commonFread (s.withScript script) size count).2.fault = false) →
      (DeliversFrom s ↔ s.file.content.length ≤ s.pos) := by
    intro hempty
    constructor
    · intro hdelivers
      have hnil := (hdelivers [] (fun a ha => by contradiction) 1 1 Nat.one_pos).1
      rw [(hempty [] (fun a ha => by contradiction) 1 1 Nat.one_pos).1] at hnil
      have hlen := congrArg List.length hnil
      rw [List.length_nil, List.length_take, List.length_drop] at hlen
      omega
    · intro hend script hserves size count hsome
      obtain ⟨hbytes, hfault⟩ := hempty script hserves size count hsome
      rw [hbytes, List.drop_eq_nil_of_le hend, List.take_nil]
      exact ⟨rfl, hfault⟩
  by_cases hgo : s.error = .clear ∧ s.bufMode.wronly = false
  · obtain ⟨hclear, hwr⟩ := hgo
    have hequipped : ¬ Equipped s := fun he => hr ⟨hclear, hwr, he⟩
    rcases h with hs | hb
    · have hm : NoMemory s := by
        by_contra hm
        exact hequipped (hs.equipped_iff.mpr hm)
      refine hnothing (fun script _ size count _ => ?_)
      exact commonFread_noMemory (hs.withScript script) hsettled hclear hwr hm size count
    · have hnbf : s.bufMode.nbf = false := by
        rw [← Bool.not_eq_true]
        exact fun hnbf => hequipped (hb.equipped_iff.mpr hnbf)
      have hoff := hbare hb
      by_cases hend : s.file.content.length ≤ s.pos
      · refine hnothing (fun script _ size count hsome => ?_)
        exact (hb.withScript script).read_exhausted hnbf hclear hwr 
          (by show s.file.content.length ≤ s.file.offset; omega) hsome
      · refine ⟨fun hdelivers => ?_, fun hend' => absurd hend' hend⟩
        obtain ⟨hbytes, hfault⟩ := hdelivers [] (fun a ha => by contradiction) 1 1 Nat.one_pos
        rcases (hb.withScript []).read_broken hnbf hclear hwr 
            (by show s.file.offset < s.file.content.length; omega) rfl with hnil | hbroken
        · rw [hnil] at hbytes
          have hlen := congrArg List.length hbytes
          rw [List.length_nil, List.length_take, List.length_drop] at hlen
          omega
        · rw [hfault] at hbroken
          contradiction
  · refine hnothing (fun script _ size count _ => ?_)
    obtain ⟨hbytes, hfault⟩ := commonFread_refused (s := s.withScript script) hgo size count
    exact ⟨hbytes, hfault.trans h.no_fault⟩

/-- **When the next bytes are those of the file.** -/
theorem deliversFrom_iff (h : Held s) (hsettled : Settled s) (hbare : Bare s → s.file.offset = s.pos) :
    DeliversFrom s ↔
      (CanRead s ∧ unread s = s.file.content.drop s.pos) ∨
        (¬ CanRead s ∧ s.file.content.length ≤ s.pos) := by
  by_cases hr : CanRead s
  · have hiff : DeliversFrom s ↔ unread s = s.file.content.drop s.pos := by
      rw [← forall_take_eq_iff]
      constructor
      · intro hdelivers size count hsome
        have hserves : Serves s [] := fun a ha => by contradiction
        rw [← (commonFread_served h hsettled hr hserves size count).1]
        exact (hdelivers [] hserves size count hsome).1
      · intro hsame script hserves size count hsome
        obtain ⟨hbytes, hfault⟩ := commonFread_served h hsettled hr hserves size count
        exact ⟨hbytes.trans (hsame size count hsome), hfault⟩
    simp only [hiff, hr, true_and, not_true_eq_false, false_and, or_false]
  · simp only [not_canRead_deliversFrom h hsettled hr hbare, hr, false_and, false_or, not_false_eq_true,
      true_and]

/-! ## The seek -/

/-- `size_t new_pos = stream->pos + offset`. -/
def newPos (s : Stream) (offset : Int) : Nat := ((s.pos + offset) % 2 ^ 64).toNat

/-- The target is in the window of a stream that is being read. -/
def Near (s : Stream) (offset : Int) (whence : Whence) : Prop :=
  whence = .cur ∧ s.prevOp = .read ∧ s.start ≤ newPos s offset ∧ newPos s offset ≤ s.end_ ∧
    s.start ≠ s.end_

theorem commonFseek_near {offset : Int} {whence : Whence} (hnear : Near s offset whence) :
    commonFseek s offset whence = (true, { s with pos := newPos s offset }) := by
  have hop : ¬ s.prevOp = .write := by
    rw [hnear.2.1]
    exact fun hop => by contradiction
  rw [commonFseek, if_neg hop]
  exact if_pos hnear

/-- What the flush ahead of a seek leaves. -/
structure Flushed (s s₁ : Stream) : Prop where
  held : Held s₁
  file : s₁.file = flushedFile s
  bufMode : s₁.bufMode = s.bufMode
  bufSize : s₁.bufSize = s.bufSize
  buffer : s₁.buffer = s.buffer
  heap : s₁.heap = s.heap
  pos : s₁.pos = s.pos
  prevOp : s₁.prevOp = s.prevOp
  error : (s₁.error = .error ∧ FlushFails s) ∨ (s₁.error = s.error ∧ ¬ FlushFails s)

theorem flush_flushed (h : Held s) :
    Flushed s (if s.prevOp = .write then (commonFflush s).2 else s) := by
  have hsame : flushedFile s = s.file → ¬ FlushFails s → Flushed s s := fun hfile hfails =>
    ⟨h, hfile.symm, rfl, rfl, rfl, rfl, rfl, rfl, Or.inr ⟨rfl, hfails⟩⟩
  by_cases hop : s.prevOp = .write
  · rw [if_pos hop]
    rcases h with hs | hb
    · by_cases heq : s.start = s.pos
      · rw [commonFflush_idle hs (fun _ => heq)]
        refine hsame ?_ (fun hf => hf.2.1 heq)
        rw [flushedFile, if_neg (fun hp => hp.2 heq)]
      · have hsound := commonFflush_sound hs
        have hfile : flushedFile s = (s.file.write (s.load 0 (s.pos - s.start))).2 := by
          rw [flushedFile, if_pos ⟨hop, heq⟩]
        rw [commonFflush_pending hs hop heq] at hsound ⊢
        by_cases hfail : s.file.answer = .fail
        · rw [if_pos hfail] at hsound ⊢
          rw [OpenFile.write, if_pos hfail] at hfile
          exact ⟨Or.inl hsound, hfile.symm, rfl, rfl, rfl, rfl, rfl, rfl,
            Or.inl ⟨rfl, hop, heq, hfail⟩⟩
        · rw [if_neg hfail] at hsound ⊢
          exact ⟨Or.inl hsound, hfile.symm, rfl, rfl, rfl, rfl, rfl, rfl,
            Or.inr ⟨rfl, fun hf => hfail hf.2.2⟩⟩
    · rw [hb.commonFflush_eq]
      refine hsame ?_ (fun hf => hf.2.1 hb.start)
      rw [flushedFile, if_neg (fun hp => hp.2 hb.start)]
  · rw [if_neg hop]
    exact hsame (flushedFile_of_ne hop) (fun hf => hop hf.1)

theorem commonFseek_far (h : Held s) {offset : Int} {whence : Whence} (hfar : ¬ Near s offset whence) :
    ∃ s₁, Flushed s s₁ ∧ commonFseek s offset whence = seekFile s₁ offset whence := by
  have hflushed := flush_flushed h
  refine ⟨_, hflushed, ?_⟩
  have hfar' : ¬ Near (if s.prevOp = .write then (commonFflush s).2 else s) offset whence := by
    split
    · next hop =>
      rintro ⟨-, hread, -⟩
      have hprev := hflushed.prevOp
      rw [if_pos hop] at hprev
      rw [hprev, hop] at hread
      contradiction
    · exact hfar
  rw [commonFseek]
  exact if_neg hfar'

/-- The error flag behind a seek that asked the kernel. -/
def StreamError.sought (e : StreamError) (offset : Int) (whence : Whence) : StreamError :=
  if whence = .set ∧ offset = 0 then .clear else e.withoutEof

theorem StreamError.sought_ne_eof (e : StreamError) (offset : Int) (whence : Whence) :
    e.sought offset whence ≠ .eof := by
  unfold sought
  split
  · exact fun h => by contradiction
  · cases e
    all_goals exact fun h => by contradiction

theorem StreamError.sought_ne_error {e : StreamError} (he : e ≠ .error) (offset : Int) (whence : Whence) :
    e.sought offset whence ≠ .error := by
  unfold sought
  split
  · exact fun h => by contradiction
  · cases e with
    | error => exact absurd rfl he
    | clear => exact fun h => by contradiction
    | eof => exact fun h => by contradiction

theorem StreamError.sought_clear_iff (e : StreamError) (offset : Int) (whence : Whence) :
    e.sought offset whence = .clear ↔ (whence = .set ∧ offset = 0) ∨ e ≠ .error := by
  unfold sought
  split
  · next h => simp [h]
  · next h =>
    cases e
    all_goals simp [h, withoutEof]

theorem seekFile_some {offset : Int} {whence : Whence} {n : Nat} {f : OpenFile}
    (h : s.file.lseek offset whence = (some n, f)) :
    seekFile s offset whence = (true, { s with
      file := f, pos := n, start := n, end_ := n, error := s.error.sought offset whence }) := by
  rw [seekFile, h]
  rfl

theorem Held.sought (h : Held s) (f : OpenFile) (e : StreamError) (n : Nat) :
    Held { s with file := f, pos := n, start := n, end_ := n, error := e } := by
  rcases h with hs | hb
  · exact Or.inl (hs.reset f e n)
  · exact Or.inr (hb.move hb.writable hb.readable)

/-- Behind a seek that asked the kernel, reading goes on where it should if it can go on at all. -/
theorem sought_deliversFrom (h : Held s) {f : OpenFile} {n : Nat} (e : StreamError)
    (hoff : f.offset = n) :
    DeliversFrom { s with file := f, pos := n, start := n, end_ := n, error := e } ↔
      (e = .clear ∧ s.bufMode.wronly = false ∧ Equipped s) ∨ f.content.length ≤ n := by
  have hheld := h.sought f e n
  have hsettled : Settled { s with file := f, pos := n, start := n, end_ := n, error := e } :=
    fun _ => rfl
  have hunread : unread { s with file := f, pos := n, start := n, end_ := n, error := e } =
      f.content.drop n := by
    rw [unread, hsettled.flushedFile_eq, windowRest]
    simp only [Nat.sub_self, Stream.load, List.take_zero, ite_self, List.nil_append, hoff]
  have hequipped : Equipped { s with file := f, pos := n, start := n, end_ := n, error := e } ↔
      Equipped s := by
    have hbacked : Backed { s with file := f, pos := n, start := n, end_ := n, error := e } ↔ Backed s :=
      ⟨fun hb => ⟨hb.length_buffer, hb.mode, hb.not_lazy⟩,
        fun hb => ⟨hb.length_buffer, hb.mode, hb.not_lazy⟩⟩
    simp only [Equipped, hbacked]
  rw [deliversFrom_iff hheld hsettled (fun _ => hoff)]
  have hcan : CanRead { s with file := f, pos := n, start := n, end_ := n, error := e } ↔
      e = .clear ∧ s.bufMode.wronly = false ∧ Equipped s := by
    rw [← hequipped]
    exact ⟨fun hr => ⟨hr.clear, hr.access, hr.equipped⟩, fun hr => ⟨hr.1, hr.2.1, hr.2.2⟩⟩
  simp only [hcan, hunread, and_true]
  by_cases hr : e = .clear ∧ s.bufMode.wronly = false ∧ Equipped s
  · simp only [hr, and_self, true_or, not_true_eq_false, false_and, or_false]
  · simp only [hr, false_or, not_false_eq_true, true_and]

theorem Flushed.equipped_iff {s₁ : Stream} (hf : Flushed s s₁) : Equipped s₁ ↔ Equipped s := by
  have hbacked : Backed s₁ ↔ Backed s := by
    constructor
    · intro hb
      refine ⟨?_, ?_, ?_⟩
      · rw [← hf.buffer, ← hf.bufSize]
        exact hb.length_buffer
      · rw [← hf.bufMode]
        exact hb.mode
      · rw [← hf.bufMode]
        exact hb.not_lazy
    · intro hb
      refine ⟨?_, ?_, ?_⟩
      · rw [hf.buffer, hf.bufSize]
        exact hb.length_buffer
      · rw [hf.bufMode]
        exact hb.mode
      · rw [hf.bufMode]
        exact hb.not_lazy
  rw [Equipped, Equipped, hbacked, hf.bufMode, hf.bufSize, hf.heap]

theorem Flushed.error_iff {s₁ : Stream} (hf : Flushed s s₁) :
    s₁.error ≠ .error ↔ s.error ≠ .error ∧ ¬ FlushFails s := by
  rcases hf.error with ⟨he, hfails⟩ | ⟨he, hfails⟩
  · simp [he, hfails]
  · simp [he, hfails]

/-- A seek that asks the kernel, and what can be read behind it. -/
theorem commonFseek_sought (h : Held s) {offset : Int} {whence : Whence} (hfar : ¬ Near s offset whence)
    {n : Nat} {f : OpenFile} (hlseek : (flushedFile s).lseek offset whence = (some n, f)) :
    ∃ s', commonFseek s offset whence = (true, s') ∧ s'.error ≠ .eof ∧ s'.pos = n ∧
      s'.file.content = (flushedFile s).content ∧
      (DeliversFrom s' ↔
        (((whence = .set ∧ offset = 0) ∨ (s.error ≠ .error ∧ ¬ FlushFails s)) ∧
          s.bufMode.wronly = false ∧ Equipped s) ∨ f.content.length ≤ n) := by
  obtain ⟨s₁, hflushed, hseek⟩ := commonFseek_far h hfar
  have hf := OpenFile.lseek_some hlseek
  rw [← hflushed.file] at hlseek
  refine ⟨_, hseek.trans (seekFile_some hlseek), s₁.error.sought_ne_eof offset whence, rfl, ?_, ?_⟩
  · rw [hf]
    rfl
  · rw [sought_deliversFrom hflushed.held _ (by rw [hf]), StreamError.sought_clear_iff, hflushed.error_iff,
      hflushed.bufMode, hflushed.equipped_iff]

/-- A seek that the kernel refuses. -/
theorem commonFseek_refused (h : Held s) {offset : Int} {whence : Whence} (hfar : ¬ Near s offset whence)
    (hlseek : ((flushedFile s).lseek offset whence).1 = none) :
    (commonFseek s offset whence).1 = false := by
  obtain ⟨s₁, hflushed, hseek⟩ := commonFseek_far h hfar
  rw [← hflushed.file] at hlseek
  rw [hseek, seekFile]
  split
  · rfl
  · next heq =>
    rw [heq] at hlseek
    contradiction

/-! ## The end-of-file flag -/

/-- A successful seek clears the end-of-file flag, and reading goes on where it leads. -/
def EndsEof (s : Stream) (offset : Int) (whence : Whence) : Prop :=
  ∀ s', commonFseek s offset whence = (true, s') → s'.error ≠ .eof ∧ DeliversFrom s'

/-- In the window, no flag is pending, and the window and the kernel go on as the file does. Elsewhere
the stream can be read then: no error is left, no flush has failed, the access mode allows it, and there
is memory. Where nothing of the file is left, only the end-of-file flag matters. -/
def EofEnded (s : Stream) (offset : Int) (whence : Whence) : Prop :=
  (Near s offset whence →
    (s.error = .clear ∧
      unread { s with pos := newPos s offset } = s.file.content.drop (newPos s offset)) ∨
    (s.error = .error ∧ s.file.content.length ≤ newPos s offset)) ∧
  (¬ Near s offset whence → ∀ n f, (flushedFile s).lseek offset whence = (some n, f) →
    (((whence = .set ∧ offset = 0) ∨ (s.error ≠ .error ∧ ¬ FlushFails s)) ∧
      s.bufMode.wronly = false ∧ Equipped s) ∨ f.content.length ≤ n)

theorem Near.sound {offset : Int} {whence : Whence} (h : Held s) (hnear : Near s offset whence) :
    Sound s ∧ Sound { s with pos := newPos s offset } := by
  obtain ⟨-, hop, hge, hle, hne⟩ := hnear
  rcases h with hs | hb
  · exact ⟨hs, hs.update rfl hge hle hs.fits (fun hn => absurd (hs.backed hne) hn)
      (fun hnothing => by rw [hop] at hnothing; contradiction) hs.writable hs.readable⟩
  · exact absurd (hb.start.trans hb.end_.symm) hne

theorem near_deliversFrom {offset : Int} {whence : Whence} (h : Held s) (hnear : Near s offset whence) :
    DeliversFrom { s with pos := newPos s offset } ↔
      (s.error = .clear ∧
        unread { s with pos := newPos s offset } = s.file.content.drop (newPos s offset)) ∨
      (s.error ≠ .clear ∧ s.file.content.length ≤ newPos s offset) := by
  obtain ⟨hs, hs'⟩ := hnear.sound h
  obtain ⟨-, hop, -, -, hne⟩ := hnear
  have hsettled : Settled { s with pos := newPos s offset } := fun hwrite => by
    have hread : s.prevOp = .write := hwrite
    rw [hop] at hread
    contradiction
  have hb := hs'.backed hne
  have hcan : CanRead { s with pos := newPos s offset } ↔ s.error = .clear :=
    ⟨fun hr => hr.clear, fun hc => ⟨hc, hs.readable hop, Or.inr ⟨hs.one_le_bufSize, Or.inl hb⟩⟩⟩
  have hbare : Bare { s with pos := newPos s offset } →
      ({ s with pos := newPos s offset } : Stream).file.offset =
        ({ s with pos := newPos s offset } : Stream).pos :=
    fun hbare => absurd (hbare.start.trans hbare.end_.symm) hne
  rw [deliversFrom_iff (Or.inl hs') hsettled hbare, hcan]

/-- **A successful seek and the end of the file.** From every stream that can be reached, a seek that
succeeds ends end-of-file, and reading goes on from there, if and only if this holds before. -/
theorem seek_ends_eof_iff (h : Reached s) (offset : Int) (whence : Whence) :
    EndsEof s offset whence ↔ EofEnded s offset whence := by
  have hheld := h.held
  by_cases hnear : Near s offset whence
  · have hends : EndsEof s offset whence ↔
        s.error ≠ .eof ∧ DeliversFrom { s with pos := newPos s offset } := by
      rw [EndsEof, commonFseek_near hnear]
      exact ⟨fun hall => hall _ rfl, fun hends s' heq => by cases heq; exact hends⟩
    rw [hends, near_deliversFrom hheld hnear, EofEnded]
    simp only [hnear, true_implies, not_true_eq_false, false_implies, and_true]
    cases s.error
    all_goals simp
  · rw [EofEnded]
    simp only [hnear, false_implies, not_false_eq_true, true_implies, true_and]
    constructor
    · intro hends n f hlseek
      obtain ⟨s', hseek, -, -, -, hdelivers⟩ := commonFseek_sought hheld hnear hlseek
      exact hdelivers.mp (hends s' hseek).2
    · intro hcond s' hsuccess
      rcases hlseek : (flushedFile s).lseek offset whence with ⟨_ | n, f⟩
      · have hrefused := commonFseek_refused hheld hnear (by rw [hlseek])
        rw [hsuccess] at hrefused
        contradiction
      · obtain ⟨s'', hseek, heof, -, -, hdelivers⟩ := commonFseek_sought hheld hnear hlseek
        rw [hseek] at hsuccess
        cases hsuccess
        exact ⟨heof, hdelivers.mpr (hcond n f hlseek)⟩

/-- One byte in a file, read with a request for two. -/
def oneByteRead : Stream :=
  (commonFread (createStream ⟨[97], 0, false, []⟩ (getBufMode .rdonly) 4 (some fun _ => 0)) 1 2).2

theorem reached_oneByteRead : Reached oneByteRead :=
  ⟨_, [.io (.fread 1 2)], [()], ⟨⟨[97], 0, false, []⟩, .rdonly, 4, some fun _ => 0, by decide, rfl⟩, rfl,
    rfl⟩

/-- Rewinding ends end-of-file. -/
theorem seek_ends_eof_rewind : EndsEof oneByteRead 0 .set := by
  apply (seek_ends_eof_iff reached_oneByteRead 0 .set).mpr
  refine ⟨fun hnear => absurd hnear.1 (by decide), fun _ n f _ => Or.inl ⟨Or.inl ⟨rfl, rfl⟩, rfl, ?_⟩⟩
  exact Or.inr ⟨by decide, Or.inl ⟨by decide, Or.inl rfl, by decide⟩⟩

/-- Stepping back by one does not. -/
theorem not_seek_ends_eof : ¬ ∀ s, Reached s → ∀ offset whence, EndsEof s offset whence := by
  intro h
  exact (h oneByteRead reached_oneByteRead (-1) .cur _ rfl).1 rfl

end WindowsLibc.Stdio
