import WindowsLibc.Stdio.Window

/-!
# `fgetc` and `fputc` against `fread` and `fwrite`

`common_fgetc` and `common_fputc` take a byte from the window, or put one there, without the checks of
the block functions. Where the window has nothing to offer they call these.

* `Reachable` streams come from `fopen` by any calls with any answers of the kernel, as long as
  nothing has gone wrong in memory.
* `FgetcSame` and `FputcSame` are the exact conditions, on the state before the call, under which a
  caller sees the same: `fast_paths_agree_iff`.

The fast paths do not look at `error`. And `common_fgetc` returns a `char`, so that the byte 0xff is
EOF, and a variable that it has not initialised if `common_fread` fails.
-/

namespace WindowsLibc.Stdio

open WindowsLibc.Lib

/-- A stream that calls on a newly opened one lead to. -/
def Reachable (s : Stream) : Prop :=
  ∃ s₀ cs os, Fopened s₀ ∧ ioMachine.run s₀ cs = some (s, os) ∧ s.fault = false

variable {s : Stream}

theorem sound_or_fault {s' : Stream} {cs : List IoCall} {os : List Unit}
    (h : Sound s ∨ s.fault = true) (hrun : ioMachine.run s cs = some (s', os)) :
    Sound s' ∨ s'.fault = true := by
  induction cs generalizing s os with
  | nil =>
    cases hrun
    exact h
  | cons c cs ih =>
    rw [Machine.run_cons (M := ioMachine) rfl] at hrun
    obtain ⟨⟨s₂, os₂⟩, hrun₂, heq⟩ := Option.map_eq_some_iff.mp hrun
    cases heq
    refine ih ?_ hrun₂
    rcases h with hsound | hfault
    · by_cases hc : CallSafe s c
      · exact Or.inl (apply_sound hsound hc)
      · exact Or.inr (apply_fault hsound hc)
    · exact Or.inr (fault_apply hfault c)

theorem Reachable.sound (h : Reachable s) : Sound s := by
  obtain ⟨s₀, cs, os, h₀, hrun, hfault⟩ := h
  rcases sound_or_fault (Or.inl h₀.sound) hrun with hsound | hfault'
  · exact hsound
  · rw [hfault] at hfault'
    contradiction

/-! ## What a caller sees -/

/-- `(char)ch`. -/
def byteOf (ch : Int) : Byte := UInt8.ofNat (ch % 256).toNat

/-- The byte that `fgetc` delivers, if any. -/
def delivered (ch : Int) : Option Byte := if ch = eof then none else some (byteOf ch)

/-- `common_fputc` with the `int` it is given and returns. -/
def commonFputcInt (ch : Int) (s : Stream) : Int × Stream :=
  match commonFputc s (byteOf ch) with
  | (some _, s) => (ch, s)
  | (none, s) => (eof, s)

/-- The same byte, or none, and the same stream, without undefined behaviour. -/
def FgetcAgrees (s : Stream) : Prop :=
  ∀ junk, delivered (commonFgetc junk s).1 = (commonFread s 1 1).1.1.head? ∧
    (commonFgetc junk s).2 = (commonFread s 1 1).2 ∧ (commonFread s 1 1).2.fault = false

/-- The same byte taken, or none, and the same stream. -/
def FputcAgrees (s : Stream) (ch : Int) : Prop :=
  ((commonFputcInt ch s).1 ≠ eof ↔ (commonFwrite s (.single (byteOf ch))).1 = 1) ∧
    (commonFputcInt ch s).2 = (commonFwrite s (.single (byteOf ch))).2

/-! ## When it is the same -/

/-- The window has something to read. -/
def FastGet (s : Stream) : Prop :=
  s.bufMode.nbf = false ∧ s.prevOp = .read ∧ s.start ≠ s.end_ ∧ s.pos ≠ s.end_

/-- The window has room for a byte. -/
def FastPut (s : Stream) : Prop :=
  s.bufMode.nbf = false ∧ s.prevOp = .write ∧ s.start ≠ s.end_ ∧ s.pos ≠ s.end_

/-- The buffer would have to be allocated and cannot be. -/
def NoMemory (s : Stream) : Prop :=
  s.bufMode.internal = true ∧ s.bufMode.allocated = false ∧ s.heap = none

/-- The file once the written bytes have gone out. -/
def flushedFile (s : Stream) : OpenFile :=
  if s.prevOp = .write ∧ s.start ≠ s.pos then (s.file.write (s.load 0 (s.pos - s.start))).2
  else s.file

/-- The read that a stream with an empty window makes succeeds, and does not deliver 0xff. -/
structure ReadSame (s : Stream) : Prop where
  error : s.error = .clear
  readable : s.bufMode.wronly = false
  flush : ¬ FlushFails s
  memory : ¬ NoMemory s
  answer : (flushedFile s).answer ≠ .fail
  byte : (flushedFile s).content[(flushedFile s).offset]? ≠ some 0xff

/-- From the window: no error or end of file is pending, and the byte is not 0xff. Otherwise: the end
of the file has been reached before, or the read is one that `fgetc` reports as it is. -/
def FgetcSame (s : Stream) : Prop :=
  (FastGet s ∧ s.error = .clear ∧ s.buffer[s.pos - s.start]? ≠ some 0xff) ∨
    (¬ FastGet s ∧ (s.error = .eof ∨ ReadSame s))

/-- A write of one byte that is refused. -/
def Refuses (s : Stream) : Prop :=
  s.error = .error ∨ s.bufMode.rdonly = true ∨ NoMemory s ∨
    (s.prevOp = .write ∧ s.start ≠ s.end_ ∧ s.pos = s.end_ ∧ s.file.answer = .fail)

/-- The fast path is not taken with an error pending, and -1 is not written. -/
def FputcSame (s : Stream) (ch : Int) : Prop :=
  (FastPut s → s.error ≠ .error) ∧ (ch = eof → Refuses s)

/-! ## Reading one byte -/

theorem delivered_intOfChar (ch : Byte) :
    delivered (intOfChar ch) = if ch = 0xff then none else some ch := by
  obtain ⟨⟨ch⟩⟩ := ch
  revert ch
  decide +kernel

/-- A read begins with the byte at the offset. -/
theorem OpenFile.head?_transfer (f : OpenFile) {n : Nat} (hn : 0 < n) :
    (f.transfer n).head? = f.content[f.offset]? := by
  rw [OpenFile.transfer]
  split
  · rw [List.head?_take, if_neg (by omega), List.head?_drop]
  · rw [List.head?_take, if_neg (by omega), List.head?_drop]

/-- The loop that fills the buffer makes one read if one byte is asked for. -/
theorem freadFill_one (s : Stream) (hB : 1 ≤ s.bufSize) :
    freadFill 1 (s.bufSize + 1) 0 s =
      ((readWrapper s s.bufSize).1.length,
        if (readWrapper s s.bufSize).1 = [] then (readWrapper s s.bufSize).2
        else (readWrapper s s.bufSize).2.store 0 (readWrapper s s.bufSize).1) := by
  obtain ⟨n, hn⟩ : ∃ n, s.bufSize = n + 1 := ⟨s.bufSize - 1, by omega⟩
  rw [freadFill, if_pos ⟨hB, Nat.one_pos⟩, Nat.sub_zero]
  split
  · next heq => rw [heq, if_pos rfl]; rfl
  · next bytes s' hne heq =>
    have hbytes : bytes ≠ [] := fun hnil => hne hnil
    have hpos := List.length_pos_iff.mpr hbytes
    rw [heq, if_neg hbytes, hn, freadFill, if_neg (by omega), Nat.zero_add]

/-- One byte from a stream whose window is used up. -/
theorem freadBuffered_one (h : Sound s) (hb : Backed s) (hend : s.pos = s.end_) :
    (s.file.answer = .fail → (freadBuffered s 1 1).1.1 = [] ∧ (freadBuffered s 1 1).2.error = .error) ∧
      (s.file.answer ≠ .fail → (freadBuffered s 1 1).1.1.head? = s.file.content[s.file.offset]? ∧
        (freadBuffered s 1 1).2.error =
          if s.file.content[s.file.offset]? = none then .eof else s.error) := by
  have hB := h.one_le_bufSize
  have hfit : ¬ 1 ≤ s.end_ - s.pos := by omega
  have hlt : ¬ s.pos < s.end_ := by omega
  have hdirect : freadDirect 1 (1 + 1) [] s = ([], true, s) := by
    rw [freadDirect, List.length_nil, if_neg (by omega)]
  have hlen := hb.length_buffer
  -- the window is opened anew where it was used up
  have hfill := freadFill_one { s with start := s.pos, end_ := s.pos } hB
  rw [readWrapper_eq] at hfill
  have hbuffered : freadBuffered s 1 1 = freadLast { s with start := s.pos, end_ := s.pos } 1 1 [] := by
    simp only [freadBuffered, Stream.checkWindow_of_le h.start_le h.pos_le, sub64_of_le h.pos_le,
      sub64_of_le h.start_le, Nat.mul_one, if_neg hfit, if_neg hlt, hdirect, if_true,
      List.length_nil, Nat.add_zero]
  rw [hbuffered, freadLast, List.length_nil, Nat.sub_zero, hfill]
  refine ⟨fun hfail => ?_, fun hfail => ?_⟩
  · simp only [if_pos hfail, List.length_nil, if_true]
    exact ⟨trivial, trivial⟩
  · have hhead := s.file.head?_transfer hB
    have hle := s.file.length_transfer_le s.bufSize
    simp only [if_neg hfail]
    cases hbytes : s.file.transfer s.bufSize with
    | nil =>
      rw [hbytes, List.head?_nil] at hhead
      simp only [List.length_nil, if_true, ← hhead, List.head?_nil]
      exact ⟨trivial, trivial⟩
    | cons b bytes =>
      rw [hbytes] at hhead hle
      rw [List.head?_cons] at hhead
      simp only [List.length_cons, ← hhead, reduceCtorEq, if_false]
      refine ⟨?_, rfl⟩
      show (([] : List Byte) ++
        ((overwrite s.buffer 0 (b :: bytes)).drop 0).take (min 1 (bytes.length + 1))).head? = some b
      rw [List.nil_append, List.drop_zero, Nat.min_eq_left (by omega),
        overwrite_of_le (Nat.zero_le _)]
      rfl

/-- A stream in read mode, from which the window has nothing to offer. -/
theorem enterRead_slow (h : Sound s) (hslow : ¬ FastGet s) (hflush : ¬ FlushFails s) :
    (enterRead s).pos = (enterRead s).end_ ∧ (enterRead s).file = flushedFile s ∧
      (enterRead s).error = s.error ∧ (enterRead s).bufMode = s.bufMode ∧
      (enterRead s).heap = s.heap := by
  have hstart := h.start_le
  have hpos := h.pos_le
  rw [enterRead, flushedFile]
  split
  · next hop =>
    by_cases heq : s.start = s.pos
    · rw [commonFflush_idle h (fun _ => heq), if_neg (fun hp => hp.2 heq)]
      exact ⟨heq.symm, rfl, rfl, rfl, rfl⟩
    · rw [commonFflush_pending h hop heq, if_neg (fun hfail => hflush ⟨hop, heq, hfail⟩),
        if_pos ⟨hop, heq⟩]
      exact ⟨rfl, rfl, rfl, rfl, rfl⟩
  · next hop =>
    rw [if_neg (fun hp => hop hp.1)]
    refine ⟨?_, rfl, rfl, rfl, rfl⟩
    show s.pos = s.end_
    cases hprev : s.prevOp with
    | write => exact absurd hprev hop
    | nothing =>
      have hidle := h.idle hprev
      omega
    | read =>
      by_contra hne
      exact hslow ⟨h.buffered, hprev, fun heq => by omega, hne⟩

/-- The allocation is granted unless there is no memory. -/
theorem allocateBuffer_granted (h : Stored s) :
    (allocateBuffer s).1 = true ↔ ¬ NoMemory s := by
  rcases h with hb | ⟨hint, hall⟩
  · rw [allocateBuffer_of_backed hb]
    exact ⟨fun _ hno => hb.not_lazy ⟨hno.1, hno.2.1⟩, fun _ => rfl⟩
  · have hlazy : (s.bufMode.internal && !s.bufMode.allocated) = true := by rw [hint, hall]; rfl
    rw [allocateBuffer, if_pos hlazy]
    split
    · next hheap => exact ⟨fun hfalse => by contradiction, fun hno => absurd ⟨hint, hall, hheap⟩ hno⟩
    · next hheap =>
      refine ⟨fun _ hno => ?_, fun _ => rfl⟩
      rw [hno.2.2] at hheap
      contradiction

/-- What `common_fread` of one byte comes to when the window has nothing to offer. -/
theorem commonFread_slow (h : Sound s) (hslow : ¬ FastGet s) (hclear : s.error = .clear)
    (hwr : s.bufMode.wronly = false) (hflush : ¬ FlushFails s) :
    (NoMemory s → (commonFread s 1 1).1.1 = [] ∧ (commonFread s 1 1).2.error = .clear) ∧
      (¬ NoMemory s → (flushedFile s).answer = .fail →
        (commonFread s 1 1).1.1 = [] ∧ (commonFread s 1 1).2.error = .error) ∧
      (¬ NoMemory s → (flushedFile s).answer ≠ .fail →
        (commonFread s 1 1).1.1.head? = (flushedFile s).content[(flushedFile s).offset]? ∧
        (commonFread s 1 1).2.error =
          if (flushedFile s).content[(flushedFile s).offset]? = none then .eof else .clear) := by
  obtain ⟨hend, hfile, herror, hmode, hheap⟩ := enterRead_slow h hslow hflush
  obtain ⟨hread, hop⟩ := enterRead_sound h hwr hflush
  have hgranted := allocateBuffer_granted hread.stored
  have hmemory : NoMemory (enterRead s) ↔ NoMemory s := by
    rw [NoMemory, NoMemory, hmode, hheap]
  obtain ⟨granted, buf, m, halloc, hsound, hbacked⟩ := allocateBuffer_sound hread
  rw [halloc, hmemory] at hgranted
  rw [commonFread, if_neg (by simp [hclear]), if_neg (by simp [hwr]), if_neg (by simp [h.buffered]),
    halloc]
  cases granted with
  | false =>
    have hno : NoMemory s := by_contra fun hno => Bool.false_ne_true (hgranted.mpr hno)
    exact ⟨fun _ => ⟨rfl, herror.trans hclear⟩, fun hn => absurd hno hn, fun hn => absurd hno hn⟩
  | true =>
    have hno := hgranted.mp rfl
    obtain ⟨hfailed, hdone⟩ := freadBuffered_one hsound (hbacked rfl) hend
    simp only [hfile, herror, hclear] at hfailed hdone ⊢
    exact ⟨fun hn => absurd hn hno, fun _ => hfailed, fun _ => hdone⟩

/-- What the slow path of `common_fgetc` makes of the bytes and the error flag. -/
theorem delivered_slow_iff (bytes : List Byte) (e : StreamError) :
    (∀ junk, delivered (if e = .eof then eof else intOfChar (bytes.headD junk)) = bytes.head?) ↔
      (e = .eof ∧ bytes.head? = none) ∨
        (e ≠ .eof ∧ bytes.head? ≠ none ∧ bytes.head? ≠ some 0xff) := by
  by_cases he : e = .eof
  · have hnone : delivered eof = none := rfl
    simp only [he, if_true, hnone, ne_eq, not_true_eq_false, false_and, or_false, true_and]
    exact ⟨fun h => (h 0).symm, fun h _ => h.symm⟩
  · simp only [he, if_false, delivered_intOfChar, ne_eq, not_false_eq_true, false_and, false_or,
      true_and]
    cases bytes with
    | nil =>
      simp only [List.headD_nil, List.head?_nil, not_true_eq_false, false_and, iff_false, not_forall]
      exact ⟨0, by decide⟩
    | cons b bytes =>
      simp only [List.headD_cons, List.head?_cons, Option.some.injEq]
      by_cases hb : b = 0xff
      · simp [hb]
      · simp [hb]

theorem commonFgetc_slow (hslow : ¬ FastGet s) (junk : Byte) :
    commonFgetc junk s =
      (if (commonFread s 1 1).2.error = .eof then eof
        else intOfChar ((commonFread s 1 1).1.1.headD junk), (commonFread s 1 1).2) := by
  rw [FastGet] at hslow
  rw [commonFgetc, if_neg hslow]

/-- The slow path agrees with `common_fread` just as it reports it. -/
theorem fgetcAgrees_slow (hslow : ¬ FastGet s) :
    FgetcAgrees s ↔ (commonFread s 1 1).2.fault = false ∧
      (((commonFread s 1 1).2.error = .eof ∧ (commonFread s 1 1).1.1.head? = none) ∨
        ((commonFread s 1 1).2.error ≠ .eof ∧ (commonFread s 1 1).1.1.head? ≠ none ∧
          (commonFread s 1 1).1.1.head? ≠ some 0xff)) := by
  rw [← delivered_slow_iff, FgetcAgrees]
  simp only [commonFgetc_slow hslow]
  exact ⟨fun h => ⟨(h 0).2.2, fun junk => (h junk).1⟩, fun h junk => ⟨h.2 junk, trivial, h.1⟩⟩

theorem fgetcAgrees_iff_slow (h : Sound s) (hslow : ¬ FastGet s) :
    FgetcAgrees s ↔ s.error = .eof ∨ ReadSame s := by
  rw [fgetcAgrees_slow hslow]
  cases herror : s.error with
  | eof =>
    have hread : commonFread s 1 1 = (([], 0), s) := by
      rw [commonFread, if_pos (Or.inl herror)]
    simp [hread, herror, h.no_fault]
  | error =>
    have hread : commonFread s 1 1 = (([], 0), s) := by
      rw [commonFread, if_pos (Or.inr herror)]
    have hno : ¬ ReadSame s := fun hsame => by
      have hclear := hsame.error
      rw [herror] at hclear
      contradiction
    simp [hread, herror, hno]
  | clear =>
    by_cases hwr : s.bufMode.wronly = true
    · have hread : commonFread s 1 1 = (([], 0), { s with error := .error }) := by
        rw [commonFread, if_neg (by simp [herror]), if_pos hwr]
      have hno : ¬ ReadSame s := fun hsame => by
        rw [hsame.readable] at hwr
        contradiction
      simp [hread, hno]
    have hwr' : s.bufMode.wronly = false := by simpa using hwr
    by_cases hflush : FlushFails s
    · have hfault := commonFread_fault h herror hwr' hflush 1 1
      have hno : ¬ ReadSame s := fun hsame => hsame.flush hflush
      simp [hfault, hno]
    obtain ⟨hdenied, hfailed, hdone⟩ := commonFread_slow h hslow herror hwr' hflush
    have hfault : (commonFread s 1 1).2.fault = false :=
      (commonFread_sound h 1 1 (fun _ _ => hflush)).no_fault
    by_cases hno : NoMemory s
    · have hsame : ¬ ReadSame s := fun hsame => hsame.memory hno
      simp [hdenied hno, hsame]
    by_cases hanswer : (flushedFile s).answer = .fail
    · have hsame : ¬ ReadSame s := fun hsame => hsame.answer hanswer
      simp [hfailed hno hanswer, hsame]
    obtain ⟨hhead, he⟩ := hdone hno hanswer
    have hsame : ReadSame s ↔
        (flushedFile s).content[(flushedFile s).offset]? ≠ some 0xff :=
      ⟨fun hsame => hsame.byte, fun hbyte => ⟨herror, hwr', hflush, hno, hanswer, hbyte⟩⟩
    rw [hhead, he, hsame, hfault]
    cases (flushedFile s).content[(flushedFile s).offset]? with
    | none => simp
    | some b => simp

/-- The fast path hands out the next byte of the window. -/
theorem commonFgetc_fast (h : Sound s) (hfast : FastGet s) :
    ∃ b, s.buffer[s.pos - s.start]? = some b ∧ s.load (s.pos - s.start) 1 = [b] ∧
      s.touch (s.pos - s.start) 1 = s ∧
      ∀ junk, commonFgetc junk s = (intOfChar b, { s with pos := s.pos + 1 }) := by
  obtain ⟨hbuf, hop, hne, hroom⟩ := hfast
  have hstart := h.start_le
  have hpos := h.pos_le
  have hin : s.pos - s.start + 1 ≤ s.buffer.length := h.touch_eq (by omega)
  have htouch := Stream.touch_of_le hin
  have hload : s.load (s.pos - s.start) 1 = [s.buffer[s.pos - s.start]] := by
    rw [Stream.load, List.drop_eq_getElem_cons (by omega)]
    rfl
  refine ⟨s.buffer[s.pos - s.start], List.getElem?_eq_getElem (by omega), hload, htouch, ?_⟩
  intro junk
  rw [commonFgetc, if_pos ⟨hbuf, hop, hne, hroom⟩]
  simp only [sub64_of_le hstart, decide_eq_true hstart, Stream.check_true, hload, htouch,
    List.headD_cons]

/-- `common_fread` of one byte does the same there, if nothing is flagged. -/
theorem commonFread_fast (h : Sound s) (hfast : FastGet s) (hclear : s.error = .clear) {b : Byte}
    (hload : s.load (s.pos - s.start) 1 = [b]) :
    commonFread s 1 1 = (([b], 1), { s with pos := s.pos + 1 }) := by
  obtain ⟨hbuf, hop, hne, hroom⟩ := hfast
  have hstart := h.start_le
  have hpos := h.pos_le
  have henter : enterRead s = s := by
    rw [enterRead, if_neg (by simp [hop]), ← hop]
  rw [commonFread, if_neg (by simp [hclear]), if_neg (by simp [h.readable hop]),
    if_neg (by simp [hbuf]), henter, allocateBuffer_of_backed (h.backed hne)]
  simp only [freadBuffered, Stream.checkWindow_of_le hstart hpos, sub64_of_le hstart,
    sub64_of_le hpos, Nat.mul_one]
  rw [if_pos (by omega), hload, Stream.touch_of_le (h.touch_eq (by omega))]

theorem fgetcAgrees_iff_fast (h : Sound s) (hfast : FastGet s) :
    FgetcAgrees s ↔ s.error = .clear ∧ s.buffer[s.pos - s.start]? ≠ some 0xff := by
  obtain ⟨b, hbyte, hload, -, hfgetc⟩ := commonFgetc_fast h hfast
  by_cases hclear : s.error = .clear
  · have hread := commonFread_fast h hfast hclear hload
    simp only [FgetcAgrees, hfgetc, hread, hclear, delivered_intOfChar, hbyte, List.head?_cons,
      h.no_fault, ne_eq, true_and, and_true, Option.some.injEq, forall_const]
    by_cases hb : b = 0xff
    · simp [hb]
    · simp [hb]
  · -- with an error or the end of the file pending, only the fast path goes on
    have hread : commonFread s 1 1 = (([], 0), s) := by
      rw [commonFread, if_pos]
      cases he : s.error with
      | clear => exact absurd he hclear
      | eof => exact Or.inl rfl
      | error => exact Or.inr rfl
    refine ⟨fun hagrees => ?_, fun hsame => absurd hsame.1 hclear⟩
    have hstream := (hagrees 0).2.1
    rw [hfgetc, hread] at hstream
    have hmoved := congrArg Stream.pos hstream
    exact absurd hmoved (Nat.succ_ne_self _)

theorem fgetcAgrees_iff (h : Sound s) : FgetcAgrees s ↔ FgetcSame s := by
  by_cases hfast : FastGet s
  · rw [fgetcAgrees_iff_fast h hfast, FgetcSame]
    simp only [hfast, true_and, not_true_eq_false, false_and, or_false]
  · rw [fgetcAgrees_iff_slow h hfast, FgetcSame]
    simp only [hfast, false_and, false_or, not_false_eq_true, true_and]

/-! ## Writing one byte -/

/-- Entering write mode leaves an empty window, and the storage as it is. -/
theorem enterWrite_storage (hop : s.prevOp ≠ .write) :
    (enterWrite s).start = (enterWrite s).end_ ∧ (enterWrite s).bufMode = s.bufMode ∧
      (enterWrite s).heap = s.heap ∧ (enterWrite s).bufSize = s.bufSize ∧
      (enterWrite s).buffer = s.buffer := by
  rw [enterWrite, if_pos hop]
  refine ⟨rfl, ?_⟩
  dsimp only
  split
  · split
    · exact ⟨rfl, rfl, rfl, rfl⟩
    · exact ⟨rfl, rfl, rfl, rfl⟩
  · split
    · exact ⟨rfl, rfl, rfl, rfl⟩
    · exact ⟨rfl, rfl, rfl, rfl⟩

/-- A new window takes a byte. -/
theorem fwriteBuffered_empty (hb : Backed s) (hB : 1 ≤ s.bufSize) (heq : s.start = s.end_)
    (ch : Byte) : (fwriteBuffered s (.single ch)).1 = 1 := by
  have hopen : openWindow s = { s with start := s.pos, end_ := s.pos + s.bufSize } := by
    rw [openWindow, if_pos ⟨heq, hb.mode⟩]
  have hroom : (Block.single ch).data.length ≤
      sub64 (openWindow s).checkWindow.end_ (openWindow s).checkWindow.pos := by
    rw [hopen]
    show 1 ≤ sub64 (s.pos + s.bufSize) s.pos
    rw [sub64_of_le (Nat.le_add_right _ _), Nat.add_sub_cancel_left]
    exact hB
  rw [fwriteBuffered, if_pos hroom]
  rfl

/-- A window that is being written takes a byte if it has room, or else if it can be written out. -/
theorem fwriteBuffered_single (h : Sound s) (hb : Backed s) (hne : s.start ≠ s.end_) (ch : Byte) :
    (fwriteBuffered s (.single ch)).1 = 1 ↔ ¬ (s.pos = s.end_ ∧ s.file.answer = .fail) := by
  have hstart := h.start_le
  have hpos := h.pos_le
  have hfits := h.fits
  have hlen := hb.length_buffer
  have hB := h.one_le_bufSize
  have hopen : openWindow s = s := by rw [openWindow, if_neg (fun hempty => hne hempty.1)]
  have hone : (Block.single ch).data.length = 1 := rfl
  simp only [fwriteBuffered, hopen, Stream.checkWindow_of_le hstart hpos, sub64_of_le hpos, hone]
  by_cases hfull : s.pos = s.end_
  · have hroom : s.end_ - s.pos ≠ s.bufSize := by omega
    rw [if_neg (by omega)]
    simp only [fwriteOverflow, fwriteTopUp, sub64_of_le hpos, sub64_of_le hstart, if_pos hroom]
    rw [show s.end_ - s.pos = 0 by omega, List.take_zero, Stream.store_of_le (by simp; omega),
      Stream.touch_of_le (by rw [length_overwrite]; simp; omega), OpenFile.write_eq]
    by_cases hfail : s.file.answer = .fail
    · simp [hfail, hfull]
    · have hdirect : ∀ (fuel : Nat) (s' : Stream), 1 ≤ s'.bufSize →
          fwriteDirect (Block.single ch).data (fuel + 1) 0 s' = (0, true, s') := by
        intro fuel s' hB'
        rw [fwriteDirect, hone, if_neg (by omega)]
      simp only [hfail, if_false, hfull, true_and, not_false_eq_true, iff_true]
      rw [hdirect _ _ (by exact hB), if_pos rfl]
      show (0 + ([ch].drop 0).length) / 1 = 1
      rw [List.drop_zero, List.length_singleton]
  · rw [if_pos (by omega)]
    simp [hfull, Block.single]

/-- The buffered branch of `common_fwrite`. -/
theorem commonFwrite_buffered (h : Sound s) (herror : s.error ≠ .error)
    (hrd : s.bufMode.rdonly ≠ true) (b : Block) :
    commonFwrite s b =
      if (allocateBuffer (enterWrite s)).1 = true then
        fwriteBuffered (allocateBuffer (enterWrite s)).2 b
      else (0, (allocateBuffer (enterWrite s)).2) := by
  rw [commonFwrite, if_neg herror, if_neg hrd, if_neg (by simp [h.buffered])]
  split
  · next heq => rw [heq, if_neg Bool.false_ne_true]
  · next heq => rw [heq, if_pos rfl]

/-- An empty window takes a byte if there is memory for it. -/
theorem writeSingle_empty (hst : Stored s) (hB : 1 ≤ s.bufSize) (heq : s.start = s.end_) (ch : Byte) :
    (if (allocateBuffer s).1 = true then fwriteBuffered (allocateBuffer s).2 (.single ch)
      else (0, (allocateBuffer s).2)).1 = 1 ↔ ¬ NoMemory s := by
  have hgranted := allocateBuffer_granted hst
  by_cases hno : NoMemory s
  · rw [if_neg (fun hg => hgranted.mp hg hno)]
    exact ⟨fun hzero => by contradiction, fun hn => absurd hno hn⟩
  · rw [if_pos (hgranted.mpr hno)]
    refine ⟨fun _ => hno, fun _ => ?_⟩
    rcases hst with hb | ⟨hint, hall⟩
    · rw [allocateBuffer_of_backed hb]
      exact fwriteBuffered_empty hb hB heq ch
    · cases hheap : s.heap with
      | none => exact absurd ⟨hint, hall, hheap⟩ hno
      | some g =>
        obtain ⟨buf, alloc, halloc, hbacked⟩ :=
          allocateBuffer_spec (by rw [hheap]; rfl) (Or.inr ⟨hint, hall⟩)
        rw [halloc]
        exact fwriteBuffered_empty hbacked hB heq ch

/-- Whether a write of one byte is taken. -/
theorem commonFwrite_single (h : Sound s) (ch : Byte) :
    (commonFwrite s (.single ch)).1 = 1 ↔ ¬ Refuses s := by
  by_cases herror : s.error = .error
  · rw [commonFwrite, if_pos herror]
    exact ⟨fun hzero => by contradiction, fun hno => absurd (Or.inl herror) hno⟩
  by_cases hrd : s.bufMode.rdonly = true
  · rw [commonFwrite, if_neg herror, if_pos hrd]
    exact ⟨fun hzero => by contradiction, fun hno => absurd (Or.inr (Or.inl hrd)) hno⟩
  rw [commonFwrite_buffered h herror hrd]
  have hrefuses : Refuses s ↔ NoMemory s ∨
      (s.prevOp = .write ∧ s.start ≠ s.end_ ∧ s.pos = s.end_ ∧ s.file.answer = .fail) := by
    simp only [Refuses, herror, hrd, Bool.false_eq_true, false_or]
  rw [hrefuses]
  by_cases hop : s.prevOp = .write
  · have henter : enterWrite s = s := by simp [enterWrite, hop]
    rw [henter]
    by_cases heq : s.start = s.end_
    · rw [writeSingle_empty h.stored h.one_le_bufSize heq]
      simp only [heq, ne_eq, not_true_eq_false, false_and, and_false, or_false]
    · have hb := h.backed heq
      have hno : ¬ NoMemory s := fun hno => hb.not_lazy ⟨hno.1, hno.2.1⟩
      rw [allocateBuffer_of_backed hb, if_pos rfl]
      simp only [hno, hop, heq, ne_eq, not_false_eq_true, true_and, false_or]
      exact fwriteBuffered_single h hb heq ch
  · obtain ⟨hempty, hmode, hheap, hsize, hbuffer⟩ := enterWrite_storage hop
    have hst : Stored (enterWrite s) := by
      rcases h.stored with hb | hlazy
      · exact Or.inl ⟨by rw [hbuffer, hsize]; exact hb.length_buffer, by rw [hmode]; exact hb.mode,
          by rw [hmode]; exact hb.not_lazy⟩
      · exact Or.inr (by rw [hmode]; exact hlazy)
    rw [writeSingle_empty hst (hsize ▸ h.one_le_bufSize) hempty, NoMemory, NoMemory, hmode, hheap]
    simp only [hop, false_and, or_false]

/-- The fast path stores the byte as a write does that no error stands in the way of. -/
theorem commonFputc_eq_fwrite (h : Sound s) (hfast : FastPut s) (herror : s.error ≠ .error)
    (ch : Byte) : (commonFputc s ch).2 = (commonFwrite s (.single ch)).2 := by
  have hpos := h.pos_le
  obtain ⟨-, hop, hne, hroom⟩ := hfast
  have hb := h.backed hne
  have henter : enterWrite s = s := by simp [enterWrite, hop]
  have hwrite := fwriteBuffered_fit (b := .single ch) hb h.toWindow (e := s.end_)
    (by rw [if_neg hne]) (by show s.pos + 1 ≤ s.end_; omega)
  rw [commonFputc_fast hb h.toWindow ch ⟨h.buffered, hop, hne, hroom⟩,
    commonFwrite_buffered h herror (by rw [h.writable hop]; exact Bool.false_ne_true), henter,
    allocateBuffer_of_backed hb, if_pos rfl, hwrite]
  rfl

theorem fputcAgrees_iff (h : Sound s) (ch : Int) : FputcAgrees s ch ↔ FputcSame s ch := by
  have hsingle := commonFwrite_single h (byteOf ch)
  by_cases hfast : FastPut s
  · have hfputc : commonFputcInt ch s = (ch, (commonFputc s (byteOf ch)).2) := by
      rw [commonFputcInt, commonFputc_fast (h.backed hfast.2.2.1) h.toWindow _ hfast]
    by_cases herror : s.error = .error
    · -- the write is refused, and the fast path stores the byte all the same
      refine ⟨fun hagrees => ?_, fun hsame => absurd herror (hsame.1 hfast)⟩
      have hstream := hagrees.2
      rw [hfputc, commonFputc_fast (h.backed hfast.2.2.1) h.toWindow _ hfast, commonFwrite,
        if_pos herror] at hstream
      exact absurd (congrArg Stream.pos hstream) (Nat.succ_ne_self _)
    · have hno : ¬ Refuses s := by
        have hpos := h.pos_le
        have hb := h.backed hfast.2.2.1
        rintro (he | hrd | hno | ⟨-, -, hfull, -⟩)
        · exact herror he
        · rw [h.writable hfast.2.1] at hrd
          contradiction
        · exact hb.not_lazy ⟨hno.1, hno.2.1⟩
        · exact hfast.2.2.2 hfull
      rw [FputcAgrees, FputcSame, hsingle, hfputc, commonFputc_eq_fwrite h hfast herror]
      simp only [hno, herror, ne_eq, not_false_eq_true, iff_true, and_true, implies_true, true_and]
  · have hfputc : commonFputcInt ch s =
        (if (commonFwrite s (.single (byteOf ch))).1 = 1 then ch else eof,
          (commonFwrite s (.single (byteOf ch))).2) := by
      rw [commonFputcInt, commonFputc_slow hfast]
      by_cases hone : (commonFwrite s (.single (byteOf ch))).1 = 1
      · rw [if_pos hone, if_pos hone]
      · rw [if_neg hone, if_neg hone]
    rw [FputcAgrees, FputcSame, hfputc]
    by_cases hno : Refuses s
    · have hrefused : ¬ (commonFwrite s (.single (byteOf ch))).1 = 1 :=
        fun hone => hsingle.mp hone hno
      simp [hno, hfast, hrefused]
    · have hone := hsingle.mpr hno
      simp [hno, hfast, hone]

/-- **The fast paths.** In every stream that can be reached, `fgetc` does what `fread` of one byte
does, and `fputc` what `fwrite` of it does, if and only if these conditions hold. -/
theorem fast_paths_agree_iff (s : Stream) (h : Reachable s) :
    (FgetcAgrees s ↔ FgetcSame s) ∧ ∀ ch, FputcAgrees s ch ↔ FputcSame s ch :=
  ⟨fgetcAgrees_iff h.sound, fputcAgrees_iff h.sound⟩

/-- One byte, 0xff, in a file that is open for reading. -/
def loneByte : Stream := createStream ⟨[0xff], 0, false, []⟩ (getBufMode .rdonly) 4 (some fun _ => 0)

theorem reachable_loneByte : Reachable loneByte :=
  ⟨loneByte, [], [], ⟨_, .rdonly, 4, _, by decide, rfl⟩, rfl, rfl⟩

/-- Reading it with `fgetc` looks like the end of the file. -/
theorem fgetc_lone_byte :
    ¬ ∀ s, Reachable s → FgetcAgrees s ∧ ∀ ch, FputcAgrees s ch := by
  intro h
  have hagrees := ((h loneByte reachable_loneByte).1 0).1
  revert hagrees
  decide

/-- A stream with `a` in its window. -/
def oneLeft : Stream := (commonFread (createStream ⟨[98, 97], 0, false, []⟩ (getBufMode .rdonly) 4
  (some fun _ => 0)) 1 1).2

/-- In the middle of a file the fast path is right. -/
theorem fast_paths_agree_one_left :
    FgetcAgrees oneLeft ∧ FputcAgrees oneLeft 99 := by
  have hreachable : Reachable oneLeft :=
    ⟨_, [.fread 1 1], [()], ⟨⟨[98, 97], 0, false, []⟩, .rdonly, 4, some fun _ => 0, by decide, rfl⟩,
      rfl, rfl⟩
  obtain ⟨hget, hput⟩ := fast_paths_agree_iff oneLeft hreachable
  refine ⟨hget.mpr (Or.inl ⟨⟨by decide, by decide, by decide, by decide⟩, by decide, by decide⟩), (hput 99).mpr ⟨?_, ?_⟩⟩
  · intro hfast
    exact absurd hfast.2.1 (by decide)
  · intro heof
    exact absurd heof (by decide)

end WindowsLibc.Stdio
