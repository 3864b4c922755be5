import WindowsLibc.Stdio.Setvbuf
import WindowsLibc.Stdio.FastPath

/-!
# Streams with any buffer

The streams that `fopen`, `setvbuf` and the calls on a stream lead to, whatever the kernel and the heap
answer.

* A stream is `Sound`, or it is `Bare`: unbuffered, or buffered without memory for it. The caller's buffer
  may have size 0, and a `setvbuf` that is refused memory leaves NULL behind. A bare stream has an empty
  window.
* `Held` is one or the other. Every call keeps it, or ends in a fault (`apply_held`).
-/

namespace WindowsLibc.Stdio

open WindowsLibc.Lib

/-! ## The calls -/

/-- A transfer of nothing, from which `wlibc_fread` and `wlibc_fwrite` return at once. -/
def IoCall.Idle : IoCall → Prop
  | .fread size count => size * count = 0
  | .fwrite b => b.data = []
  | _ => False

instance (c : IoCall) : Decidable c.Idle := by
  cases c
  all_goals unfold IoCall.Idle; infer_instance

inductive StreamCall where
  | io (c : IoCall)
  | setvbuf (c : SetvbufCall)

/-- The stream after a call. -/
def StreamCall.apply (s : Stream) : StreamCall → Stream
  | .io c => if c.Idle then s else c.apply s
  | .setvbuf c => (c.apply s).2

def streamCalls : Machine Stream StreamCall Unit where
  step s c := some (c.apply s, ())

/-- A stream that calls on a newly opened one lead to, as long as nothing has gone wrong in memory. -/
def Reached (s : Stream) : Prop :=
  ∃ s₀ cs os, Fopened s₀ ∧ streamCalls.run s₀ cs = some (s, os) ∧ s.fault = false

/-! ## The invariant -/

/-- A stream without a buffer: its window is empty, at the stream position. -/
structure Bare (s : Stream) : Prop where
  no_fault : s.fault = false
  start : s.start = s.pos
  end_ : s.end_ = s.pos
  unusable : s.bufMode.nbf = true ∨
    (¬ (s.bufMode.internal = true ∧ s.bufMode.allocated = false) ∧ (s.bufSize = 0 ∨ s.buffer = []))
  writable : s.prevOp = .write → s.bufMode.rdonly = false
  readable : s.prevOp = .read → s.bufMode.wronly = false

def Held (s : Stream) : Prop := Sound s ∨ Bare s

variable {s : Stream}

theorem Held.no_fault (h : Held s) : s.fault = false := by
  rcases h with hs | hb
  · exact hs.no_fault
  · exact hb.no_fault

theorem Bare.move (h : Bare s) {f : OpenFile} {e : StreamError} {here : Nat} {o : PrevOp}
    (hwritable : o = .write → s.bufMode.rdonly = false)
    (hreadable : o = .read → s.bufMode.wronly = false) :
    Bare { s with file := f, error := e, start := here, end_ := here, pos := here, prevOp := o } :=
  ⟨h.no_fault, rfl, rfl, h.unusable, hwritable, hreadable⟩

/-- Only the file, the error flag and the last operation change. -/
theorem Bare.answered (h : Bare s) {f : OpenFile} {e : StreamError} {o : PrevOp}
    (hwritable : o = .write → s.bufMode.rdonly = false)
    (hreadable : o = .read → s.bufMode.wronly = false) :
    Bare { s with file := f, error := e, prevOp := o } :=
  ⟨h.no_fault, h.start, h.end_, h.unusable, hwritable, hreadable⟩

/-! ## Reading and writing without a buffer -/

theorem Bare.commonFflush_eq (h : Bare s) : commonFflush s = (true, s) := by
  simp [commonFflush, h.start]

theorem Bare.enterRead_eq (h : Bare s) : enterRead s = { s with prevOp := .read } := by
  rw [enterRead, h.commonFflush_eq]
  split
  · cases s
    cases h.start
    cases h.end_
    rfl
  · rfl

theorem Bare.not_lazy (h : Bare s) (hnbf : s.bufMode.nbf = false) : allocateBuffer s = (true, s) := by
  have hn : ¬ (s.bufMode.internal && !s.bufMode.allocated) = true := by
    rcases h.unusable with hnbf' | ⟨hlazy, -⟩
    · rw [hnbf] at hnbf'
      contradiction
    · simpa using hlazy
  rw [allocateBuffer, if_neg hn]

/-- An access outside the buffer. -/
theorem fault_touch {off n : Nat} (hout : s.buffer.length < off + n) : (s.touch off n).fault = true := by
  rw [Stream.touch, Stream.check, decide_eq_false (Nat.not_le_of_lt hout), Bool.not_false, Bool.or_true]

/-- The last block finds no room in NULL. -/
theorem freadFill_null (need fuel : Nat) (hnull : s.buffer = []) :
    (∃ f e, freadFill need fuel 0 s = (0, { s with file := f, error := e })) ∨
      (freadFill need fuel 0 s).2.fault = true := by
  cases fuel with
  | zero =>
    right
    rw [freadFill, Stream.check, Bool.not_false, Bool.or_true]
  | succ fuel =>
    rw [freadFill]
    obtain ⟨bytes, f, e, hread, -, -⟩ := readWrapper_answer s (s.bufSize - 0)
    split
    · rw [hread]
      cases bytes with
      | nil => exact Or.inl ⟨f, e, rfl⟩
      | cons b bytes =>
        right
        refine fault_freadFill _ _ _ (fault_touch ?_)
        show s.buffer.length < 0 + (bytes.length + 1)
        rw [hnull, List.length_nil]
        omega
    · exact Or.inl ⟨s.file, s.error, rfl⟩

/-- With an empty window, the buffered branch is the direct loop and the last block. -/
theorem Bare.freadBuffered_eq (h : Bare s) {size count : Nat} (hsome : 0 < size * count) :
    freadBuffered s size count =
      match freadDirect (size * count) (size * count + 1) [] s with
      | (got, more, s) =>
        let here := s.pos + got.length
        let s := { s with pos := here, start := here, end_ := here }
        if more then freadLast s size (size * count) got else ((got, got.length / size), s) := by
  have hstart := h.start
  have hend := h.end_
  have hfit : ¬ size * count ≤ s.end_ - s.pos := by omega
  have hempty : ¬ s.pos < s.end_ := by omega
  simp only [freadBuffered, Stream.checkWindow_of_le (Nat.le_of_eq hstart) (Nat.le_of_eq hend.symm),
    sub64_of_le (Nat.le_of_eq hstart), sub64_of_le (Nat.le_of_eq hend.symm), if_neg hfit, if_neg hempty]

/-- A read of no bytes looks like the end of the file. -/
theorem freadDirect_zero (hB : s.bufSize = 0) {dataSize : Nat} (hsome : 0 < dataSize) (fuel : Nat) :
    ∃ f e, freadDirect dataSize (fuel + 1) [] s = ([], false, { s with file := f, error := e }) := by
  have hloop : ([] : List Byte).length + s.bufSize < dataSize := by
    rw [hB]
    exact hsome
  obtain ⟨bytes, f, e, hread, hlen, -⟩ := readWrapper_answer s s.bufSize
  have hnil : bytes = [] := List.eq_nil_of_length_eq_zero (by omega)
  rw [freadDirect, if_pos hloop, hread, hnil]
  exact ⟨f, e, rfl⟩

/-- Reading something into a buffer that is not there. -/
theorem Bare.freadBuffered_kept (h : Bare s) {size count : Nat} (hsome : 0 < size * count)
    (hnone : s.bufSize = 0 ∨ s.buffer = []) :
    Bare (freadBuffered s size count).2 ∨ (freadBuffered s size count).2.fault = true := by
  rw [h.freadBuffered_eq hsome]
  by_cases hB : s.bufSize = 0
  · obtain ⟨f, e, hdirect⟩ := freadDirect_zero hB hsome (size * count)
    rw [hdirect]
    exact Or.inl (h.move h.writable h.readable)
  · have hnull := hnone.resolve_left hB
    obtain ⟨got, more, f, e, hdirect, -⟩ := freadDirect_ends (size * count) (size * count + 1) [] s
      (Nat.pos_of_ne_zero hB) (Nat.zero_le _) (by rw [List.length_nil]; omega)
    rw [hdirect]
    dsimp only
    split
    · have hbare : Bare { s with
          file := f, error := e, pos := s.pos + got.length, start := s.pos + got.length
          end_ := s.pos + got.length } := h.move h.writable h.readable
      rw [freadLast]
      rcases freadFill_null (s := { s with
          file := f, error := e, pos := s.pos + got.length, start := s.pos + got.length
          end_ := s.pos + got.length }) (size * count - got.length) (s.bufSize + 1) hnull with
        ⟨f', e', hfill⟩ | hfault
      · rw [hfill]
        exact Or.inl (hbare.move hbare.writable hbare.readable)
      · right
        split
        · next heq =>
          rw [heq] at hfault
          exact hfault
        · next heq =>
          rw [heq] at hfault
          exact fault_check hfault _
    · exact Or.inl (h.move h.writable h.readable)

theorem Bare.fread_kept (h : Bare s) {size count : Nat} (hsome : 0 < size * count) :
    Bare (commonFread s size count).2 ∨ (commonFread s size count).2.fault = true := by
  rw [commonFread]
  split
  · exact Or.inl h
  split
  · exact Or.inl (h.answered h.writable h.readable)
  next hwr =>
  rw [Bool.not_eq_true] at hwr
  split
  · obtain ⟨bytes, f, e, hread, -, -⟩ := readWrapper_answer s (size * count)
    rw [freadUnbuffered, hread]
    split
    · next heq =>
      cases heq
      exact Or.inl (h.answered (fun hop => by contradiction) (fun _ => hwr))
    · next heq =>
      cases heq
      exact Or.inl (h.move (fun hop => by contradiction) (fun _ => hwr))
  next hnbf =>
  rw [Bool.not_eq_true] at hnbf
  have hread : Bare { s with prevOp := .read } := h.answered (fun hop => by contradiction) (fun _ => hwr)
  obtain ⟨-, hnone⟩ := h.unusable.resolve_left (by rw [hnbf]; exact Bool.false_ne_true)
  rw [h.enterRead_eq, hread.not_lazy hnbf]
  exact hread.freadBuffered_kept hsome hnone

theorem OpenFile.write_succeeds {f : OpenFile} (hs : f.Succeeds) (bytes : List Byte) :
    (f.write bytes).2.Succeeds := by
  rw [OpenFile.write, if_neg hs.answer_ne]
  exact hs.answered

/-- The direct loop never gets further without a buffer size, and else stops within the last buffer, or
because the kernel fails. -/
theorem fwriteDirect_stops (data : List Byte) :
    ∀ (fuel written : Nat) (s : Stream), written < data.length →
      (fwriteDirect data fuel written s).2.2.fault = true ∨
        ∃ written' more f, fwriteDirect data fuel written s = (written', more, { s with file := f }) ∧
          written' < data.length ∧ (more = true → 1 ≤ s.bufSize) ∧
          (more = false → ¬ s.file.Succeeds) := by
  intro fuel
  induction fuel with
  | zero =>
    intro written s _
    left
    rw [fwriteDirect, Stream.check, Bool.not_false, Bool.or_true]
  | succ fuel ih =>
    intro written s hwritten
    rw [fwriteDirect]
    by_cases hloop : written + s.bufSize < data.length
    · rw [if_pos hloop, OpenFile.write_eq]
      by_cases hfail : s.file.answer = .fail
      · rw [if_pos hfail]
        exact Or.inr ⟨written, false, _, rfl, hwritten, fun hmore => by contradiction,
          fun _ hs => hs.answer_ne hfail⟩
      · have hlen : ((data.drop written).take s.bufSize).length = s.bufSize := by
          rw [List.length_take, List.length_drop]
          omega
        rw [if_neg hfail]
        rcases ih (written + ((data.drop written).take s.bufSize).length) { s with
            file := (s.file.write ((data.drop written).take s.bufSize)).2 } (by rw [hlen]; exact hloop) with
          hfault | ⟨written', more, f, heq, hlt, hmore, hstop⟩
        · rw [OpenFile.write_eq, if_neg hfail] at hfault
          exact Or.inl hfault
        · rw [OpenFile.write_eq, if_neg hfail] at heq hstop
          exact Or.inr ⟨written', more, f, heq, hlt, hmore,
            fun hm hs => hstop hm (OpenFile.write_succeeds hs _)⟩
    · rw [if_neg hloop]
      exact Or.inr ⟨written, true, s.file, rfl, hwritten, fun _ => by omega, fun hm => by contradiction⟩

/-- Writing something through a buffer that is not there goes wrong, unless the kernel fails before. -/
theorem Bare.fwriteBuffered_kept (h : Bare s) {b : Block} (hsome : b.data ≠ [])
    (hnone : s.bufSize = 0 ∨ s.buffer = []) :
    (Bare (fwriteBuffered s b).2 ∧ ¬ s.file.Succeeds) ∨ (fwriteBuffered s b).2.fault = true := by
  have hpos : 0 < b.data.length := List.length_pos_iff.mpr hsome
  -- the window may be opened, over a buffer that is not there
  obtain ⟨e, hopen, hwide⟩ : ∃ e, openWindow s = { s with start := s.pos, end_ := s.pos + e } ∧
      (e = 0 ∨ e = s.bufSize) := by
    rw [openWindow]
    split
    · exact ⟨s.bufSize, rfl, Or.inr rfl⟩
    · refine ⟨0, ?_, Or.inl rfl⟩
      cases s
      cases h.start
      cases h.end_
      rfl
  have hcheck : (openWindow s).checkWindow = openWindow s := by
    rw [hopen]
    exact Stream.checkWindow_of_le (Nat.le_refl _) (Nat.le_add_right _ _)
  have hstored : ∀ (off : Nat) (bytes : List Byte) (s' : Stream), s'.buffer = [] → bytes ≠ [] →
      (s'.store off bytes).fault = true := by
    intro off bytes s' hnull hbytes
    have hlen := List.length_pos_iff.mpr hbytes
    exact fault_touch (by rw [hnull, List.length_nil]; omega)
  have hroom : sub64 (s.pos + e) s.pos = e := by
    rw [sub64_of_le (Nat.le_add_right _ _), Nat.add_sub_cancel_left]
  rw [fwriteBuffered, hcheck, hopen]
  dsimp only
  rw [hroom]
  split
  · next hfit =>
    right
    exact hstored _ _ _ (hnone.resolve_left (by omega)) hsome
  · next hover =>
    have htop : (fwriteTopUp { s with start := s.pos, end_ := s.pos + e } b.data).2.fault = true ∨
        fwriteTopUp { s with start := s.pos, end_ := s.pos + e } b.data =
          (some 0, { s with start := s.pos, end_ := s.pos + e }) := by
      simp only [fwriteTopUp, hroom]
      split
      · next hne =>
        left
        have he : e = 0 := by omega
        have hnull := hnone.resolve_left (by omega)
        have htouch : ((({ s with start := s.pos, end_ := s.pos + e } : Stream).store
            (sub64 s.pos s.pos) (b.data.take e)).touch 0 s.bufSize).fault = true := by
          refine fault_touch ?_
          show (overwrite s.buffer (sub64 s.pos s.pos) (b.data.take e)).length < 0 + s.bufSize
          rw [he, List.take_zero, hnull, sub64_of_le (Nat.le_refl _), Nat.sub_self,
            overwrite_nil (Nat.zero_le _), List.length_nil]
          omega
        split
        · exact htouch
        · exact htouch
      · exact Or.inr rfl
    rcases htop with hfault | htop
    · exact Or.inr (fault_fwriteOverflow_of hfault)
    rw [fwriteOverflow, htop]
    dsimp only
    rcases fwriteDirect_stops b.data (b.data.length + s.file.script.length + 1) 0
        { s with start := s.pos, end_ := s.pos + e } hpos with
      hfault | ⟨written, more, f, hdirect, hlt, hmore, hstop⟩
    · right
      split
      · exact fault_check hfault _
      · exact hfault
    · rw [hdirect]
      dsimp only
      split
      · next hm =>
        right
        have hB := hmore hm
        refine hstored _ _ _ (hnone.resolve_left (Nat.ne_of_gt hB)) (fun hnil => ?_)
        have hlen := congrArg List.length hnil
        rw [List.length_drop, List.length_nil] at hlen
        omega
      · next hm =>
        exact Or.inl ⟨h.move h.writable h.readable, hstop (by simpa using hm)⟩

/-- Entering write mode, without a buffer. -/
theorem Bare.enterWrite_kept (h : Bare s) (hrd : s.bufMode.rdonly = false) :
    ((enterWrite s).fault = true ∨ Bare (enterWrite s)) ∧ (enterWrite s).bufMode = s.bufMode ∧
      (enterWrite s).bufSize = s.bufSize ∧ (enterWrite s).buffer = s.buffer := by
  by_cases hop : s.prevOp = .write
  · have heq : enterWrite s = s := by simp [enterWrite, hop]
    rw [heq]
    exact ⟨Or.inr h, rfl, rfl, rfl⟩
  · obtain ⟨-, hmode, -, hsize, hbuffer⟩ := enterWrite_storage hop
    refine ⟨?_, hmode, hsize, hbuffer⟩
    rw [enterWrite, if_pos hop]
    dsimp only
    split
    · split
      · left
        rw [Stream.check, Bool.not_false, Bool.or_true]
      · exact Or.inr (h.move (fun _ => hrd) (fun hop => by contradiction))
    · split
      · exact Or.inr (h.move (fun _ => hrd) (fun hop => by contradiction))
      · exact Or.inr (h.move (fun _ => hrd) (fun hop => by contradiction))

/-- Writing something through a buffer that is not there. -/
theorem Bare.fwrite_buffered (h : Bare s) (herror : s.error ≠ .error) (hrd : s.bufMode.rdonly = false)
    (hnbf : s.bufMode.nbf = false) {b : Block} (hsome : b.data ≠ []) :
    (Bare (commonFwrite s b).2 ∧ ¬ (enterWrite s).file.Succeeds) ∨ (commonFwrite s b).2.fault = true := by
  rw [commonFwrite, if_neg herror, if_neg (by rw [hrd]; exact Bool.false_ne_true),
    if_neg (by rw [hnbf]; exact Bool.false_ne_true)]
  obtain ⟨-, hnone⟩ := h.unusable.resolve_left (by rw [hnbf]; exact Bool.false_ne_true)
  obtain ⟨hentered, hmode, hsize, hbuffer⟩ := h.enterWrite_kept hrd
  rcases hentered with hfault | hbare
  · right
    have halloc := fault_allocateBuffer hfault
    split
    · next heq =>
      rw [heq] at halloc
      exact halloc
    · next heq =>
      rw [heq] at halloc
      exact fault_fwriteBuffered halloc b
  · rw [hbare.not_lazy (by rw [hmode]; exact hnbf)]
    exact hbare.fwriteBuffered_kept hsome (by rw [hsize, hbuffer]; exact hnone)

theorem Bare.fwrite_kept (h : Bare s) {b : Block} (hsome : b.data ≠ []) :
    Bare (commonFwrite s b).2 ∨ (commonFwrite s b).2.fault = true := by
  by_cases herror : s.error = .error
  · rw [commonFwrite, if_pos herror]
    exact Or.inl h
  by_cases hrd : s.bufMode.rdonly = true
  · rw [commonFwrite, if_neg herror, if_pos hrd]
    exact Or.inl (h.answered h.writable h.readable)
  rw [Bool.not_eq_true] at hrd
  by_cases hnbf : s.bufMode.nbf = true
  · rw [commonFwrite, if_neg herror, if_neg (by rw [hrd]; exact Bool.false_ne_true), if_pos hnbf,
      fwriteUnbuffered]
    split
    · exact Or.inl (h.answered (fun _ => hrd) (fun hop => by contradiction))
    · exact Or.inl (h.move (fun _ => hrd) (fun hop => by contradiction))
  · exact (h.fwrite_buffered herror hrd (by simpa using hnbf) hsome).imp And.left id

/-- A call on a bare stream. -/
theorem Bare.apply_kept (h : Bare s) {c : IoCall} (hc : ¬ c.Idle) :
    Bare (c.apply s) ∨ (c.apply s).fault = true := by
  have hempty : s.start = s.end_ := h.start.trans h.end_.symm
  cases c with
  | fread size count => exact h.fread_kept (Nat.pos_of_ne_zero hc)
  | fwrite b => exact h.fwrite_kept hc
  | fputc ch =>
    show Bare (commonFputc s ch).2 ∨ (commonFputc s ch).2.fault = true
    rw [commonFputc_slow (fun hfast => hfast.2.2.1 hempty)]
    exact h.fwrite_kept (List.cons_ne_nil _ _)
  | fgetc junk =>
    show Bare (commonFgetc junk s).2 ∨ (commonFgetc junk s).2.fault = true
    rw [commonFgetc_slow (fun hfast => hfast.2.2.1 hempty)]
    exact h.fread_kept Nat.one_pos
  | ungetc ch =>
    left
    show Bare (commonUngetc s ch).2
    have hstart := h.start
    rw [commonUngetc, if_neg (by omega)]
    exact h
  | fflush =>
    left
    show Bare (commonFflush s).2
    rw [h.commonFflush_eq]
    exact h
  | fseek offset whence =>
    left
    show Bare (commonFseek s offset whence).2
    have hflush : (if s.prevOp = .write then (commonFflush s).2 else s) = s := by
      rw [h.commonFflush_eq, ite_self]
    rw [commonFseek, hflush, if_neg (fun hnear => hnear.2.2.2.2 hempty), seekFile]
    split
    · exact h.answered h.writable h.readable
    · exact h.move h.writable h.readable

/-! ## Choosing a buffer -/

/-- A sound stream without its window. -/
theorem Sound.drop (h : Sound s) : Sound (dropWindow s) :=
  h.update rfl (Nat.le_refl _) (Nat.le_refl _) (Nat.le_add_right _ _) (fun _ => rfl) (fun _ => rfl)
    h.writable h.readable

/-- What `setvbuf` needs of a stream. -/
structure Adjustable (s : Stream) : Prop where
  no_fault : s.fault = false
  writable : s.prevOp = .write → s.bufMode.rdonly = false
  readable : s.prevOp = .read → s.bufMode.wronly = false

theorem Held.adjustable (h : Held s) : Adjustable s := by
  rcases h with hs | hb
  · exact ⟨hs.no_fault, hs.writable, hs.readable⟩
  · exact ⟨hb.no_fault, hb.writable, hb.readable⟩

section

variable {buf : List Byte} {size : Nat} {mode : Buffering} {internal external allocated : Bool}

/-- Without memory. -/
theorem Adjustable.bare (h : Adjustable s)
    (hm : mode = .nbf ∨ (¬ (internal = true ∧ allocated = false) ∧ (size = 0 ∨ buf = []))) :
    Bare { dropWindow s with
      buffer := buf, bufSize := size
      bufMode := (BufMode.of mode internal external allocated).orAccess s.bufMode } where
  no_fault := h.no_fault
  start := rfl
  end_ := rfl
  unusable := hm.imp decide_eq_true id
  writable := h.writable
  readable := h.readable

/-- With memory. -/
theorem Adjustable.sound (h : Adjustable s) (hmode : mode ≠ .nbf) (hlength : buf.length = size)
    (hsize : 1 ≤ size) (hkind : allocated = true ∨ external = true)
    (hlazy : ¬ (internal = true ∧ allocated = false)) :
    Sound { dropWindow s with
      buffer := buf, bufSize := size
      bufMode := (BufMode.of mode internal external allocated).orAccess s.bufMode } where
  start_le := Nat.le_refl _
  pos_le := Nat.le_refl _
  fits := Nat.le_add_right _ _
  no_fault := h.no_fault
  buffered := decide_eq_false hmode
  one_le_bufSize := hsize
  storage := Or.inl ⟨hlength, hkind, hlazy⟩
  idle := fun _ => rfl
  writable := h.writable
  readable := h.readable

end

/-- The window goes, and the stream is what it was. -/
theorem Held.drop (h : Held s) : Held (dropWindow s) := by
  rcases h with hs | hb
  · exact Or.inl hs.drop
  · exact Or.inr ⟨hb.no_fault, rfl, rfl, hb.unusable, hb.writable, hb.readable⟩

/-- There is no memory for a buffer of the stream's own. -/
theorem Held.noMemory (h : Held s) {buf : List Byte}
    (hbuf : buf = if s.bufMode.external = false ∧ s.bufMode.allocated = true then s.buffer else []) :
    Held { dropWindow s with buffer := buf } := by
  by_cases hsame : s.bufMode.external = false ∧ s.bufMode.allocated = true
  · rw [if_pos hsame] at hbuf
    rw [hbuf]
    exact h.drop
  rw [if_neg hsame] at hbuf
  rw [hbuf]
  rcases h with hs | hb
  · rcases hs.storage with hbacked | ⟨hint, hall, -⟩
    · exact Or.inr ⟨hs.no_fault, rfl, rfl, Or.inr ⟨hbacked.not_lazy, Or.inr rfl⟩, hs.writable,
        hs.readable⟩
    · exact Or.inl ⟨⟨Nat.le_refl _, Nat.le_refl _, Nat.le_add_right _ _⟩, hs.no_fault, hs.buffered, hs.one_le_bufSize,
        Or.inr ⟨hint, hall, rfl⟩, fun _ => rfl, hs.writable, hs.readable⟩
  · refine Or.inr ⟨hb.no_fault, rfl, rfl, hb.unusable.imp id ?_, hb.writable, hb.readable⟩
    rintro ⟨hlazy, -⟩
    exact ⟨hlazy, Or.inr rfl⟩

theorem SetvbufResult.held (h : Held s) {mode : Buffering} {c : SetvbufCall} {r : Bool × Stream}
    (hr : SetvbufResult s mode c r) : Held r.2 := by
  have hadjust := h.adjustable
  cases hr with
  | unbuffered => exact Or.inr (hadjust.bare (Or.inl rfl))
  | caller bytes hmode =>
    by_cases hsize : c.size = 0
    · refine Or.inr (hadjust.bare (Or.inr ⟨?_, Or.inl hsize⟩))
      rintro ⟨hint, -⟩
      contradiction
    · have hlength : (callerBuffer c.size bytes).length = c.size := by
        rw [callerBuffer, length_block, Nat.max_eq_left (by omega)]
      refine Or.inl (hadjust.sound hmode hlength (by omega) (Or.inr rfl) ?_)
      rintro ⟨hint, -⟩
      contradiction
  | own block hmode hbuffer hsize hlength =>
    refine Or.inl (hadjust.sound hmode hlength (by omega) (Or.inl rfl) ?_)
    rintro ⟨-, hall⟩
    contradiction
  | noMemory buf hmode hbuffer hsize hbuf => exact h.noMemory hbuf
  | notFreed => exact h.drop
  | noSize => exact h.drop
  | kept => exact h.drop

theorem Held.flush (h : Held s) : Held (commonFflush s).2 := by
  rcases h with hs | hb
  · exact Or.inl (commonFflush_sound hs)
  · rw [hb.commonFflush_eq]
    exact Or.inr hb

theorem SetvbufCall.apply_held (h : Held s) (c : SetvbufCall) : Held (c.apply s).2 := by
  rw [SetvbufCall.apply]
  split
  · exact h
  next mode _ =>
  exact (commonSetvbuf_result _ mode c).held h.flush

/-! ## Runs -/

theorem fault_setvbuf (hf : s.fault = true) (c : SetvbufCall) : (c.apply s).2.fault = true := by
  rw [SetvbufCall.apply]
  split
  · exact hf
  next mode _ =>
  have hflushed := fault_commonFflush hf
  generalize hr : commonSetvbuf (commonFflush s).2 mode c = r
  have hresult := hr ▸ commonSetvbuf_result (commonFflush s).2 mode c
  cases hresult with
  | unbuffered => exact hflushed
  | caller => exact hflushed
  | own => exact hflushed
  | noMemory => exact hflushed
  | notFreed => exact hflushed
  | noSize => exact hflushed
  | kept => exact hflushed

theorem StreamCall.fault_apply (hf : s.fault = true) (c : StreamCall) : (c.apply s).fault = true := by
  cases c with
  | setvbuf c => exact fault_setvbuf hf c
  | io c =>
    rw [StreamCall.apply]
    split
    · exact hf
    · exact Stdio.fault_apply hf c

/-- **One call.** The stream stays held, or something has gone wrong, and stays so. -/
theorem apply_held (h : Held s ∨ s.fault = true) (c : StreamCall) :
    Held (c.apply s) ∨ (c.apply s).fault = true := by
  rcases h with hheld | hfault
  · cases c with
    | setvbuf c => exact Or.inl (SetvbufCall.apply_held hheld c)
    | io c =>
      rw [StreamCall.apply]
      split
      · exact Or.inl hheld
      next hidle =>
      rcases hheld with hs | hb
      · by_cases hc : CallSafe s c
        · exact Or.inl (Or.inl (apply_sound hs hc))
        · exact Or.inr (apply_fault hs hc)
      · rcases hb.apply_kept hidle with hbare | hfault
        · exact Or.inl (Or.inr hbare)
        · exact Or.inr hfault
  · exact Or.inr (c.fault_apply hfault)

theorem Reached.held (h : Reached s) : Held s := by
  obtain ⟨s₀, cs, os, h₀, hrun, hfault⟩ := h
  have hkept : Held s ∨ s.fault = true := by
    refine Machine.run_keeps (M := streamCalls) (I := fun s => Held s ∨ s.fault = true) ?_ cs
      (Or.inl (Or.inl h₀.sound)) hrun
    intro s c s' o h hstep
    cases hstep
    exact apply_held h c
  rcases hkept with hheld | hfault'
  · exact hheld
  · rw [hfault] at hfault'
    contradiction

/-- What can be reached without `setvbuf` can be reached. -/
theorem Reached.of_fopened (h : Fopened s) : Reached s :=
  ⟨s, [], [], h, rfl, h.sound.no_fault⟩

end WindowsLibc.Stdio
