import WindowsLibc.Lib.Machine
import WindowsLibc.Stdio.Transfer

/-!
# Buffered streams refine an unbuffered file

The reference is a file with a single position and a sticky end-of-file flag (`Unbuffered`): a read
takes the bytes at the position, a write puts them there, and there is no buffer at all. Every
interleaving of `common_fread`, `common_fwrite` and `common_fputc` on a buffered stream gives the
same bytes, the same item counts and the same stream position after each call, and the flush at
close leaves the same file.

The relation `Tracks` has one case for each value of `prev_op`:

* nothing yet: the window is empty, and everything stands at the start of the file;
* reading: the file is the reference's, the kernel has read ahead;
* writing: the file lags behind. What is missing is exactly the written part of the buffer
  (`contents`).
-/

namespace WindowsLibc.Stdio

open WindowsLibc.Lib

/-! ## The reference -/

/-- An unbuffered file: content, position, sticky end-of-file flag. -/
structure Unbuffered where
  content : List Byte
  pos : Nat
  eof : Bool
  deriving DecidableEq, Repr

namespace Unbuffered

def fread (r : Unbuffered) (size count : Nat) : (List Byte × Nat) × Unbuffered :=
  if r.eof then (([], 0), r)
  else
    let bytes := (r.content.drop r.pos).take (size * count)
    ((bytes, itemCount size count bytes.length),
      { r with pos := r.pos + bytes.length, eof := decide (bytes.length < size * count) })

def fwrite (r : Unbuffered) (b : Block) : Nat × Unbuffered :=
  (b.count, { r with
    content := overwrite r.content r.pos b.data, pos := r.pos + b.data.length })

end Unbuffered

/-! ## Calls and what a caller sees of them -/

inductive Call where
  | fread (size count : Nat)
  | fwrite (b : Block)
  | fputc (ch : Byte)

/-- The call is one that a stream of this mode was opened for. -/
def Call.Permitted (m : BufMode) : Call → Prop
  | .fread _ _ => m.wronly = false
  | .fwrite _ => m.rdonly = false
  | .fputc _ => m.rdonly = false

/-- Bytes delivered, items returned, and `ftell` after the call. -/
structure Observed where
  bytes : List Byte
  items : Nat
  pos : Nat
  deriving DecidableEq, Repr

def streamMachine : Machine Stream Call Observed where
  step
    | s, .fread size count =>
      let r := commonFread s size count
      some (r.2, ⟨r.1.1, r.1.2, r.2.pos⟩)
    | s, .fwrite b =>
      let r := commonFwrite s b
      some (r.2, ⟨[], r.1, r.2.pos⟩)
    | s, .fputc ch =>
      let r := commonFputc s ch
      some (r.2, ⟨[], r.1.toList.length, r.2.pos⟩)

def unbufferedMachine : Machine Unbuffered Call Observed where
  step
    | r, .fread size count =>
      let q := r.fread size count
      some (q.2, ⟨q.1.1, q.1.2, q.2.pos⟩)
    | r, .fwrite b =>
      let q := r.fwrite b
      some (q.2, ⟨[], q.1, q.2.pos⟩)
    | r, .fputc ch =>
      let q := r.fwrite (Block.single ch)
      some (q.2, ⟨[], q.1, q.2.pos⟩)

/-! ## The relation -/

/-- The file as it will be once the written part of the window has gone out. -/
def contents (s : Stream) : List Byte :=
  overwrite s.file.content s.start (s.buffer.take (s.pos - s.start))

/-- The stream is writing: the kernel waits at the start of the window. -/
structure WriteWindow (s : Stream) : Prop extends Window s where
  prevOp : s.prevOp = .write
  writable : s.bufMode.rdonly = false
  offset : s.file.offset = s.start
  inside : s.start ≤ s.file.content.length

inductive Phase (s : Stream) (content : List Byte) : Prop
  | fresh (prevOp : s.prevOp = .nothing) (start : s.start = s.pos) (end_ : s.end_ = s.pos)
      (offset : s.file.offset = s.pos) (inside : s.pos ≤ s.file.content.length)
      (same : s.file.content = content)
  | reading (backed : Backed s) (window : ReadWindow s) (same : s.file.content = content)
  | writing (backed : Backed s) (window : WriteWindow s) (full : s.end_ = s.start + s.bufSize)
      (same : contents s = content)

/-- The stream, opened in mode `m`, stands where the reference does. -/
structure Tracks (m : BufMode) (s : Stream) (r : Unbuffered) : Prop where
  usable : Usable s
  stored : Stored s
  rdonly : s.bufMode.rdonly = m.rdonly
  wronly : s.bufMode.wronly = m.wronly
  pos : s.pos = r.pos
  error : s.error = if r.eof then .eof else .clear
  phase : Phase s r.content

/-! ## Writing -/

/-- Data that fits extends what is pending. -/
theorem contents_store {s : Stream} (hb : Backed s) (hw : WriteWindow s) (data : List Byte)
    {e : Nat} :
    contents { s with
      end_ := e, buffer := overwrite s.buffer (s.pos - s.start) data,
      pos := s.pos + data.length } = overwrite (contents s) s.pos data := by
  have hstart := hw.start_le
  have hlen := hb.length_buffer
  have hfits := hw.fits
  have hpos := hw.pos_le
  have htake : (overwrite s.buffer (s.pos - s.start) data).take (s.pos + data.length - s.start) =
      s.buffer.take (s.pos - s.start) ++ data := by
    rw [show s.pos + data.length - s.start = s.pos - s.start + data.length by omega]
    exact take_overwrite (by omega) data
  have hat : s.pos = s.start + (s.buffer.take (s.pos - s.start)).length := by
    rw [List.length_take]; omega
  simp only [contents, htake]
  rw [← overwrite_overwrite hw.inside, ← hat]

/-- In a full window, the topped-up buffer is what was pending and the start of the data. -/
theorem toppedUp_full {s : Stream} (hb : Backed s) (hw : Window s)
    (hfull : s.end_ = s.start + s.bufSize) (data : List Byte)
    (hover : s.end_ - s.pos < data.length) :
    toppedUp s data = s.buffer.take (s.pos - s.start) ++ data.take (toppedCount s) := by
  have hstart := hw.start_le
  have hpos := hw.pos_le
  have hlen := hb.length_buffer
  unfold toppedUp toppedCount
  by_cases hroom : s.end_ - s.pos ≠ s.bufSize
  · rw [if_pos hroom, if_pos hroom, overwrite_of_le (by omega), List.length_take,
      List.drop_eq_nil_of_le (by omega), List.append_nil]
  · rw [if_neg hroom, if_neg hroom, show s.pos - s.start = 0 by omega, List.take_zero,
      List.take_zero, List.append_nil]

/-- The overflow branch in a full window writes the data at the stream position. -/
theorem fwriteOverflow_full {s : Stream} {b : Block} (hu : Usable s) (hb : Backed s)
    (hw : WriteWindow s) (hfull : s.end_ = s.start + s.bufSize)
    (hover : s.end_ - s.pos < b.data.length) :
    ∃ s', fwriteOverflow s b = (b.count, s') ∧ Usable s' ∧ Backed s' ∧ WriteWindow s' ∧
      s'.end_ = s'.start + s'.bufSize ∧ contents s' = overwrite (contents s) s.pos b.data ∧
      s'.pos = s.pos + b.data.length ∧ s'.error = s.error ∧ s'.bufMode = s.bufMode := by
  have hstart := hw.start_le
  have hpos := hw.pos_le
  have hlen := hb.length_buffer
  obtain ⟨direct, rest, f', buf, hr, hrec, hdata, htotal, _, hle, hbuf, hrest⟩ :=
    fwriteOverflow_spec hu hb hw.toWindow (by rw [hw.offset]; exact hw.inside) hover
  have htop := toppedUp_full hb hw.toWindow hfull b.data hover
  have hat : s.pos = s.start + (s.buffer.take (s.pos - s.start)).length := by
    rw [List.length_take]; omega
  have hcount : (b.data.take (toppedCount s)).length = toppedCount s := by
    rw [List.length_take]; omega
  -- what has gone out so far, seen from the start of the old window
  have hsent : (toppedUp s b.data ++ direct).length =
      s.pos - s.start + (toppedCount s + direct.length) := by
    rw [htop, List.length_append, List.length_append, hcount, List.length_take]; omega
  refine ⟨_, hr, hu.update hrec.succeeds hrec.append, hb.update hbuf, ?_, rfl, ?_, rfl, rfl, rfl⟩
  · exact {
      start_le := by simp only; omega
      pos_le := by simp only; omega
      fits := by simp only; omega
      prevOp := hw.prevOp
      writable := hw.writable
      offset := by simp only [hrec.offset, hw.offset, hsent]; omega
      inside := by
        have h := hrec.inside
        rw [hrec.offset, hw.offset, hsent] at h
        simp only
        omega }
  · have hpend : s.pos + b.data.length - (s.pos + toppedCount s + direct.length) = rest.length := by
      omega
    have hnew : s.pos + toppedCount s + direct.length =
        s.file.offset + (toppedUp s b.data ++ direct).length := by
      rw [hw.offset, hsent]; omega
    simp only [contents, hpend, hrest]
    rw [hrec.content, hnew, overwrite_overwrite (by rw [hw.offset]; exact hw.inside), hw.offset,
      htop, List.append_assoc, List.append_assoc, ← hdata, List.take_append_drop,
      ← overwrite_overwrite hw.inside, ← hat]

/-- `common_fwrite` on a stream in write mode, whose window is empty or full. -/
theorem fwriteBuffered_spec {s : Stream} {b : Block} (hu : Usable s) (hb : Backed s)
    (hw : WriteWindow s) (hshape : s.start = s.end_ ∨ s.end_ = s.start + s.bufSize) :
    ∃ s', fwriteBuffered s b = (b.count, s') ∧ Usable s' ∧ Backed s' ∧ WriteWindow s' ∧
      s'.end_ = s'.start + s'.bufSize ∧ contents s' = overwrite (contents s) s.pos b.data ∧
      s'.pos = s.pos + b.data.length ∧ s'.error = s.error ∧ s'.bufMode = s.bufMode := by
  have hstart := hw.start_le
  have hpos := hw.pos_le
  have hfits := hw.fits
  have hlen := hb.length_buffer
  have he : s.start + s.bufSize = if s.start = s.end_ then s.start + s.bufSize else s.end_ := by
    split <;> omega
  by_cases hfit : s.pos + b.data.length ≤ s.start + s.bufSize
  · refine ⟨_, fwriteBuffered_fit hb hw.toWindow he hfit, hu.update hu.succeeds rfl, hb.update ?_,
      ?_, rfl, contents_store hb hw _, rfl, rfl, rfl⟩
    · rw [length_overwrite]; omega
    · exact {
        start_le := by simp only; omega
        pos_le := hfit
        fits := Nat.le_refl _
        prevOp := hw.prevOp
        writable := hw.writable
        offset := hw.offset
        inside := hw.inside }
  · rw [fwriteBuffered_overflow hb hw.toWindow he (by omega)]
    have hw' : WriteWindow { s with end_ := s.start + s.bufSize } :=
      { hw with pos_le := by simp only; omega, fits := Nat.le_refl _ }
    exact fwriteOverflow_full (hu.update hu.succeeds rfl) (hb.update hb.length_buffer) hw' rfl
      (by simp only; omega)

/-- Entering write mode, from any phase, gives an empty or a full window over the same contents. -/
theorem enterWrite_spec {s : Stream} {content : List Byte} (hu : Usable s) (hst : Stored s)
    (hrd : s.bufMode.rdonly = false) (hph : Phase s content) :
    ∃ s', allocateBuffer (enterWrite s) = (true, s') ∧ Usable s' ∧ Backed s' ∧ WriteWindow s' ∧
      (s'.start = s'.end_ ∨ s'.end_ = s'.start + s'.bufSize) ∧ contents s' = content ∧
      s'.pos = s.pos ∧ s'.error = s.error ∧ s'.bufMode.rdonly = s.bufMode.rdonly ∧
      s'.bufMode.wronly = s.bufMode.wronly := by
  cases hph with
  | fresh hop hstart hend hoff hin hsame =>
    have henter : enterWrite s = { s with start := s.pos, end_ := s.pos, prevOp := .write } := by
      simp [enterWrite, hop, hu.not_append]
    have hst' : Stored { s with start := s.pos, end_ := s.pos, prevOp := PrevOp.write } :=
      hst.imp (fun hb => hb.update hb.length_buffer) id
    obtain ⟨buf, alloc, halloc, hb⟩ := allocateBuffer_spec (by exact hu.heap) hst'
    refine ⟨_, by rw [henter, halloc], ?_, hb, ?_, Or.inl rfl, ?_, rfl, rfl, rfl, rfl⟩
    · exact ⟨hu.no_fault, hu.buffered, hu.one_le_bufSize, hu.heap, hu.succeeds, hu.not_append⟩
    · exact {
        start_le := Nat.le_refl _, pos_le := Nat.le_refl _, fits := Nat.le_add_right _ _
        prevOp := rfl, writable := hrd, offset := hoff, inside := hin }
    · simp only [contents, Nat.sub_self, List.take_zero]
      rw [overwrite_nil hin, hsame]
  | reading hb hw hsame =>
    have hin : s.pos ≤ s.file.content.length := Nat.le_trans hw.pos_le hw.inside
    have henter : enterWrite s = { s with
        file := { s.file.answered with offset := s.pos }, start := s.pos, end_ := s.pos,
        prevOp := .write } := by
      simp [enterWrite, hw.prevOp, hu.not_append, OpenFile.lseek_set hu.succeeds]
    have hb' := hb.update (f := { s.file.answered with offset := s.pos }) (e := s.error)
      (a := s.pos) (b := s.pos) (c := s.pos) (o := .write) hb.length_buffer
    have hu' := hu.update (f := { s.file.answered with offset := s.pos }) (e := s.error)
      (d := s.buffer) (a := s.pos) (b := s.pos) (c := s.pos) (o := .write)
      hu.succeeds.answered rfl
    refine ⟨_, by rw [henter, allocateBuffer_of_backed hb'], hu', hb', ?_, Or.inl rfl, ?_, rfl,
      rfl, rfl, rfl⟩
    · exact {
        start_le := Nat.le_refl _, pos_le := Nat.le_refl _, fits := Nat.le_add_right _ _
        prevOp := rfl, writable := hrd, offset := rfl, inside := hin }
    · simp only [contents, Nat.sub_self, List.take_zero]
      exact (overwrite_nil (by exact hin)).trans hsame
  | writing hb hw hfull hsame =>
    have henter : enterWrite s = s := by simp [enterWrite, hw.prevOp]
    exact ⟨s, by rw [henter, allocateBuffer_of_backed hb], hu, hb, hw, Or.inr hfull, hsame, rfl,
      rfl, rfl, rfl⟩

variable {m : BufMode} {s : Stream} {r : Unbuffered}

theorem Tracks.error_ne (h : Tracks m s r) : s.error ≠ .error := by
  rw [h.error]
  split <;> simp

/-- **One write step.** -/
theorem commonFwrite_tracks (h : Tracks m s r) (hm : m.rdonly = false) (b : Block) :
    ∃ s', commonFwrite s b = (b.count, s') ∧ Tracks m s' (r.fwrite b).2 := by
  have hrd : s.bufMode.rdonly = false := h.rdonly.trans hm
  obtain ⟨s₁, halloc, hu₁, hb₁, hw₁, hshape, hsame, hpos₁, herr₁, hrd₁, hwr₁⟩ :=
    enterWrite_spec h.usable h.stored hrd h.phase
  obtain ⟨s₂, hwrite, hu₂, hb₂, hw₂, hfull, hcont, hpos₂, herr₂, hmode₂⟩ :=
    fwriteBuffered_spec (b := b) hu₁ hb₁ hw₁ hshape
  refine ⟨s₂, ?_, ?_⟩
  · rw [commonFwrite, if_neg h.error_ne, if_neg (by simp [hrd]),
      if_neg (by simp [h.usable.buffered]), halloc]
    exact hwrite
  · exact {
      usable := hu₂
      stored := Or.inl hb₂
      rdonly := by rw [hmode₂, hrd₁, h.rdonly]
      wronly := by rw [hmode₂, hwr₁, h.wronly]
      pos := by simp only [hpos₂, hpos₁, h.pos, Unbuffered.fwrite]
      error := by rw [herr₂, herr₁]; exact h.error
      phase := .writing hb₂ hw₂ hfull (by
        simp only [hcont, hsame, hpos₁, h.pos, Unbuffered.fwrite]) }

/-- The fast path of `common_fputc` stores the byte a write would have stored. -/
theorem commonFputc_tracks (h : Tracks m s r) (hm : m.rdonly = false) (ch : Byte) :
    ∃ s', commonFputc s ch = (some ch, s') ∧ Tracks m s' (r.fwrite (Block.single ch)).2 := by
  by_cases hfast : s.bufMode.nbf = false ∧ s.prevOp = .write ∧ s.start ≠ s.end_ ∧ s.pos ≠ s.end_
  · -- The fast path is only taken in write mode, with a window that is open and not full.
    have hop := hfast.2.1
    have hne := hfast.2.2.2
    cases h.phase with
    | fresh hop' _ _ _ _ _ => rw [hop] at hop'; cases hop'
    | reading _ hw _ => have hop' := hw.prevOp; rw [hop] at hop'; cases hop'
    | writing hb hw hfull hsame =>
      have hstart := hw.start_le
      have hpos := hw.pos_le
      have hlen := hb.length_buffer
      refine ⟨_, commonFputc_fast hb hw.toWindow ch hfast, ?_⟩
      have hb' := hb.update (f := s.file) (e := s.error) (a := s.start) (b := s.end_)
        (c := s.pos + 1) (o := s.prevOp) (d := overwrite s.buffer (s.pos - s.start) [ch])
        (by rw [length_overwrite, List.length_singleton]; omega)
      exact {
        usable := h.usable.update h.usable.succeeds rfl
        stored := Or.inl hb'
        rdonly := h.rdonly
        wronly := h.wronly
        pos := by simp only [h.pos, Unbuffered.fwrite, Block.single, List.length_singleton]
        error := h.error
        phase := .writing hb'
          { hw with start_le := by simp only; omega, pos_le := by simp only; omega } hfull (by
            have hc := contents_store hb hw [ch] (e := s.end_)
            simp only [List.length_singleton] at hc
            rw [hc, hsame, h.pos]
            rfl) }
  · obtain ⟨s', hwrite, htr⟩ := commonFwrite_tracks h hm (Block.single ch)
    refine ⟨s', ?_, htr⟩
    rw [commonFputc, if_neg hfast, hwrite]
    rfl

/-! ## Reading -/

/-- Entering read mode, from any phase, gives a read window over the same contents. -/
theorem enterRead_spec {content : List Byte} (hu : Usable s) (hst : Stored s)
    (hph : Phase s content) :
    ∃ s', allocateBuffer (enterRead s) = (true, s') ∧ Usable s' ∧ Backed s' ∧ ReadWindow s' ∧
      s'.file.content = content ∧ s'.pos = s.pos ∧ s'.error = s.error ∧
      s'.bufMode.rdonly = s.bufMode.rdonly ∧ s'.bufMode.wronly = s.bufMode.wronly := by
  cases hph with
  | fresh hop hstart hend hoff hin hsame =>
    have henter : enterRead s = { s with prevOp := .read } := by simp [enterRead, hop]
    have hst' : Stored { s with prevOp := PrevOp.read } :=
      hst.imp (fun hb => hb.update hb.length_buffer) id
    obtain ⟨buf, alloc, halloc, hb⟩ := allocateBuffer_spec (by exact hu.heap) hst'
    refine ⟨_, by rw [henter, halloc], ?_, hb, .of_empty rfl hstart hend hoff hin, hsame, rfl, rfl,
      rfl, rfl⟩
    exact ⟨hu.no_fault, hu.buffered, hu.one_le_bufSize, hu.heap, hu.succeeds, hu.not_append⟩
  | reading hb hw hsame =>
    have henter : enterRead s = { s with prevOp := .read } := by simp [enterRead, hw.prevOp]
    have hb' : Backed { s with prevOp := PrevOp.read } := hb.update hb.length_buffer
    refine ⟨_, by rw [henter, allocateBuffer_of_backed hb'], hu.update hu.succeeds rfl, hb', ?_,
      hsame, rfl, rfl, rfl, rfl⟩
    exact { hw with prevOp := rfl }
  | writing hb hw hfull hsame =>
    have hstart := hw.start_le
    have hpos := hw.pos_le
    have hlen := hb.length_buffer
    -- The pending bytes are sent first, which leaves the kernel at `pos`.
    obtain ⟨f', hflush, hrec⟩ := commonFflush_spec hu hb hw.toWindow hw.prevOp hw.writable
      (by rw [hw.offset]; exact hw.inside)
    have henter : enterRead s = { s with
        file := f', start := s.pos, end_ := s.pos, prevOp := .read } := by
      rw [enterRead, if_pos hw.prevOp, hflush]
    have hoff : f'.offset = s.pos := by
      rw [hrec.offset, hw.offset, List.length_take]; omega
    have hb' := hb.update (f := f') (e := s.error) (a := s.pos) (b := s.pos) (c := s.pos)
      (o := .read) hb.length_buffer
    refine ⟨_, by rw [henter, allocateBuffer_of_backed hb'],
      hu.update hrec.succeeds hrec.append, hb',
      .of_empty rfl rfl rfl hoff (by rw [← hoff]; exact hrec.inside), ?_, rfl, rfl, rfl, rfl⟩
    simp only [hrec.content, hw.offset]
    exact hsame

/-- **One read step.** -/
theorem commonFread_tracks (h : Tracks m s r) (hm : m.wronly = false) (size count : Nat) :
    ∃ s', commonFread s size count = ((r.fread size count).1, s') ∧
      Tracks m s' (r.fread size count).2 := by
  have hwr : s.bufMode.wronly = false := h.wronly.trans hm
  by_cases heof : r.eof = true
  · -- the flag is sticky on both sides
    have herr : s.error = .eof := by rw [h.error, if_pos heof]
    refine ⟨s, ?_, ?_⟩
    · rw [commonFread, if_pos (Or.inl herr), Unbuffered.fread, if_pos heof]
    · rw [Unbuffered.fread, if_pos heof]; exact h
  · have herr : s.error = .clear := by rw [h.error, if_neg heof]
    obtain ⟨s₁, halloc, hu₁, hb₁, hw₁, hsame, hpos₁, herr₁, hrd₁, hwr₁⟩ :=
      enterRead_spec h.usable h.stored h.phase
    have hres := freadBuffered_spec size count hu₁ hb₁ hw₁
    have hbytes := hres.bytes
    rw [hsame, hpos₁, h.pos] at hbytes
    refine ⟨(freadBuffered s₁ size count).2, ?_, ?_⟩
    · rw [commonFread, if_neg (by simp [herr]), if_neg (by simp [hwr]),
        if_neg (by simp [h.usable.buffered]), halloc, Unbuffered.fread, if_neg heof]
      simp only [← hbytes, ← hres.items]
    · rw [Unbuffered.fread, if_neg heof]
      simp only [← hbytes]
      have hle : (freadBuffered s₁ size count).1.1.length ≤ size * count := by
        rw [hres.bytes, List.length_take]; omega
      exact {
        usable := hres.usable
        stored := Or.inl hres.backed
        rdonly := by rw [hres.bufMode, hrd₁, h.rdonly]
        wronly := by rw [hres.bufMode, hwr₁, h.wronly]
        pos := by simp only [hres.pos, hpos₁, h.pos]
        error := by
          simp only [hres.error, herr₁, herr, decide_eq_true_eq]
          split <;> split <;> first | rfl | omega
        phase := .reading hres.backed hres.window (hres.content.trans hsame) }

/-! ## Whole runs -/

/-- A stream as `fopen` (and a `setvbuf` right after it) leaves it: buffered, at the start of a
file that does not append, with nothing transferred yet. -/
structure Opened (s : Stream) : Prop where
  usable : Usable s
  stored : Stored s
  error : s.error = .clear
  prevOp : s.prevOp = .nothing
  start : s.start = 0
  end_ : s.end_ = 0
  pos : s.pos = 0
  offset : s.file.offset = 0

theorem Opened.tracks (h : Opened s) : Tracks s.bufMode s ⟨s.file.content, 0, false⟩ where
  usable := h.usable
  stored := h.stored
  rdonly := rfl
  wronly := rfl
  pos := h.pos
  error := h.error
  phase := .fresh h.prevOp (h.start.trans h.pos.symm) (h.end_.trans h.pos.symm)
    (h.offset.trans h.pos.symm) (by rw [h.pos]; exact Nat.zero_le _) rfl

/-- Closing a stream leaves the reference's file. -/
theorem commonFclose_tracks (h : Tracks m s r) : commonFclose s = r.content := by
  have hbuf : ¬ s.bufMode.nbf = true := by simp [h.usable.buffered]
  unfold commonFclose
  cases h.phase with
  | fresh hop hstart _ _ _ hsame =>
    have hflush : (commonFflush s).2 = s := by
      rw [commonFflush, if_neg hbuf]
      split
      · rfl
      · rw [if_neg (by simp [hop]), if_neg (fun hne => hne hstart)]
    rw [hflush, hsame]
  | reading _ hw hsame =>
    have hflush : (commonFflush s).2 = s := by
      rw [commonFflush, if_neg hbuf, if_pos hw.prevOp]
      split <;> rfl
    rw [hflush, hsame]
  | writing hb hw _ hsame =>
    obtain ⟨f', hflush, hrec⟩ := commonFflush_spec h.usable hb hw.toWindow hw.prevOp hw.writable
      (by rw [hw.offset]; exact hw.inside)
    rw [hflush]
    simp only [hrec.content, hw.offset]
    exact hsame

/-- **One call.** The stream and the reference show the caller the same. -/
theorem step_tracks (h : Tracks m s r) {c : Call} (hc : c.Permitted m) :
    ∃ s' r' o, streamMachine.step s c = some (s', o) ∧ unbufferedMachine.step r c = some (r', o) ∧
      Tracks m s' r' := by
  cases c with
  | fread size count =>
    obtain ⟨s', hr, htr⟩ := commonFread_tracks h hc size count
    refine ⟨s', _, ⟨(r.fread size count).1.1, (r.fread size count).1.2, s'.pos⟩,
      by simp only [streamMachine, hr], ?_, htr⟩
    simp only [unbufferedMachine, htr.pos]
  | fwrite b =>
    obtain ⟨s', hr, htr⟩ := commonFwrite_tracks h hc b
    refine ⟨s', _, ⟨[], b.count, s'.pos⟩, by simp only [streamMachine, hr], ?_, htr⟩
    simp only [unbufferedMachine, htr.pos]
    rfl
  | fputc ch =>
    obtain ⟨s', hr, htr⟩ := commonFputc_tracks h hc ch
    refine ⟨s', _, ⟨[], 1, s'.pos⟩, by simp [streamMachine, hr], ?_, htr⟩
    simp only [unbufferedMachine, htr.pos]
    rfl

theorem along_permitted (m : BufMode) {cs : List Call} (hcs : ∀ c ∈ cs, c.Permitted m) :
    ∀ s, streamMachine.Along (fun _ c => c.Permitted m) s cs := by
  induction cs with
  | nil => intro s; trivial
  | cons c cs ih =>
    intro s
    exact ⟨hcs c (by simp), fun s' _ _ => ih (fun d hd => hcs d (by simp [hd])) s'⟩

/-- **Buffered streams refine an unbuffered file.** From any opened stream, every interleaving of
permitted calls shows the caller exactly what the unbuffered file would (bytes delivered, items
returned, position after each call), never leaves the buffer, and closes to the same file. -/
theorem stream_refines_unbuffered (s₀ : Stream) (h₀ : Opened s₀) (cs : List Call)
    (hcs : ∀ c ∈ cs, c.Permitted s₀.bufMode) :
    ∃ s r os, streamMachine.run s₀ cs = some (s, os) ∧
      unbufferedMachine.run ⟨s₀.file.content, 0, false⟩ cs = some (r, os) ∧
      commonFclose s = r.content ∧ s.pos = r.pos ∧ s.fault = false := by
  obtain ⟨s, r, os, hM, hN, htr⟩ := Machine.run_sim
    (fun s r c (hR : Tracks s₀.bufMode s r) hc => step_tracks hR hc) cs h₀.tracks
    (along_permitted s₀.bufMode hcs s₀)
  exact ⟨s, r, os, hM, hN, commonFclose_tracks htr, htr.pos, htr.usable.no_fault⟩

/-- A read-write stream with a lazily allocated two-byte buffer, over a five-byte file whose kernel
answers with short reads. -/
def shortReads : Stream :=
  createStream ⟨[97, 98, 99, 100, 101], 0, false, [.short 1, .full, .short 2]⟩
    ⟨true, false, false, false, false, true, true, false, false⟩ 2 (some fun _ => 0)

theorem opened_shortReads : Opened shortReads where
  usable := ⟨rfl, rfl, by decide, rfl, by decide, rfl⟩
  stored := Or.inr ⟨rfl, rfl⟩
  error := rfl
  prevOp := rfl
  start := rfl
  end_ := rfl
  pos := rfl
  offset := rfl

/-- Read one byte, write three over the next, put a fourth, read past the end. -/
theorem shortReads_refines :
    ∃ s r os, streamMachine.run shortReads
        [.fread 1 1, .fwrite ⟨1, 3, [1, 2, 3], rfl⟩, .fputc 4, .fread 2 3] = some (s, os) ∧
      unbufferedMachine.run ⟨shortReads.file.content, 0, false⟩
        [.fread 1 1, .fwrite ⟨1, 3, [1, 2, 3], rfl⟩, .fputc 4, .fread 2 3] = some (r, os) ∧
      commonFclose s = r.content ∧ s.pos = r.pos ∧ s.fault = false :=
  stream_refines_unbuffered shortReads opened_shortReads _ (by simp [Call.Permitted]; decide)

end WindowsLibc.Stdio
