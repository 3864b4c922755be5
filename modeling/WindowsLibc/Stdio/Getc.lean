import WindowsLibc.Stdio.Seek

/-!
# One byte at a time

`common_fgetc` puts the byte into a `char`, which is signed, on both of its paths, and returns whatever that
variable holds where `common_fread` delivers none and the end of the file is not flagged.

* `Outcome` is what a call comes to: a byte, the end of the file, or a failure. `Outcome.code` is the `int`
  that the code makes of it, and `commonFgetc_eq` says that it does, on every stream that can be reached.
* `fgetc_transparent_iff` says from which of these streams a caller is told what it should be.
-/

namespace WindowsLibc.Stdio

open WindowsLibc.Lib

variable {s : Stream}

instance (s : Stream) : Decidable (FastGet s) := by unfold FastGet; infer_instance

/-! ## What a call comes to -/

inductive Outcome where
  | byte (b : Byte)
  | ended
  | failed
  deriving DecidableEq, Repr

/-- The byte from the window, or the one that `common_fread` delivers. -/
def gotByte (s : Stream) : Option Byte :=
  if FastGet s then s.buffer[s.pos - s.start]? else (commonFread s 1 1).1.1.head?

/-- One call, whatever the returned value. A fault counts as a failure. -/
def readByte (s : Stream) : Outcome × Stream :=
  let s' := (commonFgetc 0 s).2
  (if s'.fault then .failed
    else match gotByte s with
      | some b => .byte b
      | none => if s'.error = .eof then .ended else .failed, s')

/-- The `int` that is returned. `junk` is what the variable held before. -/
def Outcome.code (junk : Byte) : Outcome → Int
  | .byte b => intOfChar b
  | .ended => eof
  | .failed => intOfChar junk

theorem commonFgetc_stream (junk : Byte) (s : Stream) : (commonFgetc junk s).2 = (readByte s).2 := by
  rw [readByte, commonFgetc, commonFgetc]
  split
  · rfl
  · rfl

/-! ## One byte, past the window -/

/-- The byte at the kernel's offset, once what is written is out. -/
def fileByte (s : Stream) : Option Byte := (flushedFile s).content[(flushedFile s).offset]?

/-- A read of one byte that is neither refused nor fails. -/
structure OneByte (s : Stream) (r : (List Byte × Nat) × Stream) : Prop where
  none : fileByte s = none → r.1.1 = [] ∧ r.2.error = .eof ∧ r.2.fault = false
  some : ∀ b, fileByte s = some b → Equipped s →
    r.1.1.head? = some b ∧ r.2.error = .clear ∧ r.2.fault = false
  lost : fileByte s ≠ Option.none → ¬ Equipped s → (r.1.1 = [] ∧ r.2.error = .eof) ∨ r.2.fault = true

/-- Such a stream reads one byte with one system call, and loses it. -/
theorem Bare.freadBuffered_one (h : Bare s) (hnone : s.bufSize = 0 ∨ s.buffer = []) :
    (s.file.answer = .fail → (freadBuffered s 1 1).1.1 = [] ∧ (freadBuffered s 1 1).2.error = .error) ∧
      (s.file.answer ≠ .fail →
        (s.file.content[s.file.offset]? = none → (freadBuffered s 1 1).1.1 = [] ∧
          (freadBuffered s 1 1).2.error = .eof ∧ (freadBuffered s 1 1).2.fault = false) ∧
        (((freadBuffered s 1 1).1.1 = [] ∧ (freadBuffered s 1 1).2.error = .eof) ∨
          (freadBuffered s 1 1).2.fault = true ∨ s.file.content[s.file.offset]? = none)) := by
  rw [h.freadBuffered_eq Nat.one_pos, Nat.mul_one]
  by_cases hB : s.bufSize = 0
  · -- the loop asks for nothing, and takes it for the end of the file
    have hnil : s.file.transfer 0 = [] := List.eq_nil_of_length_eq_zero (by
      have hle := s.file.length_transfer_le 0
      omega)
    obtain ⟨f, hread⟩ : ∃ f, readWrapper s s.bufSize = ([], { s with
        file := f, error := if s.file.answer = .fail then .error else .eof }) := by
      rw [readWrapper_eq, hB, hnil]
      split
      · exact ⟨_, rfl⟩
      · exact ⟨_, rfl⟩
    have hdirect : freadDirect 1 (1 + 1) [] s = ([], false, { s with
        file := f, error := if s.file.answer = .fail then .error else .eof }) := by
      rw [freadDirect, if_pos (by rw [hB, List.length_nil]; exact Nat.one_pos), hread]
    rw [hdirect]
    refine ⟨fun hfail => ⟨rfl, if_pos hfail⟩, fun hfail => ⟨fun _ => ⟨rfl, if_neg hfail, h.no_fault⟩, ?_⟩⟩
    exact Or.inl ⟨rfl, if_neg hfail⟩
  · have hnull := hnone.resolve_left hB
    have hpos : 1 ≤ s.bufSize := Nat.pos_of_ne_zero hB
    have hdirect : freadDirect 1 (1 + 1) [] s = ([], true, s) := by
      rw [freadDirect, List.length_nil, if_neg (by omega)]
    have hfill := freadFill_one { s with pos := s.pos + 0, start := s.pos + 0, end_ := s.pos + 0 } hpos
    have hhead := s.file.head?_transfer hpos
    rw [readWrapper_eq] at hfill
    rw [hdirect]
    simp only [if_true, freadLast, List.length_nil, Nat.sub_zero, hfill]
    by_cases hfail : s.file.answer = .fail
    · simp only [if_pos hfail, List.length_nil, if_true]
      exact ⟨fun _ => ⟨trivial, trivial⟩, fun hne => absurd hfail hne⟩
    · refine ⟨fun hfail' => absurd hfail' hfail, fun _ => ?_⟩
      simp only [if_neg hfail]
      cases hbytes : s.file.transfer s.bufSize with
      | nil =>
        simp only [List.length_nil, if_true]
        exact ⟨fun _ => ⟨trivial, trivial, h.no_fault⟩, Or.inl ⟨trivial, trivial⟩⟩
      | cons b bytes =>
        rw [hbytes, List.head?_cons] at hhead
        refine ⟨fun hnothing => by rw [hnothing] at hhead; contradiction, Or.inr (Or.inl ?_)⟩
        simp only [List.length_cons]
        refine fault_check (fault_touch ?_) _
        show s.buffer.length < 0 + (bytes.length + 1)
        rw [hnull, List.length_nil]
        omega

theorem Bare.settled (h : Bare s) : Settled s := fun _ => h.start

/-- One system call for one byte. -/
theorem Bare.freadUnbuffered_one (h : Bare s) :
    (s.file.answer = .fail →
        (freadUnbuffered s 1 1).1.1 = [] ∧ (freadUnbuffered s 1 1).2.error = .error) ∧
      (s.file.answer ≠ .fail → (freadUnbuffered s 1 1).1.1.head? = s.file.content[s.file.offset]? ∧
        (freadUnbuffered s 1 1).2.error = (if s.file.content[s.file.offset]? = none then .eof else s.error) ∧
        (freadUnbuffered s 1 1).2.fault = false) := by
  have hhead := s.file.head?_transfer Nat.one_pos
  rw [freadUnbuffered, Nat.mul_one, readWrapper_eq]
  by_cases hfail : s.file.answer = .fail
  · rw [if_pos hfail]
    exact ⟨fun _ => ⟨rfl, rfl⟩, fun hne => absurd hfail hne⟩
  · rw [if_neg hfail]
    refine ⟨fun hfail' => absurd hfail' hfail, fun _ => ?_⟩
    cases hbytes : s.file.transfer 1 with
    | nil =>
      rw [hbytes, List.head?_nil] at hhead
      rw [← hhead]
      exact ⟨rfl, rfl, h.no_fault⟩
    | cons b bytes =>
      rw [hbytes, List.head?_cons] at hhead
      rw [← hhead]
      exact ⟨rfl, rfl, h.no_fault⟩

/-- A read of one byte for which the window has nothing. -/
theorem commonFread_one (h : Held s) (hslow : ¬ FastGet s) (hclear : s.error = .clear)
    (hwr : s.bufMode.wronly = false) :
    (FlushFails s → (commonFread s 1 1).2.fault = true) ∧
      (¬ FlushFails s →
        (s.bufMode.nbf = false ∧ NoMemory s → (commonFread s 1 1).1.1 = [] ∧ (commonFread s 1 1).2.error = .clear) ∧
        (¬ (s.bufMode.nbf = false ∧ NoMemory s) →
          ((flushedFile s).answer = .fail →
            (commonFread s 1 1).1.1 = [] ∧ (commonFread s 1 1).2.error = .error) ∧
          ((flushedFile s).answer ≠ .fail → OneByte s (commonFread s 1 1)))) := by
  rcases h with hs | hb
  · refine ⟨fun hflush => commonFread_fault hs hclear hwr hflush 1 1, fun hflush => ?_⟩
    obtain ⟨hdenied, hfailed, hdone⟩ := commonFread_slow hs hslow hclear hwr hflush
    have hno_fault := (commonFread_sound hs 1 1 (fun _ _ => hflush)).no_fault
    refine ⟨fun hm => hdenied hm.2, fun hm => ?_⟩
    have hmemory : ¬ NoMemory s := fun hno => hm ⟨hs.buffered, hno⟩
    refine ⟨hfailed hmemory, fun hanswer => ?_⟩
    obtain ⟨hhead, herror⟩ := hdone hmemory hanswer
    refine ⟨fun hnone => ?_, fun b hbyte _ => ?_, fun _ hn => absurd (hs.equipped_iff.mpr hmemory) hn⟩
    · rw [show (flushedFile s).content[(flushedFile s).offset]? = none from hnone] at hhead herror
      exact ⟨List.head?_eq_none_iff.mp hhead, herror, hno_fault⟩
    · rw [show (flushedFile s).content[(flushedFile s).offset]? = some b from hbyte] at hhead herror
      exact ⟨hhead, herror, hno_fault⟩
  · refine ⟨fun hflush => absurd hflush hb.not_flushFails, fun _ => ?_⟩
    have hfile := hb.settled.flushedFile_eq
    cases hnbf : s.bufMode.nbf with
    | true =>
      refine ⟨fun hm => absurd hm.1 (by exact fun h => by contradiction), fun _ => ?_⟩
      have hread : commonFread s 1 1 = freadUnbuffered s 1 1 := by
        rw [commonFread, if_neg (by simp [hclear]), if_neg (by simp [hwr]), if_pos hnbf]
      obtain ⟨hfailed, hdone⟩ := hb.freadUnbuffered_one
      rw [hread, hfile]
      refine ⟨hfailed, fun hanswer => ?_⟩
      obtain ⟨hhead, herror, hno_fault⟩ := hdone hanswer
      refine ⟨fun hnone => ?_, fun b hbyte _ => ?_,
        fun _ hn => absurd (hb.equipped_iff.mpr hnbf) hn⟩
      · rw [fileByte, hfile] at hnone
        rw [hnone] at hhead herror
        exact ⟨List.head?_eq_none_iff.mp hhead, herror, hno_fault⟩
      · rw [fileByte, hfile] at hbyte
        rw [hbyte] at hhead herror
        exact ⟨hhead, herror.trans hclear, hno_fault⟩
    | false =>
      obtain ⟨hlazy, hnone⟩ := hb.unusable.resolve_left (by rw [hnbf]; exact Bool.false_ne_true)
      have hread : Bare { s with prevOp := .read } :=
        hb.answered (fun hop => by contradiction) (fun _ => hwr)
      obtain ⟨hfailed, hdone⟩ := hread.freadBuffered_one hnone
      have hn : ¬ Equipped s := fun he => by
        have hnbf' := hb.equipped_iff.mp he
        rw [hnbf] at hnbf'
        contradiction
      rw [hb.commonFread_eq hnbf hclear hwr, hfile]
      refine ⟨fun hm => absurd ⟨hm.2.1, hm.2.2.1⟩ hlazy, fun _ => ⟨hfailed, fun hanswer => ?_⟩⟩
      obtain ⟨hend, hlost⟩ := hdone hanswer
      refine ⟨fun hnone => ?_, fun b _ he => absurd he hn, fun hsome _ => ?_⟩
      · rw [fileByte, hfile] at hnone
        exact hend hnone
      · rw [fileByte, hfile] at hsome
        rcases hlost with hlost | hlost | hlost
        · exact Or.inl hlost
        · exact Or.inr hlost
        · exact absurd hlost hsome

/-- A read that is refused says so, or said so before. -/
theorem commonFread_refused_one (h : Held s) (hno : ¬ (s.error = .clear ∧ s.bufMode.wronly = false)) :
    (commonFread s 1 1).1.1 = [] ∧ (commonFread s 1 1).2.fault = false ∧
      (commonFread s 1 1).2.error = if s.error = .clear then .error else s.error := by
  obtain ⟨hbytes, hfault⟩ := commonFread_refused hno 1 1
  refine ⟨hbytes, hfault.trans h.no_fault, ?_⟩
  rw [commonFread]
  cases herror : s.error with
  | eof => simp only [herror, true_or, if_true, reduceCtorEq, if_false]
  | error => simp only [herror, or_true, if_true, reduceCtorEq, if_false]
  | clear =>
    have hwr : s.bufMode.wronly = true := by
      rw [← Bool.not_eq_false]
      exact fun hwr => hno ⟨herror, hwr⟩
    simp only [reduceCtorEq, or_self, if_false, hwr, if_true]

/-- A byte that is read is no end of file. -/
theorem commonFread_one_error (h : Held s) (hslow : ¬ FastGet s) {b : Byte}
    (hfault : (commonFread s 1 1).2.fault = false) (hgot : (commonFread s 1 1).1.1.head? = some b) :
    (commonFread s 1 1).2.error = .clear := by
  have hne : (commonFread s 1 1).1.1 ≠ [] := fun hnil => by
    rw [hnil, List.head?_nil] at hgot
    contradiction
  by_cases hgo : s.error = .clear ∧ s.bufMode.wronly = false
  · obtain ⟨hflush, hread⟩ := commonFread_one h hslow hgo.1 hgo.2
    have hno_flush : ¬ FlushFails s := fun hf => by
      rw [hflush hf] at hfault
      contradiction
    obtain ⟨hdenied, hdone⟩ := hread hno_flush
    by_cases hm : s.bufMode.nbf = false ∧ NoMemory s
    · exact absurd (hdenied hm).1 hne
    obtain ⟨hfailed, hone⟩ := hdone hm
    by_cases hanswer : (flushedFile s).answer = .fail
    · exact absurd (hfailed hanswer).1 hne
    have hone := hone hanswer
    cases hbyte : fileByte s with
    | none => exact absurd (hone.none hbyte).1 hne
    | some b' =>
      by_cases he : Equipped s
      · exact (hone.some b' hbyte he).2.1
      · rcases hone.lost (by rw [hbyte]; exact Option.some_ne_none _) he with hlost | hlost
        · exact absurd hlost.1 hne
        · rw [hlost] at hfault
          contradiction
  · exact absurd (commonFread_refused_one h hgo).1 hne

/-! ## The returned value -/

/-- The window's next byte. -/
theorem Held.fast (h : Held s) (hfast : FastGet s) :
    Sound s ∧ ∃ b, s.buffer[s.pos - s.start]? = some b ∧
      ∀ junk, commonFgetc junk s = (intOfChar b, { s with pos := s.pos + 1 }) := by
  rcases h with hs | hb
  · obtain ⟨b, hbyte, -, -, hfgetc⟩ := commonFgetc_fast hs hfast
    exact ⟨hs, b, hbyte, hfgetc⟩
  · exact absurd (hb.start.trans hb.end_.symm) hfast.2.2.1

/-- **What `common_fgetc` returns.** -/
theorem commonFgetc_eq (h : Held s) (junk : Byte) (hfault : (readByte s).2.fault = false) :
    commonFgetc junk s = ((readByte s).1.code junk, (readByte s).2) := by
  refine Prod.ext ?_ (commonFgetc_stream junk s)
  have hstream : ((commonFgetc 0 s).2).fault = false := hfault
  rw [readByte, hstream, if_neg Bool.false_ne_true, gotByte]
  by_cases hfast : FastGet s
  · obtain ⟨-, b, hbyte, hfgetc⟩ := h.fast hfast
    rw [if_pos hfast, hbyte, hfgetc junk]
    rfl
  · rw [commonFgetc_slow hfast] at hstream
    rw [if_neg hfast, commonFgetc_slow hfast, commonFgetc_slow hfast]
    dsimp only at hstream ⊢
    cases hgot : (commonFread s 1 1).1.1.head? with
    | some b =>
      rw [commonFread_one_error h hfast hstream hgot, if_neg (by exact fun h => by contradiction),
        List.headD_eq_head?_getD, hgot]
      rfl
    | none =>
      rw [List.headD_eq_head?_getD, hgot]
      split
      · rfl
      · rfl

/-! ## Transparency -/

/-- The byte that is next: of the window, or of the file. -/
def nextByte (s : Stream) : Option Byte := if FastGet s then s.buffer[s.pos - s.start]? else fileByte s

/-- A byte that is delivered is the next one, and the result is its value. Where none is, the result is EOF,
and an error or the end of the file is why. -/
def GetcRight (s : Stream) : Prop :=
  ∀ junk, (commonFgetc junk s).2.fault = false ∧
    match gotByte s with
    | some b => nextByte s = some b ∧ (commonFgetc junk s).1 = b.toNat
    | none => (commonFgetc junk s).1 = eof ∧
        (s.error ≠ .clear ∨ (commonFgetc junk s).2.error = .error ∨ nextByte s = none)

/-- A read past the window that goes well, of a byte that a `char` has as it is. -/
structure ReadsWell (s : Stream) : Prop where
  clear : s.error = .clear
  access : s.bufMode.wronly = false
  flush : ¬ FlushFails s
  memory : ¬ (s.bufMode.nbf = false ∧ NoMemory s)
  answer : (flushedFile s).answer ≠ .fail
  byte : ∀ b, fileByte s = some b → b < 128 ∧ Equipped s

/-- The next byte of the window is below 128. Or the window has none, and the end of the file is flagged, or
the read goes well. -/
def GetcGood (s : Stream) : Prop :=
  (FastGet s ∧ ∀ b, nextByte s = some b → b < 128) ∨ (¬ FastGet s ∧ (s.error = .eof ∨ ReadsWell s))

theorem intOfChar_eq_iff (b : Byte) : intOfChar b = b.toNat ↔ b < 128 := by
  rw [intOfChar]
  split
  · next h => exact ⟨fun _ => h, fun _ => rfl⟩
  · next h => exact ⟨fun heq => by omega, fun hlt => absurd hlt h⟩

theorem getcRight_fast (h : Held s) (hfast : FastGet s) :
    GetcRight s ↔ ∀ b, nextByte s = some b → b < 128 := by
  obtain ⟨hs, b, hbyte, hfgetc⟩ := h.fast hfast
  have hnext : nextByte s = some b := by rw [nextByte, if_pos hfast, hbyte]
  have hgot : gotByte s = some b := by rw [gotByte, if_pos hfast, hbyte]
  rw [GetcRight, hgot, hnext]
  simp only [hfgetc, hs.no_fault, true_and, forall_const, intOfChar_eq_iff, Option.some.injEq, forall_eq']

theorem getcRight_slow (hslow : ¬ FastGet s) :
    GetcRight s ↔ (commonFread s 1 1).2.fault = false ∧
      ((∃ b, (commonFread s 1 1).1.1.head? = some b ∧ (commonFread s 1 1).2.error ≠ .eof ∧
          fileByte s = some b ∧ b < 128) ∨
        ((commonFread s 1 1).1.1 = [] ∧ (commonFread s 1 1).2.error = .eof ∧
          (s.error ≠ .clear ∨ fileByte s = none))) := by
  rw [GetcRight, gotByte, nextByte, if_neg hslow, if_neg hslow]
  simp only [commonFgetc_slow hslow, List.headD_eq_head?_getD]
  cases hgot : (commonFread s 1 1).1.1.head? with
  | some b =>
    have hne : (commonFread s 1 1).1.1 ≠ [] := fun hnil => by
      rw [hnil, List.head?_nil] at hgot
      contradiction
    have hvalue : ((if (commonFread s 1 1).2.error = .eof then eof else intOfChar b) = (b.toNat : Int)) ↔
        (commonFread s 1 1).2.error ≠ .eof ∧ b < 128 := by
      rw [← intOfChar_eq_iff]
      split
      · next he =>
        have hneg : ¬ eof = (b.toNat : Int) := by
          rw [eof]
          omega
        simp [he, hneg]
      · next he => simp [he]
    simp only [Option.getD_some, forall_const, hvalue, hne, false_and, or_false, Option.some.injEq,
      exists_eq_left', and_left_comm]
  | none =>
    have hnil := List.head?_eq_none_iff.mp hgot
    simp only [Option.getD_none, reduceCtorEq, false_and, exists_false, false_or, hnil, true_and]
    by_cases he : (commonFread s 1 1).2.error = .eof
    · simp only [he, if_true, true_and, reduceCtorEq, false_or, forall_const]
    · simp only [he, if_false, false_and, and_false, iff_false]
      -- what is not initialised need not be EOF
      exact fun hall => absurd (hall 0).2.1 (by decide)

theorem getcRight_slow_iff (h : Held s) (hslow : ¬ FastGet s) :
    GetcRight s ↔ s.error = .eof ∨ ReadsWell s := by
  rw [getcRight_slow hslow]
  by_cases hgo : s.error = .clear ∧ s.bufMode.wronly = false
  · obtain ⟨hclear, hwr⟩ := hgo
    obtain ⟨hflush, hread⟩ := commonFread_one h hslow hclear hwr
    by_cases hf : FlushFails s
    · have hno : ¬ ReadsWell s := fun hw => hw.flush hf
      simp [hflush hf, hclear, hno]
    obtain ⟨hdenied, hdone⟩ := hread hf
    by_cases hm : s.bufMode.nbf = false ∧ NoMemory s
    · have hno : ¬ ReadsWell s := fun hw => hw.memory hm
      simp [hdenied hm, hclear, hno]
    obtain ⟨hfailed, hone⟩ := hdone hm
    by_cases hanswer : (flushedFile s).answer = .fail
    · have hno : ¬ ReadsWell s := fun hw => hw.answer hanswer
      simp [hfailed hanswer, hclear, hno]
    have hone := hone hanswer
    have hwell : ReadsWell s ↔ ∀ b, fileByte s = some b → b < 128 ∧ Equipped s :=
      ⟨fun hw => hw.byte, fun hb => ⟨hclear, hwr, hf, hm, hanswer, hb⟩⟩
    rw [hwell]
    cases hbyte : fileByte s with
    | none => simp [hone.none hbyte]
    | some b =>
      by_cases he : Equipped s
      · simp [hone.some b hbyte he, he, hclear]
      · rcases hone.lost (by rw [hbyte]; exact Option.some_ne_none _) he with hlost | hlost
        · simp [hlost, he, hclear]
        · simp [hlost, he, hclear]
  · obtain ⟨hnil, hfault, herror⟩ := commonFread_refused_one h hgo
    have hno : ¬ ReadsWell s := fun hw => hgo ⟨hw.clear, hw.access⟩
    rw [hnil, herror]
    cases he : s.error with
    | clear => simp [hno]
    | eof => simp [hfault]
    | error => simp [hno]

/-- **Character input.** On every stream that can be reached, `common_fgetc` returns the next byte as a
value in 0..255, and EOF just where there is none, if and only if this holds before. -/
theorem fgetc_transparent_iff (h : Reached s) : GetcRight s ↔ GetcGood s := by
  rw [GetcGood]
  by_cases hfast : FastGet s
  · rw [getcRight_fast h.held hfast]
    simp only [hfast, true_and, not_true_eq_false, false_and, or_false]
  · rw [getcRight_slow_iff h.held hfast]
    simp only [hfast, false_and, false_or, not_false_eq_true, true_and]

/-- A file with one byte, newly opened. -/
def lone (b : Byte) : Stream := createStream ⟨[b], 0, false, []⟩ (getBufMode .rdonly) 2 (some fun _ => 0)

theorem reached_lone (b : Byte) : Reached (lone b) :=
  Reached.of_fopened ⟨⟨[b], 0, false, []⟩, .rdonly, 2, some fun _ => 0, by decide, rfl⟩

theorem fgetc_transparent_lone : GetcRight (lone 97) := by
  apply (fgetc_transparent_iff (reached_lone 97)).mpr
  refine Or.inr ⟨by decide, Or.inr ⟨rfl, rfl, fun hf => absurd hf.1 (by decide), ?_, by decide, ?_⟩⟩
  · rintro ⟨-, -, -, hheap⟩
    exact Option.some_ne_none _ hheap
  · intro b hbyte
    obtain rfl : (97 : Byte) = b := Option.some.inj hbyte
    exact ⟨by decide, Or.inr ⟨by decide, Or.inr ⟨rfl, rfl, Option.some_ne_none _⟩⟩⟩

/-- The byte 0xff is returned as -1, which is EOF. -/
theorem not_fgetc_transparent : ¬ ∀ s, Reached s → GetcRight s := by
  intro h
  have hgot : gotByte (lone 0xff) = some 0xff := by decide
  have hright := (h (lone 0xff) (reached_lone 0xff) 0).2
  rw [hgot] at hright
  exact absurd hright.2 (by decide)

end WindowsLibc.Stdio
