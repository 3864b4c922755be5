import WindowsLibc.Stdio.Getc

/-!
# Lines

`readLine` is what a line reader is for: the bytes of the stream up to and including the first one that
stops it, as far as there is room, a failure or the end of the file. `readLine_unread` says what that is
where nothing fails.

`common_fgets` narrows what `common_fgetc` returns to a `char`, takes 0xff for EOF, and returns its buffer
in any case.

* `fgetsLoop_right_iff` compares its loop with `readLine`.
* `fgets_iff` is about any calls in a row, on any stream that can be reached.
-/

namespace WindowsLibc.Stdio

open WindowsLibc.Lib

variable {s : Stream} {stop : Byte → Bool}

/-! ## A line -/

/-- Why a line ends. -/
inductive LineEnd where
  | stopped
  | full
  | ended
  | failed
  deriving DecidableEq, Repr

/-- The next line, of `room` bytes at most. -/
@[grind =]
def readLine (stop : Byte → Bool) : Nat → Stream → List Byte × LineEnd × Stream
  | 0, s => ([], .full, s)
  | room + 1, s =>
    match readByte s with
    | (.byte b, s) =>
      if stop b then ([b], .stopped, s)
      else
        match readLine stop room s with
        | (bytes, last, s) => (b :: bytes, last, s)
    | (.ended, s) => ([], .ended, s)
    | (.failed, s) => ([], .failed, s)

/-- The line at the beginning of a text. -/
@[grind =]
def takeLine (stop : Byte → Bool) : Nat → List Byte → List Byte
  | 0, _ => []
  | _, [] => []
  | room + 1, b :: text => if stop b then [b] else b :: takeLine stop room text

/-- A call that does not fail keeps the stream. -/
theorem readByte_held (h : Held s) (hfault : (readByte s).2.fault = false) : Held (readByte s).2 := by
  have hkept := apply_held (Or.inl h) (.io (.fgetc 0))
  have heq : StreamCall.apply s (.io (.fgetc 0)) = (readByte s).2 := by
    rw [StreamCall.apply, if_neg (by exact id)]
    rfl
  rw [heq] at hkept
  rcases hkept with hheld | hfault'
  · exact hheld
  · rw [hfault] at hfault'
    contradiction

theorem readByte_no_fault (h : (readByte s).1 ≠ .failed) : (readByte s).2.fault = false := by
  rw [← Bool.not_eq_true]
  intro hfault
  refine h ?_
  rw [readByte]
  exact if_pos hfault

theorem readLine_held (h : Held s) {room : Nat} (hok : (readLine stop room s).2.1 ≠ .failed) :
    Held (readLine stop room s).2.2 := by
  induction room generalizing s with
  | zero => exact h
  | succ room ih =>
    have hkeep := readByte_held h
    have hno_fault := readByte_no_fault (s := s)
    rw [readLine] at hok ⊢
    rcases hread : readByte s with ⟨b | _ | _, s'⟩
    · rw [hread] at hkeep hno_fault hok
      have hheld := hkeep (hno_fault (fun hf => by contradiction))
      dsimp only at hok ⊢
      split
      · exact hheld
      · next hgo =>
        rw [if_neg hgo] at hok
        exact ih hheld hok
    · rw [hread] at hkeep hno_fault
      exact hkeep (hno_fault (fun hf => by contradiction))
    · rw [hread] at hok
      exact absurd rfl hok

/-! ## `fgets.c` -/

/-- The loop of `common_fgets`, `room` being `count - 1 - read_count`. In call `i` the variable of
`common_fgetc` holds `junk i`. -/
@[grind =]
def fgetsLoop (junk : Nat → Byte) : Nat → List Byte → Stream → List Byte × Stream
  | 0, stored, s => (stored, s)
  | room + 1, stored, s =>
    match commonFgetc (junk stored.length) s with
    | (c, s) =>
      let ch := byteOf c
      if intOfChar ch = eof then (stored, s)
      else if ch = 10 then (stored ++ [ch], s)
      else fgetsLoop junk room (stored ++ [ch]) s

/-- `common_fgets`: what it stores at the beginning of the caller's buffer. -/
def commonFgets (junk : Nat → Byte) (count : Nat) (s : Stream) : List Byte × Stream :=
  match fgetsLoop junk (count - 1) [] s with
  | (stored, s) => (stored ++ [0], s)

/-- `wlibc_fgets`; `none` is the result `NULL`. -/
def wlibcFgets (junk : Nat → Byte) (buffer : Bool) (count : Nat) (s : Stream) : Option (List Byte) × Stream :=
  if buffer = false ∨ count < 1 then (none, s)
  else if count = 1 then (some [0], s)
  else
    match commonFgets junk count s with
    | (text, s) => (some text, s)

theorem byteOf_intOfChar (b : Byte) : byteOf (intOfChar b) = b := by
  obtain ⟨⟨b⟩⟩ := b
  revert b
  decide +kernel

theorem intOfChar_eq_eof_iff (b : Byte) : intOfChar b = eof ↔ b = 0xff := by
  obtain ⟨⟨b⟩⟩ := b
  revert b
  decide +kernel

theorem byteOf_eof : byteOf eof = 0xff := by decide

/-! ## The loop -/

/-- What is stored stays. -/
theorem fgetsLoop_length_le (junk : Nat → Byte) (room : Nat) (stored : List Byte) (s : Stream) :
    stored.length ≤ (fgetsLoop junk room stored s).1.length := by
  induction room generalizing s stored with
  | zero => exact Nat.le_refl _
  | succ room ih =>
    rw [fgetsLoop]
    rcases commonFgetc (junk stored.length) s with ⟨c, s'⟩
    dsimp only
    split
    · exact Nat.le_refl _
    split
    · rw [List.length_append]
      exact Nat.le_add_right _ _
    · refine Nat.le_trans ?_ (ih _ s')
      rw [List.length_append]
      exact Nat.le_add_right _ _

/-- The loop stores the line, and leaves the stream behind it. -/
def StoresLine (room : Nat) (stored : List Byte) (s : Stream) : Prop :=
  ∀ junk, fgetsLoop junk room stored s =
      (stored ++ (readLine (· == 10) room s).1, (readLine (· == 10) room s).2.2) ∧
    (readLine (· == 10) room s).2.2.fault = false

/-- **The loop of `common_fgets`.** It stores the line if and only if no byte of it is 0xff and no failure
ends it. -/
theorem fgetsLoop_right_iff (h : Held s) (room : Nat) (stored : List Byte) :
    StoresLine room stored s ↔
      0xff ∉ (readLine (· == 10) room s).1 ∧ (readLine (· == 10) room s).2.1 ≠ .failed := by
  induction room generalizing s stored with
  | zero =>
    simp [StoresLine, fgetsLoop, readLine, h.no_fault]
  | succ room ih =>
    have heq := fun junk => commonFgetc_eq h junk
    have hkeep := readByte_held h
    have hno_fault := readByte_no_fault (s := s)
    rw [StoresLine]
    simp only [fgetsLoop, readLine]
    rcases hread : readByte s with ⟨b | _ | _, s'⟩
    · rw [hread] at hkeep hno_fault
      have hfault : s'.fault = false := hno_fault (fun hf => by contradiction)
      simp only [hread] at heq
      simp only [heq _ hfault, Outcome.code, byteOf_intOfChar, intOfChar_eq_eof_iff, beq_iff_eq]
      by_cases hff : b = 0xff
      · -- 0xff is taken for the end, and lost
        have hstop : ¬ b = 10 := by
          rw [hff]
          decide
        simp [hff]
      by_cases hstop : b = 10
      · simp [hstop, hfault]
      · have hrest := ih (hkeep hfault) (stored ++ [b])
        simp only [StoresLine, List.append_assoc, List.singleton_append] at hrest
        simp only [hff, hstop, if_false, List.mem_cons, not_or, Ne.symm hff, not_false_eq_true, true_and]
        exact hrest
    · rw [hread] at hno_fault
      have hfault : s'.fault = false := hno_fault (fun hf => by contradiction)
      simp only [hread] at heq
      simp [heq _ hfault, Outcome.code, byteOf_eof, intOfChar_eq_eof_iff, hfault]
    · -- with 0 in the variable the loop stores it, and goes on
      simp only [ne_eq, not_true_eq_false, and_false, iff_false]
      intro hall
      obtain ⟨hloop, hfault⟩ := hall (fun _ => 0)
      simp only [hread] at heq
      rw [heq _ hfault] at hloop
      simp only [Outcome.code, byteOf_intOfChar, intOfChar_eq_eof_iff] at hloop
      rw [if_neg (by decide), if_neg (by decide)] at hloop
      have hle := fgetsLoop_length_le (fun _ => 0) room (stored ++ [0]) s'
      rw [hloop] at hle
      simp at hle

/-! ## What there is to read -/

/-- A stream from which reading goes on, or has come to the end of the file. -/
structure Flowing (s : Stream) : Prop where
  held : Held s
  succeeds : s.file.Succeeds
  going : CanRead s ∨ (s.error = .eof ∧ unread s = [])

/-- At the end of the file nothing changes. -/
theorem readByte_eof (h : Held s) (heof : s.error = .eof) (hnil : unread s = []) :
    readByte s = (.ended, s) := by
  have hslow : ¬ FastGet s := by
    rintro ⟨-, hop, -, hne⟩
    rcases h with hs | hb
    · have hpos := hs.pos_le
      have hstart := hs.start_le
      have hlen := Stream.length_load (s := s) (s.pos - s.start) (s.end_ - s.pos) (hs.touch_eq (by omega))
      rw [unread_of_read hop] at hnil
      rw [(List.append_eq_nil_iff.mp hnil).1, List.length_nil] at hlen
      omega
    · exact hne hb.end_.symm
  have hread : commonFread s 1 1 = (([], 0), s) := by rw [commonFread, if_pos (Or.inl heof)]
  rw [readByte, commonFgetc_slow hslow, gotByte, if_neg hslow, hread]
  simp [h.no_fault, heof]

/-- What the next call on such a stream comes to. -/
structure ReadsByte (s : Stream) (o : Outcome) (s' : Stream) : Prop where
  outcome : o = match unread s with
    | [] => .ended
    | b :: _ => .byte b
  left : unread s' = (unread s).tail
  flowing : Flowing s'

/-- On a stream that may be read, both paths of `common_fgetc` do what `common_fread` does. -/
theorem readByte_eq_fread (h : Sound s) (hclear : s.error = .clear) :
    gotByte s = (commonFread s 1 1).1.1.head? ∧ (readByte s).2 = (commonFread s 1 1).2 := by
  by_cases hfast : FastGet s
  · obtain ⟨b, hbyte, hload, -, hfgetc⟩ := commonFgetc_fast h hfast
    rw [gotByte, if_pos hfast, hbyte, commonFread_fast h hfast hclear hload]
    exact ⟨rfl, congrArg Prod.snd (hfgetc 0)⟩
  · rw [gotByte, if_neg hfast]
    exact ⟨rfl, congrArg Prod.snd (commonFgetc_slow hfast 0)⟩

theorem Sound.readsByte (h : Sound s) (hr : CanRead s) (hs : s.file.Succeeds) :
    ReadsByte s (readByte s).1 (readByte s).2 := by
  obtain ⟨hgot, hstream⟩ := readByte_eq_fread h hr.clear
  obtain ⟨hreads, hsound, hsucc, hwr, hmemory, -⟩ :=
    commonFread_reads h ⟨hr.clear, hr.access, h.equipped_iff.mp hr.equipped⟩ hs 1 1
  have hfault : (commonFgetc 0 s).2.fault = false := by
    rw [show (commonFgetc 0 s).2 = (readByte s).2 from rfl, hstream, hsound.no_fault]
  have herror : (commonFgetc 0 s).2.error = (commonFread s 1 1).2.error := by
    rw [show (commonFgetc 0 s).2 = (readByte s).2 from rfl, hstream]
  have houtcome : (readByte s).1 = (unread s).head?.elim
      (if (commonFread s 1 1).2.error = .eof then .ended else .failed) .byte := by
    rw [readByte]
    dsimp only
    rw [hfault, if_neg Bool.false_ne_true, herror, hgot, hreads.delivered, List.head?_take]
    cases (unread s).head? with
    | none => rfl
    | some b => rfl
  have hleft : unread (readByte s).2 = (unread s).tail := by
    rw [hstream, hreads.left, Nat.mul_one, List.drop_one]
  have hcan : (commonFread s 1 1).2.error = .clear → CanRead (commonFread s 1 1).2 :=
    fun hclear => ⟨hclear, hwr, hsound.equipped_iff.mpr hmemory⟩
  have hbytes := hreads.error
  rw [hreads.delivered, hr.clear, List.length_take] at hbytes
  cases hunread : unread s with
  | nil =>
    rw [hunread] at houtcome hbytes hleft
    have heof : (commonFread s 1 1).2.error = .eof := hbytes
    refine ⟨?_, ?_, ?_⟩
    · rw [hunread, houtcome]
      exact if_pos heof
    · rw [hleft, hunread]
    · rw [hstream] at hleft ⊢
      exact ⟨Or.inl hsound, hsucc, Or.inr ⟨heof, hleft⟩⟩
  | cons b rest =>
    rw [hunread] at houtcome hbytes hleft
    rw [List.length_cons, if_pos (by omega)] at hbytes
    refine ⟨?_, ?_, ?_⟩
    · rw [hunread, houtcome]
      rfl
    · rw [hleft, hunread]
    · rw [hstream]
      exact ⟨Or.inl hsound, hsucc, Or.inl (hcan hbytes)⟩

theorem Bare.readsByte (h : Bare s) (hr : CanRead s) (hs : s.file.Succeeds) :
    ReadsByte s (readByte s).1 (readByte s).2 := by
  have hnbf := h.equipped_iff.mp hr.equipped
  have hslow : ¬ FastGet s := fun hfast => hfast.2.2.1 (h.start.trans h.end_.symm)
  have hread : commonFread s 1 1 = freadUnbuffered s 1 1 := by
    rw [commonFread, if_neg (by simp [hr.clear]), if_neg (by simp [hr.access]), if_pos hnbf]
  have hunread := h.unread_eq
  have htransfer : s.file.transfer 1 = (s.file.content.drop s.file.offset).take 1 := by
    rw [OpenFile.transfer]
    split
    · rw [Nat.min_eq_left (by omega)]
    · rfl
  have hfgetc := commonFgetc_slow hslow 0
  rw [hread, freadUnbuffered, Nat.mul_one, readWrapper_eq, if_neg hs.answer_ne, htransfer] at hfgetc
  rw [freadUnbuffered, Nat.mul_one, readWrapper_eq, if_neg hs.answer_ne, htransfer] at hread
  have hstream : (readByte s).2 = (commonFgetc 0 s).2 := rfl
  cases hrest : s.file.content.drop s.file.offset with
  | nil =>
    rw [hrest] at hfgetc hread hunread
    have hbare : Bare { s with
        file := { s.file.answered with offset := s.file.offset + 0 }, error := .eof, prevOp := .read } :=
      h.answered (fun hop => by contradiction) (fun _ => hr.access)
    have hstream' : (readByte s).2 = { s with
        file := { s.file.answered with offset := s.file.offset + 0 }, error := .eof, prevOp := .read } := by
      rw [hstream, hfgetc]
      rfl
    have hleft : unread (readByte s).2 = [] := by
      rw [hstream', hbare.unread_eq]
      exact hrest
    refine ⟨?_, ?_, ?_⟩
    · rw [hunread, readByte, hfgetc, gotByte, if_neg hslow, hread]
      simp [h.no_fault]
    · rw [hleft, hunread]
      rfl
    · refine ⟨?_, ?_, Or.inr ⟨?_, hleft⟩⟩
      · rw [hstream']
        exact Or.inr hbare
      · rw [hstream']
        exact hs.answered
      · rw [hstream']
  | cons b rest =>
    rw [hrest] at hfgetc hread hunread
    have hbare : Bare { s with
        file := { s.file.answered with offset := s.file.offset + 1 }, error := s.error
        start := s.pos + 1, end_ := s.pos + 1, pos := s.pos + 1, prevOp := .read } :=
      h.move (fun hop => by contradiction) (fun _ => hr.access)
    have hstream' : (readByte s).2 = { s with
        file := { s.file.answered with offset := s.file.offset + 1 }, error := s.error
        start := s.pos + 1, end_ := s.pos + 1, pos := s.pos + 1, prevOp := .read } := by
      rw [hstream, hfgetc]
      rfl
    refine ⟨?_, ?_, ?_⟩
    · rw [hunread, readByte, hfgetc, gotByte, if_neg hslow, hread]
      simp [h.no_fault]
    · rw [hstream', hbare.unread_eq, hunread, List.tail_cons]
      show s.file.content.drop (s.file.offset + 1) = rest
      rw [← List.drop_drop, hrest]
      rfl
    · rw [hstream']
      exact ⟨Or.inr hbare, hs.answered, Or.inl ⟨hr.clear, hr.access, Or.inl hnbf⟩⟩

theorem Flowing.readsByte (h : Flowing s) : ReadsByte s (readByte s).1 (readByte s).2 := by
  rcases h.going with hr | ⟨heof, hnil⟩
  · rcases h.held with hs | hb
    · exact hs.readsByte hr h.succeeds
    · exact hb.readsByte hr h.succeeds
  · rw [readByte_eof h.held heof hnil]
    refine ⟨?_, ?_, h⟩
    · rw [hnil]
    · rw [hnil]
      rfl

/-- **A line is the beginning of what there is to read.** -/
theorem readLine_unread (stop : Byte → Bool) (h : Flowing s) (room : Nat) :
    (readLine stop room s).1 = takeLine stop room (unread s) ∧
      (readLine stop room s).2.1 ≠ .failed ∧ Flowing (readLine stop room s).2.2 ∧
      unread s = (readLine stop room s).1 ++ unread (readLine stop room s).2.2 := by
  induction room generalizing s with
  | zero => exact ⟨rfl, fun hf => by contradiction, h, rfl⟩
  | succ room ih =>
    obtain ⟨houtcome, hleft, hflowing⟩ := h.readsByte
    rw [readLine]
    rcases hread : readByte s with ⟨o, s'⟩
    rw [hread] at houtcome hleft hflowing
    dsimp only at houtcome hleft hflowing
    cases hunread : unread s with
    | nil =>
      rw [hunread] at houtcome hleft
      subst houtcome
      exact ⟨rfl, fun hf => by contradiction, hflowing, hleft.symm⟩
    | cons b rest =>
      rw [hunread] at houtcome hleft
      subst houtcome
      rw [List.tail_cons] at hleft
      dsimp only
      rw [takeLine]
      split
      · refine ⟨rfl, fun hf => by contradiction, hflowing, ?_⟩
        rw [hleft]
        rfl
      · obtain ⟨hline, hok, hflowing', hrest⟩ := ih hflowing
        rw [hleft] at hline hrest
        refine ⟨?_, hok, hflowing', ?_⟩
        · rw [← hline]
        · rw [hrest]
          rfl

/-- The next line, however long it is. -/
def wholeLine (stop : Byte → Bool) (s : Stream) : List Byte × LineEnd × Stream :=
  readLine stop ((unread s).length + 1) s

theorem takeLine_of_le {room : Nat} {text : List Byte} (h : text.length ≤ room) :
    takeLine stop room text = takeLine stop text.length text := by
  induction text generalizing room with
  | nil => cases room <;> rfl
  | cons b text ih =>
    cases room with
    | zero => exact absurd h (Nat.not_succ_le_zero _)
    | succ room =>
      rw [List.length_cons, takeLine, takeLine, ih (Nat.le_of_succ_le_succ h)]

theorem readLine_end (h : Flowing s) {room : Nat} (hroom : (unread s).length < room) :
    (readLine stop room s).2.1 = if (unread s).any stop then .stopped else .ended := by
  induction room generalizing s with
  | zero => exact absurd hroom (Nat.not_lt_zero _)
  | succ room ih =>
    obtain ⟨houtcome, hleft, hflowing⟩ := h.readsByte
    rw [readLine]
    rcases hread : readByte s with ⟨o, s'⟩
    rw [hread] at houtcome hleft hflowing
    dsimp only at houtcome hleft hflowing
    cases hunread : unread s with
    | nil =>
      rw [hunread] at houtcome
      subst houtcome
      rfl
    | cons b rest =>
      rw [hunread] at houtcome hleft hroom
      subst houtcome
      rw [List.tail_cons] at hleft
      rw [List.length_cons] at hroom
      rw [List.any_cons]
      dsimp only
      by_cases hstop : stop b = true
      · rw [if_pos hstop, hstop, Bool.true_or]
        rfl
      · have hrest := ih hflowing (by rw [hleft]; omega)
        rw [hleft] at hrest
        rw [if_neg hstop, Bool.not_eq_true _ |>.mp hstop, Bool.false_or]
        exact hrest

/-- **The whole line** of a stream that nothing fails on. It ends where the first byte stops it, or the file
ends. -/
theorem wholeLine_unread (h : Flowing s) :
    (wholeLine stop s).1 = takeLine stop (unread s).length (unread s) ∧
      (wholeLine stop s).2.1 = if (unread s).any stop then .stopped else .ended := by
  refine ⟨?_, readLine_end h (Nat.lt_succ_self _)⟩
  rw [wholeLine, (readLine_unread stop h _).1, takeLine_of_le (Nat.le_succ _)]

/-! ## Calls in a row -/

/-- A count with room for a byte. -/
abbrev LineCount := { count : Nat // 2 ≤ count }

/-- The call stores the line and NUL, and leaves the stream behind the line. It returns NULL if there is no
line. -/
def FgetsRight (s : Stream) (count : LineCount) : Prop :=
  ∀ junk, wlibcFgets junk true count.1 s =
      (if (readLine (· == 10) (count.1 - 1) s).1 = [] then none
        else some ((readLine (· == 10) (count.1 - 1) s).1 ++ [0]),
        (readLine (· == 10) (count.1 - 1) s).2.2) ∧
    (readLine (· == 10) (count.1 - 1) s).2.2.fault = false

/-- There is a line, without the byte 0xff, and no failure ends it. -/
structure FgetsGood (s : Stream) (count : LineCount) : Prop where
  line : (readLine (· == 10) (count.1 - 1) s).1 ≠ []
  plain : 0xff ∉ (readLine (· == 10) (count.1 - 1) s).1
  ok : (readLine (· == 10) (count.1 - 1) s).2.1 ≠ .failed

theorem wlibcFgets_eq (junk : Nat → Byte) (count : LineCount) (s : Stream) :
    wlibcFgets junk true count.1 s =
      (some ((fgetsLoop junk (count.1 - 1) [] s).1 ++ [0]), (fgetsLoop junk (count.1 - 1) [] s).2) := by
  have hcount := count.2
  rw [wlibcFgets, if_neg (by simp; omega), if_neg (by omega), commonFgets]

theorem fgetsRight_iff (h : Held s) (count : LineCount) : FgetsRight s count ↔ FgetsGood s count := by
  have hloop := fgetsLoop_right_iff h (count.1 - 1) []
  have hgood : FgetsGood s count ↔ (readLine (· == 10) (count.1 - 1) s).1 ≠ [] ∧
      StoresLine (count.1 - 1) [] s := by
    rw [hloop]
    exact ⟨fun hg => ⟨hg.line, hg.plain, hg.ok⟩, fun hg => ⟨hg.1, hg.2.1, hg.2.2⟩⟩
  rw [hgood, FgetsRight, StoresLine]
  simp only [wlibcFgets_eq, List.nil_append]
  by_cases hline : (readLine (· == 10) (count.1 - 1) s).1 = []
  · -- NULL is never returned
    simp only [hline, ne_eq, not_true_eq_false, false_and, iff_false]
    intro hall
    have hnull := congrArg Prod.fst (hall (fun _ => 0)).1
    contradiction
  · simp only [if_neg hline]
    simp only [ne_eq, hline, not_false_eq_true, true_and, Prod.ext_iff, Option.some.injEq,
      List.append_cancel_right_eq]

/-- `wlibc_fgets` again and again, with a buffer. -/
def fgetsCalls (junk : Nat → Byte) : Machine Stream LineCount (Option (List Byte)) where
  step s count := some ((wlibcFgets junk true count.1 s).2, (wlibcFgets junk true count.1 s).1)

theorem FgetsGood.step (h : Held s) {count : LineCount} (hg : FgetsGood s count) (junk : Nat → Byte) :
    (fgetsCalls junk).step s count = some ((readLine (· == 10) (count.1 - 1) s).2.2,
      some ((readLine (· == 10) (count.1 - 1) s).1 ++ [0])) := by
  have hright := ((fgetsRight_iff h count).mpr hg junk).1
  rw [if_neg hg.line] at hright
  show some _ = some _
  rw [hright]

/-- Calls that are right deliver what there is to read, in order, each byte once. -/
theorem fgets_once (junk : Nat → Byte) {counts : List LineCount} (h : Flowing s)
    (hgood : (fgetsCalls junk).Along FgetsGood s counts) :
    ∃ (s' : Stream) (lines : List (List Byte)),
      (fgetsCalls junk).run s counts = some (s', lines.map (fun line => some (line ++ [0]))) ∧
        unread s = lines.flatten ++ unread s' := by
  induction counts generalizing s with
  | nil => exact ⟨s, [], rfl, rfl⟩
  | cons count counts ih =>
    have hstep := hgood.1.step h.held junk
    obtain ⟨-, -, hflowing, hunread⟩ := readLine_unread (· == 10) h (count.1 - 1)
    obtain ⟨s', lines, hrun, hrest⟩ := ih hflowing (hgood.2 _ _ hstep)
    refine ⟨s', (readLine (· == 10) (count.1 - 1) s).1 :: lines, ?_, ?_⟩
    · rw [Machine.run_cons hstep, hrun]
      rfl
    · rw [hunread, hrest, List.flatten_cons, List.append_assoc]

/-- **Lines.** In any calls of `wlibc_fgets` in a row, from any stream that can be reached, every call does
what it should if and only if each finds a line, without the byte 0xff and without a failure. Such calls
deliver what a stream that nothing fails on has to offer, each byte once. -/
theorem fgets_iff (h : Reached s) (junk : Nat → Byte) (counts : List LineCount) :
    ((fgetsCalls junk).Along FgetsRight s counts ↔ (fgetsCalls junk).Along FgetsGood s counts) ∧
      (CanRead s → s.file.Succeeds → (fgetsCalls junk).Along FgetsGood s counts →
        ∃ (s' : Stream) (lines : List (List Byte)),
          (fgetsCalls junk).run s counts = some (s', lines.map (fun line => some (line ++ [0]))) ∧
            unread s = lines.flatten ++ unread s') := by
  refine ⟨?_, fun hr hs => fgets_once junk ⟨h.held, hs, Or.inl hr⟩⟩
  refine Machine.along_iff (M := fgetsCalls junk) (I := Held) (fun s count hheld => fgetsRight_iff hheld count) ?_
    counts h.held
  intro s count s' o hheld hgood hstep
  rw [hgood.step hheld junk] at hstep
  cases hstep
  exact readLine_held hheld hgood.ok

/-- The lines "a" and "b" of a file of three bytes, with room for one byte each time after the first. -/
theorem fgets_two_lines :
    (fgetsCalls fun _ => 0).Along FgetsRight
      (createStream ⟨[97, 10, 98], 0, false, []⟩ (getBufMode .rdonly) 2 (some fun _ => 0))
      [⟨4, by decide⟩, ⟨2, by decide⟩] := by
  apply (fgets_iff (Reached.of_fopened ⟨⟨[97, 10, 98], 0, false, []⟩, .rdonly, 2, some fun _ => 0, by decide, rfl⟩)
    (fun _ => 0) _).1.mpr
  refine ⟨⟨by decide, by decide, by decide⟩, fun s' o hstep => ?_⟩
  cases hstep
  exact ⟨⟨by decide, by decide, by decide⟩, fun _ _ _ => trivial⟩

/-- At the end of the file the empty string is returned, for NULL. -/
theorem not_fgets : ¬ ∀ s, Reached s → ∀ count, FgetsRight s count := by
  intro h
  have hright := (h _ (Reached.of_fopened ⟨⟨[], 0, false, []⟩, .rdonly, 2, some fun _ => 0, by decide, rfl⟩)
    ⟨2, by decide⟩ (fun _ => 0)).1
  exact absurd (congrArg Prod.fst hright) (by decide)

end WindowsLibc.Stdio
