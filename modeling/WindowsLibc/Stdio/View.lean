import WindowsLibc.Lib.Observe
import WindowsLibc.Stdio.Written

/-!
# What later reads and writes see of a stream

A `View` is all of a stream that reads and writes depend on when the kernel grants everything: the file
as a flush would leave it, what there is to read, where the next write goes, the position and the flags.
The buffer and its window are not in it.

* `transferMachine` makes reads and writes on a stream, `viewMachine` on a view.
* `observe_view`: a sound stream answers as its view does, whatever the window, unless the window has been
  shortened, or a flag is set while the fast paths of `fgetc` and `fputc`, which do not look at it, are open.
* `Same` says what two views may differ in when the stream is not open for reading, or not for writing,
  or when a flag is set. `same_iff`: those differences, and no others, are never seen.
-/

namespace WindowsLibc.Stdio

open WindowsLibc.Lib

/-! ## The calls -/

inductive Transfer where
  | fread (size count : Nat)
  | fwrite (b : Block)
  | fputc (ch : Byte)
  | fgetc (junk : Byte)

/-- The stream is open for the call. -/
def Transfer.Permitted (rdonly wronly : Bool) : Transfer → Prop
  | .fread _ _ | .fgetc _ => wronly = false
  | .fwrite _ | .fputc _ => rdonly = false

/-- Bytes delivered, the result, and `ftell` after the call. -/
@[ext]
structure Served where
  bytes : List Byte
  result : Int
  pos : Nat
  deriving DecidableEq, Repr

/-- The result of `fputc`. -/
def putcResult (ch : Byte) (items : Nat) : Int := if items = 1 then ch.toNat else eof

/-- The result of `fgetc`, when the bytes are those of a `fread`. -/
def getcResult (junk : Byte) (bytes : List Byte) (e : StreamError) : Int :=
  if e = .eof then eof else intOfChar (bytes.headD junk)

/-- A call on a stream. A transfer of nothing returns at once. -/
def Transfer.serve (s : Stream) : Transfer → Served × Stream
  | .fread size count =>
    if size * count = 0 then (⟨[], 0, s.pos⟩, s)
    else
      let r := commonFread s size count
      (⟨r.1.1, r.1.2, r.2.pos⟩, r.2)
  | .fwrite b =>
    if b.data = [] then (⟨[], 0, s.pos⟩, s)
    else
      let r := commonFwrite s b
      (⟨[], r.1, r.2.pos⟩, r.2)
  | .fputc ch =>
    let r := commonFputc s ch
    (⟨[], if r.1.isSome then ch.toNat else eof, r.2.pos⟩, r.2)
  | .fgetc junk =>
    let r := commonFgetc junk s
    (⟨[], r.1, r.2.pos⟩, r.2)

/-- Reads and writes on a stream. It is over when something goes wrong in memory. -/
def transferMachine : Machine Stream Transfer Served where
  step s c := if (c.serve s).2.fault then none else some ((c.serve s).2, (c.serve s).1)

/-! ## Views -/

structure View where
  /-- The file, once what is pending has been sent. -/
  content : List Byte
  /-- What there is to read. -/
  ahead : List Byte
  /-- Where the next write goes. -/
  place : Nat
  /-- The position from which the next write counts. -/
  base : Nat
  pos : Nat
  error : StreamError
  append : Bool

namespace View

/-- Where a write goes after a read. -/
def behindRead (v : View) (pos : Nat) : Nat := if v.append then v.content.length else pos

def fread (v : View) (n : Nat) : List Byte × View :=
  if v.error ≠ .clear then ([], v)
  else
    let bytes := v.ahead.take n
    let pos := v.pos + bytes.length
    (bytes, { v with
      ahead := v.ahead.drop n
      place := v.behindRead pos
      base := v.behindRead pos
      pos := pos
      error := if bytes.length = n then v.error else .eof })

def fwrite (v : View) (b : Block) : Nat × View :=
  if v.error = .error then (0, v)
  else
    let content := overwrite v.content v.place b.data
    (b.count, { v with
      content := content
      ahead := content.drop (v.place + b.data.length)
      place := v.place + b.data.length
      base := v.base + b.data.length
      pos := v.base + b.data.length })

end View

def Transfer.view (v : View) : Transfer → Served × View
  | .fread size count =>
    if size * count = 0 then (⟨[], 0, v.pos⟩, v)
    else
      let r := v.fread (size * count)
      (⟨r.1, ↑(r.1.length / size), r.2.pos⟩, r.2)
  | .fwrite b =>
    if b.data = [] then (⟨[], 0, v.pos⟩, v)
    else
      let r := v.fwrite b
      (⟨[], r.1, r.2.pos⟩, r.2)
  | .fputc ch =>
    let r := v.fwrite (.single ch)
    (⟨[], putcResult ch r.1, r.2.pos⟩, r.2)
  | .fgetc junk =>
    let r := v.fread 1
    (⟨[], getcResult junk r.1 r.2.error, r.2.pos⟩, r.2)

def viewMachine : Machine View Transfer Served where
  step v c := some ((c.view v).2, (c.view v).1)

theorem viewMachine_step (v : View) (c : Transfer) :
    viewMachine.step v c = some ((c.view v).2, (c.view v).1) := rfl

/-- The view of a stream. -/
def viewOf (s : Stream) : View where
  content := (flushedFile s).content
  ahead := unread s
  place := place s
  base := base s
  pos := s.pos
  error := s.error
  append := s.file.append

variable {s : Stream}

/-! ## Reading -/

/-- The item count is that of the bytes delivered. -/
theorem freadLast_items (hlen : s.buffer.length = s.bufSize) (size dataSize : Nat) (got : List Byte) :
    (freadLast s size dataSize got).1.2 = (freadLast s size dataSize got).1.1.length / size := by
  obtain ⟨last, f, e, buf, hfill, hbuf, hlast, -⟩ :=
    freadFill_ends (dataSize - got.length) (s.bufSize + 1) 0 s hlen (Nat.zero_le _) (by omega)
  rw [freadLast, hfill]
  cases last with
  | zero => rfl
  | succ last =>
    simp only [List.length_append]
    rw [Stream.length_load 0 _ (by dsimp only; omega)]

theorem freadBuffered_items (h : Sound s) (hb : Backed s) {size count : Nat} (hsome : 0 < size * count) :
    (freadBuffered s size count).1.2 = (freadBuffered s size count).1.1.length / size := by
  have hstart := h.start_le
  have hpos := h.pos_le
  simp only [freadBuffered, Stream.checkWindow_of_le hstart hpos, sub64_of_le hstart, sub64_of_le hpos]
  split
  · next hfit =>
    rw [Stream.length_load _ _ (h.touch_eq (by omega)),
      Nat.mul_div_cancel_left _ (Nat.pos_of_mul_pos_right hsome)]
  · next hpast =>
    have hheld : (if s.pos < s.end_ then s.load (s.pos - s.start) (s.end_ - s.pos) else []).length ≤
        s.end_ - s.pos := by
      split
      · rw [Stream.length_load _ _ (h.touch_eq (by omega))]
      · exact Nat.zero_le _
    have htouch : (if s.pos < s.end_ then s.touch (s.pos - s.start) (s.end_ - s.pos) else s) = s := by
      split
      · exact Stream.touch_of_le (h.touch_eq (by omega))
      · rfl
    rw [htouch]
    obtain ⟨got, more, f, e, hdirect, -⟩ := freadDirect_ends (size * count) (size * count + 1)
      (if s.pos < s.end_ then s.load (s.pos - s.start) (s.end_ - s.pos) else []) s h.one_le_bufSize
      (by omega) (by omega)
    rw [hdirect]
    cases more with
    | false => rfl
    | true => exact freadLast_items (by exact hb.length_buffer) _ _ _

/-! ### The kernel goes on granting -/

theorem readWrapper_granted (hf : s.file.Granted) (n : Nat) : (readWrapper s n).2.file.Granted := by
  rw [readWrapper_eq, if_neg hf.succeeds.answer_ne, hf.answered]
  exact hf

theorem freadDirect_granted (dataSize : Nat) (fuel : Nat) (got : List Byte) (hf : s.file.Granted) :
    (freadDirect dataSize fuel got s).2.2.file.Granted := by
  induction fuel generalizing got s with
  | zero => exact hf
  | succ fuel ih =>
    have hread := readWrapper_granted hf s.bufSize
    rw [freadDirect]
    split
    · split
      · next heq =>
        rw [heq] at hread
        exact hread
      · next heq =>
        rw [heq] at hread
        exact ih _ hread
    · exact hf

theorem freadFill_granted (need fuel last : Nat) (hf : s.file.Granted) :
    (freadFill need fuel last s).2.file.Granted := by
  induction fuel generalizing last s with
  | zero => exact hf
  | succ fuel ih =>
    have hread := readWrapper_granted hf (s.bufSize - last)
    rw [freadFill]
    split
    · split
      · next heq =>
        rw [heq] at hread
        exact hread
      · next heq =>
        rw [heq] at hread
        exact ih _ hread
    · exact hf

theorem freadLast_granted (size dataSize : Nat) (got : List Byte) (hf : s.file.Granted) :
    (freadLast s size dataSize got).2.file.Granted := by
  have hfill := freadFill_granted (dataSize - got.length) (s.bufSize + 1) 0 hf
  rw [freadLast]
  split
  · next heq =>
    rw [heq] at hfill
    exact hfill
  · next heq =>
    rw [heq] at hfill
    exact hfill

theorem freadBuffered_granted (size count : Nat) (hf : s.file.Granted) :
    (freadBuffered s size count).2.file.Granted := by
  rw [freadBuffered]
  dsimp only
  split
  · exact hf
  · -- with the rest of the window or without
    split
    · split
      · exact freadLast_granted _ _ _ (freadDirect_granted _ _ _ hf)
      · exact freadDirect_granted _ _ _ hf
    · split
      · exact freadLast_granted _ _ _ (freadDirect_granted _ _ _ hf)
      · exact freadDirect_granted _ _ _ hf

/-! ## Streams that are what they show -/

/-- The kernel and the heap grant everything, the window has not been shortened, and the fast paths are
shut where a flag should be looked at. -/
structure Plain (s : Stream) : Prop extends Sound s where
  granted : s.file.Granted
  memory : ¬ NoMemory s
  whole : s.error ≠ .error → s.prevOp = .write → Whole s
  flagged : s.error = .error ∨ (s.error = .eof ∧ s.prevOp = .read) → s.pos = s.end_

/-- The next stream is what the next view shows. -/
structure Follows (s s' : Stream) (v : View) : Prop where
  plain : Plain s'
  view : viewOf s' = v
  rdonly : s'.bufMode.rdonly = s.bufMode.rdonly
  wronly : s'.bufMode.wronly = s.bufMode.wronly

theorem Plain.follows (h : Plain s) : Follows s s (viewOf s) := ⟨h, rfl, rfl, rfl⟩

/-- Reading. -/
theorem Plain.fread (h : Plain s) (hwr : s.bufMode.wronly = false) {size count : Nat}
    (hsome : 0 < size * count) :
    (commonFread s size count).1 = (((viewOf s).fread (size * count)).1,
        ((viewOf s).fread (size * count)).1.length / size) ∧
      Follows s (commonFread s size count).2 ((viewOf s).fread (size * count)).2 := by
  by_cases hclear : s.error = .clear
  · have hreadable : Readable s := ⟨hclear, hwr, h.memory⟩
    obtain ⟨hreads, hsound, -, -, hmemory, -⟩ :=
      commonFread_reads h.toSound hreadable h.granted.succeeds size count
    obtain ⟨s₁, heq, hready⟩ := commonFread_ready h.toSound hreadable h.granted.succeeds size count
    have hgranted₁ : s₁.file.Granted := by
      rw [hready.file, flushedFile_put h.toSound h.granted]
      exact OpenFile.put_granted h.granted _
    obtain ⟨-, hon⟩ := freadBuffered_sound hready.sound hready.backed hready.prevOp size count
    have hitems := freadBuffered_items hready.sound hready.backed hsome
    have hgranted := freadBuffered_granted size count hgranted₁
    have happend : (commonFread s size count).2.file.append = s.file.append := by
      rw [heq, hon.append, hready.file, flushedFile_append h.toSound h.granted]
    rw [← heq] at hitems hgranted hon
    have hview : (viewOf s).fread (size * count) = ((commonFread s size count).1.1,
        { viewOf s with
          ahead := (unread s).drop (size * count)
          place := (viewOf s).behindRead (commonFread s size count).2.pos
          base := (viewOf s).behindRead (commonFread s size count).2.pos
          pos := (commonFread s size count).2.pos
          error := (commonFread s size count).2.error }) := by
      rw [View.fread, if_neg (fun hne => hne hclear), hreads.pos, hreads.error, hreads.delivered]
      rfl
    rw [hview]
    refine ⟨Prod.ext rfl hitems, ⟨hsound, hgranted, hmemory, ?_, ?_⟩, ?_, ?_, ?_⟩
    · intro _ hop
      rw [hreads.prevOp] at hop
      contradiction
    · -- a read that comes to the end of the file leaves nothing in the window
      intro hflag
      have hshort : (commonFread s size count).1.1.length ≠ size * count := by
        intro hall
        rw [hreads.error, if_pos hall, hclear] at hflag
        rcases hflag with hflag | hflag
        · contradiction
        · exact absurd hflag.1 (fun heof => by contradiction)
      have hend : unread (commonFread s size count).2 = [] := by
        rw [hreads.left]
        refine List.drop_eq_nil_of_le ?_
        rw [hreads.delivered, List.length_take] at hshort
        omega
      have hstart := hsound.start_le
      have hpos := hsound.pos_le
      have hwindow := Stream.length_load ((commonFread s size count).2.pos - (commonFread s size count).2.start)
        ((commonFread s size count).2.end_ - (commonFread s size count).2.pos) (hsound.touch_eq (by omega))
      rw [unread_of_read hreads.prevOp] at hend
      rw [(List.append_eq_nil_iff.mp hend).1, List.length_nil] at hwindow
      omega
    · have hne : (commonFread s size count).2.prevOp ≠ .write := by
        rw [hreads.prevOp]
        exact fun h => by contradiction
      have hbehind : base (commonFread s size count).2 =
          (viewOf s).behindRead (commonFread s size count).2.pos := by
        rw [base, View.behindRead, happend, hreads.content]
        show _ = if s.file.append = true then _ else _
        by_cases happ : s.file.append = true
        · rw [if_pos ⟨hne, happ⟩, if_pos happ]
          rfl
        · rw [if_neg (fun hc => happ hc.2), if_neg happ]
      have hplace : place (commonFread s size count).2 =
          (viewOf s).behindRead (commonFread s size count).2.pos := by
        rw [place, View.behindRead, flushedFile_of_ne hne, OpenFile.target, happend, hreads.content]
        show _ = if s.file.append = true then _ else _
        by_cases happ : s.file.append = true
        · rw [if_neg (fun hc => by rw [happ] at hc; exact absurd hc.2 (fun h => by contradiction)),
            if_pos happ, if_pos happ]
          rfl
        · rw [if_pos ⟨hreads.prevOp, by simpa using happ⟩, if_neg happ]
      rw [viewOf, hbehind, hplace, flushedFile_of_ne hne, hreads.content, hreads.left, happend]
      rfl
    · rw [hon.bufMode, hready.rdonly]
    · rw [hon.bufMode, hready.wronly]
  · have hrefused : commonFread s size count = (([], 0), s) := by
      rw [commonFread, if_pos]
      cases herror : s.error with
      | clear => exact absurd herror hclear
      | eof => exact Or.inl rfl
      | error => exact Or.inr rfl
    have hview : (viewOf s).fread (size * count) = ([], viewOf s) := by
      rw [View.fread, if_pos (by exact hclear)]
    rw [hrefused, hview]
    exact ⟨by rw [List.length_nil, Nat.zero_div], h.follows⟩

/-- Writing. -/
theorem Plain.fwrite (h : Plain s) (hrd : s.bufMode.rdonly = false) {b : Block} (hne : b.data ≠ []) :
    (commonFwrite s b).1 = ((viewOf s).fwrite b).1 ∧
      Follows s (commonFwrite s b).2 ((viewOf s).fwrite b).2 := by
  by_cases herror : s.error = .error
  · have hrefused : commonFwrite s b = (0, s) := by rw [commonFwrite, if_pos herror]
    have hview : (viewOf s).fwrite b = (0, viewOf s) := by
      rw [View.fwrite, if_pos (by exact herror)]
    rw [hrefused, hview]
    exact ⟨rfl, h.follows⟩
  · obtain ⟨hcount, hwrites, hon⟩ :=
      commonFwrite_put h.toSound ⟨herror, hrd, h.memory, h.whole herror⟩ h.granted hne
    have hview : (viewOf s).fwrite b = (b.count, { viewOf s with
        content := (flushedFile (commonFwrite s b).2).content
        ahead := (flushedFile (commonFwrite s b).2).content.drop (place s + b.data.length)
        place := place s + b.data.length
        base := base s + b.data.length
        pos := base s + b.data.length }) := by
      rw [View.fwrite, if_neg (by exact herror), hwrites.content]
      rfl
    rw [hview]
    have hop := hwrites.prevOp
    refine ⟨hcount, ⟨hon.sound, hon.granted, hon.memory, fun _ _ => hon.whole, ?_⟩, ?_, hon.rdonly,
      hon.wronly⟩
    · rintro (herr | ⟨-, hread⟩)
      · rw [hwrites.error] at herr
        exact absurd herr herror
      · rw [hop] at hread
        contradiction
    · have hunread : unread (commonFwrite s b).2 =
          (flushedFile (commonFwrite s b).2).content.drop (place s + b.data.length) := by
        rw [unread, windowRest, if_neg (by rw [hop]; exact fun h => by contradiction), List.nil_append,
          hwrites.offset]
      have hplace : place (commonFwrite s b).2 = place s + b.data.length := by
        rw [place, if_neg (by rw [hop]; exact fun h => absurd h.1 (fun h => by contradiction)),
          hwrites.target]
      have hbase : base (commonFwrite s b).2 = base s + b.data.length := by
        rw [base, if_neg (fun h => h.1 hop), hwrites.pos]
      rw [viewOf, hunread, hplace, hbase, hwrites.pos, hwrites.error, hon.append]
      rfl

theorem Plain.fputc (h : Plain s) (hrd : s.bufMode.rdonly = false) (ch : Byte) :
    ((Transfer.fputc ch).serve s).1 = ((Transfer.fputc ch).view (viewOf s)).1 ∧
      Follows s ((Transfer.fputc ch).serve s).2 ((Transfer.fputc ch).view (viewOf s)).2 := by
  obtain ⟨hitems, hon⟩ := h.fwrite hrd (b := .single ch) (List.cons_ne_nil _ _)
  have hpos := congrArg View.pos hon.view
  by_cases hfast : FastPut s
  · have herror : s.error ≠ .error := fun herr => hfast.2.2.2 (h.flagged (Or.inl herr))
    have hsame := commonFputc_eq_fwrite h.toSound hfast herror ch
    have hresult : (commonFputc s ch).1 = some ch := by
      rw [commonFputc_fast (h.backed hfast.2.2.1) h.toWindow ch hfast]
    have hview : ((viewOf s).fwrite (.single ch)).1 = 1 := by
      rw [View.fwrite, if_neg (by exact herror)]
      rfl
    simp only [Transfer.serve, Transfer.view]
    rw [hresult, hsame, hview]
    exact ⟨Served.ext rfl rfl hpos, hon⟩
  · simp only [Transfer.serve, Transfer.view]
    rw [commonFputc_slow hfast, hitems]
    refine ⟨Served.ext rfl ?_ hpos, hon⟩
    rw [putcResult]
    split
    · rfl
    · rfl

theorem Plain.fgetc (h : Plain s) (hwr : s.bufMode.wronly = false) (junk : Byte) :
    ((Transfer.fgetc junk).serve s).1 = ((Transfer.fgetc junk).view (viewOf s)).1 ∧
      Follows s ((Transfer.fgetc junk).serve s).2 ((Transfer.fgetc junk).view (viewOf s)).2 := by
  obtain ⟨hread, hon⟩ := @Plain.fread s h hwr 1 1 Nat.one_pos
  rw [Nat.mul_one] at hread hon
  have hpos := congrArg View.pos hon.view
  have herror := congrArg View.error hon.view
  have hbytes := congrArg Prod.fst hread
  by_cases hfast : FastGet s
  · obtain ⟨b, -, hload, -, hfgetc⟩ := commonFgetc_fast h.toSound hfast
    have hclear : s.error = .clear := by
      cases herr : s.error with
      | clear => rfl
      | eof => exact absurd (h.flagged (Or.inr ⟨herr, hfast.2.1⟩)) hfast.2.2.2
      | error => exact absurd (h.flagged (Or.inl herr)) hfast.2.2.2
    have hone := commonFread_fast h.toSound hfast hclear hload
    rw [hone] at hbytes hpos herror hon
    simp only [Transfer.serve, Transfer.view]
    rw [hfgetc junk]
    refine ⟨Served.ext rfl ?_ hpos, hon⟩
    rw [getcResult, ← herror, if_neg (by show s.error ≠ .eof; rw [hclear]; exact fun h => by contradiction),
      ← hbytes]
    rfl
  · simp only [Transfer.serve, Transfer.view]
    rw [commonFgetc_slow hfast]
    refine ⟨Served.ext rfl ?_ hpos, hon⟩
    rw [getcResult, ← herror, ← hbytes]
    rfl

/-- **A call.** The stream answers as its view does. -/
theorem Plain.serve (h : Plain s) {c : Transfer} (hc : c.Permitted s.bufMode.rdonly s.bufMode.wronly) :
    (c.serve s).1 = (c.view (viewOf s)).1 ∧ Follows s (c.serve s).2 (c.view (viewOf s)).2 := by
  cases c with
  | fread size count =>
    by_cases hnone : size * count = 0
    · simp only [Transfer.serve, Transfer.view, if_pos hnone]
      exact ⟨rfl, h.follows⟩
    · obtain ⟨hread, hon⟩ := h.fread hc (Nat.pos_of_ne_zero hnone)
      have hpos := congrArg View.pos hon.view
      simp only [Transfer.serve, Transfer.view, if_neg hnone]
      rw [hread]
      exact ⟨Served.ext rfl rfl hpos, hon⟩
  | fwrite b =>
    by_cases hnone : b.data = []
    · simp only [Transfer.serve, Transfer.view, if_pos hnone]
      exact ⟨rfl, h.follows⟩
    · obtain ⟨hitems, hon⟩ := h.fwrite hc hnone
      have hpos := congrArg View.pos hon.view
      simp only [Transfer.serve, Transfer.view, if_neg hnone]
      rw [hitems]
      exact ⟨Served.ext rfl rfl hpos, hon⟩
  | fputc ch => exact h.fputc hc ch
  | fgetc junk => exact h.fgetc hc junk

/-- Closing a sound stream flushes it. -/
theorem commonFclose_eq (h : Sound s) : commonFclose s = (flushedFile s).content := by
  rw [commonFclose, flushedFile]
  by_cases hpending : s.prevOp = .write ∧ s.start ≠ s.pos
  · rw [if_pos hpending, commonFflush_pending h hpending.1 hpending.2]
    split
    · next hfail => rw [OpenFile.write, if_pos hfail]
    · rfl
  · rw [if_neg hpending, commonFflush_idle h]
    intro hop
    by_contra hne
    exact hpending ⟨hop, hne⟩

/-- **Reads and writes see a stream's view**, and nothing else. -/
theorem observe_view (h : Plain s) {cs : List Transfer}
    (hcs : ∀ c ∈ cs, c.Permitted s.bufMode.rdonly s.bufMode.wronly) :
    transferMachine.observe commonFclose s cs = viewMachine.observe View.content (viewOf s) cs := by
  refine Machine.observe_eq
    (R := fun t v => Plain t ∧ viewOf t = v ∧ t.bufMode.rdonly = s.bufMode.rdonly ∧
      t.bufMode.wronly = s.bufMode.wronly)
    (P := fun c => c.Permitted s.bufMode.rdonly s.bufMode.wronly) ?_ ?_ cs ⟨h, rfl, rfl, rfl⟩ hcs
  · rintro t v ⟨ht, rfl, -, -⟩
    exact commonFclose_eq ht.toSound
  · rintro t v c ⟨ht, rfl, hrd, hwr⟩ hc
    obtain ⟨hserved, hon⟩ := ht.serve (c := c) (by rw [hrd, hwr]; exact hc)
    refine Or.inr ⟨_, _, _, ?_, rfl, hon.plain, hon.view, hon.rdonly.trans hrd, hon.wronly.trans hwr⟩
    show (if (c.serve t).2.fault = true then none else some ((c.serve t).2, (c.serve t).1)) = _
    rw [if_neg (by rw [hon.plain.no_fault]; exact Bool.false_ne_true), hserved]

/-! ## Views that cannot be told apart -/

namespace View

variable {v w : View} {rdonly wronly : Bool}

/-- The views differ in nothing that a permitted call could see. -/
structure Same (rdonly wronly : Bool) (v w : View) : Prop where
  content : v.content = w.content
  base : v.base = w.base
  pos : v.pos = w.pos
  error : v.error = w.error
  append : v.append = w.append
  ahead : v.error = .clear → wronly = false → v.ahead = w.ahead
  place : v.error ≠ .error → rdonly = false → v.place = w.place

theorem Same.fread (h : Same rdonly wronly v w) (hwr : wronly = false) (n : Nat) :
    (v.fread n).1 = (w.fread n).1 ∧ Same rdonly wronly (v.fread n).2 (w.fread n).2 := by
  rw [View.fread, View.fread]
  by_cases hclear : v.error = .clear
  · have hbehind : ∀ pos, v.behindRead pos = w.behindRead pos := fun pos => by
      rw [behindRead, behindRead, h.append, h.content]
    rw [if_neg (fun hne => hne hclear), if_neg (fun hne => hne (h.error ▸ hclear)), h.ahead hclear hwr]
    dsimp only
    rw [h.pos, h.error, hbehind]
    exact ⟨rfl, h.content, rfl, rfl, rfl, h.append, fun _ _ => rfl, fun _ _ => rfl⟩
  · rw [if_pos hclear, if_pos (by rw [← h.error]; exact hclear)]
    exact ⟨rfl, h⟩

theorem Same.fwrite (h : Same rdonly wronly v w) (hrd : rdonly = false) (b : Block) :
    (v.fwrite b).1 = (w.fwrite b).1 ∧ Same rdonly wronly (v.fwrite b).2 (w.fwrite b).2 := by
  rw [View.fwrite, View.fwrite]
  by_cases herror : v.error = .error
  · rw [if_pos herror, if_pos (h.error ▸ herror)]
    exact ⟨rfl, h⟩
  · rw [if_neg herror, if_neg (by rw [← h.error]; exact herror), h.content, h.place herror hrd, h.base]
    exact ⟨rfl, rfl, rfl, rfl, h.error, h.append, fun _ _ => rfl, fun _ _ => rfl⟩

theorem Same.step (h : Same rdonly wronly v w) {c : Transfer} (hc : c.Permitted rdonly wronly) :
    (c.view v).1 = (c.view w).1 ∧ Same rdonly wronly (c.view v).2 (c.view w).2 := by
  cases c with
  | fread size count =>
    by_cases hnone : size * count = 0
    · simp only [Transfer.view, if_pos hnone]
      exact ⟨Served.ext rfl rfl h.pos, h⟩
    · obtain ⟨hbytes, hsame⟩ := h.fread hc (size * count)
      simp only [Transfer.view, if_neg hnone]
      rw [hbytes]
      exact ⟨Served.ext rfl rfl hsame.pos, hsame⟩
  | fwrite b =>
    by_cases hnone : b.data = []
    · simp only [Transfer.view, if_pos hnone]
      exact ⟨Served.ext rfl rfl h.pos, h⟩
    · obtain ⟨hitems, hsame⟩ := h.fwrite hc b
      simp only [Transfer.view, if_neg hnone]
      rw [hitems]
      exact ⟨Served.ext rfl rfl hsame.pos, hsame⟩
  | fputc ch =>
    obtain ⟨hitems, hsame⟩ := h.fwrite hc (.single ch)
    simp only [Transfer.view]
    rw [hitems]
    exact ⟨Served.ext rfl rfl hsame.pos, hsame⟩
  | fgetc junk =>
    obtain ⟨hbytes, hsame⟩ := h.fread hc 1
    simp only [Transfer.view]
    rw [hbytes, hsame.error]
    exact ⟨Served.ext rfl rfl hsame.pos, hsame⟩

/-- Calls on the two views give the same results and the same file. -/
def Alike (rdonly wronly : Bool) (v w : View) : Prop :=
  ∀ cs : List Transfer, (∀ c ∈ cs, c.Permitted rdonly wronly) →
    viewMachine.observe View.content v cs = viewMachine.observe View.content w cs

theorem Same.alike (h : Same rdonly wronly v w) : Alike rdonly wronly v w := fun cs hcs => by
  refine Machine.observe_eq (R := Same rdonly wronly) (P := fun c => c.Permitted rdonly wronly)
    (fun _ _ hsame => hsame.content) ?_ cs h hcs
  intro v w c hsame hc
  obtain ⟨hserved, hnext⟩ := hsame.step hc
  exact Or.inr ⟨_, _, _, rfl, congrArg some (Prod.ext rfl hserved.symm), hnext⟩

/-- **What calls can see of a view.** -/
theorem Alike.same (h : Alike rdonly wronly v w) (hbase : v.base = w.base) (hpos : v.pos = w.pos)
    (herror : v.error = w.error) (happend : v.append = w.append) : Same rdonly wronly v w := by
  have hcontent : v.content = w.content := by
    have hnil := h [] (fun c hc => absurd hc List.not_mem_nil)
    simpa using hnil
  refine ⟨hcontent, hbase, hpos, herror, happend, fun hclear hwr => ?_, fun hne hrd => ?_⟩
  · -- a read of more than there is
    have hread := h [.fread 1 (max v.ahead.length w.ahead.length + 1)]
      (fun c hc => by rw [List.mem_singleton.mp hc]; exact hwr)
    obtain ⟨hserved, -⟩ := Machine.eq_of_observe (viewMachine_step v _) (viewMachine_step w _) hread
    have hbytes := congrArg Served.bytes hserved
    have hsome : ¬ 1 * (max v.ahead.length w.ahead.length + 1) = 0 := by omega
    simp only [Transfer.view, if_neg hsome] at hbytes
    rw [View.fread, if_neg (fun hne => hne hclear), View.fread,
      if_neg (fun hne => hne (herror ▸ hclear))] at hbytes
    dsimp only at hbytes
    rw [List.take_of_length_le (by omega), List.take_of_length_le (by omega)] at hbytes
    exact hbytes
  · -- a write of a byte that does not stand there
    have hput : ∀ b : Byte, overwrite v.content v.place [b] = overwrite v.content w.place [b] := fun b => by
      have hwrite := h [.fwrite (.single b)] (fun c hc => by rw [List.mem_singleton.mp hc]; exact hrd)
      obtain ⟨-, hseen⟩ := Machine.eq_of_observe (viewMachine_step v _) (viewMachine_step w _) hwrite
      have hsome : ¬ (Block.single b).data = [] := List.cons_ne_nil _ _
      simp only [Transfer.view, if_neg hsome] at hseen
      rw [View.fwrite, if_neg hne, View.fwrite, if_neg (by rw [← herror]; exact hne), ← hcontent] at hseen
      exact hseen
    exact eq_of_overwrite (show (0 : Byte) ≠ 1 by decide) (hput 0) (hput 1)

end View

end WindowsLibc.Stdio
