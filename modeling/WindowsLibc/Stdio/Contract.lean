import WindowsLibc.Stdio.Unbuffered

/-!
# What `setvbuf` promises

If it returns 0 the stream is as it was asked for; if it returns -1 it is as it was before, and nothing that
is read or written afterwards tells the difference.

* `contract_iff` says for which streams and which calls that is so. The branch without a buffer may return 0
  with nothing done, and a call that returns -1 has flushed the stream and dropped its window by then.
-/

namespace WindowsLibc.Stdio

open WindowsLibc.Lib

variable {s : Stream} {c : SetvbufCall}

/-! ## The contract -/

/-- What is promised of the outcome `r` of the call. -/
structure Contract (s : Stream) (c : SetvbufCall) (r : Bool × Stream) : Prop where
  mode : r.1 = true → fbufmode r.2 = c.mode
  size : r.1 = true → r.2.bufMode.nbf = false → fbufsize r.2 = c.size
  caller : r.1 = true → r.2.bufMode.nbf = false → ∀ bytes, c.buffer = some bytes →
    r.2.bufMode.external = true ∧ r.2.buffer = callerBuffer c.size bytes
  access : r.1 = true → r.2.bufMode.rdonly = s.bufMode.rdonly ∧
    r.2.bufMode.wronly = s.bufMode.wronly ∧ r.2.bufMode.rdwr = s.bufMode.rdwr
  unchanged : r.1 = false → r.2.buffer = s.buffer ∧ r.2.bufSize = s.bufSize ∧ r.2.bufMode = s.bufMode
  unnoticed : r.1 = false → Unnoticed s r.2

/-- The stream gets a buffer of its own, or another one. -/
def NewBuffer (s : Stream) (size : Nat) : Prop :=
  s.bufMode.external = true ∨ (s.bufMode.internal = true ∧ size ≠ s.bufSize)

/-- Without a buffer of the caller's. -/
structure SuitsNull (s : Stream) (mode : Buffering) (c : SetvbufCall) : Prop where
  /-- No size: refused. -/
  refused : c.size = 0 → Resumes s
  /-- No memory for a new buffer. Only one that is resized is still there. -/
  noMemory : c.size ≠ 0 → NewBuffer s c.size → c.heap = none →
    ((s.bufMode.external = false ∧ s.bufMode.allocated = true) ∨ s.buffer = []) ∧ Resumes s
  /-- No new buffer: the mode is not recorded. -/
  same : c.size ≠ 0 → ¬ NewBuffer s c.size → fbufmode s = mode.code ∧ fbufsize s = c.size

/-- The stream as it is suits the call. -/
def Suits (s : Stream) (c : SetvbufCall) : Prop :=
  ∀ mode, Buffering.ofCode c.mode = some mode → mode ≠ .nbf →
    (c.buffer = none → SuitsNull s mode c) ∧
      (c.buffer ≠ none → s.buffer ≠ [] ∧ s.bufMode.internal = true ∧ c.freed = false → Resumes s)

/-! ## Modes -/

theorem Buffering.code_of_ofCode {code : Int} {mode : Buffering} (h : ofCode code = some mode) :
    code = mode.code := by
  unfold ofCode at h
  split at h
  · next hcode =>
    cases h
    exact hcode
  split at h
  · next hcode =>
    cases h
    exact hcode
  split at h
  · next hcode =>
    cases h
    exact hcode
  · contradiction

theorem fbufmode_of (mode : Buffering) (internal external allocated : Bool) (access : BufMode)
    (h : s.bufMode = (BufMode.of mode internal external allocated).orAccess access) :
    fbufmode s = mode.code := by
  rw [fbufmode, h]
  cases mode
  all_goals rfl

theorem nbf_of_fbufmode {mode : Buffering} (hmode : mode ≠ .nbf) (h : fbufmode s = mode.code) :
    s.bufMode.nbf = false := by
  by_contra hnbf
  have hhigh : 0x40 ≤ fbufmode s := by
    rw [fbufmode, if_pos (by simpa using hnbf)]
    split
    · split
      · omega
      · omega
    · split
      · omega
      · omega
  have hlow : mode.code < 0x40 := by
    cases mode with
    | nbf => exact absurd rfl hmode
    | fbf => decide
    | lbf => decide
  omega

/-! ## The flush -/

theorem Held.flushed (h : Held s) : Flushed s (commonFflush s).2 := by
  rw [h.flush_eq]
  exact flush_flushed h

theorem Held.unnoticed_iff (h : Held s) (hstep : InStep s) : Unnoticed s (dropped s) ↔ Resumes s := by
  rcases h with hs | hb
  · exact hs.unnoticed_iff hstep
  · exact hb.unnoticed_iff

/-! ## The outcomes -/

/-- A call that returns -1, with the buffer as it was. -/
theorem contract_dropped_iff (h : Held s) (hstep : InStep s) : Contract s c (false, dropped s) ↔ Resumes s := by
  have hspec := h.dropped_spec
  rw [← h.unnoticed_iff hstep]
  refine ⟨fun hc => hc.unnoticed rfl, fun hun => ?_⟩
  refine ⟨fun hok => by contradiction, fun hok => by contradiction, fun hok => by contradiction,
    fun hok => by contradiction, fun _ => ⟨hspec.buffer, hspec.bufSize, hspec.bufMode⟩, fun _ => hun⟩

/-- A call that returns 0, with the buffer that was asked for. -/
theorem contract_chosen {s₁ : Stream} {buf : List Byte} {size : Nat} {mode : Buffering}
    {internal external allocated : Bool} (hcode : c.mode = mode.code) (haccess : s₁.bufMode = s.bufMode)
    (hsize : mode ≠ .nbf → size = c.size)
    (hbuf : mode ≠ .nbf → ∀ bytes, c.buffer = some bytes → external = true ∧ buf = callerBuffer c.size bytes) :
    Contract s c (true, { dropWindow s₁ with
      buffer := buf, bufSize := size
      bufMode := (BufMode.of mode internal external allocated).orAccess s₁.bufMode }) := by
  refine ⟨fun _ => ?_, fun _ hnbf => hsize (of_decide_eq_false hnbf), fun _ hnbf => hbuf (of_decide_eq_false hnbf),
    fun _ => ?_, fun hok => by contradiction, fun hok => by contradiction⟩
  · rw [hcode]
    exact fbufmode_of mode internal external allocated s₁.bufMode rfl
  · rw [← haccess]
    exact ⟨Bool.false_or _, Bool.false_or _, Bool.false_or _⟩

/-- A call that returns 0 and has done nothing. -/
theorem contract_kept_iff {s₁ : Stream} {mode : Buffering} (hcode : c.mode = mode.code) (hne : mode ≠ .nbf)
    (hnone : c.buffer = none) (hmode : s₁.bufMode = s.bufMode) (hsize : s₁.bufSize = s.bufSize) :
    Contract s c (true, dropWindow s₁) ↔ fbufmode s = mode.code ∧ fbufsize s = c.size := by
  have hreported : fbufmode (dropWindow s₁) = fbufmode s := congrArg
    (fun m : BufMode => (if m.nbf then 0x40 else 0) + (if m.lbf then 0x20 else 0) + if m.fbf then (0x10 : Int) else 0)
    hmode
  constructor
  · intro hc
    have hmode' : fbufmode s = mode.code := by
      rw [← hreported, hc.mode rfl, hcode]
    refine ⟨hmode', ?_⟩
    have hnbf : (dropWindow s₁).bufMode.nbf = false :=
      (congrArg BufMode.nbf hmode).trans (nbf_of_fbufmode hne hmode')
    exact hsize.symm.trans (hc.size rfl hnbf)
  · rintro ⟨hmode', hsize'⟩
    refine ⟨fun _ => ?_, fun _ _ => hsize.trans hsize', fun _ _ bytes hbytes => ?_, fun _ => ?_,
      fun hok => by contradiction, fun hok => by contradiction⟩
    · rw [hcode, ← hmode']
      exact hreported
    · rw [hnone] at hbytes
      contradiction
    · rw [← hmode]
      exact ⟨rfl, rfl, rfl⟩

/-- No memory: the pointer to the buffer is lost, unless the buffer was only to be resized. -/
theorem contract_noMemory_iff (h : Held s) (hstep : InStep s) {buf : List Byte}
    (hbuf : buf = if s.bufMode.external = false ∧ s.bufMode.allocated = true then s.buffer else []) :
    Contract s c (false, { dropped s with buffer := buf }) ↔
      ((s.bufMode.external = false ∧ s.bufMode.allocated = true) ∨ s.buffer = []) ∧ Resumes s := by
  have hspec := h.dropped_spec
  have hsame : buf = s.buffer ↔ (s.bufMode.external = false ∧ s.bufMode.allocated = true) ∨ s.buffer = [] := by
    rw [hbuf]
    split
    · next hold => exact ⟨fun _ => .inl hold, fun _ => rfl⟩
    · next hlost => exact ⟨fun hnil => .inr hnil.symm, fun hr => (hr.resolve_left hlost).symm⟩
  have hstays : buf = s.buffer → ({ dropped s with buffer := buf } : Stream) = dropped s := fun heq => by
    rw [heq, ← hspec.buffer]
  rw [← hsame]
  constructor
  · intro hc
    have heq := (hc.unchanged rfl).1
    rw [hstays heq] at hc
    exact ⟨heq, (contract_dropped_iff h hstep).mp hc⟩
  · rintro ⟨heq, hr⟩
    rw [hstays heq]
    exact (contract_dropped_iff h hstep).mpr hr

/-- **When `setvbuf` keeps its promise.** -/
theorem contract_iff (h : Reached s) (c : SetvbufCall) : Contract s c (c.apply s) ↔ Suits s c := by
  have hheld := h.held
  have hstep := h.inStep
  cases hof : Buffering.ofCode c.mode with
  | none =>
    have hsame : c.apply s = (false, s) := by
      rw [SetvbufCall.apply, hof]
    rw [hsame]
    refine ⟨fun _ mode hmode => by rw [hof] at hmode; contradiction, fun _ => ?_⟩
    exact ⟨fun hok => by contradiction, fun hok => by contradiction, fun hok => by contradiction,
      fun hok => by contradiction, fun _ => ⟨rfl, rfl, rfl⟩, fun _ _ _ _ => rfl⟩
  | some mode =>
    have hcode := Buffering.code_of_ofCode hof
    have hflushed := hheld.flushed
    have hmode := hflushed.bufMode
    have hbuffer := hflushed.buffer
    have hsize := hflushed.bufSize
    have hsuits : Suits s c ↔ (mode ≠ .nbf →
        (c.buffer = none → SuitsNull s mode c) ∧
          (c.buffer ≠ none → s.buffer ≠ [] ∧ s.bufMode.internal = true ∧ c.freed = false → Resumes s)) := by
      refine ⟨fun hs => hs mode hof, fun hs mode' hof' => ?_⟩
      rw [hof] at hof'
      cases hof'
      exact hs
    have hcall : c.apply s = commonSetvbuf (commonFflush s).2 mode c := by
      rw [SetvbufCall.apply, hof]
    have hresult := commonSetvbuf_result (commonFflush s).2 mode c
    rw [hsuits, hcall]
    generalize commonSetvbuf (commonFflush s).2 mode c = r at hresult
    cases hresult with
    | unbuffered hnbf =>
      refine ⟨fun _ hne => absurd hnbf hne, fun _ => ?_⟩
      rw [hnbf] at hcode
      exact contract_chosen hcode hmode (fun hne => absurd rfl hne) (fun hne => absurd rfl hne)
    | caller bytes hne hgiven hfree =>
      refine ⟨fun _ _ => ⟨fun hnone => ?_, fun _ hfree' => ?_⟩, fun _ => ?_⟩
      · rw [hgiven] at hnone
        contradiction
      · rw [hbuffer, hmode] at hfree
        exact absurd hfree' hfree
      · refine contract_chosen hcode hmode (fun _ => rfl) (fun _ bytes' hbytes => ⟨rfl, ?_⟩)
        rw [hgiven] at hbytes
        cases hbytes
        rfl
    | notFreed bytes hne hgiven hfree =>
      rw [hbuffer, hmode] at hfree
      refine (contract_dropped_iff hheld hstep).trans ⟨fun hr _ => ⟨fun hnone => ?_, fun _ _ => hr⟩, fun hs => ?_⟩
      · rw [hgiven] at hnone
        contradiction
      · exact (hs hne).2 (by rw [hgiven]; exact Option.some_ne_none _) hfree
    | noSize hne hnone hzero =>
      refine (contract_dropped_iff hheld hstep).trans ⟨fun hr _ => ⟨fun _ => ?_, fun hsome => absurd hnone hsome⟩,
        fun hs => ((hs hne).1 hnone).refused hzero⟩
      exact ⟨fun _ => hr, fun hpos => absurd hzero hpos, fun hpos => absurd hzero hpos⟩
    | own block hne hnone hpos hlength hkind hheap =>
      rw [hmode, hsize] at hkind
      refine ⟨fun _ _ => ⟨fun _ => ?_, fun hsome => absurd hnone hsome⟩, fun _ => ?_⟩
      · refine ⟨fun hzero => absurd hzero hpos, fun _ _ hheap' => ?_, fun _ hkind' => absurd hkind hkind'⟩
        rw [hheap'] at hheap
        contradiction
      · refine contract_chosen hcode hmode (fun _ => rfl) (fun _ bytes hbytes => ?_)
        rw [hnone] at hbytes
        contradiction
    | noMemory block hne hnone hpos hblock hkind hheap =>
      rw [hmode, hsize] at hkind
      rw [hmode, hbuffer] at hblock
      refine (contract_noMemory_iff hheld hstep hblock).trans
        ⟨fun hr _ => ⟨fun _ => ?_, fun hsome => absurd hnone hsome⟩,
          fun hs => ((hs hne).1 hnone).noMemory hpos hkind hheap⟩
      exact ⟨fun hzero => absurd hzero hpos, fun _ _ _ => hr, fun _ hkind' => absurd hkind hkind'⟩
    | kept hne hnone hpos hkind =>
      rw [hmode, hsize] at hkind
      have hkind' : ¬ NewBuffer s c.size := by
        rintro (hext | ⟨hint, hother⟩)
        · rw [hkind.1] at hext
          contradiction
        · exact hother (hkind.2 hint)
      refine (contract_kept_iff hcode hne hnone hmode hsize).trans
        ⟨fun hr _ => ⟨fun _ => ?_, fun hsome => absurd hnone hsome⟩, fun hs => ((hs hne).1 hnone).same hpos hkind'⟩
      exact ⟨fun hzero => absurd hzero hpos, fun _ hkind => absurd hkind hkind', fun _ _ => hr⟩

/-- A stream as `fopen` returns it. -/
def justOpened : Stream := createStream ⟨[], 0, false, []⟩ (getBufMode .rdwr) 512 (some fun _ => 0)

theorem fopened_justOpened : Fopened justOpened := ⟨_, .rdwr, 512, _, by decide, rfl⟩

/-- Line buffering, without a buffer of the caller's. -/
def lineBuffering (size : Nat) : SetvbufCall := ⟨none, 0x20, size, some fun _ => 0, true⟩

/-- With twice the size that the stream would have had. -/
theorem contract_line_buffering :
    Contract justOpened (lineBuffering 1024) ((lineBuffering 1024).apply justOpened) := by
  refine (contract_iff (.of_fopened fopened_justOpened) _).mpr (fun mode _ _ => ⟨fun _ => ?_, fun hsome => ?_⟩)
  · refine ⟨fun hzero => by contradiction, fun _ _ hheap => by contradiction, fun _ hsame => ?_⟩
    exact absurd (.inr ⟨rfl, by decide⟩) hsame
  · exact absurd rfl hsome

/-- With the same size the call returns 0, and the stream is fully buffered. -/
theorem not_contract : ¬ ∀ s, Reached s → ∀ c, Contract s c (c.apply s) := by
  intro h
  have hmode := (h justOpened (.of_fopened fopened_justOpened) (lineBuffering 512)).mode (by decide)
  exact absurd hmode (by decide)

end WindowsLibc.Stdio
