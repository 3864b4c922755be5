import WindowsLibc.Printf.Silent
import WindowsLibc.Printf.Snprintf
import WindowsLibc.Stdio.Refinement

/-!
# The entry points of `printf` (`wlibc_vfprintf`, `wlibc_vdprintf`, `wlibc_vasprintf`)

These print into memory that grows, and then hand the whole output on: to `fwrite`, to `write`, or to
the caller. `wlibc_vsnprintf` prints straight into the caller's buffer.

* A buffer that nothing is written to is never allocated, so empty output is handed on as NULL.
* `entry_points_agree_iff`: the entry points agree if and only if something is printed, which is to
  say that the format is not `Quiet`. `fwrite` and `write` refuse NULL, and the first two entry points
  report that as an error.
-/

namespace WindowsLibc.Printf

open WindowsLibc.Lib WindowsLibc.Stdio

/-! ## The functions -/

/-- `out.data` as a pointer to `out.pos` bytes; `none` is NULL. An allocated block is never empty. -/
def Buffer.pointer (out : Buffer) : Option (List UInt8) :=
  if out.data = [] then none else some out.contents

/-- Single bytes as a block. -/
def blockOf (bytes : List UInt8) : Block := ⟨1, bytes.length, bytes, (Nat.one_mul _).symm⟩

/-- `wlibc_fwrite(buffer, 1, count, stream)` on a valid stream. -/
def wlibcFwrite (buffer : Option (List UInt8)) (s : Stream) : Nat × Stream :=
  match buffer with
  | none => (0, s)
  | some bytes => if bytes = [] then (0, s) else commonFwrite s (blockOf bytes)

/-- `wlibc_write`; `none` is the result `-1`. The kernel is asked for `(ULONG)count` bytes. -/
def wlibcWrite (buffer : Option (List UInt8)) (f : OpenFile) : Option Nat × OpenFile :=
  match buffer with
  | none => (none, f)
  | some bytes => f.write (bytes.take (bytes.length % 2 ^ 32))

/-- `wlibc_vfprintf`. -/
def vfprintf (alloc : Nat → Bool) (stream : Option Stream) (format : Option (List UInt8))
    (list : Nat → UInt64) (mem : Memory) : Option (Int32 × Option Stream × Memory) :=
  match format, stream with
  | none, _ => some (-1, stream, mem)
  | _, none => some (-1, stream, mem)
  | some format, some s =>
    match printfInternal format list mem (.growing alloc) with
    | none => none
    | some ((result, mem), out) =>
      let (fresult, s) := wlibcFwrite out.pointer s
      if fresult = 0 then some (-1, some s, mem) else some (result, some s, mem)

/-- `wlibc_vdprintf`; `none` is a descriptor without a handle. -/
def vdprintf (alloc : Nat → Bool) (fd : Option OpenFile) (format : Option (List UInt8))
    (list : Nat → UInt64) (mem : Memory) : Option (Int32 × Option OpenFile × Memory) :=
  match format, fd with
  | none, _ => some (-1, fd, mem)
  | _, none => some (-1, fd, mem)
  | some format, some f =>
    match printfInternal format list mem (.growing alloc) with
    | none => none
    | some ((result, mem), out) =>
      let (fresult, f) := wlibcWrite out.pointer f
      if fresult = none then some (-1, some f, mem) else some (result, some f, mem)

/-- `wlibc_vasprintf`, and what it leaves in `*buffer`. -/
def vasprintf (alloc : Nat → Bool) (format : Option (List UInt8)) (list : Nat → UInt64)
    (mem : Memory) : Option (Int32 × List UInt8 × Memory) :=
  match format with
  | none => some (-1, [], mem)
  | some format =>
    match printfInternal format list mem (.growing alloc) with
    | none => none
    | some ((result, mem), out) => some (result, out.data, mem)

/-! ## What they have in common -/

/-- The entry points return the length of `out`, and deliver `out`: the stream is as `fwrite` of these
bytes leaves it, the file as `write` of them does, and the buffers begin with them. Allocation and
output succeed, and the caller's buffer is large enough. -/
structure Agree (format : List UInt8) (list : Nat → UInt64) (mem : Memory) (out : List UInt8) :
    Prop where
  vfprintf : ∀ s, (commonFwrite s (blockOf out)).1 = out.length → ∃ result mem',
    vfprintf (fun _ => true) (some s) (some format) list mem =
      some (result, some (commonFwrite s (blockOf out)).2, mem') ∧ result.toInt = out.length
  vdprintf : ∀ f, f.answer ≠ .fail → ∃ result mem',
    vdprintf (fun _ => true) (some f) (some format) list mem =
      some (result, some (f.write out).2, mem') ∧ result.toInt = out.length
  vasprintf : ∃ result data mem',
    vasprintf (fun _ => true) (some format) list mem = some (result, data, mem') ∧
      result.toInt = out.length ∧ data.take out.length = out
  vsnprintf : ∀ (data : List UInt8) (size : UInt64), out.length < size.toNat →
    size.toNat ≤ data.length → ∃ result data' mem',
      vsnprintf (some data) size (some format) list mem = some (result, data', mem') ∧
        result.toInt = out.length ∧ data'.take out.length = out

variable {format : List UInt8} {list : Nat → UInt64} {mem : Memory} {ws : List (List UInt8)}

/-- Empty strings do not make a buffer grow. -/
theorem puts_growing_of_flatten_nil (h : ws.flatten = []) :
    sink.puts (.growing fun _ => true) ws = .growing fun _ => true := by
  induction ws with
  | nil => rfl
  | cons bytes ws ih =>
    rw [List.flatten_cons, List.append_eq_nil_iff] at h
    obtain ⟨rfl, hws⟩ := h
    rw [Sink.puts_cons]
    exact ih hws

/-- The buffer that a format leaves, when every request is granted. -/
theorem printfInternal_growing (h : Writes format list mem ws)
    (hlen : ws.flatten.length < 2 ^ 31) :
    ∃ result mem' out, printfInternal format list mem (.growing fun _ => true) =
        some ((result, mem'), out) ∧
      result.toInt = ws.flatten.length ∧ out.contents = ws.flatten ∧
      out.pos = ws.flatten.length ∧ (ws.flatten = [] → out.pointer = none) := by
  obtain ⟨mem', hws⟩ := h
  have hsound := @sound_growing (fun _ => true) (fun _ => rfl)
  obtain ⟨hcontents, hpos⟩ := contents_puts (grows_growing fun _ => true) hsound ws
  refine ⟨_, mem', _, hws _ hsound, toInt_count hlen, hcontents, hpos.trans (Nat.zero_add _), ?_⟩
  intro hnil
  rw [puts_growing_of_flatten_nil hnil]
  rfl

theorem pointer_of_contents {out : Buffer} {bytes : List UInt8} (h : out.contents = bytes)
    (hne : bytes ≠ []) : out.pointer = some bytes := by
  have hdata : out.data ≠ [] := by
    intro hnil
    rw [Buffer.contents, hnil, List.take_nil] at h
    exact hne h.symm
  rw [Buffer.pointer, if_neg hdata, h]

theorem agree_of_ne_nil (h : Writes format list mem ws) (hlen : ws.flatten.length < 2 ^ 31)
    (hne : ws.flatten ≠ []) : Agree format list mem ws.flatten := by
  obtain ⟨result, mem', out, hrun, hresult, hcontents, hcount, -⟩ := printfInternal_growing h hlen
  have hpointer := pointer_of_contents hcontents hne
  have hpos : ws.flatten.length ≠ 0 := fun e => hne (List.length_eq_zero_iff.mp e)
  refine ⟨fun s hs => ⟨result, mem', ?_, hresult⟩, fun f hf => ⟨result, mem', ?_, hresult⟩,
    ⟨result, out.data, mem', ?_, hresult, ?_⟩, fun data size hsize hdata => ?_⟩
  · rw [vfprintf, hrun]
    simp only [hpointer, wlibcFwrite, if_neg hne, hs, if_neg hpos]
  · have hwhole : ws.flatten.take (ws.flatten.length % 2 ^ 32) = ws.flatten := by
      rw [Nat.mod_eq_of_lt (by omega), List.take_length]
    have hwritten : (f.write ws.flatten).1 ≠ none := by
      rw [OpenFile.write, if_neg hf]
      exact Option.some_ne_none _
    rw [vdprintf, hrun]
    simp only [hpointer, wlibcWrite, hwhole, if_neg hwritten]
  · rw [vasprintf, hrun]
  · rw [← hcount]
    exact hcontents
  · have hzero : size ≠ 0 := by
      rintro rfl
      exact Nat.not_lt_zero _ hsize
    obtain ⟨result, mem', hresult, hspec⟩ := vsnprintf_spec h hlen hzero hdata
    refine ⟨result, _, mem', hspec, hresult, ?_⟩
    have htake : (overwrite data 0 (keep size.toNat ws)).take ws.flatten.length = ws.flatten := by
      rw [overwrite_keep, keep_of_le (Nat.le_of_lt hsize), List.take_left]
    split
    · rw [List.take_set_of_le (Nat.le_refl _), htake]
    · exact htake

/-- Empty output is refused by `write`. -/
theorem not_agree_of_nil (h : Writes format list mem ws) (hnil : ws.flatten = [])
    (out : List UInt8) : ¬ Agree format list mem out := by
  intro hagree
  obtain ⟨result, mem', b, hrun, -, -, -, hpointer⟩ :=
    printfInternal_growing h (by rw [hnil]; decide)
  obtain ⟨result', mem'', hvdprintf, hresult⟩ :=
    hagree.vdprintf ⟨[], 0, false, []⟩ (by decide)
  rw [vdprintf, hrun] at hvdprintf
  simp only [hpointer hnil, wlibcWrite, if_true, Option.some.injEq, Prod.mk.injEq] at hvdprintf
  rw [← hvdprintf.1] at hresult
  have hneg : (-1 : Int32).toInt = -1 := by decide
  omega

theorem writes_of_agree {out : List UInt8} (h : Agree format list mem out) :
    ∃ ws, Writes format list mem ws := by
  obtain ⟨result, data, mem', hrun, -⟩ := h.vasprintf
  apply exists_writes (sound_growing fun _ => rfl)
  rw [vasprintf] at hrun
  split at hrun
  · contradiction
  · next heq => rw [heq]; rfl

/-- Whether the output is empty can be told from the format. -/
theorem flatten_eq_nil_iff (hws : Writes format list mem ws)
    (h : StagedRun (.growing fun _ => true) (.start format list mem)) :
    ws.flatten = [] ↔ Quiet (.start format list mem) := by
  obtain ⟨mem', hemits⟩ := hws
  obtain ⟨vs, a, hvs, hquiet⟩ :=
    printfLoop_quiet_iff (Nat.lt_succ_self _) (sound_growing fun _ => rfl) h
  rw [(emits_unique hemits hvs).2, hquiet]

/-- **When the entry points of `printf` agree**: the conversions can be staged, and there is something
in the format that is printed. -/
theorem entry_points_agree_iff (format : List UInt8) (list : Nat → UInt64) (mem : Memory)
    (hlen : ∀ out, Prints format list mem out → out.length < 2 ^ 31) :
    (∃ out, Agree format list mem out) ↔
      StagedRun (.growing fun _ => true) (.start format list mem) ∧
        ¬ Quiet (.start format list mem) := by
  have hsound := @sound_growing (fun _ => true) (fun _ => rfl)
  have hstaged := stagedRun_iff (l := .start format list mem) (Nat.lt_succ_self _) hsound
  constructor
  · rintro ⟨out, hagree⟩
    obtain ⟨ws, hws⟩ := writes_of_agree hagree
    have hrun : StagedRun (.growing fun _ => true) (.start format list mem) := by
      obtain ⟨mem', hemits⟩ := hws
      exact hstaged.mpr (Option.isSome_of_eq_some (hemits _ hsound))
    refine ⟨hrun, fun hquiet => ?_⟩
    exact not_agree_of_nil hws ((flatten_eq_nil_iff hws hrun).mpr hquiet) out hagree
  · rintro ⟨hrun, hquiet⟩
    obtain ⟨ws, hws⟩ := exists_writes hsound (hstaged.mp hrun)
    refine ⟨ws.flatten, agree_of_ne_nil hws (hlen _ ((prints_iff hws).mpr rfl)) fun hnil => ?_⟩
    exact hquiet ((flatten_eq_nil_iff hws hrun).mp hnil)

/-- `printf("ab%d", 1234)`. -/
theorem entry_points_agree_digits :
    ∃ out, Agree [97, 98, 37, 100] (fun _ => 1234) (fun _ => 0) out := by
  have hout : ∀ out, Prints [97, 98, 37, 100] (fun _ => 1234) (fun _ => 0) out →
      out = [97, 98, 49, 50, 51, 52] := by
    rintro out ⟨_, _, b, hrun, rfl⟩
    have h : (printfInternal [97, 98, 37, 100] (fun _ => 1234) (fun _ => 0)
        (.growing fun _ => true)).map (fun p => p.2.contents) = some [97, 98, 49, 50, 51, 52] := by
      decide +kernel
    rw [hrun] at h
    exact Option.some.inj h
  apply (entry_points_agree_iff _ _ _ (fun out h => by rw [hout out h]; decide)).mpr
  refine ⟨?_, ?_⟩
  · exact (stagedRun_iff (Nat.lt_succ_self _) (sound_growing fun _ => rfl)).mpr (by decide +kernel)
  · rw [quiet_iff_of_none rfl]
    decide

/-- `printf("")` returns 0 or -1, depending on the entry point. -/
theorem entry_points_empty :
    ¬ ∃ out, Agree [] (fun _ => 0) (fun _ => 0) out := by
  rintro ⟨out, hagree⟩
  obtain ⟨ws, hws⟩ := writes_of_agree hagree
  have hnil : Prints [] (fun _ => 0) (fun _ => 0) [] := ⟨_, _, _, rfl, rfl⟩
  exact not_agree_of_nil hws ((prints_iff hws).mp hnil).symm out hagree

end WindowsLibc.Printf
