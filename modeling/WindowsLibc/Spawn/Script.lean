import WindowsLibc.Spawn.Interpreter

/-!
# Running a script (`spawn/spawn.c`)

What `prepend_shebang_to_wargv` makes of a command line that `convert_argv_to_wargv` has built, and when
the interpreter is given what it should be: its own path, its argument, the script, and the arguments of the
script.

The old command line need not fill its allocation. What is behind its NULL is whatever the heap had there,
and the function may copy it.
-/

namespace WindowsLibc.Spawn

open WindowsLibc.Lib

/-! ## Bytes and units at the end -/

theorem getLast?_decode_iff (U : Utf8ToUtf16) (text : List UInt8) {us : List UInt16}
    (h : U.decode text = some us) : us.getLast? = some 92 ↔ text.getLast? = some 92 := by
  induction text using runs_induction generalizing us with
  | nil =>
    rw [U.decode_nil] at h
    cases h
    constructor
    · intro h
      cases h
    · intro h
      cases h
  | ascii c text hc ih =>
    rw [U.decode_cons hc] at h
    obtain ⟨vs, hvs, rfl⟩ := Option.map_eq_some_iff.mp h
    have ih := ih hvs
    have hnil := U.decode_eq_nil_iff hvs
    by_cases htext : text = []
    · rw [htext, hnil.mpr htext, List.getLast?_singleton, List.getLast?_singleton, Option.some_inj,
        Option.some_inj]
      exact toUInt16_eq_iff (d := 92)
    · rw [List.getLast?_cons_of_ne_nil htext, List.getLast?_cons_of_ne_nil (mt hnil.mp htext), ih]
  | wide xs text hne hxs hb ih =>
    rw [U.decode_append xs hb] at h
    obtain ⟨us₁, hus₁, h⟩ := Option.bind_eq_some_iff.mp h
    obtain ⟨vs, hvs, rfl⟩ := Option.map_eq_some_iff.mp h
    have ih := ih hvs
    have hnil := U.decode_eq_nil_iff hvs
    by_cases htext : text = []
    · -- A character that is not ASCII ends the text.
      rw [htext, hnil.mpr htext, List.append_nil, List.append_nil]
      constructor
      · intro h
        exact absurd (U.decode_wide xs us₁ hxs hus₁ _ (List.mem_of_getLast? h)) (by decide)
      · intro h
        exact absurd (hxs _ (List.mem_of_getLast? h)) (by decide)
    · rw [List.getLast?_append_of_ne_nil _ htext, List.getLast?_append_of_ne_nil _ (mt hnil.mp htext), ih]

/-- A converted C string has no NULL. -/
theorem no_nul_decode (U : Utf8ToUtf16) {arg : CString} {us : List UInt16}
    (h : U.decode arg.bytes = some us) : 0 ∉ us := fun hmem =>
  arg.no_nul ((mem_decode_iff U arg.bytes h (d := 0) (by decide)).mp hmem)

theorem no_nul_converted (U : Utf8ToUtf16) {argv : List CString} {args : List (List UInt16)}
    (h : Converted U argv args) : ∀ us ∈ args, 0 ∉ us := by
  induction h with
  | nil => exact fun us hus => absurd hus List.not_mem_nil
  | cons hus _ ih => exact List.forall_mem_cons.mpr ⟨no_nul_decode U hus, ih⟩

theorem no_nul_quote {us : List UInt16} (h : 0 ∉ us) : 0 ∉ units.quote us := by
  have hjoin := @Alphabet.not_mem_join_quote _ units _ 0 (by decide) (by decide) (by decide) [us]
    (List.forall_mem_singleton.mpr h)
  rwa [List.map_singleton, Alphabet.join, List.intercalate_singleton] at hjoin

/-- The old command line fits its allocation. -/
theorem length_line_le (U : Utf8ToUtf16) {argv : List CString} {us : List UInt16}
    {args : List (List UInt16)} (hshort : Short argv) (h : Converted U argv (us :: args)) :
    2 * ((units.join ((us :: args).map units.quote)).length + 1) ≤ argvSize argv := by
  induction args generalizing argv us with
  | nil =>
    cases h with
    | cons hus hargs =>
      cases hargs
      have hlen := quote_length_le U (hshort _ List.mem_cons_self) hus
      rw [argvSize_cons, List.map_singleton, Alphabet.join, List.intercalate_singleton]
      omega
  | cons us' args ih =>
    cases h with
    | cons hus hargs =>
      have hlen := quote_length_le U (hshort _ List.mem_cons_self) hus
      have ih := ih (fun a ha => hshort a (List.mem_cons_of_mem _ ha)) hargs
      rw [Alphabet.join] at ih
      rw [argvSize_cons, List.map_cons, List.map_cons, Alphabet.join, List.intercalate_cons_cons,
        List.length_append, List.length_append, List.length_singleton, ← List.map_cons]
      omega

/-! ## A script -/

/-- A path in the buffer. -/
structure PathText where
  text : List UInt16
  no_nul : 0 ∉ text
  no_quote : 34 ∉ text

/-- What `shebang_get_executable_and_args` has found; the argument is as it stands in the file. -/
structure Script (U : Utf8ToUtf16) where
  executable : PathText
  arg : Option CString
  filename : PathText
  arg_valid : ∀ a ∈ arg, ∃ us, U.decode a.bytes = some us

namespace Script

variable {U : Utf8ToUtf16} (s : Script U)

/-- The argument in UTF-16. -/
def argUnits : Option (List UInt16) := s.arg.bind (fun a => U.decode a.bytes)

/-- The argument as it is in the buffer: normalised by `convert_argv_to_windows_cmd` and converted. -/
def normalized : List UInt16 :=
  (s.arg.bind (fun a => U.decode ((convertArgvToWindowsCmd a.bytes).1.getD a.bytes))).getD []

def buffer : List UInt16 := shebangBuffer s.executable.text s.normalized s.filename.text

theorem normalized_eq : s.normalized = (s.argUnits.map units.quote).getD [] := by
  rw [normalized, argUnits]
  cases s.arg with
  | none => rfl
  | some a => rw [Option.bind_some, Option.bind_some, (convertArgvToWindowsCmd_spec a.bytes).1, decode_quote]

theorem no_nul_normalized : 0 ∉ s.normalized := by
  rw [normalized_eq, argUnits]
  cases s.arg with
  | none => exact List.not_mem_nil
  | some a =>
    rw [Option.bind_some]
    cases hus : U.decode a.bytes with
    | none => exact List.not_mem_nil
    | some us => exact no_nul_quote (no_nul_decode U hus)

theorem argUnits_ne_nil_iff : (∀ us ∈ s.argUnits, us ≠ []) ↔ ∀ a ∈ s.arg, a.bytes ≠ [] := by
  have hvalid := s.arg_valid
  rw [argUnits]
  generalize s.arg = arg at hvalid ⊢
  cases arg with
  | none =>
    constructor
    · intro _ a ha
      cases ha
    · intro _ us hus
      cases hus
  | some a =>
    obtain ⟨us, hus⟩ := hvalid a rfl
    have hnil := U.decode_eq_nil_iff hus
    rw [Option.bind_some, hus]
    simp only [Option.mem_def, Option.some.injEq, forall_eq', ne_eq, hnil]

end Script

/-! ## Running it -/

/-- The command line as it is read: up to the NULL, if there is one. -/
def readLine (buffer : List UInt16) : Option (List UInt16) :=
  if 0 ∈ buffer then some (buffer.takeWhile (fun c => c ≠ 0)) else none

theorem readLine_append {text : List UInt16} (h : 0 ∉ text) (more : List UInt16) :
    readLine (text ++ 0 :: more) = some text := by
  have hall : ∀ c ∈ text, decide (c ≠ 0) = true := fun c hc =>
    decide_eq_true (fun h' => h (h' ▸ hc))
  rw [readLine, if_pos (List.mem_append_right _ List.mem_cons_self),
    List.takeWhile_append_of_pos hall, List.takeWhile_cons_of_neg (by simp), List.append_nil]

/-- Nothing is written outside of an allocation, whatever the heap has in it, and the new command line splits
into the interpreter, its argument, the script, and the arguments of the old one but the first. The interpreter
is read by the same rules as the others, which is how the code writes it. -/
def Runs {U : Utf8ToUtf16} (s : Script U) (argv : List CString) (line : List UInt16) : Prop :=
  ∀ (newFill finalFill : Fill) (leftover : List UInt16),
    2 * (line ++ 0 :: leftover).length = argvSize argv →
    ∃ buffer size text args,
      prependShebangToWargv (some newFill) (some finalFill) (some (line ++ 0 :: leftover)) (argvSize argv)
        s.buffer (2 * s.buffer.length) = .ok (buffer, size) ∧
      readLine buffer = some text ∧ Converted U argv.tail args ∧
      units.split text = s.executable.text :: (s.argUnits.toList ++ s.filename.text :: args)

/-- The paths are not special, or the interpreter is put in quotes; nothing is empty; and the end of the
first argument is found if there are others. If there are none, the allocation of the old command line ends
with its NULL, or nothing of it is copied. -/
structure Kept {U : Utf8ToUtf16} (s : Script U) (first : CString) (rest : List CString)
    (line : List UInt16) : Prop where
  executable : ExecutableKept s.executable.text
  arg : ∀ a ∈ s.arg, a.bytes ≠ []
  filename : FilenameKept s.filename.text
  alone : rest = [] → bytes.NeedsQuotes first.bytes → first.bytes.getLast? ≠ some 92 →
    line.length = (convertArgvToWindowsCmd first.bytes).2
  first : rest ≠ [] →
    first.bytes ≠ [] ∧ (bytes.NeedsQuotes first.bytes → first.bytes.getLast? ≠ some 92)
  rest : ∀ arg ∈ rest, arg.bytes ≠ []

theorem no_nul_shebangText {executable normalized filename : List UInt16}
    (hexecutable : 0 ∉ executable) (hnormalized : 0 ∉ normalized) (hfilename : 0 ∉ filename) :
    0 ∉ shebangText executable normalized filename := by
  have hspace : (0 : UInt16) ∉ [32] := by decide
  have hquote : 0 ∉ quoteText executable filename := by
    rw [quoteText]
    split
    · decide
    · exact List.not_mem_nil
  have harg : 0 ∉ argText normalized := by
    rw [argText]
    split
    · exact List.not_mem_nil
    · rw [List.mem_append]
      exact fun h => h.elim hnormalized hspace
  simp only [shebangText, List.mem_append, not_or]
  exact ⟨⟨⟨⟨⟨⟨hquote, hexecutable⟩, hquote⟩, hspace⟩, harg⟩, hfilename⟩, hspace⟩

/-- What is copied of the old command line is `more`, which ends with a NULL. -/
theorem prependShebangToWargv_read {U : Utf8ToUtf16} (s : Script U) (newFill finalFill : Fill)
    {oldArgv more behind : List UInt16} {start : Nat} (hstart : startOfArg1 oldArgv = .ok start)
    (hbound : start ≤ oldArgv.length) (htail : oldTail oldArgv start = more ++ 0 :: behind)
    (hmore : 0 ∉ more) :
    ∃ buffer size,
      prependShebangToWargv (some newFill) (some finalFill) (some oldArgv) (2 * oldArgv.length)
        s.buffer (2 * s.buffer.length) = .ok (buffer, size) ∧
      readLine buffer =
        some (shebangText s.executable.text ((s.argUnits.map units.quote).getD []) s.filename.text ++
          more) := by
  obtain ⟨trailing, size, hresult, -⟩ := prependShebangToWargv_spec newFill finalFill
    s.executable.no_nul s.no_nul_normalized s.filename.no_nul hstart hbound
  refine ⟨_, size, hresult, ?_⟩
  have hnul : 0 ∉ shebangText s.executable.text s.normalized s.filename.text ++ more := by
    rw [List.mem_append]
    exact fun h => h.elim
      (no_nul_shebangText s.executable.no_nul s.no_nul_normalized s.filename.no_nul) hmore
  rw [htail, ← s.normalized_eq, List.append_assoc, List.append_assoc, List.cons_append, ← List.append_assoc]
  exact readLine_append hnul _

/-! ## The old command line -/

theorem join_cons_cons (us arg : List UInt16) (args : List (List UInt16)) :
    units.join ((us :: arg :: args).map units.quote) =
      units.quote us ++ 32 :: units.join ((arg :: args).map units.quote) := by
  rw [List.map_cons, List.map_cons, Alphabet.join, List.intercalate_cons_cons, List.append_assoc]
  rfl

/-- What is copied of a command line. -/
def copied (line : List UInt16) (start : Nat) : List UInt16 := if start = 0 then [] else line.drop start

/-- If there are only NULLs behind the old command line, a NULL ends what is copied of it. -/
theorem oldTail_zeros {line : List UInt16} {start : Nat} (hle : start ≤ line.length + 1) (n : Nat) :
    ∃ behind, oldTail (line ++ 0 :: List.replicate n 0) start = copied line start ++ 0 :: behind := by
  have hlength : (line ++ 0 :: List.replicate n (0 : UInt16)).length = line.length + 1 + n := by
    rw [List.length_append, List.length_cons, List.length_replicate]
    omega
  rw [oldTail, hlength, copied]
  by_cases hpos : start = 0
  · rw [if_pos (Or.inl hpos), if_pos hpos]
    exact ⟨[], rfl⟩
  rw [if_neg hpos]
  by_cases hend : start = line.length + 1 + n
  · rw [if_pos (Or.inr hend), List.drop_eq_nil_of_le (by omega)]
    exact ⟨[], rfl⟩
  · rw [if_neg (by omega), List.drop_append]
    by_cases hin : start ≤ line.length
    · rw [Nat.sub_eq_zero_of_le hin]
      exact ⟨_, rfl⟩
    · obtain ⟨n, rfl⟩ : ∃ m, n = m + 1 := Nat.exists_eq_succ_of_ne_zero (by omega)
      rw [show start - line.length = 1 by omega]
      exact ⟨_, rfl⟩

theorem drop_join_cons_cons (us arg : List UInt16) (args : List (List UInt16)) (k : Nat) :
    (units.join ((us :: arg :: args).map units.quote)).drop ((units.quote us).length + 1 + k) =
      (units.join ((arg :: args).map units.quote)).drop k := by
  rw [← List.drop_drop, drop_join_quote]

/-- **What is copied of the old command line** never gives more than the other arguments, and it gives these
only if the end of the first one is found and none is empty. -/
theorem copied_spec {us : List UInt16} {args : List (List UInt16)} (hnul : 0 ∉ us)
    (hnuls : ∀ us ∈ args, 0 ∉ us) (leftover : List UInt16) :
    ∃ start, startOfArg1 (units.join ((us :: args).map units.quote) ++ 0 :: leftover) = .ok start ∧
      start ≤ (units.join ((us :: args).map units.quote)).length + 1 ∧
      units.blankWeight (units.split (copied (units.join ((us :: args).map units.quote)) start)) ≤
        units.blankWeight args ∧
      (units.split (copied (units.join ((us :: args).map units.quote)) start) = args → args ≠ [] →
        Found us ∧ ∀ arg ∈ args, arg ≠ []) := by
  cases args with
  | nil =>
    rw [List.map_singleton, Alphabet.join, List.intercalate_singleton, startOfArg1_alone hnul]
    refine ⟨_, rfl, ?_, ?_, fun _ h => absurd rfl h⟩
    · split
      · exact Nat.le_refl _
      · exact Nat.zero_le _
    · have hnone : copied (units.quote us) (if units.NeedsQuotes us ∧ us.getLast? ≠ some 92 then
          (units.quote us).length + 1 else 0) = [] := by
        split
        · rw [copied, if_neg (Nat.succ_ne_zero _)]
          exact List.drop_eq_nil_of_le (Nat.le_succ _)
        · rfl
      rw [hnone]
      exact Nat.le_refl _
  | cons arg args =>
    rw [join_cons_cons, List.append_assoc, List.cons_append, List.length_append, List.length_cons,
      ← join_cons_cons]
    by_cases hfound : Found us
    · refine ⟨_, startOfArg1_found hnul hfound _, by omega, ?_⟩
      have hrest := drop_join_cons_cons us arg args 0
      rw [Nat.add_zero, List.drop_zero] at hrest
      rw [copied, if_neg (Nat.succ_ne_zero _), hrest]
      refine ⟨units.blankWeight_split_drop_le arg args 0, fun h _ => ⟨hfound, ?_⟩⟩
      rw [units.split_join_quote, List.filter_eq_self] at h
      intro us hus
      simpa using h us hus
    · obtain ⟨start, hstart, rfl | ⟨k, rfl, hle, hne⟩⟩ := startOfArg1_lost hnul hnuls hfound leftover
      · exact ⟨0, hstart, Nat.zero_le _, Nat.zero_le _, fun h => absurd h (List.cons_ne_nil _ _).symm⟩
      · refine ⟨_, hstart, by omega, ?_⟩
        rw [copied, if_neg (by omega), drop_join_cons_cons]
        exact ⟨units.blankWeight_split_drop_le arg args k, fun h => absurd h hne⟩

theorem found_iff (U : Utf8ToUtf16) {first : CString} {us : List UInt16}
    (h : U.decode first.bytes = some us) :
    Found us ↔
      first.bytes ≠ [] ∧ (bytes.NeedsQuotes first.bytes → first.bytes.getLast? ≠ some 92) := by
  rw [Found, needsQuotes_decode U h, ne_eq, ne_eq, U.decode_eq_nil_iff h, ne_eq, ne_eq,
    getLast?_decode_iff U first.bytes h]

/-! ## When the script is run as it should be -/

/-- **Nothing is written outside of an allocation**, whatever the paths and the arguments. -/
theorem prependShebangToWargv_ok (U : Utf8ToUtf16) (s : Script U) {first : CString} {rest : List CString}
    {line leftover : List UInt16} (hshort : Short (first :: rest))
    (hline : convertArgvToWargv U (first :: rest) = .line line)
    (hsize : 2 * (line ++ 0 :: leftover).length = argvSize (first :: rest)) (newFill finalFill : Fill) :
    ∃ result, prependShebangToWargv (some newFill) (some finalFill) (some (line ++ 0 :: leftover))
      (argvSize (first :: rest)) s.buffer (2 * s.buffer.length) = .ok result := by
  obtain ⟨us, args, hus, hargs, -, rfl⟩ := (convertArgvToWargv_line U hshort).mp hline
  obtain ⟨start, hstart, hle, -⟩ :=
    copied_spec (no_nul_decode U hus) (no_nul_converted U hargs) leftover
  obtain ⟨trailing, size, hresult, -⟩ := prependShebangToWargv_spec newFill finalFill
    s.executable.no_nul s.no_nul_normalized s.filename.no_nul hstart (by
      rw [List.length_append, List.length_cons]
      omega)
  exact ⟨_, hsize ▸ hresult⟩

section

variable {U : Utf8ToUtf16} (s : Script U) {first : CString} {rest : List CString} {us : List UInt16}
  {args : List (List UInt16)}

theorem argvSize_singleton (hshort : Short [first]) :
    argvSize [first] = 2 * ((convertArgvToWindowsCmd first.bytes).2 + 1) := by
  have hsize := hshort first List.mem_cons_self
  have hlength : ((u8Arg first).2 + 1).toNat = (convertArgvToWindowsCmd first.bytes).2 + 1 := by
    change (UInt16.ofNat (convertArgvToWindowsCmd first.bytes).2 + 1).toNat = _
    rw [UInt16.toNat_add, UInt16.toNat_ofNat', UInt16.toNat_one]
    omega
  rw [argvSize_cons, hlength, Nat.mul_comm]
  rfl

/-- What the heap has behind the old command line may be all NULLs. -/
theorem kept_of_runs (hshort : Short (first :: rest)) (hus : U.decode first.bytes = some us)
    (hargs : Converted U rest args)
    (h : Runs s (first :: rest) (units.join ((us :: args).map units.quote))) :
    ExecutableKept s.executable.text ∧ (∀ a ∈ s.arg, a.bytes ≠ []) ∧ FilenameKept s.filename.text ∧
      (args ≠ [] → Found us ∧ ∀ arg ∈ args, arg ≠ []) := by
  have hnul := no_nul_decode U hus
  have hnuls := no_nul_converted U hargs
  have hline : 0 ∉ units.join ((us :: args).map units.quote) :=
    units.not_mem_join_quote (by decide) (by decide) (by decide) (List.forall_mem_cons.mpr ⟨hnul, hnuls⟩)
  have hroom := length_line_le U hshort (List.Forall₂.cons hus hargs)
  generalize hwhole : units.join ((us :: args).map units.quote) = line at h hline hroom
  obtain ⟨n, hn⟩ : ∃ n, 2 * (line ++ 0 :: List.replicate n 0).length = argvSize (first :: rest) := by
    refine ⟨argvSize (first :: rest) / 2 - (line.length + 1), ?_⟩
    rw [List.length_append, List.length_cons, List.length_replicate]
    rw [argvSize] at hroom ⊢
    omega
  obtain ⟨buffer, size, text, args', hresult, hread, hargs', hsplit⟩ :=
    h (fun _ => 0) (fun _ => 0) (List.replicate n 0) hn
  obtain ⟨start, hstart, hle, hweight, hcopied⟩ := copied_spec hnul hnuls (List.replicate n 0)
  rw [hwhole] at hstart hle hweight hcopied
  obtain ⟨behind, htail⟩ := oldTail_zeros hle n
  have hmore : 0 ∉ copied line start := by
    rw [copied]
    split
    · exact List.not_mem_nil
    · exact fun h => hline (List.mem_of_mem_drop h)
  have hbound : start ≤ (line ++ 0 :: List.replicate n 0).length := by
    rw [List.length_append, List.length_cons]
    omega
  obtain ⟨buffer', size', hresult', hread'⟩ :=
    prependShebangToWargv_read s (fun _ => 0) (fun _ => 0) hstart hbound htail hmore
  rw [hn, hresult] at hresult'
  cases hresult'
  cases hread.symm.trans hread'
  cases converted_unique U hargs' hargs
  obtain ⟨hexecutable, harg, hfilename, hsplit⟩ := (split_shebangText_iff s.argUnits
    s.executable.no_quote s.filename.no_quote hweight).mp hsplit
  exact ⟨hexecutable, s.argUnits_ne_nil_iff.mp harg, hfilename, hcopied hsplit⟩

/-- One argument in quotes that has fewer units than bytes: what is behind the NULL is copied. -/
theorem alone_of_runs (hshort : Short [first]) (hus : U.decode first.bytes = some us)
    (hneeds : units.NeedsQuotes us) (hlast : us.getLast? ≠ some 92)
    (h : Runs s [first] (units.quote us)) :
    (units.quote us).length = (convertArgvToWindowsCmd first.bytes).2 := by
  have hsize := argvSize_singleton hshort
  have hroom := length_line_le U hshort (List.Forall₂.cons hus List.Forall₂.nil)
  rw [List.map_singleton, Alphabet.join, List.intercalate_singleton] at hroom
  by_contra hne
  obtain ⟨n, hn⟩ : ∃ n, (convertArgvToWindowsCmd first.bytes).2 = (units.quote us).length + (n + 1) :=
    ⟨(convertArgvToWindowsCmd first.bytes).2 - (units.quote us).length - 1, by omega⟩
  -- The heap has no NULL anywhere.
  have hlength : (units.quote us ++ 0 :: List.replicate (n + 1) (1 : UInt16)).length =
      (units.quote us).length + 1 + (n + 1) := by
    rw [List.length_append, List.length_cons, List.length_replicate]
    omega
  have hfull : 2 * (units.quote us ++ 0 :: List.replicate (n + 1) (1 : UInt16)).length =
      argvSize [first] := by
    rw [hlength]
    omega
  obtain ⟨buffer, size, text, args, hresult, hread, -, -⟩ :=
    h (fun _ => 1) (fun _ => 1) (List.replicate (n + 1) 1) hfull
  have hstart := startOfArg1_alone (no_nul_decode U hus) (List.replicate (n + 1) 1)
  rw [if_pos ⟨hneeds, hlast⟩] at hstart
  obtain ⟨trailing, size', hresult', htrailing⟩ := prependShebangToWargv_spec (fun _ => 1) (fun _ => 1)
    s.executable.no_nul s.no_nul_normalized s.filename.no_nul hstart (by omega)
  have htail : oldTail (units.quote us ++ 0 :: List.replicate (n + 1) 1) ((units.quote us).length + 1) =
      List.replicate (n + 1) 1 := by
    rw [oldTail, if_neg (by omega), List.append_cons, List.drop_left' (by simp)]
  rw [hfull, htail] at hresult'
  cases hresult.symm.trans hresult'
  have hnone : 0 ∉ shebangText s.executable.text s.normalized s.filename.text ++
      List.replicate (n + 1) 1 ++ trailing := by
    rw [List.mem_append, List.mem_append]
    rintro ((h | h) | h)
    · exact no_nul_shebangText s.executable.no_nul s.no_nul_normalized s.filename.no_nul h
    · exact absurd (List.eq_of_mem_replicate h) (by decide)
    · obtain ⟨_, h⟩ := htrailing 0 h
      exact absurd h (by decide)
  rw [readLine, if_neg hnone] at hread
  cases hread

theorem runs_of_kept (hshort : Short (first :: rest)) (hus : U.decode first.bytes = some us)
    (hargs : Converted U rest args)
    (h : Kept s first rest (units.join ((us :: args).map units.quote))) :
    Runs s (first :: rest) (units.join ((us :: args).map units.quote)) := by
  intro newFill finalFill leftover hsize
  have hnul := no_nul_decode U hus
  have hnuls := no_nul_converted U hargs
  -- Behind the first part come the other arguments, or nothing.
  obtain ⟨start, behind, hstart, hbound, htail⟩ : ∃ start behind,
      startOfArg1 (units.join ((us :: args).map units.quote) ++ 0 :: leftover) = .ok start ∧
      start ≤ (units.join ((us :: args).map units.quote) ++ 0 :: leftover).length ∧
      oldTail (units.join ((us :: args).map units.quote) ++ 0 :: leftover) start =
        units.join (args.map units.quote) ++ 0 :: behind := by
    cases hargs with
    | nil =>
      have hwhole : units.join ([us].map units.quote) = units.quote us := by
        rw [List.map_singleton, Alphabet.join, List.intercalate_singleton]
      rw [hwhole] at h hsize ⊢
      have hlength := hsize.trans (argvSize_singleton hshort)
      rw [List.length_append, List.length_cons] at hlength
      refine ⟨_, [], startOfArg1_alone hnul leftover, ?_, ?_⟩
      · rw [List.length_append, List.length_cons]
        split <;> omega
      · split
        · next hquoted =>
          have halone := h.alone rfl ((needsQuotes_decode U hus).mp hquoted.1)
            (mt (getLast?_decode_iff U first.bytes hus).mpr hquoted.2)
          rw [oldTail, if_pos (Or.inr (by rw [List.length_append, List.length_cons]; omega))]
          rfl
        · rfl
    | cons hus' hargs =>
      have hfound := (found_iff U hus).mpr (h.first (List.cons_ne_nil _ _))
      refine ⟨(units.quote us).length + 1, leftover, ?_, ?_, ?_⟩
      · rw [join_cons_cons, List.append_assoc]
        exact startOfArg1_found hnul hfound _
      · rw [join_cons_cons, List.length_append, List.length_append, List.length_cons]
        omega
      · rw [join_cons_cons, oldTail, if_neg (by
          simp only [List.length_append, List.length_cons]
          omega), List.append_assoc, List.cons_append, List.append_cons, List.drop_left' (by simp)]
  have hmore : 0 ∉ units.join (args.map units.quote) :=
    units.not_mem_join_quote (by decide) (by decide) (by decide) hnuls
  obtain ⟨buffer, size, hresult, hread⟩ :=
    prependShebangToWargv_read s newFill finalFill hstart hbound htail hmore
  have hsplit : units.split (units.join (args.map units.quote)) = args := by
    rw [units.split_join_quote]
    exact (filter_eq_self_iff U hargs).mpr h.rest
  refine ⟨buffer, size, _, args, hsize ▸ hresult, hread, hargs, ?_⟩
  exact (split_shebangText_iff s.argUnits s.executable.no_quote s.filename.no_quote
    (Nat.le_of_eq (congrArg _ hsplit))).mpr
    ⟨h.executable, s.argUnits_ne_nil_iff.mpr h.arg, h.filename, hsplit⟩

end

/-- **When a script is run as it should be**: the path of the script has no blank, the interpreter's has no
tab unless it has a space, and no backslash at its end if it has; the end of the first argument is found if
there are others, and what is behind the NULL of the old command line is not copied if there are none; and no
argument is empty. Every argument is to be shorter than 65535 bytes. -/
theorem prependShebangToWargv_runs (U : Utf8ToUtf16) (s : Script U) {first : CString}
    {rest : List CString} {line : List UInt16}
    (hline : convertArgvToWargv U (first :: rest) = .line line) :
    (Short (first :: rest) ∧ Kept s first rest line → Runs s (first :: rest) line) ∧
      (Short (first :: rest) → Runs s (first :: rest) line → Kept s first rest line) := by
  constructor
  · rintro ⟨hshort, hkept⟩
    obtain ⟨us, args, hus, hargs, -, rfl⟩ := (convertArgvToWargv_line U hshort).mp hline
    exact runs_of_kept s hshort hus hargs hkept
  · intro hshort hruns
    obtain ⟨us, args, hus, hargs, -, rfl⟩ := (convertArgvToWargv_line U hshort).mp hline
    obtain ⟨hexecutable, harg, hfilename, hrest⟩ := kept_of_runs s hshort hus hargs hruns
    have hnil : rest ≠ [] ↔ args ≠ [] := by
      cases hargs with
      | nil => exact iff_of_false (fun h => h rfl) (fun h => h rfl)
      | cons _ _ => exact iff_of_true (List.cons_ne_nil _ _) (List.cons_ne_nil _ _)
    refine ⟨hexecutable, harg, hfilename, ?_, ?_, ?_⟩
    · rintro rfl hneeds hlast
      cases hargs
      rw [List.map_singleton, Alphabet.join, List.intercalate_singleton] at hruns ⊢
      exact alone_of_runs s hshort hus ((needsQuotes_decode U hus).mpr hneeds)
        (mt (getLast?_decode_iff U first.bytes hus).mp hlast) hruns
    · intro hne
      exact (found_iff U hus).mp (hrest (hnil.mp hne)).1
    · by_cases hne : rest = []
      · rw [hne]
        exact fun arg harg => absurd harg List.not_mem_nil
      · rw [← filter_eq_self_iff U hargs, List.filter_eq_self]
        intro arg harg
        exact decide_eq_true ((hrest (hnil.mp hne)).2 arg harg)

/-! ### Two scripts -/

/-- The interpreter `a b`, its argument `-c d` and the script `f`. -/
def quotedInterpreter : Script ascii where
  executable := ⟨[97, 32, 98], by decide, by decide⟩
  arg := some ⟨[45, 99, 32, 100], by decide⟩
  filename := ⟨[102], by decide, by decide⟩
  arg_valid := by
    rintro a ⟨⟩
    exact ⟨[45, 99, 32, 100], by decide⟩

/-- Run as `x`, with the argument `y z`, it is run as it should be. -/
theorem quotedInterpreter_runs :
    Runs quotedInterpreter [⟨[120], by decide⟩, ⟨[121, 32, 122], by decide⟩]
      [120, 32, 34, 121, 32, 122, 34] :=
  (prependShebangToWargv_runs ascii quotedInterpreter (by rfl)).1
    ⟨by simp only [Short]; decide,
      { executable := by simp only [ExecutableKept]; decide
        arg := by rintro a ⟨⟩; decide
        filename := by simp only [FilenameKept]; decide
        alone := fun h => absurd h (by decide)
        first := fun _ => ⟨by decide, fun _ => by decide⟩
        rest := by decide }⟩

/-- The interpreter `sh` and the script `a b`. -/
def spacedFilename : Script ascii where
  executable := ⟨[115, 104], by decide, by decide⟩
  arg := none
  filename := ⟨[97, 32, 98], by decide, by decide⟩
  arg_valid := by
    rintro a ⟨⟩

/-- The interpreter is given `a` and `b`. -/
theorem spacedFilename_not_runs :
    convertArgvToWargv ascii [⟨[120], by decide⟩] = .line [120] ∧
      ¬ Runs spacedFilename [⟨[120], by decide⟩] [120] := by
  refine ⟨rfl, fun h => ?_⟩
  obtain ⟨buffer, size, text, args, hresult, hread, hargs, hsplit⟩ :=
    h (fun _ => 0) (fun _ => 0) [] (by decide)
  cases hargs
  have hbuffer : prependShebangToWargv (some fun _ => 0) (some fun _ => 0) (some ([120] ++ [0]))
      (argvSize [⟨[120], by decide⟩]) spacedFilename.buffer (2 * spacedFilename.buffer.length) =
        .ok ([34, 115, 104, 34, 32, 97, 32, 98, 32, 0], 18) := by rfl
  rw [hbuffer] at hresult
  cases hresult
  have htext : readLine [34, 115, 104, 34, 32, 97, 32, 98, 32, 0] =
      some [34, 115, 104, 34, 32, 97, 32, 98, 32] := by decide
  rw [htext] at hread
  cases hread
  exact absurd hsplit (by decide)

end WindowsLibc.Spawn
