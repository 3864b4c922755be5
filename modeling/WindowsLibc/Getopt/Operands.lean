import WindowsLibc.Getopt.Scan

/-!
# Where the operands end up

When the calls are over, what stands behind `optind` is the part of the arguments that has not been
looked at, and behind it the operands that were moved there one by one. An operand in front of an
option so ends up behind operands that were given after it.

* `operands` are the words that are no options, no parameters of options and not the `--`, in the
  order in which they were given.
* `scanEnd` says where the scan ends: which operands it has passed over, and which words are left.
* `getopt_operands_iff`: the operands are found in their order if and only if all words left are
  operands, and these and the ones passed over give the same list in either order.

Long options are part of this; `readLong` says what one of them reports and takes.
-/

namespace WindowsLibc.Getopt

open WindowsLibc.Lib

variable {r : Request} {optstring w : CString} {s s' : State} {moved ws : List CString}

/-! ## Long options -/

/-- A long option: the value that is reported for it, and whether it takes the next word. `none`: it
is not in the table. -/
def readLong (r : Request) (optstring : CString) (next : Option CString) (w : CString) :
    Option (Int × Bool) :=
  match r.longopts with
  | none => some (charValue (errorByte optstring), false)
  | some table =>
    let text := w.drop 2
    let equalPos := text.bytes.findIdx? (· = 61)
    let parameter := next.filter fun v => v.get 0 ≠ dash
    match findLong table text (equalPos.getD text.bytes.length) with
    | none => none
    | some j =>
      let o := table.getD j ⟨.empty, 0, none, 0⟩
      if (o.hasArg = 0 ∧ equalPos.isSome) ∨ (o.hasArg = 1 ∧ equalPos.isNone ∧ parameter.isNone) then
        some (charValue (errorByte optstring), false)
      else
        some (if o.flag.isNone then o.val else 0,
          (o.hasArg = 1 || o.hasArg = 2) && equalPos.isNone && parameter.isSome)

/-- What the `switch` over `has_arg` leaves, in terms of the words as they were given. -/
theorem longArgument_reads (h : At optstring ws moved 0 s) (hparameter : s.parameter = ws.head?)
    (hasArg : Int) (text : CString) (behindEqual : Option CString) :
    if (hasArg = 0 ∧ behindEqual.isSome) ∨
        (hasArg = 1 ∧ behindEqual.isNone ∧ (ws.head?.filter fun v => v.get 0 ≠ dash).isNone) then
      ∃ stderr, longArgument r s hasArg text behindEqual = .error stderr
    else
      ∃ s', longArgument r s hasArg text behindEqual = .ok s' ∧
        At optstring (behind ((hasArg = 1 || hasArg = 2) && behindEqual.isNone &&
          (ws.head?.filter fun v => v.get 0 ≠ dash).isSome) ws) moved 0 s' := by
  have hlong : s.longParameter = ws.head?.filter fun v => v.get 0 ≠ dash := by
    rw [State.longParameter, hparameter]
    cases ws.head? with
    | none => rfl
    | some v => simp [Option.filter]
  have hsame : ∀ a, At optstring ws moved 0 { s with optarg := a } := fun a => h.update
  have hnext : ∀ {a v}, (ws.head?.filter fun v => v.get 0 ≠ dash) = some v →
      At optstring ws.tail moved 0 { s with optarg := a, optind := s.optind + 1 } := by
    intro a v hsome
    cases ws with
    | nil => contradiction
    | cons v ws =>
      exact h.move (n := 1) (.update s) (Nat.succ_pos _) rfl h.index (fun h0 => absurd rfl h0)
  generalize (ws.head?.filter fun v => v.get 0 ≠ dash) = parameter at hlong hnext ⊢
  unfold longArgument
  rw [hlong]
  by_cases h0 : hasArg = 0
  · subst h0
    cases behindEqual with
    | some value => exact ⟨_, rfl⟩
    | none => exact ⟨_, rfl, hsame none⟩
  by_cases h1 : hasArg = 1
  · subst h1
    cases behindEqual with
    | some value => exact ⟨_, rfl, hsame (some value)⟩
    | none =>
      cases parameter with
      | none => exact ⟨_, rfl⟩
      | some v => exact ⟨_, rfl, hnext rfl⟩
  by_cases h2 : hasArg = 2
  · subst h2
    cases behindEqual with
    | some value => exact ⟨_, rfl, hsame (some value)⟩
    | none =>
      cases parameter with
      | none => exact ⟨_, rfl, hsame none⟩
      | some v => exact ⟨_, rfl, hnext rfl⟩
  · simp only [h0, h1, h2, false_and, or_self, if_false, decide_false, Bool.or_self, Bool.false_and]
    exact ⟨s, rfl, h⟩

/-- **A long option** that is not refused is one call. -/
theorem getopt_long (h : At optstring (w :: ws) moved 0 s) (hopt : r.optstring = some optstring)
    (hoption : isOption w = true) (hlong : w.get 1 = dash) (hend : isTerminator w = false) :
    ∃ p, getopt r s = some p ∧
      match readLong r optstring ws.head? w with
      | none => p.1.value = -1 ∧ p.2.argv.drop p.2.optind = w :: ws ++ moved
      | some (value, skip) => p.1.value = value ∧ At optstring (behind skip ws) moved 0 p.2 := by
  have hdash := (isOption_iff.mp hoption).1
  have hnot : s.atTerminator w = false := by
    simp only [isTerminator, hdash, hlong] at hend
    simp only [State.atTerminator, hdash, hlong, h.index]
    exact hend
  have hclassify := State.classify_long h.index hdash hlong
  have hcall : getopt r s = some (longOption r (s.classify w) w) := by
    rw [h.getopt_examine hopt (fun _ => hoption), examine, hnot, hclassify]
    rfl
  refine ⟨_, hcall, ?_⟩
  rw [hclassify]
  -- the state behind the word
  have hnext : ∀ long : Bool, At optstring ws moved 0
      { s.cleared with index := 0, optind := s.optind + 1, processingLongOption := long } := by
    intro long
    exact h.move (n := 1) (.update s) (Nat.succ_pos _) rfl rfl (fun h0 => absurd rfl h0)
  have hparameter : ∀ {long : Bool}, State.parameter
      { s.cleared with index := 0, optind := s.optind + 1, processingLongOption := long } =
        ws.head? := by
    intro long
    exact h.parameter (.update s) rfl
  unfold longOption readLong
  cases r.longopts with
  | none => exact ⟨congrArg charValue h.error, hnext _⟩
  | some table =>
    dsimp only
    generalize hequal : (w.drop 2).bytes.findIdx? (· = 61) = equalPos
    cases hfind : findLong table (w.drop 2) (equalPos.getD (w.drop 2).bytes.length) with
    | none => exact ⟨rfl, h.rest⟩
    | some j =>
      dsimp only
      generalize table.getD j ⟨.empty, 0, none, 0⟩ = o
      have hread := longArgument_reads (r := r) (hnext true) hparameter o.hasArg (w.drop 2)
        (equalPos.map fun n => (w.drop 2).drop (n + 1))
      rw [Option.isSome_map, Option.isNone_map] at hread
      split at hread
      · next herror =>
        obtain ⟨stderr, heq⟩ := hread
        rw [if_pos herror]
        dsimp only [State.cleared] at heq ⊢
        rw [heq]
        exact ⟨congrArg charValue h.error, hnext _⟩
      · next hok =>
        obtain ⟨s', heq, hat⟩ := hread
        rw [if_neg hok]
        dsimp only [State.cleared] at heq ⊢
        rw [heq]
        cases o.flag with
        | none => exact ⟨rfl, hat⟩
        | some address => exact ⟨rfl, hat⟩

/-! ## Any option -/

/-- A word that is an option: the values that are reported for it, and whether it takes the next word.
`none`: -1 is returned where it stands. -/
def readWord (r : Request) (optstring : CString) (next : Option CString) (w : CString) :
    Option (List Int × Bool) :=
  if w.get 1 = dash then (readLong r optstring next w).map fun p => ([p.1], p.2)
  else if optstring.bytes = [] then none
  else
    some ((readShort optstring next (w.bytes.drop 1)).1.map Prod.fst,
      (readShort optstring next (w.bytes.drop 1)).2)

/-- **A word that is an option**, from its start. -/
theorem getopt_word (h : At optstring (w :: ws) moved 0 s) (hopt : r.optstring = some optstring)
    (hoption : isOption w = true) (hend : isTerminator w = false) :
    match readWord r optstring ws.head? w with
    | none => ∃ p, getopt r s = some p ∧ p.1.value = -1 ∧
        p.2.argv.drop p.2.optind = w :: ws ++ moved
    | some (values, skip) => ∃ results, results.map Prod.fst = values ∧
        WordRead r s w ws moved optstring results skip := by
  rw [readWord]
  by_cases hlong : w.get 1 = dash
  · rw [if_pos hlong]
    obtain ⟨p, hcall, hread⟩ := getopt_long h hopt hoption hlong hend
    cases hvalue : readLong r optstring ws.head? w with
    | none =>
      rw [hvalue] at hread
      exact ⟨p, hcall, hread⟩
    | some v =>
      rw [hvalue] at hread
      obtain ⟨hv, hat⟩ := hread
      exact ⟨[reported p], congrArg (fun a => [a]) hv, wordRead_last hcall hat⟩
  · rw [if_neg hlong]
    by_cases hempty : optstring.bytes = []
    · rw [if_pos hempty]
      obtain ⟨s₁, heq, h₁⟩ := getopt_begin h hopt hoption hlong
      refine ⟨(.plain (-1), s₁), ?_, rfl, h₁.rest⟩
      rw [heq, getopt_short h₁ hopt Nat.one_ne_zero, shortOption, if_pos hempty]
    · rw [if_neg hempty]
      exact ⟨_, rfl, wordRead_short hopt hempty h hoption hlong⟩

/-! ## Operands -/

/-- The words that are no options, no parameters of options, and not the `--`. `skip`: the first word
has been taken. -/
@[grind =]
def operands (r : Request) (optstring : CString) : Bool → List CString → List CString
  | _, [] => []
  | true, _ :: ws => operands r optstring false ws
  | false, w :: ws =>
    if isTerminator w then ws
    else if isOption w then
      operands r optstring ((readWord r optstring ws.head? w).elim false Prod.snd) ws
    else w :: operands r optstring false ws

/-- The end of a scan: the operands that it has passed over, the words that are left, and the operands
among these. -/
structure ScanEnd where
  passed : List CString
  rest : List CString
  left : List CString

/-- An operand with an option behind it is passed over. -/
def ScanEnd.pass (w : CString) (e : ScanEnd) : ScanEnd := { e with passed := w :: e.passed }

/-- Where the scan ends: at the `--`, in front of the last operands, or with an option for which -1 is
returned. -/
@[grind =]
def scanEnd (r : Request) (optstring : CString) : Bool → List CString → ScanEnd
  | _, [] => ⟨[], [], []⟩
  | true, _ :: ws => scanEnd r optstring false ws
  | false, w :: ws =>
    if isTerminator w then ⟨[], ws, ws⟩
    else if isOption w then
      match readWord r optstring ws.head? w with
      | none => ⟨[], w :: ws, operands r optstring false ws⟩
      | some (values, skip) =>
        if -1 ∈ values then ⟨[], leftAt w ws values skip, operands r optstring skip ws⟩
        else scanEnd r optstring skip ws
    else if ws.any isOption then (scanEnd r optstring false ws).pass w
    else ⟨[], w :: ws, w :: ws⟩

theorem operands_of_operands (h : ∀ a ∈ ws, isOption a = false) :
    operands r optstring false ws = ws := by
  induction ws with
  | nil => rfl
  | cons w ws ih =>
    obtain ⟨hw, hws⟩ := List.forall_mem_cons.mp h
    have hend : ¬ isTerminator w = true := by
      intro hend
      rw [isOption_of_isTerminator hend] at hw
      contradiction
    rw [operands, if_neg hend, if_neg (by simp [hw]), ih hws]

/-- Every operand has been passed over, or is left. -/
theorem operands_eq (r : Request) (optstring : CString) (words : List CString) :
    ∀ skip, operands r optstring skip words =
      (scanEnd r optstring skip words).passed ++ (scanEnd r optstring skip words).left := by
  induction words with
  | nil =>
    intro skip
    rw [operands, scanEnd]
    rfl
  | cons w ws ih =>
    intro skip
    cases skip with
    | true => exact ih false
    | false =>
      rw [operands, scanEnd]
      split
      · rfl
      split
      · cases readWord r optstring ws.head? w with
        | none => rfl
        | some v =>
          obtain ⟨values, skip⟩ := v
          dsimp only [Option.elim]
          split
          · rfl
          · exact ih skip
      next hoption =>
      split
      · rw [ih false]
        rfl
      · next hany =>
        rw [operands_of_operands (by simpa using hany)]
        rfl

theorem operands_sublist (r : Request) (optstring : CString) (words : List CString) :
    ∀ skip, (operands r optstring skip words).Sublist (behind skip words) := by
  induction words with
  | nil =>
    intro skip
    rw [operands]
    exact List.nil_sublist _
  | cons w ws ih =>
    have hbehind : ∀ skip, (behind skip ws).Sublist ws := by
      intro skip
      cases skip with
      | false => exact List.Sublist.refl _
      | true => exact List.tail_sublist ws
    intro skip
    cases skip with
    | true => exact ih false
    | false =>
      show (operands r optstring false (w :: ws)).Sublist (w :: ws)
      rw [operands]
      split
      · exact List.sublist_cons_self w ws
      split
      · exact ((ih _).trans (hbehind _)).cons w
      · exact (ih false).cons_cons w

/-- The operands among the words left are some of them. -/
theorem left_sublist (r : Request) (optstring : CString) (words : List CString) :
    ∀ skip, (scanEnd r optstring skip words).left.Sublist (scanEnd r optstring skip words).rest := by
  induction words with
  | nil =>
    intro skip
    rw [scanEnd]
  | cons w ws ih =>
    intro skip
    cases skip with
    | true => exact ih false
    | false =>
      rw [scanEnd]
      split
      · exact List.Sublist.refl _
      split
      · cases readWord r optstring ws.head? w with
        | none => exact (operands_sublist r optstring ws false).cons w
        | some v =>
          obtain ⟨values, skip⟩ := v
          dsimp only
          split
          · have hsub := operands_sublist r optstring ws skip
            show (operands r optstring skip ws).Sublist (leftAt w ws values skip)
            rw [leftAt]
            split
            · exact hsub
            · cases skip with
              | false => exact hsub.cons w
              | true => exact (hsub.trans (List.tail_sublist ws)).cons w
          · exact ih skip
      split
      · exact ih false
      · exact List.Sublist.refl _

/-! ## Runs -/

/-- **The end of the calls**: what is left stands in front of the operands that were moved. -/
theorem loops_end (hopt : r.optstring = some optstring) (words : List CString) :
    ∀ (skip : Bool) {moved : List CString} {s : State},
      At optstring (behind skip words) moved 0 s →
      ∃ os last, Loops r s os last ∧ last.2.argv.drop last.2.optind =
        (scanEnd r optstring skip words).rest ++
          (moved ++ (scanEnd r optstring skip words).passed) := by
  induction words with
  | nil =>
    intro skip moved s h
    have h' : At optstring [] moved 0 s := by
      cases skip with
      | false => exact h
      | true => exact h
    obtain ⟨o, s', hcall, hvalue, hdrop⟩ :=
      getopt_end h' hopt (fun a ha => absurd ha List.not_mem_nil)
    refine ⟨[], (o, s'), .last hcall hvalue, ?_⟩
    rw [scanEnd, List.append_nil]
    exact hdrop
  | cons w ws ih =>
    intro skip moved s h
    cases skip with
    | true => exact ih false h
    | false =>
      have h' : At optstring (w :: ws) moved 0 s := h
      rw [scanEnd]
      by_cases hend : isTerminator w = true
      · obtain ⟨o, s', hcall, hvalue, hdrop⟩ := getopt_terminator h' hopt hend
        rw [if_pos hend, List.append_nil]
        exact ⟨[], (o, s'), .last hcall hvalue, hdrop⟩
      rw [if_neg hend]
      by_cases hoption : isOption w = true
      · rw [if_pos hoption]
        have hword := getopt_word h' hopt hoption (Bool.not_eq_true _ ▸ hend)
        cases hread : readWord r optstring ws.head? w with
        | none =>
          rw [hread] at hword
          obtain ⟨p, hcall, hvalue, hdrop⟩ := hword
          refine ⟨[], p, .last hcall hvalue, ?_⟩
          rw [List.append_nil]
          exact hdrop
        | some v =>
          rw [hread] at hword
          obtain ⟨values, skip⟩ := v
          obtain ⟨results, rfl, os, -, hread⟩ := hword
          have hmem : -1 ∈ results.map Prod.fst ↔ ¬ ∀ p ∈ results, p.1 ≠ -1 := by
            simp
          rcases hread with ⟨hall, s₁, hat, hloops⟩ | ⟨hnot, last, hloops, hdrop⟩
          · obtain ⟨os', last, hrest, hdrop⟩ := ih _ hat
            refine ⟨os ++ os', last, hloops os' last hrest, ?_⟩
            dsimp only
            rw [if_neg (fun hin => hmem.mp hin hall)]
            exact hdrop
          · refine ⟨os, last, hloops, ?_⟩
            dsimp only
            rw [if_pos (hmem.mpr hnot), List.append_nil]
            exact hdrop
      · rw [if_neg hoption]
        rw [Bool.not_eq_true] at hoption
        by_cases hany : ws.any isOption = true
        · obtain ⟨s₁, heq, h₁⟩ := getopt_skip h' hopt hoption hany
          obtain ⟨os, last, hloops, hdrop⟩ := ih false h₁
          refine ⟨os, last, hloops.of_getopt_eq heq, ?_⟩
          rw [if_pos hany, hdrop, List.append_assoc]
          rfl
        · have hall : ∀ a ∈ ws, isOption a = false := by
            simpa using hany
          obtain ⟨o, s', hcall, hvalue, hdrop⟩ :=
            getopt_end h' hopt (List.forall_mem_cons.mpr ⟨hoption, hall⟩)
          refine ⟨[], (o, s'), .last hcall hvalue, ?_⟩
          rw [if_neg hany, List.append_nil]
          exact hdrop

/-- What the calls are to leave behind `optind`: the operands, in the order in which they were
given. -/
def LeavesOperands (r : Request) (optstring : CString) (s : State) (words : List CString) : Prop :=
  ∃ os last, getoptLoop r (wordsAndCharacters s.argv) s = some (os, last) ∧
    last.2.argv.drop last.2.optind = operands r optstring false words

/-- **The order of the operands.** In permuting mode, the calls leave the operands in their order if and
only if the words that are left where the scan ends are all operands, and these and the operands that
were passed over give the same list in either order. -/
theorem getopt_operands_iff (r : Request) (optstring : CString)
    (hopt : r.optstring = some optstring) (hplus : optstring.get 0 ≠ 43)
    (hdash : optstring.get 0 ≠ dash) (hposix : r.posixlyCorrect = false) (s : State) (hs : Fresh s)
    (name : CString) (words : List CString) (hargv : s.argv = name :: words) :
    LeavesOperands r optstring s words ↔
      (scanEnd r optstring false words).left = (scanEnd r optstring false words).rest ∧
        (scanEnd r optstring false words).rest ++ (scanEnd r optstring false words).passed =
          (scanEnd r optstring false words).passed ++ (scanEnd r optstring false words).rest := by
  have hbetween := hs.between (by rw [hargv]; exact List.cons_ne_nil _ _)
  obtain ⟨t, heq, hat⟩ := hs.start_at hargv hopt hposix hplus hdash
  obtain ⟨os, last, hloops, hdrop⟩ := loops_end hopt words false hat
  have hrun := (hloops.of_getopt_eq heq).getoptLoop_eq hbetween
  have hoperands := operands_eq r optstring words false
  have hsub := left_sublist r optstring words false
  rw [List.nil_append] at hdrop
  generalize scanEnd r optstring false words = e at hdrop hoperands hsub ⊢
  constructor
  · rintro ⟨os', last', hrun', hleaves⟩
    cases hrun.symm.trans hrun'
    rw [hdrop, hoperands] at hleaves
    -- as many operands as words are left, so that all of them are
    have hlength := congrArg List.length hleaves
    rw [List.length_append, List.length_append] at hlength
    have hall : e.left = e.rest := hsub.eq_of_length (by omega)
    exact ⟨hall, by rw [hleaves, hall]⟩
  · rintro ⟨hall, hcomm⟩
    exact ⟨os, last, hrun, by rw [hdrop, hoperands, hall, hcomm]⟩

/-- `p -b y x y`. -/
theorem getopt_operands_behind :
    LeavesOperands plainRequest ⟨[97, 98, 58], by decide⟩
      (.start [⟨[112], by decide⟩, ⟨[45, 98], by decide⟩, ⟨[121], by decide⟩, ⟨[120], by decide⟩,
        ⟨[121], by decide⟩])
      [⟨[45, 98], by decide⟩, ⟨[121], by decide⟩, ⟨[120], by decide⟩, ⟨[121], by decide⟩] := by
  apply (getopt_operands_iff plainRequest ⟨[97, 98, 58], by decide⟩ rfl (by decide) (by decide) rfl
    _ (.inr rfl) _ _ rfl).mpr
  decide

/-- `p x -a y` becomes `p -a y x`. -/
theorem getopt_operands_rotated :
    ¬ ∀ (r : Request) (optstring : CString), r.optstring = some optstring →
      optstring.get 0 ≠ 43 → optstring.get 0 ≠ dash → r.posixlyCorrect = false →
      ∀ (s : State), Fresh s → ∀ (name : CString) (words : List CString), s.argv = name :: words →
      LeavesOperands r optstring s words := by
  intro h
  let argv : List CString :=
    [⟨[112], by decide⟩, ⟨[120], by decide⟩, ⟨[45, 97], by decide⟩, ⟨[121], by decide⟩]
  obtain ⟨os, last, hrun, hleaves⟩ := h plainRequest ⟨[97, 98, 58], by decide⟩ rfl (by decide)
    (by decide) rfl (.start argv) (.inr rfl) _ _ rfl
  have hfinal : (getoptLoop plainRequest (wordsAndCharacters argv) (.start argv)).map
      (fun x => x.2.2.argv.drop x.2.2.optind) =
        some [⟨[121], by decide⟩, ⟨[120], by decide⟩] := by decide
  rw [show (State.start argv).argv = argv from rfl] at hrun
  rw [hrun, Option.map_some, hleaves] at hfinal
  revert hfinal
  decide

end WindowsLibc.Getopt
