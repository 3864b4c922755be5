import WindowsLibc.Getopt.Progress

/-!
# Words that have been passed over

`State.within` puts a word in front of the position of a scan. Each function has a lemma that says that it
does not see the word, and `getopt_within` says so of a whole call.
-/

namespace WindowsLibc.Getopt

open WindowsLibc.Lib

variable {r : Request} {optstring w : CString} {s : State} {p i : Nat}

/-! ## A word more -/

/-- A list with a word put in front of position `p`. -/
def inserted (argv : List CString) (p : Nat) (w : CString) : List CString :=
  argv.take p ++ w :: argv.drop p

theorem length_inserted {argv : List CString} : (inserted argv p w).length = argv.length + 1 := by
  rw [inserted, List.length_append, List.length_cons, List.length_take, List.length_drop]
  omega

/-- What is behind the word is as it was. -/
theorem inserted_split {argv : List CString} (hp : p ≤ i) (hi : i ≤ argv.length) :
    inserted argv p w = inserted (argv.take i) p w ++ argv.drop i := by
  have hlength : p ≤ (argv.take i).length := (Nat.le_min.mpr ⟨hp, hp.trans hi⟩).trans_eq List.length_take.symm
  have htake : argv.take p = (argv.take i).take p := by rw [List.take_take, Nat.min_eq_left hp]
  have hdrop : argv.drop p = (argv.take i).drop p ++ argv.drop i := by
    rw [← List.drop_append_of_le_length hlength, List.take_append_drop]
  rw [inserted, inserted, htake, hdrop, List.append_assoc, List.cons_append]

theorem drop_inserted {argv : List CString} (hp : p ≤ i) (hi : i ≤ argv.length) :
    (inserted argv p w).drop (i + 1) = argv.drop i := by
  rw [inserted_split hp hi]
  exact List.drop_left' (by rw [length_inserted, List.length_take_of_le hi])

theorem take_inserted {argv : List CString} (hp : p ≤ i) (hi : i ≤ argv.length) :
    (inserted argv p w).take (i + 1) = inserted (argv.take i) p w := by
  rw [inserted_split hp hi]
  exact List.take_left' (by rw [length_inserted, List.length_take_of_le hi])

theorem getElem?_inserted {argv : List CString} (hp : p ≤ i) :
    (inserted argv p w)[i + 1]? = argv[i]? := by
  by_cases hi : i ≤ argv.length
  · rw [← List.head?_drop, drop_inserted hp hi, List.head?_drop]
  · rw [List.getElem?_eq_none (by rw [length_inserted]; omega), List.getElem?_eq_none (by omega)]

theorem getD_inserted {argv : List CString} (hp : p ≤ i) (d : CString) :
    (inserted argv p w).getD (i + 1) d = argv.getD i d := by
  rw [List.getD_eq_getElem?_getD, List.getD_eq_getElem?_getD, getElem?_inserted hp]

theorem rotate_inserted {argv : List CString} (hp : p ≤ i) (hi : i < argv.length) :
    rotate (inserted argv p w) (i + 1) = inserted (rotate argv i) p w := by
  have htake : (argv.take i ++ (argv.drop (i + 1) ++ [argv.getD i .empty])).take i = argv.take i :=
    List.take_left' (List.length_take_of_le (Nat.le_of_lt hi))
  have hdrop : (argv.take i ++ (argv.drop (i + 1) ++ [argv.getD i .empty])).drop i =
      argv.drop (i + 1) ++ [argv.getD i .empty] :=
    List.drop_left' (List.length_take_of_le (Nat.le_of_lt hi))
  have hlength : i ≤ (argv.take i ++ (argv.drop (i + 1) ++ [argv.getD i .empty])).length := by
    rw [List.length_append, List.length_take_of_le (Nat.le_of_lt hi)]
    exact Nat.le_add_right _ _
  rw [rotate, rotate, take_inserted hp (Nat.le_of_lt hi), drop_inserted (Nat.le_succ_of_le hp) hi,
    getD_inserted hp, List.append_assoc, List.append_assoc,
    inserted_split hp hlength, htake, hdrop]

/-- The state with one word more, which the position is behind. -/
def State.within (p : Nat) (w : CString) (s : State) : State :=
  { s with argv := inserted s.argv p w, optind := s.optind + 1, exchange := s.exchange + 1 }

theorem parameter_within (hp : p ≤ s.optind) :
    (s.within p w).parameter = s.parameter := by
  have hlt : (((s.within p w).optind : Nat) : Int) < (s.within p w).exchange ↔ (s.optind : Int) < s.exchange := by
    simp only [State.within]
    omega
  rw [State.parameter, State.parameter]
  simp only [hlt]
  rw [show (s.within p w).argv[(s.within p w).optind]? = s.argv[s.optind]? from getElem?_inserted hp]

/-! ## The calls do not see it -/

theorem longParameter_within (hp : p ≤ s.optind) :
    (s.within p w).longParameter = s.longParameter := by
  rw [State.longParameter, State.longParameter, parameter_within hp]

theorem longArgument_within (hp : p ≤ s.optind) (hasArg : Int)
    (text : CString) (behindEqual : Option CString) :
    longArgument r (s.within p w) hasArg text behindEqual =
      (longArgument r s hasArg text behindEqual).map (State.within p w) := by
  simp only [longArgument, longParameter_within hp]
  by_cases h0 : hasArg = 0
  · rw [if_pos h0, if_pos h0]
    cases behindEqual
    · rfl
    · rfl
  rw [if_neg h0, if_neg h0]
  by_cases h1 : hasArg = 1
  · rw [if_pos h1, if_pos h1]
    cases behindEqual with
    | none =>
      cases s.longParameter
      · rfl
      · rfl
    | some value => rfl
  rw [if_neg h1, if_neg h1]
  by_cases h2 : hasArg = 2
  · rw [if_pos h2, if_pos h2]
    cases behindEqual with
    | none =>
      cases s.longParameter
      · rfl
      · rfl
    | some value => rfl
  · rw [if_neg h2, if_neg h2]
    rfl

/-- What a call gives, with the word in front of its position. -/
def withinResult (p : Nat) (w : CString) (q : Outcome × State) : Outcome × State := (q.1, q.2.within p w)

theorem longOption_within (hp : p ≤ s.optind) (argument : CString) :
    longOption r (s.within p w) argument = withinResult p w (longOption r s argument) := by
  have hnext := fun hasArg text behindEqual => longArgument_within (r := r) (w := w)
    (s := { s with index := 0, optind := s.optind + 1 }) (Nat.le_succ_of_le hp) hasArg text behindEqual
  cases htable : r.longopts with
  | none =>
    simp only [longOption, htable]
    rfl
  | some table =>
    have hindex : (s.within p w).index = s.index := rfl
    simp only [longOption, htable, hindex]
    generalize (argument.drop s.index).bytes.findIdx? (· = 61) = equalPos
    cases findLong table (argument.drop s.index) (equalPos.getD (argument.drop s.index).bytes.length) with
    | none => rfl
    | some j =>
      have hadvanced : { s.within p w with index := 0, optind := (s.within p w).optind + 1 } =
          ({ s with index := 0, optind := s.optind + 1 } : State).within p w := rfl
      simp only [hadvanced, hnext]
      cases longArgument r { s with index := 0, optind := s.optind + 1 }
        (table.getD j ⟨.empty, 0, none, 0⟩).hasArg (argument.drop s.index)
        (equalPos.map fun n => (argument.drop s.index).drop (n + 1)) with
      | error stderr => rfl
      | ok s₁ =>
        cases hflag : (table.getD j ⟨.empty, 0, none, 0⟩).flag with
        | none => simp only [Except.map, withinResult]
        | some address => simp only [Except.map, withinResult]

theorem step_within (argument : CString) : (s.within p w).step argument = (s.step argument).within p w := by
  rw [State.step, State.step]
  by_cases hlast : argument.get (s.index + 1) = 0
  · rw [if_pos hlast, if_pos (show argument.get ((s.within p w).index + 1) = 0 from hlast)]
    rfl
  · rw [if_neg hlast, if_neg (show ¬ argument.get ((s.within p w).index + 1) = 0 from hlast)]
    rfl

theorem shortParameter_within (hp : p ≤ s.optind) (argument : CString) :
    (s.within p w).shortParameter argument =
      ((s.shortParameter argument).1, (s.shortParameter argument).2.within p w) := by
  rw [State.shortParameter, State.shortParameter, parameter_within hp]
  by_cases hindex : s.index ≠ 0
  · rw [if_pos hindex, if_pos (show (s.within p w).index ≠ 0 from hindex)]
    rfl
  · rw [if_neg hindex, if_neg (show ¬ (s.within p w).index ≠ 0 from hindex)]
    cases s.parameter
    · rfl
    · rfl

theorem shortOption_within (hp : p ≤ s.optind) (argument : CString) :
    shortOption r (s.within p w) optstring argument =
      withinResult p w (shortOption r s optstring argument) := by
  have hstep : p ≤ (s.step argument).optind := by
    rw [State.step]
    split
    · exact Nat.le_succ_of_le hp
    · exact hp
  have hletters : (s.within p w).letters optstring = s.letters optstring := rfl
  have hindex : (s.within p w).index = s.index := rfl
  by_cases hempty : optstring.bytes = []
  · rw [shortOption, shortOption, if_pos hempty, if_pos hempty]
    rfl
  · rw [shortOption, shortOption, if_neg hempty, if_neg hempty]
    simp only [hletters, hindex, step_within, shortParameter_within hstep]
    cases findShort (s.letters optstring) (argument.get s.index) with
    | none => rfl
    | some arity =>
      cases arity with
      | flag => rfl
      | optional => rfl
      | required =>
        rcases (s.step argument).shortParameter argument with ⟨_ | parameter, s₁⟩
        · rfl
        · rfl

theorem classify_within (argument : CString) :
    (s.within p w).classify argument = (s.classify argument).within p w := by
  rw [State.classify, State.classify]
  by_cases hindex : s.index = 0
  · rw [if_pos hindex, if_pos (show (s.within p w).index = 0 from hindex)]
    split
    · rfl
    · split
      · rfl
      · rfl
  · rw [if_neg hindex, if_neg (show ¬ (s.within p w).index = 0 from hindex)]

theorem State.classify_argv (s : State) (argument : CString) :
    (s.classify argument).argv = s.argv ∧ (s.classify argument).optind = s.optind := by
  rw [State.classify]
  split
  · split
    · exact ⟨rfl, rfl⟩
    · split
      · exact ⟨rfl, rfl⟩
      · exact ⟨rfl, rfl⟩
  · exact ⟨rfl, rfl⟩

theorem scanArguments_within (r : Request) (optstring : CString) (fuel : Nat) (hpos : p ≤ s.optind) (hp : p ≤ i) :
    scanArguments r optstring fuel (i + 1) (s.within p w) =
      (scanArguments r optstring fuel i s).map (withinResult p w) := by
  induction fuel generalizing i s with
  | zero => rfl
  | succ fuel ih =>
    have hbound : i + 1 < (s.within p w).argv.length ↔ i < s.argv.length := by
      rw [show (s.within p w).argv = inserted s.argv p w from rfl, length_inserted]
      omega
    by_cases hi : i < s.argv.length
    · have hword : (s.within p w).argv.getD (i + 1) .empty = s.argv.getD i .empty :=
        getD_inserted hp _
      have hend : (s.within p w).atTerminator (s.argv.getD i .empty) = s.atTerminator (s.argv.getD i .empty) :=
        rfl
      rw [scanArguments, scanArguments, if_pos hi, if_pos (hbound.mpr hi)]
      simp only [hword, hend, classify_within]
      by_cases hterminator : s.atTerminator (s.argv.getD i .empty) = true
      · rw [if_pos hterminator, if_pos hterminator]
        rfl
      rw [if_neg hterminator, if_neg hterminator]
      obtain ⟨hargv, hoptind⟩ := s.classify_argv (s.argv.getD i .empty)
      have hpos' : p ≤ (s.classify (s.argv.getD i .empty)).optind := hpos.trans_eq hoptind.symm
      rw [← hargv] at hi
      generalize s.classify (s.argv.getD i .empty) = c at hpos' hi ⊢
      have hlong : (c.within p w).processingLongOption = c.processingLongOption := rfl
      have hshort : (c.within p w).processingShortOption = c.processingShortOption := rfl
      have hstop : (c.within p w).stopAtFirstNonoption = c.stopAtFirstNonoption := rfl
      have hassign : (c.within p w).assignNonoptionToOne = c.assignNonoptionToOne := rfl
      have hrest : (c.within p w).argv.drop (i + 1 + 1) = c.argv.drop (i + 1) :=
        drop_inserted (Nat.le_succ_of_le hp) hi
      simp only [hlong, hshort, hstop, hassign, hrest, longOption_within hpos',
        shortOption_within hpos']
      by_cases h : c.processingLongOption = true
      · rw [if_pos h, if_pos h]
        rfl
      rw [if_neg h, if_neg h]
      by_cases h : c.processingShortOption = true
      · rw [if_pos h, if_pos h]
        rfl
      rw [if_neg h, if_neg h]
      by_cases h : c.stopAtFirstNonoption = true
      · rw [if_pos h, if_pos h]
        rfl
      rw [if_neg h, if_neg h]
      by_cases h : c.assignNonoptionToOne = true
      · rw [if_pos h, if_pos h]
        rfl
      rw [if_neg h, if_neg h]
      by_cases h : (c.argv.drop (i + 1)).any isOption = true
      · -- the operand is rotated to the end
        have hrotated : { c.within p w with
              argv := rotate (c.within p w).argv (i + 1), exchange := (c.within p w).exchange - 1 } =
            ({ c with argv := rotate c.argv i, exchange := c.exchange - 1 } : State).within p w := by
          have hexchange : c.exchange + 1 - 1 = c.exchange - 1 + 1 := by omega
          simp only [State.within, rotate_inserted hp hi, hexchange]
        rw [if_pos h, if_pos h]
        exact (congrArg (scanArguments r optstring fuel (i + 1)) hrotated).trans (ih hpos' hp)
      · rw [if_neg h, if_neg h]
        exact ih hpos' (Nat.le_succ_of_le hp)
    · rw [scanArguments, scanArguments, if_neg hi, if_neg (fun h => hi (hbound.mp h))]
      rfl

/-- **A word in front of the position** is not seen by a call. -/
theorem getopt_within (hone : 1 ≤ p) (hp : p ≤ s.optind) (hle : s.optind ≤ s.argv.length)
    (hinit : s.getoptInitialized = true) :
    getopt r (s.within p w) = (getopt r s).map (withinResult p w) := by
  cases hopt : r.optstring with
  | none =>
    rw [getopt, getopt, hopt]
    rfl
  | some optstring =>
    have hreset (u : State) (hpos : u.optind ≠ 0) (hinit : u.getoptInitialized = true) :
        u.reset.readMarks r optstring = u := by
      rw [State.reset, if_neg hpos, State.readMarks, if_pos hinit]
    have hs := hreset s (by omega) hinit
    have hw := hreset (s.within p w) (Nat.succ_ne_zero _) hinit
    have hlength : (s.within p w).argv.length = s.argv.length + 1 := length_inserted
    have hfuel : s.argv.length + 1 - (s.optind + 1) + 1 = s.argv.length - s.optind + 1 := by omega
    have hend : (s.within p w).optind = (s.within p w).argv.length ↔ s.optind = s.argv.length := by
      rw [hlength]
      exact Nat.succ_inj
    rw [getopt, getopt, hopt]
    simp only [hs, hw]
    by_cases h : s.optind = s.argv.length
    · rw [if_pos h, if_pos (hend.mpr h)]
      rfl
    · rw [if_neg h, if_neg (fun h' => h (hend.mp h')), hlength]
      change scanArguments r optstring (s.argv.length + 1 - (s.optind + 1) + 1) (s.optind + 1) _ = _
      rw [hfuel]
      exact scanArguments_within r optstring _ hp hp

end WindowsLibc.Getopt
