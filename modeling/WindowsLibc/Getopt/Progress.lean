import Mathlib.Data.List.GetD
import Mathlib.Data.List.Perm.Basic
import Mathlib.Algebra.BigOperators.Group.List.Basic
import WindowsLibc.Getopt.Getopt

/-!
# Every call returns, and gets ahead

The loop of `wlibc_common_getopt` decrements its own counter, and the position in a word survives from
call to call. What it does is said once:

* `scanArguments_front`: operands in front of an option are moved to the end, and the option is looked
  at (`examine`).
* `longOption_moves` and `shortOption_moves`: what is left of `optind` and `index` then.

`Ready` is what holds between the calls. From it, `getopt_progress`: a call returns, gets ahead unless
it returns -1, and stays within the arguments, so that a loop of calls ends (`visited` is the measure).
-/

namespace WindowsLibc.Getopt

open WindowsLibc.Lib

variable {r : Request} {optstring w : CString} {s s' : State}

/-! ## Words -/

theorem CString.get_ne_zero_iff {i : Nat} : w.get i ≠ 0 ↔ i < w.bytes.length := by
  rw [CString.get]
  constructor
  · intro h
    by_contra hle
    exact h (List.getD_eq_default _ _ (Nat.not_lt.mp hle))
  · intro h heq
    rw [List.getD_eq_getElem _ _ h] at heq
    exact w.nonzero (heq ▸ List.getElem_mem h)

theorem isOption_iff : isOption w = true ↔ w.get 0 = dash ∧ w.get 1 ≠ 0 := by
  simp [isOption]

/-! ## What is left alone -/

/-- The variables that only the start of a call, or a rotation, changes. -/
structure Kept (s s' : State) : Prop where
  argv : s'.argv = s.argv
  exchange : s'.exchange = s.exchange
  errorReturn : s'.errorReturn = s.errorReturn
  stopAtFirstNonoption : s'.stopAtFirstNonoption = s.stopAtFirstNonoption
  assignNonoptionToOne : s'.assignNonoptionToOne = s.assignNonoptionToOne
  skipFirstCharOption : s'.skipFirstCharOption = s.skipFirstCharOption
  getoptInitialized : s'.getoptInitialized = s.getoptInitialized

/-- The other variables may change. -/
theorem Kept.update (s : State) {a : Option CString} {n i : Nat} {c : Int} {short long : Bool} :
    Kept s { s with
      optarg := a, optind := n, optopt := c, index := i, processingShortOption := short,
      processingLongOption := long } :=
  ⟨rfl, rfl, rfl, rfl, rfl, rfl, rfl⟩

theorem Kept.trans {s₁ s₂ s₃ : State} (h₁ : Kept s₁ s₂) (h₂ : Kept s₂ s₃) : Kept s₁ s₃ where
  argv := h₂.argv.trans h₁.argv
  exchange := h₂.exchange.trans h₁.exchange
  errorReturn := h₂.errorReturn.trans h₁.errorReturn
  stopAtFirstNonoption := h₂.stopAtFirstNonoption.trans h₁.stopAtFirstNonoption
  assignNonoptionToOne := h₂.assignNonoptionToOne.trans h₁.assignNonoptionToOne
  skipFirstCharOption := h₂.skipFirstCharOption.trans h₁.skipFirstCharOption
  getoptInitialized := h₂.getoptInitialized.trans h₁.getoptInitialized

/-- `optind` goes to a later word: the next one, or one in front of the operands that were moved. -/
structure NextWord (s s' : State) : Prop extends Kept s s' where
  index : s'.index = 0
  optind_lt : s.optind < s'.optind
  optind_le : s'.optind = s.optind + 1 ∨ (s'.optind : Int) ≤ s.exchange

theorem State.parameter_lt (h : s.parameter = some w) : (s.optind : Int) < s.exchange := by
  rw [State.parameter] at h
  split at h
  · assumption
  · contradiction

/-! ## One option -/

/-- The parameter of a long option is a word at most. -/
theorem longArgument_moves {hasArg : Int} {text : CString} {behindEqual : Option CString}
    (h : longArgument r s hasArg text behindEqual = .ok s') :
    Kept s s' ∧ s'.index = s.index ∧
      (s'.optind = s.optind ∨ (s'.optind = s.optind + 1 ∧ (s.optind : Int) < s.exchange)) := by
  have hparameter : ∀ {parameter}, s.longParameter = some parameter →
      (s.optind : Int) < s.exchange := by
    intro parameter hlong
    rw [State.longParameter] at hlong
    split at hlong
    · contradiction
    · next hsome => exact State.parameter_lt hsome
  revert h
  fun_cases longArgument r s hasArg text behindEqual
  case case5 hlong | case8 hlong =>
    intro h
    cases h
    exact ⟨.update s, rfl, Or.inr ⟨rfl, hparameter hlong⟩⟩
  all_goals
    intro h
    cases h
    try exact ⟨.update s, rfl, Or.inl rfl⟩

theorem longOption_moves (r : Request) (s : State) (argument : CString) :
    ((longOption r s argument).1.value = -1 ∧ (longOption r s argument).2 = s) ∨
      NextWord s (longOption r s argument).2 := by
  have hnext : NextWord s { s with index := 0, optind := s.optind + 1 } :=
    ⟨.update s, rfl, Nat.lt_succ_self _, Or.inl rfl⟩
  have hok : ∀ {s'} {hasArg : Int} {text : CString} {behindEqual : Option CString},
      longArgument r { s with index := 0, optind := s.optind + 1 } hasArg text behindEqual = .ok s' →
      NextWord s s' := by
    intro s' hasArg text behindEqual h
    obtain ⟨hkept, hindex, hoptind⟩ := longArgument_moves h
    refine ⟨hnext.toKept.trans hkept, hindex, ?_, ?_⟩
    · rcases hoptind with heq | ⟨heq, -⟩
      · rw [heq]
        exact Nat.lt_succ_self _
      · rw [heq]
        exact Nat.lt_succ_of_lt (Nat.lt_succ_self _)
    · rcases hoptind with heq | ⟨heq, hlt⟩
      · exact Or.inl heq
      · right
        rw [heq]
        dsimp only at hlt ⊢
        omega
  fun_cases longOption r s argument
  case case1 => exact Or.inr hnext
  case case2 => exact Or.inl ⟨rfl, rfl⟩
  case case3 => exact Or.inr hnext
  case case4 h _ => exact Or.inr (hok h)
  case case5 h _ _ => exact Or.inr (hok h)

/-- Within a cluster, `index` goes to the next letter. -/
structure NextLetter (s s' : State) (argument : CString) : Prop extends Kept s s' where
  optind : s'.optind = s.optind
  index : s'.index = s.index + 1
  inside : s'.index < argument.bytes.length
  processingShortOption : s'.processingShortOption = s.processingShortOption

theorem State.step_moves (s : State) (argument : CString) :
    (NextWord s (s.step argument) ∧ (s.step argument).optind = s.optind + 1) ∨
      NextLetter s (s.step argument) argument := by
  rw [State.step]
  split
  · exact Or.inl ⟨⟨.update s, rfl, Nat.lt_succ_self _, Or.inl rfl⟩, rfl⟩
  · next hmore => exact Or.inr ⟨.update s, rfl, rfl, CString.get_ne_zero_iff.mp hmore, rfl⟩

/-- An option that takes a parameter is the last one of its word. -/
theorem State.shortParameter_moves (s : State) (argument : CString) :
    NextWord s ((s.step argument).shortParameter argument).2 := by
  rw [State.shortParameter]
  rcases s.step_moves argument with ⟨hword, hoptind⟩ | hletter
  · rw [if_neg (not_not.mpr hword.index)]
    split
    · next hsome =>
      have hlt := State.parameter_lt hsome
      have hexchange := hword.exchange
      refine ⟨hword.toKept.trans (.update _), hword.index, ?_, Or.inr ?_⟩
      · exact Nat.lt_succ_of_lt hword.optind_lt
      · dsimp only
        omega
    · exact hword
  · have hindex := hletter.index
    rw [if_pos (by omega)]
    refine ⟨hletter.toKept.trans (.update _), rfl, ?_, Or.inl ?_⟩
    · dsimp only
      rw [hletter.optind]
      exact Nat.lt_succ_self _
    · dsimp only
      rw [hletter.optind]

theorem shortOption_moves (r : Request) (s : State) (optstring argument : CString) :
    ((shortOption r s optstring argument).1.value = -1 ∧
        (shortOption r s optstring argument).2 = s) ∨
      NextWord s (shortOption r s optstring argument).2 ∨
      NextLetter s (shortOption r s optstring argument).2 argument := by
  have hparameter := s.shortParameter_moves argument
  have hletter : ∀ {a c}, NextWord s { s.step argument with optarg := a, optopt := c } ∨
      NextLetter s { s.step argument with optarg := a, optopt := c } argument := by
    intro a c
    rcases s.step_moves argument with ⟨h, -⟩ | h
    · exact Or.inl ⟨h.toKept.trans (.update _), h.index, h.optind_lt, h.optind_le⟩
    · exact Or.inr ⟨h.toKept.trans (.update _), h.optind, h.index, h.inside,
        h.processingShortOption⟩
  have hword : ∀ {s' a}, NextWord s s' → NextWord s { s' with optarg := a } := by
    intro s' a h
    exact ⟨h.toKept.trans (.update _), h.index, h.optind_lt, h.optind_le⟩
  fun_cases shortOption r s optstring argument
  case case1 => exact Or.inl ⟨rfl, rfl⟩
  case case2 => exact Or.inr hletter
  case case3 => exact Or.inr hletter
  case case4 heq =>
    have hsnd : ((s.step argument).shortParameter argument).2 = _ := congrArg Prod.snd heq
    rw [hsnd] at hparameter
    exact Or.inr (Or.inl (hword hparameter))
  case case5 heq =>
    have hsnd : ((s.step argument).shortParameter argument).2 = _ := congrArg Prod.snd heq
    rw [hsnd] at hparameter
    exact Or.inr (Or.inl (hword hparameter))
  case case6 heq =>
    have hsnd : ((s.step argument).shortParameter argument).2 = _ := congrArg Prod.snd heq
    rw [hsnd] at hparameter
    exact Or.inr (Or.inl (hword hparameter))

/-! ## The loop -/

/-- Between two words. -/
def State.cleared (s : State) : State :=
  { s with processingLongOption := false, processingShortOption := false }

/-- What the loop does in a slot that holds an option, or is in the middle of one. -/
def examine (r : Request) (optstring : CString) (s : State) (argument : CString) : Outcome × State :=
  if s.atTerminator argument then (.plain (-1), { s.cleared with optind := s.optind + 1 })
  else if (s.classify argument).processingLongOption then
    longOption r (s.classify argument) argument
  else shortOption r (s.classify argument) optstring argument

/-- The word at `optind` has been begun. -/
structure Inside (s : State) (w : CString) : Prop where
  word : s.argv[s.optind]? = some w
  index_lt : s.index < w.bytes.length
  processing : s.processingLongOption = true ∨ s.processingShortOption = true

theorem getD_of_getElem? {argv : List CString} {i : Nat} (h : argv[i]? = some w) :
    i < argv.length ∧ argv.getD i .empty = w := by
  obtain ⟨hi, rfl⟩ := List.getElem?_eq_some_iff.mp h
  exact ⟨hi, List.getD_eq_getElem _ _ hi⟩

theorem State.classify_of_ne (h : s.index ≠ 0) : s.classify w = s := if_neg h

theorem State.classify_long (h : s.index = 0) (hdash : w.get 0 = dash) (hlong : w.get 1 = dash) :
    s.classify w = { s.cleared with index := 2, processingLongOption := true } := by
  rw [State.classify, if_pos h]
  exact if_pos ⟨hdash, hlong⟩

theorem State.classify_short (h : s.index = 0) (hopt : isOption w = true)
    (hlong : w.get 1 ≠ dash) :
    s.classify w = { s.cleared with index := 1, processingShortOption := true } := by
  rw [State.classify, if_pos h]
  exact (if_neg fun hc => hlong hc.2).trans (if_pos (isOption_iff.mp hopt))

/-- At an option, the loop is inside of it, unless it is `--`. -/
theorem State.classify_option (h : s.index = 0) (hopt : isOption w = true)
    (hend : s.atTerminator w = false) :
    (s.classify w).index < w.bytes.length ∧ 0 < (s.classify w).index ∧
      ((s.classify w).processingLongOption = true ∨ (s.classify w).processingShortOption = true) ∧
      (s.classify w).optind = s.optind ∧ Kept s (s.classify w) := by
  obtain ⟨hdash, hmore⟩ := isOption_iff.mp hopt
  by_cases hlong : w.get 1 = dash
  · have htwo : w.get 2 ≠ 0 := by
      intro hzero
      simp [State.atTerminator, h, hdash, hlong, hzero] at hend
    rw [State.classify_long h hdash hlong]
    exact ⟨CString.get_ne_zero_iff.mp htwo, Nat.two_pos, Or.inl rfl, rfl, .update s⟩
  · rw [State.classify_short h hopt hlong]
    exact ⟨CString.get_ne_zero_iff.mp hmore, Nat.one_pos, Or.inr rfl, rfl, .update s⟩

theorem State.classify_operand (h : s.index = 0) (hop : isOption w = false) :
    s.classify w = s.cleared ∧ s.atTerminator w = false := by
  have hnot : ¬ (w.get 0 = dash ∧ w.get 1 ≠ 0) := by
    intro hc
    rw [isOption_iff.mpr hc] at hop
    contradiction
  have hlong : ¬ (w.get 0 = dash ∧ w.get 1 = dash) := by
    rintro ⟨h0, h1⟩
    exact hnot ⟨h0, by rw [h1]; decide⟩
  constructor
  · rw [State.classify, if_pos h]
    simp only [if_neg hlong, if_neg hnot]
    rfl
  · by_contra hend
    simp only [State.atTerminator, Bool.not_eq_false, Bool.and_eq_true, decide_eq_true_eq] at hend
    exact hlong ⟨hend.1.1.2, hend.1.2⟩

theorem scanArguments_examine {fuel i : Nat} (hi : s.argv[i]? = some w)
    (hopt : s.index = 0 → isOption w = true)
    (hin : s.index ≠ 0 → s.processingLongOption = true ∨ s.processingShortOption = true) :
    scanArguments r optstring (fuel + 1) i s = some (examine r optstring s w) := by
  obtain ⟨hlt, hget⟩ := getD_of_getElem? hi
  rw [scanArguments, if_pos hlt, hget]
  simp only [examine]
  by_cases hend : s.atTerminator w = true
  · rw [if_pos hend, if_pos hend]
    rfl
  · have hprocessing : (s.classify w).processingLongOption = true ∨
        (s.classify w).processingShortOption = true := by
      by_cases h0 : s.index = 0
      · exact (State.classify_option h0 (hopt h0) (Bool.not_eq_true _ ▸ hend)).2.2.1
      · rw [State.classify_of_ne h0]
        exact hin h0
    rw [if_neg hend, if_neg hend]
    by_cases hlong : (s.classify w).processingLongOption = true
    · rw [if_pos hlong, if_pos hlong]
    · rw [if_neg hlong, if_neg hlong, if_pos (hprocessing.resolve_left hlong)]

/-- At the start of a word, what kind the last one was does not matter. -/
theorem examine_cleared (h : s.index = 0) :
    examine r optstring s.cleared w = examine r optstring s w := by
  have hclassify : s.cleared.classify w = s.classify w := by
    rw [State.classify, State.classify, if_pos h, if_pos (show s.cleared.index = 0 from h)]
    rfl
  rw [examine, examine, hclassify]
  rfl

theorem scanArguments_operand {fuel i : Nat} (hi : s.argv[i]? = some w) (h : s.index = 0)
    (hop : isOption w = false) :
    scanArguments r optstring (fuel + 1) i s =
      if s.stopAtFirstNonoption then some (.plain (-1), s.cleared)
      else if s.assignNonoptionToOne then
        some (.plain 1, { s.cleared with optind := s.optind + 1, optarg := some w })
      else if (s.argv.drop (i + 1)).any isOption then
        scanArguments r optstring fuel i
          { s.cleared with argv := rotate s.argv i, exchange := s.exchange - 1 }
      else scanArguments r optstring fuel (i + 1) s.cleared := by
  obtain ⟨hlt, hget⟩ := getD_of_getElem? hi
  obtain ⟨hclassify, hend⟩ := State.classify_operand h hop
  rw [scanArguments, if_pos hlt, hget]
  simp only [hend, hclassify]
  rfl

/-- Operands are moved to the end. -/
def State.permuting (s : State) : Prop :=
  s.stopAtFirstNonoption = false ∧ s.assignNonoptionToOne = false

/-- **Operands in front of an option** are moved to the end, and the option is looked at. -/
theorem scanArguments_front (r : Request) (optstring : CString) (hperm : s.permuting)
    (h : s.index = 0) (hopt : isOption w = true)
    {front done ws : List CString} (hfront : ∀ a ∈ front, isOption a = false)
    (hargv : s.argv = done ++ (front ++ w :: ws)) {fuel : Nat} (hfuel : front.length < fuel) :
    scanArguments r optstring fuel done.length s =
      some (examine r optstring { s with
        argv := done ++ (w :: ws ++ front), exchange := s.exchange - front.length } w) := by
  induction front generalizing s ws fuel with
  | nil =>
    obtain ⟨fuel, rfl⟩ := Nat.exists_eq_add_of_lt hfuel
    rw [List.nil_append] at hargv
    have hsame : { s with
        argv := done ++ (w :: ws ++ []), exchange := s.exchange - ([] : List CString).length } =
          s := by
      rw [List.append_nil, ← hargv, List.length_nil, Int.natCast_zero, Int.sub_zero]
    rw [hsame]
    exact scanArguments_examine (by rw [hargv]; simp) (fun _ => hopt) (fun hne => absurd h hne)
  | cons a front ih =>
    obtain ⟨fuel, rfl⟩ : ∃ n, fuel = n + 1 := ⟨fuel - 1, by omega⟩
    have hi : s.argv[done.length]? = some a := by rw [hargv]; simp
    have hdrop : s.argv.drop (done.length + 1) = front ++ w :: ws := by
      rw [hargv]
      simp
    have hany : (s.argv.drop (done.length + 1)).any isOption = true := by
      rw [hdrop, List.any_append, List.any_cons, hopt]
      simp
    have hrotate : rotate s.argv done.length = done ++ (front ++ w :: (ws ++ [a])) := by
      rw [rotate, hdrop, (getD_of_getElem? hi).2, hargv]
      simp
    rw [scanArguments_operand hi h (hfront a List.mem_cons_self), if_neg (by simp [hperm.1]),
      if_neg (by simp [hperm.2]), if_pos hany]
    have hstep := ih (s := { s.cleared with
        argv := rotate s.argv done.length, exchange := s.exchange - 1 }) hperm h
      (fun b hb => hfront b (List.mem_cons_of_mem a hb)) hrotate (Nat.lt_of_succ_lt_succ hfuel)
    have hlist : w :: (ws ++ [a]) ++ front = w :: ws ++ a :: front := by simp
    have hcount : s.exchange - 1 - (front.length : Int) =
        s.exchange - ((a :: front).length : Nat) := by
      rw [List.length_cons]
      omega
    rw [hlist] at hstep
    refine hstep.trans (congrArg some (Eq.trans ?_ (examine_cleared (s := { s with
      argv := done ++ (w :: ws ++ a :: front)
      exchange := s.exchange - ((a :: front).length : Nat) }) h)))
    rw [← hcount]
    rfl

/-- **Operands alone** end the scan. -/
theorem scanArguments_rest (hperm : s.permuting) (h : s.index = 0) {fuel i : Nat}
    (hrest : ∀ a ∈ s.argv.drop i, isOption a = false) (hfuel : s.argv.length - i < fuel) :
    scanArguments r optstring fuel i s =
      some (.plain (-1), if i < s.argv.length then s.cleared else s) := by
  induction fuel generalizing s i with
  | zero => exact absurd hfuel (Nat.not_lt_zero _)
  | succ fuel ih =>
    by_cases hi : i < s.argv.length
    · have hget : s.argv[i]? = some s.argv[i] := List.getElem?_eq_getElem hi
      have hdrop : s.argv.drop i = s.argv[i] :: s.argv.drop (i + 1) := List.drop_eq_getElem_cons hi
      have hany : (s.argv.drop (i + 1)).any isOption = false := by
        rw [List.any_eq_false]
        intro a ha
        rw [hrest a (by rw [hdrop]; exact List.mem_cons_of_mem _ ha)]
        exact Bool.false_ne_true
      rw [scanArguments_operand hget h (hrest _ (by rw [hdrop]; exact List.mem_cons_self)),
        if_neg (by simp [hperm.1]), if_neg (by simp [hperm.2]), if_neg (by simp [hany])]
      rw [ih (s := s.cleared) hperm h
        (fun a ha => hrest a (by rw [hdrop]; exact List.mem_cons_of_mem _ ha))
        (by show s.argv.length - (i + 1) < fuel; omega), if_pos hi]
      split
      · rfl
      · rfl
    · rw [scanArguments, if_neg hi, if_neg hi]

/-! ## One call -/

/-- What holds of the state once a call has made it up to the loop. -/
structure Ready (s : State) : Prop where
  optind_pos : 1 ≤ s.optind
  optind_le : s.optind ≤ s.argv.length
  exchange_le : s.exchange ≤ s.argv.length
  inside : s.index ≠ 0 → ∃ w, Inside s w

/-- A call that returns `o`. -/
structure Proceeds (s : State) (o : Outcome) (s' : State) : Prop where
  ready : Ready s'
  perm : s'.argv.Perm s.argv
  fixed : s'.argv.take s.optind = s.argv.take s.optind
  unmoved : s.index ≠ 0 → s'.argv = s.argv
  ahead : o.value ≠ -1 →
    Prod.Lex (· < ·) (· < ·) (s.optind, s.index) (s'.optind, s'.index)

theorem Kept.proceeds (h : Kept s s') {o : Outcome} (hready : Ready s')
    (hahead : o.value ≠ -1 →
      Prod.Lex (· < ·) (· < ·) (s.optind, s.index) (s'.optind, s'.index)) :
    Proceeds s o s' := by
  refine ⟨hready, ?_, ?_, fun _ => h.argv, hahead⟩
  · rw [h.argv]
  · rw [h.argv]

theorem NextWord.ready (h : NextWord s s') (hlt : s.optind < s.argv.length)
    (hexchange : s.exchange ≤ s.argv.length) : Ready s' where
  optind_pos := Nat.lt_of_le_of_lt (Nat.zero_le _) h.optind_lt
  optind_le := by
    rw [h.argv]
    rcases h.optind_le with heq | hle
    · omega
    · omega
  exchange_le := by
    rw [h.argv, h.exchange]
    exact hexchange
  inside := fun hne => absurd h.index hne

/-- An option that is looked at is stepped over, by a letter or a word, or -1 is returned. -/
theorem examine_proceeds (r : Request) (optstring : CString) (hready : Ready s)
    (hword : s.argv[s.optind]? = some w)
    (hopt : s.index = 0 → isOption w = true) :
    Proceeds s (examine r optstring s w).1 (examine r optstring s w).2 := by
  obtain ⟨hlt, -⟩ := getD_of_getElem? hword
  rw [examine]
  by_cases hend : s.atTerminator w = true
  · rw [if_pos hend]
    have hindex : s.index = 0 := by
      simp only [State.atTerminator, Bool.and_eq_true, decide_eq_true_eq] at hend
      exact hend.1.1.1
    have hnext : NextWord s { s.cleared with optind := s.optind + 1 } :=
      ⟨.update s, hindex, Nat.lt_succ_self _, Or.inl rfl⟩
    exact hnext.toKept.proceeds (hnext.ready hlt hready.exchange_le) (fun hne => absurd rfl hne)
  · rw [if_neg hend]
    -- whether the word has just been begun or not, the loop is inside of it
    have hinside : Inside (s.classify w) w ∧ Kept s (s.classify w) ∧
        (s.classify w).optind = s.optind ∧ s.index ≤ (s.classify w).index := by
      by_cases h0 : s.index = 0
      · obtain ⟨hlen, -, hprocessing, hoptind, hkept⟩ :=
          State.classify_option h0 (hopt h0) (Bool.not_eq_true _ ▸ hend)
        refine ⟨⟨?_, hlen, hprocessing⟩, hkept, hoptind, ?_⟩
        · rw [hkept.argv, hoptind]
          exact hword
        · rw [h0]
          exact Nat.zero_le _
      · rw [State.classify_of_ne h0]
        obtain ⟨v, hv⟩ := hready.inside h0
        have hvw : v = w := Option.some.inj (hv.word.symm.trans hword)
        exact ⟨hvw ▸ hv, .update s, rfl, Nat.le_refl _⟩
    obtain ⟨hin, hkept, hoptind, hindex⟩ := hinside
    generalize s.classify w = c at hin hkept hoptind hindex ⊢
    have hclt : c.optind < c.argv.length := by rwa [hkept.argv, hoptind]
    have hcex : c.exchange ≤ c.argv.length := by
      rw [hkept.argv, hkept.exchange]
      exact hready.exchange_le
    have hstay : Ready c :=
      ⟨hoptind ▸ hready.optind_pos, Nat.le_of_lt hclt, hcex, fun _ => ⟨w, hin⟩⟩
    have hnext : ∀ {o s'}, NextWord c s' → Proceeds s o s' := by
      intro o s' hnext
      refine (hkept.trans hnext.toKept).proceeds (hnext.ready hclt hcex) (fun _ => .left _ _ ?_)
      rw [← hoptind]
      exact hnext.optind_lt
    split
    · rcases longOption_moves r c w with ⟨hvalue, hsame⟩ | hmoves
      · rw [hsame]
        exact hkept.proceeds hstay (fun hne => absurd hvalue hne)
      · exact hnext hmoves
    · next hlong =>
      rcases shortOption_moves r c optstring w with ⟨hvalue, hsame⟩ | hmoves | hletter
      · rw [hsame]
        exact hkept.proceeds hstay (fun hne => absurd hvalue hne)
      · exact hnext hmoves
      · generalize (shortOption r c optstring w).2 = s' at hletter ⊢
        have hargv := hletter.argv
        have hindex' := hletter.index
        refine (hkept.trans hletter.toKept).proceeds
          ⟨?_, ?_, ?_, fun _ => ⟨w, ?_, hletter.inside, ?_⟩⟩ ?_
        · rw [hletter.optind]
          exact hstay.optind_pos
        · rw [hletter.optind, hargv]
          exact hstay.optind_le
        · rw [hletter.exchange, hargv]
          exact hcex
        · rw [hletter.optind, hargv]
          exact hin.word
        · right
          rw [hletter.processingShortOption]
          exact hin.processing.resolve_left hlong
        · intro _
          rw [hletter.optind, hoptind]
          exact .right _ (by omega)

/-- Operands in front of it, and the rest. -/
theorem exists_front (ws : List CString) :
    (∀ a ∈ ws, isOption a = false) ∨
      ∃ front w back, ws = front ++ w :: back ∧ (∀ a ∈ front, isOption a = false) ∧
        isOption w = true := by
  induction ws with
  | nil => exact Or.inl fun a ha => absurd ha List.not_mem_nil
  | cons a ws ih =>
    by_cases ha : isOption a = true
    · exact Or.inr ⟨[], a, ws, rfl, fun b hb => absurd hb List.not_mem_nil, ha⟩
    · rw [Bool.not_eq_true] at ha
      rcases ih with hall | ⟨front, w, back, rfl, hfront, hw⟩
      · left
        intro b hb
        rcases List.mem_cons.mp hb with rfl | hb
        · exact ha
        · exact hall b hb
      · refine Or.inr ⟨a :: front, w, back, rfl, ?_, hw⟩
        intro b hb
        rcases List.mem_cons.mp hb with rfl | hb
        · exact ha
        · exact hfront b hb

/-- Between two words, with operands to be moved. -/
theorem scanArguments_permuting (r : Request) (optstring : CString) (hready : Ready s)
    (hperm : s.permuting) (h0 : s.index = 0) :
    ∃ o s', scanArguments r optstring (s.argv.length - s.optind + 1) s.optind s = some (o, s') ∧
      Proceeds s o s' := by
  have hle := hready.optind_le
  rcases exists_front (s.argv.drop s.optind) with hall | ⟨front, w, back, hdrop, hfront, hopt⟩
  · refine ⟨_, _, scanArguments_rest hperm h0 hall (Nat.lt_succ_self _), ?_⟩
    split
    · exact (Kept.update s).proceeds ⟨hready.optind_pos, hle, hready.exchange_le,
        fun hne => absurd h0 hne⟩ (fun hne => absurd rfl hne)
    · exact (Kept.update s).proceeds hready (fun hne => absurd rfl hne)
  · have hdone : (s.argv.take s.optind).length = s.optind := List.length_take_of_le hle
    have hargv : s.argv = s.argv.take s.optind ++ (front ++ w :: back) := by
      rw [← hdrop, List.take_append_drop]
    have hlength := congrArg List.length hdrop
    rw [List.length_drop, List.length_append] at hlength
    have hscan := scanArguments_front r optstring hperm h0 hopt hfront hargv
      (show front.length < s.argv.length - s.optind + 1 by omega)
    rw [hdone] at hscan
    refine ⟨_, _, hscan, ?_⟩
    -- the rotated vector: the part in front of `optind` is as it was
    have hmoved : (s.argv.take s.optind ++ (w :: back ++ front)).Perm s.argv := by
      conv_rhs => rw [hargv]
      exact List.perm_append_comm.append_left _
    have htake : (s.argv.take s.optind ++ (w :: back ++ front)).take s.optind =
        s.argv.take s.optind := List.take_left' hdone
    have hmid : Ready { s with
        argv := s.argv.take s.optind ++ (w :: back ++ front)
        exchange := s.exchange - front.length } := by
      refine ⟨hready.optind_pos, ?_, ?_, fun hne => absurd h0 hne⟩
      · rw [hmoved.length_eq]
        exact hle
      · rw [hmoved.length_eq]
        have hexchange := hready.exchange_le
        dsimp only
        omega
    have hword : (s.argv.take s.optind ++ (w :: back ++ front))[s.optind]? = some w := by
      rw [List.getElem?_append_right (Nat.le_of_eq hdone), hdone, Nat.sub_self]
      rfl
    have hproceeds := examine_proceeds r optstring hmid hword (fun _ => hopt)
    exact ⟨hproceeds.ready, hproceeds.perm.trans hmoved, hproceeds.fixed.trans htake,
      fun hne => absurd h0 hne, hproceeds.ahead⟩

theorem scanArguments_proceeds (r : Request) (optstring : CString) (hready : Ready s)
    (hlt : s.optind < s.argv.length) :
    ∃ o s', scanArguments r optstring (s.argv.length - s.optind + 1) s.optind s = some (o, s') ∧
      Proceeds s o s' := by
  have hword : s.argv[s.optind]? = some s.argv[s.optind] := List.getElem?_eq_getElem hlt
  by_cases h0 : s.index = 0
  · by_cases hopt : isOption s.argv[s.optind] = true
    · exact ⟨_, _, scanArguments_examine hword (fun _ => hopt) (fun hne => absurd h0 hne),
        examine_proceeds r optstring hready hword (fun _ => hopt)⟩
    rw [Bool.not_eq_true] at hopt
    by_cases hstop : s.stopAtFirstNonoption = true
    · rw [scanArguments_operand hword h0 hopt, if_pos hstop]
      exact ⟨_, _, rfl, (Kept.update s).proceeds ⟨hready.optind_pos, hready.optind_le,
        hready.exchange_le, fun hne => absurd h0 hne⟩ (fun hne => absurd rfl hne)⟩
    by_cases hassign : s.assignNonoptionToOne = true
    · rw [scanArguments_operand hword h0 hopt, if_neg hstop, if_pos hassign]
      have hnext : NextWord s
          { s.cleared with optind := s.optind + 1, optarg := some s.argv[s.optind] } :=
        ⟨.update s, h0, Nat.lt_succ_self _, Or.inl rfl⟩
      exact ⟨_, _, rfl, hnext.toKept.proceeds (hnext.ready hlt hready.exchange_le)
        (fun _ => .left _ _ hnext.optind_lt)⟩
    exact scanArguments_permuting r optstring hready
      ⟨Bool.not_eq_true _ ▸ hstop, Bool.not_eq_true _ ▸ hassign⟩ h0
  · obtain ⟨w, hin⟩ := hready.inside h0
    exact ⟨_, _, scanArguments_examine hin.word (fun hz => absurd hz h0) (fun _ => hin.processing),
      examine_proceeds r optstring hready hin.word (fun hz => absurd hz h0)⟩

/-! ## Whole runs -/

/-- What holds between the calls. With `optind` at 0 the next one starts over. -/
structure Between (s : State) : Prop where
  argv_ne : s.argv ≠ []
  optind_le : s.optind ≤ s.argv.length
  exchange_le : s.getoptInitialized = true → s.optind ≠ 0 → s.exchange ≤ s.argv.length
  inside : s.optind ≠ 0 → s.index ≠ 0 → ∃ w, Inside s w

theorem Ready.between (h : Ready s) : Between s where
  argv_ne hnil := by
    have hpos := h.optind_pos
    have hle := h.optind_le
    rw [hnil, List.length_nil] at hle
    omega
  optind_le := h.optind_le
  exchange_le _ _ := h.exchange_le
  inside _ := h.inside

/-- A reset leaves the position behind the name of the program. -/
theorem Between.reset (h : Between s) :
    1 ≤ s.reset.optind ∧ s.reset.argv = s.argv ∧ Between s.reset := by
  have hpos := List.length_pos_iff.mpr h.argv_ne
  rw [State.reset]
  split
  · refine ⟨Nat.le_refl 1, rfl, h.argv_ne, hpos, ?_, fun _ hne => absurd rfl hne⟩
    intro hinit
    contradiction
  · next hne => exact ⟨Nat.pos_of_ne_zero hne, rfl, h⟩

theorem State.readMarks_argv (r : Request) (optstring : CString) (s : State) :
    (s.readMarks r optstring).argv = s.argv ∧ (s.readMarks r optstring).optind = s.optind ∧
      (s.readMarks r optstring).index = s.index := by
  rw [State.readMarks]
  split
  · exact ⟨rfl, rfl, rfl⟩
  · exact ⟨rfl, rfl, rfl⟩

theorem Between.ready (h : Between s) (hpos : 1 ≤ s.optind) (r : Request) (optstring : CString) :
    Ready (s.readMarks r optstring) := by
  have hne : s.optind ≠ 0 := Nat.ne_of_gt hpos
  rw [State.readMarks]
  split
  · next hinit => exact ⟨hpos, h.optind_le, h.exchange_le hinit hne, h.inside hne⟩
  · refine ⟨hpos, h.optind_le, Int.le_refl _, ?_⟩
    intro hindex
    obtain ⟨w, hin⟩ := h.inside hne hindex
    exact ⟨w, hin.word, hin.index_lt, hin.processing⟩

/-- The vector of arguments has been permuted, but for the name of the program. -/
def Rearranged (argv argv' : List CString) : Prop := argv'.Perm argv ∧ argv'.head? = argv.head?

theorem Proceeds.rearranged {o : Outcome} (h : Proceeds s o s') (hpos : 1 ≤ s.optind) :
    Rearranged s.argv s'.argv := by
  refine ⟨h.perm, ?_⟩
  have hhead : ∀ argv : List CString, (argv.take s.optind).head? = argv.head? := by
    intro argv
    rw [List.head?_take, if_neg (by omega)]
  rw [← hhead, h.fixed, hhead]

/-- **One call.** It returns, and proceeds unless it returns -1. -/
theorem Between.getopt (h : Between s) (r : Request) :
    ∃ o s', getopt r s = some (o, s') ∧ Between s' ∧ Rearranged s.argv s'.argv ∧
      (o.value ≠ -1 → Proceeds s.reset o s') := by
  rw [Getopt.getopt]
  cases hopt : r.optstring with
  | none => exact ⟨_, _, rfl, h, ⟨.refl _, rfl⟩, fun hne => absurd rfl hne⟩
  | some optstring =>
    obtain ⟨hpos, hsame, hreset⟩ := h.reset
    obtain ⟨hargv, hoptind, hindex⟩ := s.reset.readMarks_argv r optstring
    have hready := hreset.ready hpos r optstring
    dsimp only
    generalize s.reset.readMarks r optstring = t at hargv hoptind hindex hready ⊢
    split
    · refine ⟨_, _, rfl, Ready.between ?_, ⟨?_, ?_⟩, fun hne => absurd rfl hne⟩
      · exact ⟨hready.optind_pos, hready.optind_le, hready.exchange_le, fun hne => absurd rfl hne⟩
      · rw [hargv, hsame]
      · rw [hargv, hsame]
    · next hne =>
      obtain ⟨o, s', hscan, hproceeds⟩ := scanArguments_proceeds r optstring
        hready (Nat.lt_of_le_of_ne hready.optind_le hne)
      refine ⟨o, s', hscan, hproceeds.ready.between, ?_,
        fun _ => ⟨hproceeds.ready, ?_, ?_, ?_, ?_⟩⟩
      · rw [← hsame, ← hargv]
        exact hproceeds.rearranged hready.optind_pos
      · rw [← hargv]
        exact hproceeds.perm
      · rw [← hargv, ← hoptind]
        exact hproceeds.fixed
      · rw [← hargv, ← hindex]
        exact hproceeds.unmoved
      · rw [← hoptind, ← hindex]
        exact hproceeds.ahead

/-- The words of some arguments and their characters, counted. -/
def wordsAndCharacters (argv : List CString) : Nat :=
  argv.length + (argv.map fun w => w.bytes.length).sum

theorem wordsAndCharacters_append (as bs : List CString) :
    wordsAndCharacters (as ++ bs) = wordsAndCharacters as + wordsAndCharacters bs := by
  simp only [wordsAndCharacters, List.length_append, List.map_append, List.sum_append]
  omega

theorem wordsAndCharacters_perm {as bs : List CString} (h : as.Perm bs) :
    wordsAndCharacters as = wordsAndCharacters bs := by
  rw [wordsAndCharacters, wordsAndCharacters, h.length_eq, (h.map _).sum_eq]

theorem wordsAndCharacters_take_le (argv : List CString) (n : Nat) :
    wordsAndCharacters (argv.take n) ≤ wordsAndCharacters argv := by
  conv_rhs => rw [← List.take_append_drop n argv, wordsAndCharacters_append]
  exact Nat.le_add_right _ _

theorem wordsAndCharacters_take_succ {argv : List CString} {n : Nat} (h : argv[n]? = some w) :
    wordsAndCharacters (argv.take (n + 1)) = wordsAndCharacters (argv.take n) + w.bytes.length + 1 := by
  rw [List.take_add_one, h, wordsAndCharacters_append]
  simp [wordsAndCharacters]
  omega

/-- How far a scan has come. -/
def visited (s : State) : Nat := wordsAndCharacters (s.argv.take s.optind) + s.index

theorem Between.visited_le (h : Between s) (hpos : s.optind ≠ 0) :
    visited s ≤ wordsAndCharacters s.argv := by
  rw [visited]
  by_cases h0 : s.index = 0
  · rw [h0]
    exact wordsAndCharacters_take_le _ _
  · obtain ⟨w, hin⟩ := h.inside hpos h0
    have hnext := wordsAndCharacters_take_succ hin.word
    have hle := wordsAndCharacters_take_le s.argv (s.optind + 1)
    have hlt := hin.index_lt
    omega

/-- A call that proceeds gets on with the scan. -/
theorem Proceeds.visited_lt {o : Outcome} (h : Proceeds s o s') (hs : Between s)
    (hpos : s.optind ≠ 0) (hne : o.value ≠ -1) : visited s < visited s' := by
  rw [visited, visited]
  rcases Prod.lex_def.mp (h.ahead hne) with hlt | ⟨heq, hlt⟩
  · -- the words in front of the new position contain the one at the old position
    dsimp only at hlt
    have hle := h.ready.optind_le
    have hbound : s.optind < s'.argv.length := by omega
    have hword : s'.argv[s.optind]? = some s'.argv[s.optind] := List.getElem?_eq_getElem hbound
    have hnext := wordsAndCharacters_take_succ hword
    have hmore := wordsAndCharacters_take_le (s'.argv.take s'.optind) (s.optind + 1)
    rw [List.take_take, Nat.min_eq_left (show s.optind + 1 ≤ s'.optind from hlt)] at hmore
    rw [h.fixed] at hnext
    have hindex : s.index ≤ (s'.argv[s.optind]).bytes.length := by
      by_cases h0 : s.index = 0
      · rw [h0]
        exact Nat.zero_le _
      · obtain ⟨w, hin⟩ := hs.inside hpos h0
        have hsame := h.unmoved h0
        have hw : s'.argv[s.optind]? = some w := by rw [hsame]; exact hin.word
        rw [Option.some.inj (hword.symm.trans hw)]
        exact Nat.le_of_lt hin.index_lt
    omega
  · dsimp only at heq hlt
    rw [← heq, h.fixed]
    omega

/-- The states that calls lead to. With `optind` at 0, another vector of arguments may be scanned. -/
inductive Reachable : State → Prop
  | start {argv : List CString} : argv ≠ [] → Reachable (.start argv)
  | call {s s' : State} {r : Request} {o : Outcome} :
      Reachable s → getopt r s = some (o, s') → Reachable s'
  | reset {s : State} {argv : List CString} :
      Reachable s → argv ≠ [] → Reachable { s with argv := argv, optind := 0 }

theorem Reachable.between (h : Reachable s) : Between s := by
  induction h with
  | start hne =>
    refine ⟨hne, List.length_pos_iff.mpr hne, ?_, fun _ hindex => absurd rfl hindex⟩
    intro hinit
    contradiction
  | call _ hcall ih =>
    obtain ⟨o, s', hcall', hbetween, -, -⟩ := ih.getopt _
    cases hcall.symm.trans hcall'
    exact hbetween
  | reset _ hne _ =>
    exact ⟨hne, Nat.zero_le _, fun _ h0 => absurd rfl h0, fun h0 => absurd rfl h0⟩

/-- `while ((c = getopt(...)) != -1)`, for at most so many calls. -/
def getoptLoop (r : Request) (n : Nat) (s : State) :
    Option (List (Outcome × State) × (Outcome × State)) :=
  getoptMachine.drive r (fun o => o.value = -1) n s

/-- The loop of calls, without a bound. -/
theorem Between.drives (h : Between s) (r : Request) :
    ∃ os last, getoptMachine.Drives r (fun o => o.value = -1) s os last ∧
      os.length < wordsAndCharacters s.argv := by
  have hstep : ∀ s, Between s → ∃ s' o, getoptMachine.step s r = some (s', o) ∧ Between s' ∧
      (decide (o.value = -1) = false →
        wordsAndCharacters s'.argv - visited s'.reset <
          wordsAndCharacters s.argv - visited s.reset) := by
    intro s hs
    obtain ⟨o, s', hcall, hs', -, hproceeds⟩ := hs.getopt r
    refine ⟨s', o, ?_, hs', fun hne => ?_⟩
    · show (Getopt.getopt r s).map Prod.swap = _
      rw [hcall]
      rfl
    · have hvalue : o.value ≠ -1 := of_decide_eq_false hne
      have hp := hproceeds hvalue
      obtain ⟨hpos, hargv, hreset⟩ := hs.reset
      have hpos' : s'.optind ≠ 0 := Nat.ne_of_gt hp.ready.optind_pos
      have hsame : s'.reset = s' := if_neg hpos'
      have hlt := hp.visited_lt hreset (Nat.ne_of_gt hpos) hvalue
      have hle := hs'.visited_le hpos'
      have hperm := wordsAndCharacters_perm hp.perm
      rw [hargv] at hperm
      rw [hsame]
      omega
  obtain ⟨os, last, hdrives, hlength⟩ := Machine.exists_drives hstep s h
  refine ⟨os, last, hdrives, ?_⟩
  -- the name of the program counts for one at least
  obtain ⟨hpos, hargv, hreset⟩ := h.reset
  have hfirst : 0 < visited s.reset := by
    have hlt : 0 < s.reset.argv.length := List.length_pos_iff.mpr hreset.argv_ne
    have hone : 0 < (s.reset.argv.take s.reset.optind).length := by
      rw [List.length_take]
      omega
    rw [visited, wordsAndCharacters]
    omega
  have hle := hreset.visited_le (Nat.ne_of_gt hpos)
  rw [hargv] at hle
  omega

/-- **Progress.** In every state that calls lead to, the next call returns; unless it returns -1 it gets
ahead; `optind` stays within the arguments; and a loop of calls ends after as many of them as there are
words and characters, at the latest. -/
theorem getopt_progress (s : State) (h : Reachable s) (r : Request) :
    (∃ o s', getopt r s = some (o, s') ∧ s'.optind ≤ s'.argv.length ∧
      (o.value ≠ -1 →
        Prod.Lex (· < ·) (· < ·) (s.optind, s.index) (s'.optind, s'.index))) ∧
      (getoptLoop r (wordsAndCharacters s.argv) s).isSome := by
  have hbetween := h.between
  constructor
  · obtain ⟨o, s', hcall, hs', -, hproceeds⟩ := hbetween.getopt r
    refine ⟨o, s', hcall, hs'.optind_le, fun hne => ?_⟩
    have hahead := (hproceeds hne).ahead hne
    by_cases h0 : s.optind = 0
    · -- after a reset the position is compared with 0
      have hpos := (hproceeds hne).ready.optind_pos
      rw [h0]
      exact .left _ _ hpos
    · have hsame : s.reset = s := if_neg h0
      rw [hsame] at hahead
      exact hahead
  · obtain ⟨os, last, hdrives, hlength⟩ := hbetween.drives r
    rw [getoptLoop, hdrives.drive_eq hlength]
    rfl

/-- `getopt` with an option string that knows `a`, and `b` with a parameter. -/
def plainRequest : Request where
  optstring := some ⟨[97, 98, 58], by decide⟩
  longopts := none
  longindex := false
  opterr := 0
  posixlyCorrect := false
  programInvocationName := ⟨[112], by decide⟩

/-- `p x -ab y`. -/
def plainArguments : List CString :=
  [⟨[112], by decide⟩, ⟨[120], by decide⟩, ⟨[45, 97, 98], by decide⟩, ⟨[121], by decide⟩]

/-- The calls end within the ten words and characters. -/
theorem getopt_progress_cluster : (getoptLoop plainRequest 10 (.start plainArguments)).isSome :=
  (getopt_progress (.start plainArguments) (.start (List.cons_ne_nil _ _)) plainRequest).2

end WindowsLibc.Getopt
