import WindowsLibc.Getopt.Within

/-!
# Unknown long options

With a table of long options, `wlibc_common_getopt` returns -1 at a long option that the table does not
have, and stays where it is. Without a table it reports the option and goes on.

* `Marked` is what holds of the error byte and of a word that has been begun, between the calls.
* `run_passed`: the calls that follow report what they would without the word that was passed over.
* `tolerates_iff`: an unknown long option is reported and passed over exactly if there is no table.
-/

namespace WindowsLibc.Getopt

open WindowsLibc.Lib

variable {r : Request} {optstring w : CString} {s s' t : State} {p i : Nat}

/-! ## Between the calls -/

/-- Two dashes. -/
def isLong (w : CString) : Bool := w.get 0 = dash && w.get 1 = dash

/-- A word that has been begun is a long option behind its dashes, or else no long option. -/
def Begun (s : State) : Prop :=
  s.index ≠ 0 → ∀ w, s.argv[s.optind]? = some w →
    (s.processingLongOption = true ∧ s.index = 2) ∨
      (s.processingLongOption = false ∧ s.processingShortOption = true ∧ isLong w = false)

theorem Begun.of_index (h : s.index = 0) : Begun s := fun hne => absurd h hne

theorem Begun.classify (h : Begun s) (hword : s.argv[s.optind]? = some w) : Begun (s.classify w) := by
  obtain ⟨hargv, hoptind⟩ := s.classify_argv w
  by_cases h0 : s.index = 0
  · intro hne v hv
    rw [hargv, hoptind, hword] at hv
    cases hv
    rw [State.classify, if_pos h0] at hne ⊢
    by_cases hlong : w.get 0 = dash ∧ w.get 1 = dash
    · rw [if_pos hlong]
      exact .inl ⟨rfl, rfl⟩
    · simp only [if_neg hlong] at hne ⊢
      split at hne
      · next hshort =>
        rw [if_pos hshort]
        refine .inr ⟨rfl, rfl, ?_⟩
        simp only [isLong, Bool.and_eq_false_iff, decide_eq_false_iff_not]
        exact Classical.not_and_iff_not_or_not.mp hlong
      · exact absurd h0 hne
  · rw [State.classify_of_ne h0]
    exact h

theorem shortOption_long (r : Request) (s : State) (optstring argument : CString) :
    (shortOption r s optstring argument).2.processingLongOption = s.processingLongOption := by
  have hstep : (s.step argument).processingLongOption = s.processingLongOption := by
    rw [State.step]
    split
    · rfl
    · rfl
  have hparameter : ((s.step argument).shortParameter argument).2.processingLongOption =
      (s.step argument).processingLongOption := by
    rw [State.shortParameter]
    split
    · rfl
    · split
      · rfl
      · rfl
  fun_cases shortOption r s optstring argument
  case case1 => rfl
  case case2 => exact hstep
  case case3 => exact hstep
  case case4 heq =>
    rw [heq] at hparameter
    exact hparameter.trans hstep
  case case5 heq =>
    rw [heq] at hparameter
    exact hparameter.trans hstep
  case case6 heq =>
    rw [heq] at hparameter
    exact hparameter.trans hstep

/-- What the loop leaves: the marks of the option string, and a word begun or none. -/
structure Settled (s s' : State) : Prop where
  errorReturn : s'.errorReturn = s.errorReturn
  initialized : s'.getoptInitialized = s.getoptInitialized
  optind_le : s.optind ≤ s'.optind
  begun : Begun s → Begun s'

theorem NextWord.settled (h : NextWord s s') : Settled s s' :=
  ⟨h.errorReturn, h.getoptInitialized, Nat.le_of_lt h.optind_lt, fun _ => .of_index h.index⟩

theorem longOption_settled (r : Request) (s : State) (argument : CString) :
    Settled s (longOption r s argument).2 := by
  rcases longOption_moves r s argument with ⟨_, hsame⟩ | hnext
  · rw [hsame]
    exact ⟨rfl, rfl, Nat.le_refl _, id⟩
  · exact hnext.settled

theorem shortOption_settled (hlong : s.processingLongOption = false) (hindex : s.index ≠ 0) :
    Settled s (shortOption r s optstring w).2 := by
  have hsame := shortOption_long r s optstring w
  rcases shortOption_moves r s optstring w with ⟨_, heq⟩ | hnext | hletter
  · rw [heq]
    exact ⟨rfl, rfl, Nat.le_refl _, id⟩
  · exact hnext.settled
  · refine ⟨hletter.errorReturn, hletter.getoptInitialized, hletter.optind.ge, fun hbegun _ v hv => ?_⟩
    rw [hletter.argv, hletter.optind] at hv
    rw [hsame, hletter.processingShortOption]
    rcases hbegun hindex v hv with ⟨htrue, _⟩ | hshort
    · rw [hlong] at htrue
      contradiction
    · exact .inr hshort

/-- A word is begun only at the position: behind it are operands alone. -/
def AtPosition (i : Nat) (s : State) : Prop :=
  i = s.optind ∨ (s.index = 0 ∧ ∀ a ∈ s.argv.drop i, isOption a = false)

theorem State.classify_kept (s : State) (argument : CString) : Kept s (s.classify argument) := by
  rw [State.classify]
  split
  · split
    · exact .update s
    · split
      · exact .update s
      · exact .update s
  · exact .update s

/-- A word that is not begun by the loop is an operand. -/
theorem State.classify_none (hat : s.index ≠ 0 → s.processingLongOption = true ∨ s.processingShortOption = true)
    (hlong : ¬ (s.classify w).processingLongOption = true)
    (hshort : ¬ (s.classify w).processingShortOption = true) : s.index = 0 ∧ (s.classify w).index = 0 := by
  have h0 : s.index = 0 := by
    by_contra hne
    rw [State.classify_of_ne hne] at hlong hshort
    exact (hat hne).elim hlong hshort
  rw [State.classify, if_pos h0] at hlong hshort ⊢
  by_cases hdashes : w.get 0 = dash ∧ w.get 1 = dash
  · rw [if_pos hdashes] at hlong
    exact absurd rfl hlong
  · simp only [if_neg hdashes] at hshort ⊢
    split at hshort
    · exact absurd rfl hshort
    · next hoperand =>
      rw [if_neg hoperand]
      exact ⟨h0, h0⟩

theorem scanArguments_settled (r : Request) (optstring : CString) (fuel : Nat) {o : Outcome}
    (hat : AtPosition i s) (hprocessing : s.index ≠ 0 → s.processingLongOption = true ∨ s.processingShortOption = true)
    (h : scanArguments r optstring fuel i s = some (o, s')) : Settled s s' := by
  induction fuel generalizing i s with
  | zero => cases h
  | succ fuel ih =>
    rw [scanArguments] at h
    by_cases hi : i < s.argv.length
    swap
    · rw [if_neg hi] at h
      cases h
      exact ⟨rfl, rfl, Nat.le_refl _, id⟩
    rw [if_pos hi] at h
    generalize hw : s.argv.getD i .empty = w at h
    have hget : s.argv[i]? = some w := by
      rw [← hw, List.getD_eq_getElem _ _ hi]
      exact List.getElem?_eq_getElem hi
    have hkept := s.classify_kept w
    have hoptind := (s.classify_argv w).2
    have hclassify : Begun s → Begun (s.classify w) := by
      intro hbegun
      rcases hat with rfl | ⟨h0, hrest⟩
      · exact hbegun.classify hget
      · -- the word is an operand
        have hoperand : isOption w = false := by
          refine hrest w (List.mem_of_getElem? (i := 0) ?_)
          rw [List.getElem?_drop]
          exact hget
        rw [(State.classify_operand h0 hoperand).1]
        exact .of_index h0
    have hc : Settled s (s.classify w) :=
      ⟨hkept.errorReturn, hkept.getoptInitialized, hoptind.ge, hclassify⟩
    have htrans {u : State} (hu : Settled (s.classify w) u) : Settled s u :=
      ⟨hu.errorReturn.trans hc.errorReturn, hu.initialized.trans hc.initialized,
        hc.optind_le.trans hu.optind_le, fun hbegun => hu.begun (hc.begun hbegun)⟩
    by_cases hend : s.atTerminator w = true
    · simp only [if_pos hend] at h
      cases h
      have h0 : s.index = 0 := by
        simp only [State.atTerminator, Bool.and_eq_true, decide_eq_true_eq] at hend
        exact hend.1.1.1
      exact ⟨rfl, rfl, Nat.le_succ _, fun _ => .of_index h0⟩
    simp only [if_neg hend] at h
    by_cases hlong : (s.classify w).processingLongOption = true
    · simp only [if_pos hlong] at h
      have hlongOption := longOption_settled r (s.classify w) w
      rw [Option.some.inj h] at hlongOption
      exact htrans hlongOption
    simp only [if_neg hlong] at h
    by_cases hshort : (s.classify w).processingShortOption = true
    · simp only [if_pos hshort] at h
      have hindex : (s.classify w).index ≠ 0 := by
        by_cases h0 : s.index = 0
        · rw [State.classify, if_pos h0] at hshort ⊢
          split at hshort
          · cases hshort
          · next hdashes =>
            simp only [if_neg hdashes]
            split at hshort
            · next hletter =>
              rw [if_pos hletter]
              exact Nat.one_ne_zero
            · cases hshort
        · rwa [State.classify_of_ne h0]
      have hshortOption : Settled (s.classify w) (shortOption r (s.classify w) optstring w).2 := shortOption_settled
        (Bool.not_eq_true _ ▸ hlong) hindex
      rw [Option.some.inj h] at hshortOption
      exact htrans hshortOption
    simp only [if_neg hshort] at h
    obtain ⟨h0, hc0⟩ := State.classify_none hprocessing hlong hshort
    have hrest : ∀ {u : State}, u.errorReturn = (s.classify w).errorReturn →
        u.getoptInitialized = (s.classify w).getoptInitialized →
        (s.classify w).optind ≤ u.optind → u.index = 0 → Settled s u :=
      fun he hi ho h => htrans ⟨he, hi, ho, fun _ => .of_index h⟩
    split at h
    · cases h
      exact hrest rfl rfl (Nat.le_refl _) hc0
    · split at h
      · cases h
        exact hrest rfl rfl (Nat.le_succ _) hc0
      · split at h
        · next hany =>
          have hposition : i = s.optind := by
            rcases hat with heq | ⟨_, hoperands⟩
            · exact heq
            · obtain ⟨a, ha, hoption⟩ := List.any_eq_true.mp hany
              rw [hkept.argv, ← List.drop_drop] at ha
              rw [hoperands a (List.mem_of_mem_drop ha)] at hoption
              contradiction
          have hmoved := ih (s := { s.classify w with
              argv := rotate (s.classify w).argv i, exchange := (s.classify w).exchange - 1 })
            (.inl (hposition.trans hoptind.symm)) (fun hne => absurd hc0 hne) h
          exact htrans ⟨hmoved.errorReturn, hmoved.initialized, hmoved.optind_le,
            fun _ => hmoved.begun (.of_index hc0)⟩
        · next hany =>
          refine htrans (ih (.inr ⟨hc0, ?_⟩) (fun hne => absurd hc0 hne) h)
          intro a ha
          rw [Bool.not_eq_true, List.any_eq_false] at hany
          exact Bool.not_eq_true _ ▸ hany a ha

theorem Ready.processing (h : Ready s) :
    s.index ≠ 0 → s.processingLongOption = true ∨ s.processingShortOption = true := by
  intro hne
  obtain ⟨w, hin⟩ := h.inside hne
  exact hin.processing

/-- What a call leaves of what it starts with, once it has read the marks. -/
theorem getopt_settled (hready : Ready s) (hinit : s.getoptInitialized = true) {o : Outcome}
    (h : getopt r s = some (o, s')) : Settled s s' := by
  cases hopt : r.optstring with
  | none =>
    rw [getopt, hopt] at h
    cases h
    exact ⟨rfl, rfl, Nat.le_refl _, id⟩
  | some optstring =>
    have hsame : s.reset.readMarks r optstring = s := by
      have hpos := hready.optind_pos
      rw [State.reset, if_neg (by omega), State.readMarks, if_pos hinit]
    rw [getopt, hopt] at h
    simp only [hsame] at h
    split at h
    · cases h
      exact ⟨rfl, rfl, Nat.le_refl _, fun _ => .of_index rfl⟩
    · exact scanArguments_settled r optstring _ (.inl rfl) hready.processing h

/-- The state that the loop of a call starts with. -/
def State.begins (r : Request) (optstring : CString) (s : State) : State := s.reset.readMarks r optstring

theorem State.begins_initialized (r : Request) (optstring : CString) (s : State) :
    (s.begins r optstring).getoptInitialized = true := by
  rw [State.begins, State.readMarks]
  split
  · assumption
  · rfl

theorem Between.begins (h : Between s) (r : Request) (optstring : CString) :
    Ready (s.begins r optstring) := h.reset.2.2.ready h.reset.1 r optstring

theorem getopt_begins (hopt : r.optstring = some optstring) (h : Between s) :
    getopt r (s.begins r optstring) = getopt r s := by
  have hpos := (h.begins r optstring).optind_pos
  have hsame : (s.begins r optstring).reset.readMarks r optstring = s.begins r optstring := by
    rw [State.reset, if_neg (by omega), State.readMarks, if_pos (s.begins_initialized r optstring)]
  rw [getopt, getopt, hopt]
  simp only [hsame]
  rfl

/-- What holds of the error byte, and of a word that has been begun, between the calls. -/
structure Marked (s : State) : Prop where
  error : s.getoptInitialized = true → s.errorReturn = colon ∨ s.errorReturn = questionMark
  begun : s.optind ≠ 0 → Begun s

theorem Marked.begins (h : Marked s) (r : Request) (optstring : CString) :
    Marked (s.begins r optstring) := by
  have hreset : Marked s.reset := by
    rw [State.reset]
    split
    · exact ⟨fun hinit => by contradiction, fun _ => .of_index rfl⟩
    · exact h
  rw [State.begins, State.readMarks]
  split
  · exact hreset
  · refine ⟨fun _ => ?_, hreset.begun⟩
    dsimp only
    split
    · exact .inl rfl
    · exact .inr rfl

theorem Reachable.marked (h : Reachable s) : Marked s := by
  induction h with
  | start hne => exact ⟨fun hinit => by contradiction, fun _ => .of_index rfl⟩
  | @call s s' r o hreach hcall ih =>
    cases hopt : r.optstring with
    | none =>
      rw [getopt, hopt] at hcall
      cases hcall
      exact ih
    | some optstring =>
      have hbetween := hreach.between
      have hready := hbetween.begins r optstring
      have hmarked := ih.begins r optstring
      have hpos := hready.optind_pos
      rw [← getopt_begins hopt hbetween] at hcall
      have hsettled := getopt_settled hready (s.begins_initialized r optstring) hcall
      refine ⟨fun _ => ?_, fun _ => hsettled.begun (hmarked.begun (by omega))⟩
      rw [hsettled.errorReturn]
      exact hmarked.error (s.begins_initialized r optstring)
  | reset _ _ ih => exact ⟨ih.error, fun h0 => absurd rfl h0⟩

/-! ## An unknown long option -/

/-- The name of a long option: what stands between the dashes and an equals sign. -/
def longName (w : CString) : List UInt8 := (w.bytes.drop 2).takeWhile (· ≠ 61)

theorem take_findIdx (bytes : List UInt8) :
    bytes.take ((bytes.findIdx? (· = 61)).getD bytes.length) = bytes.takeWhile (· ≠ 61) := by
  induction bytes with
  | nil => rfl
  | cons byte bytes ih =>
    rw [List.findIdx?_cons, List.takeWhile_cons]
    by_cases h : byte = 61
    · simp [h]
    · rw [if_neg (by simpa using h), if_pos (by simpa using h), ← ih]
      cases bytes.findIdx? (· = 61)
      · rfl
      · rfl

theorem findLong_eq_none {table : List LongOption} (h : ∀ o ∈ table, o.name.bytes ≠ longName w) :
    findLong table (w.drop 2)
      (((w.drop 2).bytes.findIdx? (· = 61)).getD (w.drop 2).bytes.length) = none := by
  rw [findLong, take_findIdx, List.findIdx?_eq_none_iff]
  intro o ho
  exact decide_eq_false (h o ho)

/-- The word at the position is a long option that is not in the table. -/
structure UnknownLong (r : Request) (w : CString) (s : State) : Prop where
  word : s.argv[s.optind]? = some w
  dashes : isLong w = true
  named : w.get 2 ≠ 0
  absent : ∀ table, r.longopts = some table → ∀ o ∈ table, o.name.bytes ≠ longName w

/-- A call comes to the word, and is behind its dashes. -/
theorem getopt_unknown (hready : Ready s) (hinit : s.getoptInitialized = true) (hbegun : Begun s)
    (hopt : r.optstring = some optstring) (h : UnknownLong r w s) :
    getopt r s = some (longOption r (s.classify w) w) ∧ (s.classify w).index = 2 := by
  obtain ⟨hlt, hget⟩ := getD_of_getElem? h.word
  have hsame : s.reset.readMarks r optstring = s := by
    have hpos := hready.optind_pos
    rw [State.reset, if_neg (by omega), State.readMarks, if_pos hinit]
  have hdashes : w.get 0 = dash ∧ w.get 1 = dash := by
    have hlong := h.dashes
    simp only [isLong, Bool.and_eq_true, decide_eq_true_eq] at hlong
    exact hlong
  have hend : s.atTerminator w = false := by
    simp only [State.atTerminator, Bool.and_eq_false_iff, decide_eq_false_iff_not]
    exact .inr h.named
  have hclassify : (s.classify w).processingLongOption = true ∧ (s.classify w).index = 2 := by
    by_cases h0 : s.index = 0
    · rw [State.classify_long h0 hdashes.1 hdashes.2]
      exact ⟨rfl, rfl⟩
    · rw [State.classify_of_ne h0]
      rcases hbegun h0 w h.word with hlong | ⟨_, _, hnot⟩
      · exact hlong
      · rw [h.dashes] at hnot
        contradiction
  refine ⟨?_, hclassify.2⟩
  rw [getopt, hopt]
  simp only [hsame]
  rw [if_neg (Nat.ne_of_lt hlt), scanArguments, if_pos hlt, hget]
  simp only [hend, Bool.false_eq_true, if_false, hclassify.1, if_true]

/-! ## As if the word had not been there -/

/-- States that the next call does not tell apart: between two words, what kind the last one was does not
matter. -/
def Same (s t : State) : Prop := s = t ∨ (s.index = 0 ∧ s.cleared = t.cleared)

theorem scanArguments_cleared (r : Request) (optstring : CString) (fuel : Nat) (h0 : s.index = 0)
    (hi : i < s.argv.length) :
    scanArguments r optstring (fuel + 1) i s.cleared = scanArguments r optstring (fuel + 1) i s := by
  have hclassify : s.cleared.classify (s.argv.getD i .empty) = s.classify (s.argv.getD i .empty) := by
    rw [State.classify, State.classify, if_pos h0, if_pos (show s.cleared.index = 0 from h0)]
    rfl
  rw [scanArguments, scanArguments, if_pos hi, if_pos (show i < s.cleared.argv.length from hi)]
  simp only [show s.cleared.argv = s.argv from rfl, hclassify]
  rfl

/-- A call clears what kind the last word was, or leaves the state as it is. -/
theorem getopt_cleared (h0 : s.index = 0) (hpos : 1 ≤ s.optind) (hle : s.optind ≤ s.argv.length)
    (hinit : s.getoptInitialized = true) :
    getopt r s.cleared = getopt r s ∨
      ∃ o, getopt r s = some (o, s) ∧ getopt r s.cleared = some (o, s.cleared) := by
  cases hopt : r.optstring with
  | none =>
    refine .inr ⟨.plain (-1), ?_, ?_⟩
    · rw [getopt, hopt]
    · rw [getopt, hopt]
  | some optstring =>
    have hsame : ∀ u : State, u.optind = s.optind → u.getoptInitialized = true →
        u.reset.readMarks r optstring = u := by
      intro u hu hi
      rw [State.reset, if_neg (by omega), State.readMarks, if_pos hi]
    have hs := hsame s rfl hinit
    have hc := hsame s.cleared rfl hinit
    by_cases hend : s.optind = s.argv.length
    · refine .inr ⟨.plain (-1), ?_, ?_⟩
      · rw [getopt, hopt]
        simp only [hs]
        rw [if_pos hend, ← h0]
      · rw [getopt, hopt]
        simp only [hc]
        rw [if_pos (show s.cleared.optind = s.cleared.argv.length from hend), ← h0]
        rfl
    · left
      rw [getopt, getopt, hopt]
      simp only [hs, hc]
      rw [if_neg hend, if_neg (show ¬ s.cleared.optind = s.cleared.argv.length from hend)]
      exact scanArguments_cleared r optstring _ h0 (Nat.lt_of_le_of_ne hle hend)

theorem Same.getopt (h : Same s t) (hready : Ready s) (hinit : s.getoptInitialized = true) {o : Outcome}
    (hcall : getopt r s = some (o, s')) : ∃ t', Getopt.getopt r t = some (o, t') ∧ Same s' t' := by
  rcases h with rfl | ⟨h0, hcleared⟩
  · exact ⟨s', hcall, .inl rfl⟩
  · have ht0 : t.index = 0 := (congrArg State.index hcleared).symm.trans h0
    have hargv : t.argv = s.argv := (congrArg State.argv hcleared).symm
    have hoptind : t.optind = s.optind := (congrArg State.optind hcleared).symm
    have htinit : t.getoptInitialized = true := (congrArg State.getoptInitialized hcleared).symm.trans hinit
    have hs := getopt_cleared (r := r) h0 hready.optind_pos hready.optind_le hinit
    have ht := getopt_cleared (r := r) ht0 (hready.optind_pos.trans_eq hoptind.symm)
      (by rw [hoptind, hargv]; exact hready.optind_le) htinit
    rw [← hcleared] at ht
    rcases hs with hs | ⟨o₁, hs, hsc⟩
    · rcases ht with ht | ⟨o₂, ht, htc⟩
      · exact ⟨s', ht ▸ hs ▸ hcall, .inl rfl⟩
      · rw [← hs, htc] at hcall
        cases hcall
        exact ⟨t, ht, .inr ⟨h0, by rw [← hcleared]; rfl⟩⟩
    · cases hs.symm.trans hcall
      rcases ht with ht | ⟨o₂, ht, htc⟩
      · exact ⟨s.cleared, ht ▸ hsc, .inr ⟨h0, rfl⟩⟩
      · cases hsc.symm.trans htc
        exact ⟨t, ht, .inr ⟨h0, hcleared⟩⟩

/-- What a caller sees of a call: what is returned and written, `optarg` and `optopt`. -/
def reportMachine : Machine State Request (Outcome × Option CString × Int) where
  step s r := (getopt r s).map fun q => (q.2, q.1, q.2.optarg, q.2.optopt)

theorem State.classify_cleared (s : State) (argument : CString) :
    State.cleared { s.classify argument with index := 0 } = State.cleared { s with index := 0 } := by
  rw [State.classify]
  split
  · split
    · rfl
    · split
      · rfl
      · rfl
  · rfl

/-- The state with the word at its position taken away, between two words. -/
def State.withoutWord (s : State) : State :=
  { s with argv := s.argv.eraseIdx s.optind, exchange := s.exchange - 1, index := 0 }

/-- A word that has been passed over is not missed by any further call. -/
theorem run_passed (rs : List Request) {u : State} (hone : 1 ≤ p) (hp : p ≤ u.optind) (hready : Ready u)
    (hinit : u.getoptInitialized = true) (hsame : Same u t) :
    (reportMachine.run (u.within p w) rs).map Prod.snd = (reportMachine.run t rs).map Prod.snd := by
  induction rs generalizing u t with
  | nil => rfl
  | cons r rs ih =>
    obtain ⟨o, u', hcall, hbetween, _, _⟩ := hready.between.getopt r
    have hsettled := getopt_settled hready hinit hcall
    have hinit' := hsettled.initialized.trans hinit
    have hp' := hp.trans hsettled.optind_le
    have hready' : Ready u' := ⟨hone.trans hp', hbetween.optind_le, hbetween.exchange_le hinit' (by omega),
      hbetween.inside (by omega)⟩
    obtain ⟨t', ht, hsame'⟩ := hsame.getopt hready hinit hcall
    have hseen : u'.optarg = t'.optarg ∧ u'.optopt = t'.optopt := by
      rcases hsame' with rfl | ⟨_, hcleared⟩
      · exact ⟨rfl, rfl⟩
      · have hoptarg := congrArg State.optarg hcleared
        have hoptopt := congrArg State.optopt hcleared
        exact ⟨hoptarg, hoptopt⟩
    have hstep : reportMachine.step (u.within p w) r =
        some (u'.within p w, o, u'.optarg, u'.optopt) := by
      change (Getopt.getopt r _).map _ = _
      rw [getopt_within hone hp hready.optind_le hinit, hcall]
      rfl
    have hstep' : reportMachine.step t r = some (t', o, t'.optarg, t'.optopt) := by
      change (Getopt.getopt r t).map _ = _
      rw [ht]
      rfl
    have hrest := ih hp' hready' hinit' hsame'
    rw [Machine.run_cons hstep, Machine.run_cons hstep', hseen.1, hseen.2, Option.map_map, Option.map_map]
    have hcons (x : Option (State × List (Outcome × Option CString × Int))) :
        x.map (Prod.snd ∘ fun q => (q.1, (o, t'.optarg, t'.optopt) :: q.2)) =
          (x.map Prod.snd).map ((o, t'.optarg, t'.optopt) :: ·) := by
      rw [Option.map_map]
      rfl
    rw [hcons, hcons, hrest]

/-- The word is reported and passed over, and the calls that follow report what they would without it. -/
def Tolerates (r : Request) (optstring : CString) (s : State) : Prop :=
  ∃ o s', getopt r s = some (o, s') ∧ o.value = charValue (s.begins r optstring).errorReturn ∧
    o.value ≠ -1 ∧ s'.optind = (s.begins r optstring).optind + 1 ∧
      ∀ rs, (reportMachine.run s' rs).map Prod.snd =
        (reportMachine.run (s.begins r optstring).withoutWord rs).map Prod.snd

/-- Without a table, the word is passed over. -/
theorem longOption_passes (hready : Ready s) (hinit : s.getoptInitialized = true)
    (hword : s.argv[s.optind]? = some w) (hnone : r.longopts = none) :
    ∃ u, (longOption r (s.classify w) w).2 = u.within s.optind w ∧ u.optind = s.optind ∧ Ready u ∧
      u.getoptInitialized = true ∧ Same u s.withoutWord := by
  obtain ⟨hlt, _⟩ := getD_of_getElem? hword
  have hkept := s.classify_kept w
  have hoptind := (s.classify_argv w).2
  let u : State := { s.classify w with
    argv := s.argv.eraseIdx s.optind, optind := s.optind, exchange := s.exchange - 1, index := 0 }
  have hback : inserted (s.argv.eraseIdx s.optind) s.optind w = s.argv := by
    have htake : (s.argv.eraseIdx s.optind).take s.optind = s.argv.take s.optind := by
      rw [List.eraseIdx_eq_take_drop_succ]
      exact List.take_left' (List.length_take_of_le (Nat.le_of_lt hlt))
    have hdrop : (s.argv.eraseIdx s.optind).drop s.optind = s.argv.drop (s.optind + 1) := by
      rw [List.eraseIdx_eq_take_drop_succ]
      exact List.drop_left' (List.length_take_of_le (Nat.le_of_lt hlt))
    have hcons : w :: s.argv.drop (s.optind + 1) = s.argv.drop s.optind := by
      rw [List.drop_eq_getElem_cons hlt, List.getElem?_eq_getElem hlt] at *
      rw [Option.some.inj hword]
    rw [inserted, htake, hdrop, hcons, List.take_append_drop]
  have hlength : (s.argv.eraseIdx s.optind).length = s.argv.length - 1 :=
    List.length_eraseIdx_of_lt hlt
  have hexchange := hready.exchange_le
  refine ⟨u, ?_, rfl, ⟨hready.optind_pos, ?_, ?_, fun hne => absurd rfl hne⟩,
    hkept.getoptInitialized.trans hinit, .inr ⟨rfl, ?_⟩⟩
  · have hexchange' : s.exchange - 1 + 1 = s.exchange := by omega
    simp only [longOption, hnone, State.within, u, hback, hexchange', hoptind]
    rw [← hkept.argv, ← hkept.exchange]
  · change s.optind ≤ (s.argv.eraseIdx s.optind).length
    omega
  · change s.exchange - 1 ≤ ((s.argv.eraseIdx s.optind).length : Int)
    omega
  · exact congrArg (fun v : State => { v with
      argv := s.argv.eraseIdx s.optind, optind := s.optind, exchange := s.exchange - 1 })
        (State.classify_cleared s w)

/-- **Unknown long options** are passed over exactly if there is no table of long options. -/
theorem tolerates_iff (hreach : Reachable s) (hopt : r.optstring = some optstring)
    (h : UnknownLong r w (s.begins r optstring)) : Tolerates r optstring s ↔ r.longopts = none := by
  have hready := hreach.between.begins r optstring
  have hinit := s.begins_initialized r optstring
  have hmarked := hreach.marked.begins r optstring
  have hpos := hready.optind_pos
  obtain ⟨hcall, hindex⟩ := getopt_unknown hready hinit (hmarked.begun (by omega)) hopt h
  rw [getopt_begins hopt hreach.between] at hcall
  have hkept := (s.begins r optstring).classify_kept w
  generalize hresult : longOption r ((s.begins r optstring).classify w) w = result at hcall
  constructor
  · rintro ⟨o, s', hcall', _, hvalue, _⟩
    cases htable : r.longopts with
    | none => rfl
    | some table =>
      have hnone := findLong_eq_none (h.absent table htable)
      cases hcall.symm.trans hcall'
      refine absurd ?_ hvalue
      have hvalue' := congrArg (fun q : Outcome × State => q.1.value) hresult
      simp only [longOption, htable, hindex, hnone] at hvalue'
      exact hvalue'.symm
  · intro hnone
    obtain ⟨u, hu, hoptind, hready', hinit', hsame⟩ := longOption_passes hready hinit h.word hnone
    have herror := hmarked.error hinit
    have hvalue : result.1.value = charValue (s.begins r optstring).errorReturn := by
      rw [← hresult, ← hkept.errorReturn]
      simp only [longOption, hnone, Outcome.plain]
    rw [hresult] at hu
    refine ⟨_, _, hcall, hvalue, ?_, ?_, fun rs => ?_⟩
    · rw [hvalue]
      rcases herror with heq | heq
      · rw [heq]
        decide
      · rw [heq]
        decide
    · rw [hu, ← hoptind]
      rfl
    · rw [hu]
      exact run_passed rs hready.optind_pos hoptind.ge hready' hinit' hsame

theorem nonzero_p : (0 : UInt8) ∉ [112] := by decide

theorem nonzero_dash_a : (0 : UInt8) ∉ [45, 97] := by decide

/-- `p --zip -a`. -/
def zipArguments : List CString :=
  [⟨[112], nonzero_p⟩, ⟨[45, 45, 122, 105, 112], by decide⟩, ⟨[45, 97], nonzero_dash_a⟩]

theorem tolerates_zip : Tolerates plainRequest ⟨[97, 98, 58], by decide⟩ (.start zipArguments) :=
  (tolerates_iff (w := ⟨[45, 45, 122, 105, 112], by decide⟩) (.start (List.cons_ne_nil _ _)) rfl
    ⟨rfl, by decide, by decide, fun _ h => by cases h⟩).mpr rfl

/-- The same request with a table that has `help` alone. -/
def helpRequest : Request :=
  { plainRequest with longopts := some [⟨⟨[104, 101, 108, 112], by decide⟩, 0, none, 104⟩] }

theorem not_tolerates_zip : ¬ Tolerates helpRequest ⟨[97, 98, 58], by decide⟩ (.start zipArguments) := by
  rintro ⟨o, s', hcall, _, hvalue, _⟩
  have hstops : (getopt helpRequest (.start zipArguments)).map (fun q => q.1.value) = some (-1) := by decide
  rw [hcall] at hstops
  exact hvalue (Option.some.inj hstops)

end WindowsLibc.Getopt
