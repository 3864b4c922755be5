import Mathlib.Data.List.TakeWhile
import WindowsLibc.Getopt.Progress

/-!
# Calls in permuting mode, and a scan from left to right

In permuting mode `wlibc_common_getopt` looks at the arguments in the order in which they were given,
although it moves operands to the end while it does so.

* `At todo moved k s` is where a run of calls is: `todo` are the words, as they were given, that are
  still to be looked at, `moved` the operands behind them, and `k` the position in the first word.
* Each kind of word has a lemma that says what a call does there: `getopt_skip`, `getopt_end`,
  `getopt_terminator`, `getopt_letter`.
* `scanResults` is the scan from left to right. The calls give its results up to the first that is
  -1 (`drives_scan`), and a known letter 0xff is one that is, since `char` is signed:
  `getopt_follows_scan_iff`.
-/

namespace WindowsLibc.Getopt

open WindowsLibc.Lib

variable {r : Request} {optstring w : CString} {s s' : State} {todo moved ws : List CString} {k : Nat}

/-! ## Where a run is -/

/-- The option letters, behind a colon that is only a mark. -/
def optionLetters (optstring : CString) : List UInt8 :=
  if optstring.get 0 = colon then optstring.bytes.drop 1 else optstring.bytes

/-- What is returned for an unknown letter and for a missing parameter. -/
def errorByte (optstring : CString) : UInt8 := if optstring.get 0 = colon then colon else questionMark

/-- A run of calls in permuting mode is in front of `todo`, `k` characters into its first word. -/
structure At (optstring : CString) (todo moved : List CString) (k : Nat) (s : State) : Prop where
  optind_pos : 1 ≤ s.optind
  optind_le : s.optind ≤ s.argv.length
  rest : s.argv.drop s.optind = todo ++ moved
  exchange : s.exchange = s.argv.length - moved.length
  operands : ∀ a ∈ moved, isOption a = false
  permuting : s.permuting
  initialized : s.getoptInitialized = true
  letters : s.letters optstring = optionLetters optstring
  error : s.errorReturn = errorByte optstring
  index : s.index = k
  short : k ≠ 0 → s.processingLongOption = false ∧ s.processingShortOption = true

theorem At.length (h : At optstring todo moved k s) :
    s.argv.length = s.optind + todo.length + moved.length := by
  have hle := h.optind_le
  have hlen := congrArg List.length h.rest
  rw [List.length_drop, List.length_append] at hlen
  omega

/-- Some words further. -/
theorem At.move (h : At optstring todo moved k s) (hkept : Kept s s') {n k' : Nat}
    (hn : n ≤ todo.length) (hoptind : s'.optind = s.optind + n) (hindex : s'.index = k')
    (hshort : k' ≠ 0 → s'.processingLongOption = false ∧ s'.processingShortOption = true) :
    At optstring (todo.drop n) moved k' s' where
  optind_pos := by
    have hpos := h.optind_pos
    omega
  optind_le := by
    have hlen := h.length
    rw [hkept.argv]
    omega
  rest := by
    rw [hkept.argv, hoptind, ← List.drop_drop, h.rest, List.drop_append_of_le_length hn]
  exchange := by rw [hkept.exchange, hkept.argv, h.exchange]
  operands := h.operands
  permuting := by
    rw [State.permuting, hkept.stopAtFirstNonoption, hkept.assignNonoptionToOne]
    exact h.permuting
  initialized := hkept.getoptInitialized.trans h.initialized
  letters := by
    rw [State.letters, hkept.skipFirstCharOption]
    exact h.letters
  error := hkept.errorReturn.trans h.error
  index := hindex
  short := hshort

/-- The parameter in the next word is the next word as it was given. -/
theorem At.parameter (h : At optstring (w :: ws) moved k s) (hkept : Kept s s')
    (hoptind : s'.optind = s.optind + 1) : s'.parameter = ws.head? := by
  have hlen := h.length
  rw [List.length_cons] at hlen
  have hnext : s'.argv[s'.optind]? = (ws ++ moved).head? := by
    rw [hkept.argv, hoptind, ← List.head?_drop, ← List.drop_drop, h.rest]
    rfl
  rw [State.parameter, hkept.exchange, h.exchange, hnext, hoptind]
  cases ws with
  | nil => exact if_neg (by rw [List.length_nil] at hlen; omega)
  | cons v ws =>
    rw [List.length_cons] at hlen
    rw [if_pos (by omega)]
    rfl

theorem At.reset_readMarks (h : At optstring todo moved k s) :
    s.reset.readMarks r optstring = s := by
  have hpos := h.optind_pos
  have hreset : s.reset = s := if_neg (by omega)
  rw [hreset, State.readMarks, if_pos h.initialized]

/-- A call goes straight to the loop, if there is a word. -/
theorem At.getopt_eq (h : At optstring todo moved k s) (hopt : r.optstring = some optstring)
    (hne : todo ++ moved ≠ []) :
    getopt r s =
      scanArguments r optstring (s.argv.length - s.optind + 1) s.optind s := by
  have hlen := h.length
  have hpos := List.length_pos_iff.mpr hne
  rw [List.length_append] at hpos
  rw [getopt, hopt]
  simp only [h.reset_readMarks]
  exact if_neg (by omega)

theorem At.word (h : At optstring (w :: ws) moved k s) : s.argv[s.optind]? = some w := by
  rw [← List.head?_drop, h.rest]
  rfl

/-- At an option, or inside of one, it is looked at. -/
theorem At.getopt_examine (h : At optstring (w :: ws) moved k s)
    (hopt : r.optstring = some optstring) (hoption : k = 0 → isOption w = true) :
    getopt r s = some (examine r optstring s w) := by
  rw [h.getopt_eq hopt (List.cons_ne_nil _ _)]
  apply scanArguments_examine h.word
  · intro h0
    exact hoption (h.index.symm.trans h0)
  · intro hne
    exact Or.inr (h.short (h.index ▸ hne)).2

/-! ## Words -/

/-- **An operand** with an option behind it is passed over. -/
theorem getopt_skip (h : At optstring (w :: ws) moved 0 s) (hopt : r.optstring = some optstring)
    (hop : isOption w = false) (hany : ws.any isOption = true) :
    ∃ s₁, getopt r s = getopt r s₁ ∧ At optstring ws (moved ++ [w]) 0 s₁ := by
  have hlen := h.length
  rw [List.length_cons] at hlen
  -- the state behind the rotation
  let s₁ : State := { s.cleared with argv := rotate s.argv s.optind, exchange := s.exchange - 1 }
  have hdone : (s.argv.take s.optind).length = s.optind := List.length_take_of_le h.optind_le
  have hrotate : rotate s.argv s.optind = s.argv.take s.optind ++ (ws ++ (moved ++ [w])) := by
    rw [rotate, (getD_of_getElem? h.word).2, ← List.drop_drop, h.rest]
    simp
  have hlen₁ : s₁.argv.length = s.argv.length := by
    show (rotate s.argv s.optind).length = _
    rw [hrotate, List.length_append, hdone]
    simp only [List.length_append, List.length_singleton]
    omega
  have h₁ : At optstring ws (moved ++ [w]) 0 s₁ := by
    refine ⟨h.optind_pos, ?_, ?_, ?_, ?_, h.permuting, h.initialized, h.letters, h.error, h.index,
      fun hne => absurd rfl hne⟩
    · rw [hlen₁]
      exact h.optind_le
    · show (rotate s.argv s.optind).drop s.optind = _
      rw [hrotate, List.drop_left' hdone]
    · rw [hlen₁, List.length_append, List.length_singleton]
      show s.exchange - 1 = _
      rw [h.exchange]
      omega
    · intro a ha
      rcases List.mem_append.mp ha with ha | ha
      · exact h.operands a ha
      · rw [List.mem_singleton.mp ha]
        exact hop
  refine ⟨s₁, ?_, h₁⟩
  -- both calls end at the first option of `ws`
  obtain ⟨front, v, back, hws, hfront, hv⟩ : ∃ front v back, ws = front ++ v :: back ∧
      (∀ a ∈ front, isOption a = false) ∧ isOption v = true := by
    rcases exists_front ws with hall | hsplit
    · obtain ⟨a, ha, hoption⟩ := List.any_eq_true.mp hany
      rw [hall a ha] at hoption
      contradiction
    · exact hsplit
  have hargv₁ : s₁.argv = s.argv.take s.optind ++ (front ++ v :: (back ++ (moved ++ [w]))) := by
    show rotate s.argv s.optind = _
    rw [hrotate, hws]
    simp
  have hcount := congrArg List.length hws
  rw [List.length_append, List.length_cons] at hcount
  have hscan : ∀ m n, front.length < m → front.length < n →
      scanArguments r optstring m s.optind s₁ = scanArguments r optstring n s.optind s₁ := by
    intro m n hm hn
    have hfirst := (scanArguments_front r optstring (s := s₁) h.permuting
      h.index hv hfront hargv₁ hm).trans (scanArguments_front r optstring (s := s₁) h.permuting h.index hv hfront
        hargv₁ hn).symm
    rw [hdone] at hfirst
    exact hfirst
  have hnot : ¬ (s.argv.drop (s.optind + 1)).any isOption = false := by
    rw [← List.drop_drop, h.rest]
    simp [hany]
  rw [h.getopt_eq hopt (List.cons_ne_nil _ _), scanArguments_operand h.word h.index hop,
    if_neg (by simp [h.permuting.1]), if_neg (by simp [h.permuting.2]),
    if_pos (Bool.not_eq_false _ ▸ hnot), h₁.getopt_eq hopt (by rw [hws]; simp)]
  apply hscan
  · omega
  · rw [hlen₁]
    show _ < s.argv.length - s.optind + 1
    omega

/-- **Nothing but operands**: the scan is over. -/
theorem getopt_end (h : At optstring todo moved 0 s) (hopt : r.optstring = some optstring)
    (hall : ∀ a ∈ todo, isOption a = false) :
    ∃ o s', getopt r s = some (o, s') ∧ o.value = -1 ∧
      s'.argv.drop s'.optind = todo ++ moved := by
  by_cases hnil : todo ++ moved = []
  · -- `optind` is at the end
    have hlen := h.length
    have hsum := congrArg List.length hnil
    rw [List.length_append, List.length_nil] at hsum
    refine ⟨.plain (-1), { s with index := 0 }, ?_, rfl, h.rest⟩
    rw [getopt, hopt]
    simp only [h.reset_readMarks]
    exact if_pos (by omega)
  · refine ⟨.plain (-1), if s.optind < s.argv.length then s.cleared else s, ?_, rfl, ?_⟩
    · rw [h.getopt_eq hopt hnil]
      apply scanArguments_rest h.permuting h.index _ (Nat.lt_succ_self _)
      rw [h.rest]
      intro a ha
      rcases List.mem_append.mp ha with ha | ha
      · exact hall a ha
      · exact h.operands a ha
    · split
      · exact h.rest
      · exact h.rest

/-- `--` alone. -/
def isTerminator (w : CString) : Bool := w.get 0 = dash && w.get 1 = dash && w.get 2 = 0

/-- **The terminator** is consumed, and ends the scan. -/
theorem getopt_terminator (h : At optstring (w :: ws) moved 0 s)
    (hopt : r.optstring = some optstring) (hend : isTerminator w = true) :
    ∃ o s', getopt r s = some (o, s') ∧ o.value = -1 ∧ s'.argv.drop s'.optind = ws ++ moved := by
  simp only [isTerminator, Bool.and_eq_true, decide_eq_true_eq] at hend
  obtain ⟨⟨hdash, hlong⟩, htwo⟩ := hend
  have hoption : isOption w = true := isOption_iff.mpr ⟨hdash, by rw [hlong]; decide⟩
  have hterminator : s.atTerminator w = true := by
    simp [State.atTerminator, h.index, hdash, hlong, htwo]
  refine ⟨.plain (-1), { s.cleared with optind := s.optind + 1 }, ?_, rfl, ?_⟩
  · rw [h.getopt_examine hopt (fun _ => hoption), examine, if_pos hterminator]
  · show s.argv.drop (s.optind + 1) = _
    rw [← List.drop_drop, h.rest]
    rfl

/-! ## Letters -/

/-- One letter after the other: the value and the parameter of each call, and whether the next word
has been taken. -/
def readCluster (letters : List UInt8) (error : Int) (next : Option CString) :
    List UInt8 → List (Int × Option (List UInt8)) × Bool
  | [] => ([], false)
  | c :: cs =>
    match findShort letters c with
    | none =>
      ((error, none) :: (readCluster letters error next cs).1, (readCluster letters error next cs).2)
    | some .flag =>
      ((charValue c, none) :: (readCluster letters error next cs).1,
        (readCluster letters error next cs).2)
    | some .optional =>
      if cs ≠ [] then ([(charValue c, some cs)], false)
      else ([(charValue c, next.map CString.bytes)], next.isSome)
    | some .required =>
      if cs ≠ [] then ([(charValue c, some cs)], false)
      else
        match next with
        | none => ([(error, none)], false)
        | some w => ([(charValue c, some w.bytes)], true)

/-- A cluster, read with an option string. -/
def readShort (optstring : CString) (next : Option CString) (cs : List UInt8) :
    List (Int × Option (List UInt8)) × Bool :=
  readCluster (optionLetters optstring) (charValue (errorByte optstring)) next cs

/-- The value and the parameter that a call leaves. -/
def reported (p : Outcome × State) : Int × Option (List UInt8) :=
  (p.1.value, p.2.optarg.map CString.bytes)

/-- The words behind one that may have taken the next. -/
def behind (skip : Bool) (ws : List CString) : List CString := if skip then ws.tail else ws

theorem At.update (h : At optstring todo moved k s) {a : Option CString} {c : Int} :
    At optstring todo moved k { s with optarg := a, optopt := c } :=
  ⟨h.optind_pos, h.optind_le, h.rest, h.exchange, h.operands, h.permuting, h.initialized, h.letters,
    h.error, h.index, h.short⟩

/-- A cluster is begun. -/
theorem getopt_begin (h : At optstring (w :: ws) moved 0 s) (hopt : r.optstring = some optstring)
    (hoption : isOption w = true) (hshort : w.get 1 ≠ dash) :
    ∃ s₁, getopt r s = getopt r s₁ ∧ At optstring (w :: ws) moved 1 s₁ := by
  have hclassify := State.classify_short h.index hoption hshort
  have h₁ : At optstring (w :: ws) moved 1 (s.classify w) := by
    rw [hclassify]
    exact h.move (.update s) (Nat.zero_le _) rfl rfl (fun _ => ⟨rfl, rfl⟩)
  refine ⟨s.classify w, ?_, h₁⟩
  have hend : ∀ t : State, t.atTerminator w = false := by
    intro t
    simp [State.atTerminator, hshort]
  rw [h.getopt_examine hopt (fun _ => hoption), h₁.getopt_examine hopt (fun h0 => by contradiction),
    examine, examine, hend, hend,
    State.classify_of_ne (s := s.classify w) (by rw [h₁.index]; decide)]
  simp only [Bool.false_eq_true, if_false]

theorem getopt_short (h : At optstring (w :: ws) moved k s) (hopt : r.optstring = some optstring)
    (hk : k ≠ 0) : getopt r s = some (shortOption r s optstring w) := by
  have hindex : s.index ≠ 0 := by rwa [h.index]
  have hend : s.atTerminator w = false := by simp [State.atTerminator, hindex]
  rw [h.getopt_examine hopt (fun h0 => absurd h0 hk), examine, hend, State.classify_of_ne hindex,
    (h.short hk).1]
  rfl

variable {c : UInt8} {cs : List UInt8}

theorem get_of_drop (hcs : w.bytes.drop k = c :: cs) : w.get k = c ∧ w.bytes.drop (k + 1) = cs := by
  constructor
  · rw [CString.get, List.getD_eq_getElem?_getD, ← List.head?_drop, hcs]
    rfl
  · rw [← List.drop_drop, hcs]
    rfl

/-- The letter has been stepped over. -/
theorem At.step (h : At optstring (w :: ws) moved k s) (hk : k ≠ 0)
    (hcs : w.bytes.drop k = c :: cs) :
    Kept s (s.step w) ∧
      (cs = [] → At optstring ws moved 0 (s.step w) ∧ (s.step w).optind = s.optind + 1) ∧
      (cs ≠ [] → At optstring (w :: ws) moved (k + 1) (s.step w)) := by
  have hdrop := (get_of_drop hcs).2
  have hlast : w.get (s.index + 1) = 0 ↔ cs = [] := by
    rw [← not_iff_not, ← ne_eq, CString.get_ne_zero_iff, h.index, ← hdrop, List.drop_eq_nil_iff]
    omega
  rw [State.step]
  by_cases hnil : cs = []
  · rw [if_pos (hlast.mpr hnil)]
    refine ⟨.update s, fun _ => ⟨?_, rfl⟩, fun hne => absurd hnil hne⟩
    exact h.move (n := 1) (.update s) (Nat.succ_pos _) rfl rfl (fun h0 => absurd rfl h0)
  · rw [if_neg (fun hz => hnil (hlast.mp hz))]
    refine ⟨.update s, fun hn => absurd hn hnil, fun _ => ?_⟩
    exact h.move (n := 0) (.update s) (Nat.zero_le _) rfl (congrArg (· + 1) h.index)
      (fun _ => h.short hk)

/-- The parameter of a letter, and what is left then. -/
theorem At.shortParameter (h : At optstring (w :: ws) moved k s) (hk : k ≠ 0)
    (hcs : w.bytes.drop k = c :: cs) :
    ∃ s', (cs ≠ [] → (s.step w).shortParameter w = (some (w.drop (k + 1)), s') ∧
        At optstring ws moved 0 s') ∧
      (cs = [] → (s.step w).shortParameter w = (ws.head?, s') ∧
        At optstring (behind ws.head?.isSome ws) moved 0 s') := by
  obtain ⟨hkept, hlast, hmore⟩ := h.step hk hcs
  rw [State.shortParameter]
  by_cases hnil : cs = []
  · obtain ⟨hnext, hoptind⟩ := hlast hnil
    have hparameter := h.parameter hkept hoptind
    rw [if_neg (not_not.mpr hnext.index), hparameter]
    cases ws with
    | nil => exact ⟨_, fun hne => absurd hnil hne, fun _ => ⟨rfl, hnext⟩⟩
    | cons v ws =>
      refine ⟨_, fun hne => absurd hnil hne, fun _ => ⟨rfl, ?_⟩⟩
      exact hnext.move (n := 1) (.update _) (Nat.succ_pos _) rfl hnext.index
        (fun h0 => absurd rfl h0)
  · have hletter := hmore hnil
    have hindex := hletter.index
    rw [if_pos (by omega)]
    refine ⟨_, fun _ => ⟨by rw [hindex], ?_⟩, fun hn => absurd hn hnil⟩
    exact hletter.move (n := 1) (.update _) (Nat.succ_pos _) rfl rfl (fun h0 => absurd rfl h0)

/-- A call has read the letter `c`. Either the cluster goes on behind it, or it was the last. -/
def LetterRead (optstring w : CString) (ws moved : List CString) (k : Nat) (c : UInt8)
    (cs : List UInt8) (p : Outcome × State) : Prop :=
  (∃ skip, readShort optstring ws.head? (c :: cs) = ([reported p], skip) ∧
      At optstring (behind skip ws) moved 0 p.2) ∨
    (cs ≠ [] ∧
      readShort optstring ws.head? (c :: cs) =
        (reported p :: (readShort optstring ws.head? cs).1, (readShort optstring ws.head? cs).2) ∧
      At optstring (w :: ws) moved (k + 1) p.2)

/-- A letter without a parameter leaves the rest of the cluster to the next call. -/
theorem letterRead_plain {p : Outcome × State}
    (hread : readShort optstring ws.head? (c :: cs) =
      (reported p :: (readShort optstring ws.head? cs).1, (readShort optstring ws.head? cs).2))
    (hlast : cs = [] → At optstring ws moved 0 p.2)
    (hmore : cs ≠ [] → At optstring (w :: ws) moved (k + 1) p.2) :
    LetterRead optstring w ws moved k c cs p := by
  by_cases hnil : cs = []
  · refine Or.inl ⟨false, ?_, hlast hnil⟩
    rw [hread, hnil]
    rfl
  · exact Or.inr ⟨hnil, hread, hmore hnil⟩

/-- **One letter** of a cluster. -/
theorem getopt_letter (h : At optstring (w :: ws) moved k s) (hopt : r.optstring = some optstring)
    (hne : optstring.bytes ≠ []) (hk : k ≠ 0) (hcs : w.bytes.drop k = c :: cs) :
    ∃ p, getopt r s = some p ∧ LetterRead optstring w ws moved k c cs p := by
  obtain ⟨hc, hdrop⟩ := get_of_drop hcs
  obtain ⟨hkept, hlast, hmore⟩ := h.step hk hcs
  obtain ⟨s₂, hrest, hnext⟩ := h.shortParameter hk hcs
  have herror : (s.step w).errorReturn = errorByte optstring := hkept.errorReturn.trans h.error
  have hbytes : (w.drop (k + 1)).bytes = cs := hdrop
  refine ⟨_, getopt_short h hopt hk, ?_⟩
  rw [shortOption, if_neg hne]
  simp only [h.index, hc, h.letters]
  cases hfound : findShort (optionLetters optstring) c with
  | none =>
    apply letterRead_plain
    · simp only [readShort, readCluster, hfound, reported, herror]
      rfl
    · exact fun hnil => (hlast hnil).1.update
    · exact fun hnil => (hmore hnil).update
  | some arity =>
    cases arity with
    | flag =>
      apply letterRead_plain
      · simp only [readShort, readCluster, hfound]
        rfl
      · exact fun hnil => (hlast hnil).1.update
      · exact fun hnil => (hmore hnil).update
    | optional =>
      by_cases hnil : cs = []
      · obtain ⟨heq, hat⟩ := hnext hnil
        refine Or.inl ⟨ws.head?.isSome, ?_, by rw [heq]; exact hat.update⟩
        rw [heq, readShort, readCluster.eq_def]
        simp only [hfound, hnil, ne_eq, not_true_eq_false, if_false]
        rfl
      · obtain ⟨heq, hat⟩ := hrest hnil
        refine Or.inl ⟨false, ?_, by rw [heq]; exact hat.update⟩
        rw [heq, readShort, readCluster.eq_def]
        simp only [hfound, if_pos (show cs ≠ [] from hnil), reported, Option.map_some, hbytes]
        rfl
    | required =>
      by_cases hnil : cs = []
      · obtain ⟨heq, hat⟩ := hnext hnil
        rw [heq]
        cases hws : ws.head? with
        | none =>
          rw [hws] at hat
          refine Or.inl ⟨false, ?_, hat.update⟩
          rw [hws, readShort, readCluster.eq_def]
          simp only [hfound, hnil, ne_eq, not_true_eq_false, if_false, reported, hat.error]
          rfl
        | some v =>
          rw [hws] at hat
          refine Or.inl ⟨true, ?_, hat.update⟩
          rw [hws, readShort, readCluster.eq_def]
          simp only [hfound, hnil, ne_eq, not_true_eq_false, if_false]
          rfl
      · obtain ⟨heq, hat⟩ := hrest hnil
        rw [heq]
        refine Or.inl ⟨false, ?_, hat.update⟩
        rw [readShort, readCluster.eq_def]
        simp only [hfound, if_pos (show cs ≠ [] from hnil), reported, Option.map_some, hbytes]
        rfl

/-! ## Clusters -/

/-- The loop `while ((c = getopt(...)) != -1)`, as a relation. -/
def Loops (r : Request) (s : State) (os : List (Outcome × State)) (last : Outcome × State) : Prop :=
  getoptMachine.Drives r (fun o => o.value = -1) s os last

theorem Loops.last {p : Outcome × State} (hcall : getopt r s = some p) (hvalue : p.1.value = -1) :
    Loops r s [] p := by
  apply Machine.Drives.last
  · show (getopt r s).map Prod.swap = _
    rw [hcall]
    rfl
  · exact decide_eq_true hvalue

theorem Loops.more {p : Outcome × State} {os : List (Outcome × State)} {last : Outcome × State}
    (hcall : getopt r s = some p) (hvalue : p.1.value ≠ -1) (h : Loops r p.2 os last) :
    Loops r s (p :: os) last := by
  apply Machine.Drives.more
  · show (getopt r s).map Prod.swap = _
    rw [hcall]
    rfl
  · exact decide_eq_false hvalue
  · exact h

theorem Loops.of_getopt_eq {os : List (Outcome × State)} {last : Outcome × State}
    (h : Loops r s' os last) (heq : getopt r s = getopt r s') : Loops r s os last := by
  apply Machine.Drives.of_step_eq h
  show (getopt r s).map Prod.swap = (getopt r s').map Prod.swap
  rw [heq]

/-- The results of the calls up to the first -1. -/
def upToStop (results : List (Int × Option (List UInt8))) : List (Int × Option (List UInt8)) :=
  results.takeWhile fun p => p.1 ≠ -1

/-- What is left of a word and those behind it when its values are cut at the first -1. The last
value of a word is returned behind it. -/
def leftAt (w : CString) (ws : List CString) (values : List Int) (skip : Bool) : List CString :=
  if (values.takeWhile fun v => v ≠ -1).length + 1 = values.length then behind skip ws else w :: ws

theorem upToStop_cons_of_eq {x : Int × Option (List UInt8)} (h : x.1 = -1)
    (xs : List (Int × Option (List UInt8))) : upToStop (x :: xs) = [] := by
  simp [upToStop, h]

theorem upToStop_cons_of_ne {x : Int × Option (List UInt8)} (h : x.1 ≠ -1)
    (xs : List (Int × Option (List UInt8))) : upToStop (x :: xs) = x :: upToStop xs := by
  simp [upToStop, h]

theorem leftAt_cons {v : Int} (h : v ≠ -1) (vs : List Int) (skip : Bool) :
    leftAt w ws (v :: vs) skip = leftAt w ws vs skip := by
  simp [leftAt, h]

theorem leftAt_stop {v : Int} (h : v = -1) {vs : List Int} (hne : vs ≠ []) (skip : Bool) :
    leftAt w ws (v :: vs) skip = w :: ws := by
  simp [leftAt, h, hne]

theorem readShort_ne_nil (next : Option CString) (hcs : cs ≠ []) :
    (readShort optstring next cs).1 ≠ [] := by
  rw [readShort]
  fun_cases readCluster (optionLetters optstring) (charValue (errorByte optstring)) next cs
  case case1 => exact absurd rfl hcs
  all_goals exact List.cons_ne_nil _ _

/-- How the calls read a word that gives `results`: to its end, or up to a -1. -/
def WordRead (r : Request) (s : State) (w : CString) (ws moved : List CString)
    (optstring : CString) (results : List (Int × Option (List UInt8))) (skip : Bool) : Prop :=
  ∃ os, os.map reported = upToStop results ∧
    (((∀ p ∈ results, p.1 ≠ -1) ∧
        ∃ s₁, At optstring (behind skip ws) moved 0 s₁ ∧
          ∀ os' last, Loops r s₁ os' last → Loops r s (os ++ os') last) ∨
      (¬ (∀ p ∈ results, p.1 ≠ -1) ∧
        ∃ last, Loops r s os last ∧
          last.2.argv.drop last.2.optind = leftAt w ws (results.map Prod.fst) skip ++ moved))

/-- The one call that a word takes, or the last one. -/
theorem wordRead_last {p : Outcome × State} {skip : Bool} (hcall : getopt r s = some p)
    (hat : At optstring (behind skip ws) moved 0 p.2) :
    WordRead r s w ws moved optstring [reported p] skip := by
  by_cases hstop : p.1.value = -1
  · have hup := upToStop_cons_of_eq (x := reported p) hstop []
    refine ⟨[], hup.symm, Or.inr ⟨fun hall => hall _ List.mem_cons_self hstop, p, ?_, ?_⟩⟩
    · exact .last hcall hstop
    · have hleft : leftAt w ws [p.1.value] skip = behind skip ws := by simp [leftAt, hstop]
      exact hat.rest.trans (congrArg (· ++ moved) hleft.symm)
  · have hup := upToStop_cons_of_ne (x := reported p) hstop []
    refine ⟨[p], hup.symm, Or.inl ⟨?_, p.2, hat, fun os' last h => .more hcall hstop h⟩⟩
    intro q hq
    rw [List.mem_singleton.mp hq]
    exact hstop

/-- A call in the middle of a word. -/
theorem wordRead_more {p : Outcome × State} {skip : Bool}
    {results : List (Int × Option (List UInt8))} (hcall : getopt r s = some p)
    (hne : results ≠ []) (hat : p.2.argv.drop p.2.optind = w :: ws ++ moved)
    (h : WordRead r p.2 w ws moved optstring results skip) :
    WordRead r s w ws moved optstring (reported p :: results) skip := by
  by_cases hstop : p.1.value = -1
  · have hup := upToStop_cons_of_eq (x := reported p) hstop results
    refine ⟨[], hup.symm, Or.inr ⟨fun hall => hall _ List.mem_cons_self hstop, p, ?_, ?_⟩⟩
    · exact .last hcall hstop
    · have hleft : leftAt w ws (p.1.value :: results.map Prod.fst) skip = w :: ws :=
        leftAt_stop hstop (mt List.map_eq_nil_iff.mp hne) skip
      exact hat.trans (congrArg (· ++ moved) hleft.symm)
  · obtain ⟨os, hos, hread⟩ := h
    refine ⟨p :: os, ?_, ?_⟩
    · rw [upToStop_cons_of_ne (x := reported p) hstop, List.map_cons, hos]
    · rw [List.map_cons, leftAt_cons (v := (reported p).1) hstop]
      rcases hread with ⟨hall, s₁, hat₁, hloops⟩ | ⟨hnot, last, hloops, hleft⟩
      · refine Or.inl ⟨?_, s₁, hat₁, fun os' last h => .more hcall hstop (hloops os' last h)⟩
        intro q hq
        rcases List.mem_cons.mp hq with rfl | hq
        · exact hstop
        · exact hall q hq
      · refine Or.inr ⟨fun hall => hnot fun q hq => hall q (List.mem_cons_of_mem _ hq), last, ?_,
          hleft⟩
        exact .more hcall hstop hloops

/-- **A cluster** is read letter by letter, up to its end or a letter for which -1 is returned. -/
theorem wordRead_cluster (hopt : r.optstring = some optstring) (hne : optstring.bytes ≠ [])
    (cs : List UInt8) (hcs : cs ≠ []) :
    ∀ {k : Nat} {s : State}, At optstring (w :: ws) moved k s → k ≠ 0 → w.bytes.drop k = cs →
      WordRead r s w ws moved optstring (readShort optstring ws.head? cs).1
        (readShort optstring ws.head? cs).2 := by
  induction cs with
  | nil => exact absurd rfl hcs
  | cons c cs ih =>
    intro k s h hk hdrop
    obtain ⟨p, hcall, hletter⟩ := getopt_letter h hopt hne hk hdrop
    rcases hletter with ⟨skip, hread, hat⟩ | ⟨hcs', hread, hat⟩
    · rw [hread]
      exact wordRead_last hcall hat
    · rw [hread]
      apply wordRead_more hcall (readShort_ne_nil _ hcs') hat.rest
      exact ih hcs' hat (Nat.succ_ne_zero k) (get_of_drop hdrop).2

/-- A word of short options, from its start. -/
theorem wordRead_short (hopt : r.optstring = some optstring) (hne : optstring.bytes ≠ [])
    (h : At optstring (w :: ws) moved 0 s) (hoption : isOption w = true) (hshort : w.get 1 ≠ dash) :
    WordRead r s w ws moved optstring (readShort optstring ws.head? (w.bytes.drop 1)).1
      (readShort optstring ws.head? (w.bytes.drop 1)).2 := by
  obtain ⟨s₁, heq, h₁⟩ := getopt_begin h hopt hoption hshort
  have hlen := CString.get_ne_zero_iff.mp (isOption_iff.mp hoption).2
  have hletters : w.bytes.drop 1 ≠ [] := by
    intro hnil
    rw [List.drop_eq_nil_iff] at hnil
    omega
  obtain ⟨os, hos, hread⟩ := wordRead_cluster hopt hne _ hletters h₁ Nat.one_ne_zero rfl
  refine ⟨os, hos, ?_⟩
  rcases hread with ⟨hall, s₂, hat, hloops⟩ | ⟨hnot, last, hloops, hleft⟩
  · exact Or.inl ⟨hall, s₂, hat, fun os' last h => (hloops os' last h).of_getopt_eq heq⟩
  · exact Or.inr ⟨hnot, last, hloops.of_getopt_eq heq, hleft⟩

/-! ## The whole scan -/

/-- **The scan from left to right**: operands are skipped, `--` ends it, and a parameter is the rest of
the word or else the next word. `skip`: the first word has been taken. -/
def scanResults (optstring : CString) : Bool → List CString → List (Int × Option (List UInt8))
  | _, [] => []
  | true, _ :: ws => scanResults optstring false ws
  | false, w :: ws =>
    if isTerminator w then []
    else if isOption w then
      (readShort optstring ws.head? (w.bytes.drop 1)).1 ++
        scanResults optstring (readShort optstring ws.head? (w.bytes.drop 1)).2 ws
    else scanResults optstring false ws

theorem isOption_of_isTerminator (h : isTerminator w = true) : isOption w = true := by
  simp only [isTerminator, Bool.and_eq_true, decide_eq_true_eq] at h
  exact isOption_iff.mpr ⟨h.1.1, by rw [h.1.2]; decide⟩

theorem scanResults_operands (h : ∀ a ∈ ws, isOption a = false) :
    scanResults optstring false ws = [] := by
  induction ws with
  | nil => rfl
  | cons w ws ih =>
    have hw : isOption w = false := h w List.mem_cons_self
    have hend : ¬ isTerminator w = true := by
      intro hend
      rw [isOption_of_isTerminator hend] at hw
      contradiction
    rw [scanResults, if_neg hend, if_neg (by simp [hw])]
    exact ih fun a ha => h a (List.mem_cons_of_mem w ha)

/-- No long options: only `--` itself starts with two dashes. -/
def NoLong (w : CString) : Prop := w.get 0 = dash → w.get 1 = dash → w.get 2 = 0

instance (w : CString) : Decidable (NoLong w) :=
  inferInstanceAs (Decidable (w.get 0 = dash → w.get 1 = dash → w.get 2 = 0))

theorem upToStop_append {xs ys : List (Int × Option (List UInt8))} :
    upToStop (xs ++ ys) = if ∀ p ∈ xs, p.1 ≠ -1 then xs ++ upToStop ys else upToStop xs := by
  induction xs with
  | nil => simp
  | cons x xs ih =>
    by_cases hx : x.1 = -1
    · rw [List.cons_append, upToStop_cons_of_eq hx, upToStop_cons_of_eq hx, if_neg]
      exact fun hall => hall x List.mem_cons_self hx
    · rw [List.cons_append, upToStop_cons_of_ne hx, upToStop_cons_of_ne hx, ih]
      by_cases hall : ∀ p ∈ xs, p.1 ≠ -1
      · rw [if_pos hall, if_pos, List.cons_append]
        exact List.forall_mem_cons.mpr ⟨hx, hall⟩
      · rw [if_neg hall, if_neg]
        exact fun h => hall (List.forall_mem_cons.mp h).2

/-- **The calls follow the scan**, up to the first -1. -/
theorem loops_scan (hopt : r.optstring = some optstring) (hne : optstring.bytes ≠ [])
    (words : List CString) :
    ∀ (skip : Bool) {moved : List CString} {s : State},
      At optstring (behind skip words) moved 0 s → (∀ w ∈ words, NoLong w) →
      ∃ os last, Loops r s os last ∧
        os.map reported = upToStop (scanResults optstring skip words) := by
  induction words with
  | nil =>
    intro skip moved s h _
    have h' : At optstring [] moved 0 s := by
      cases skip with
      | false => exact h
      | true => exact h
    obtain ⟨o, s', hcall, hvalue, -⟩ :=
      getopt_end h' hopt (fun a ha => absurd ha List.not_mem_nil)
    exact ⟨[], (o, s'), .last hcall hvalue, by rw [scanResults]; rfl⟩
  | cons w ws ih =>
    intro skip moved s h hwords
    obtain ⟨hw, hws⟩ := List.forall_mem_cons.mp hwords
    cases skip with
    | true => exact ih false h hws
    | false =>
      have h' : At optstring (w :: ws) moved 0 s := h
      rw [scanResults]
      by_cases hend : isTerminator w = true
      · obtain ⟨o, s', hcall, hvalue, -⟩ := getopt_terminator h' hopt hend
        rw [if_pos hend]
        exact ⟨[], (o, s'), .last hcall hvalue, rfl⟩
      rw [if_neg hend]
      by_cases hoption : isOption w = true
      · have hshort : w.get 1 ≠ dash := by
          intro hlong
          have hdash := (isOption_iff.mp hoption).1
          apply hend
          simp [isTerminator, hdash, hlong, hw hdash hlong]
        rw [if_pos hoption, upToStop_append]
        obtain ⟨os, hos, hread⟩ := wordRead_short hopt hne h' hoption hshort
        rcases hread with ⟨hall, s₁, hat, hloops⟩ | ⟨hnot, last, hloops, -⟩
        · obtain ⟨os', last, hrest, hos'⟩ := ih _ hat hws
          refine ⟨os ++ os', last, hloops os' last hrest, ?_⟩
          rw [if_pos hall, List.map_append, hos, hos']
          congr 1
          exact List.takeWhile_eq_self_iff.mpr fun p hp => decide_eq_true (hall p hp)
        · exact ⟨os, last, hloops, by rw [if_neg hnot, hos]⟩
      · rw [if_neg hoption]
        rw [Bool.not_eq_true] at hoption
        by_cases hany : ws.any isOption = true
        · -- the operand is moved to the end, and the call goes on
          obtain ⟨s₁, heq, h₁⟩ := getopt_skip h' hopt hoption hany
          obtain ⟨os, last, hloops, hos⟩ := ih false h₁ hws
          exact ⟨os, last, hloops.of_getopt_eq heq, hos⟩
        · have hall : ∀ a ∈ ws, isOption a = false := by
            simpa using hany
          obtain ⟨o, s', hcall, hvalue, -⟩ :=
            getopt_end h' hopt (List.forall_mem_cons.mpr ⟨hoption, hall⟩)
          exact ⟨[], (o, s'), .last hcall hvalue, by rw [scanResults_operands hall]; rfl⟩

/-- Nothing has been scanned: before the first call, or with `optind` at 0. -/
def Fresh (s : State) : Prop := s.optind = 0 ∨ s = .start s.argv

theorem Fresh.between (h : Fresh s) (hne : s.argv ≠ []) : Between s := by
  rcases h with h0 | hstart
  · exact ⟨hne, by rw [h0]; exact Nat.zero_le _, fun _ hpos => absurd h0 hpos,
      fun hpos => absurd h0 hpos⟩
  · rw [hstart]
    refine ⟨hne, List.length_pos_iff.mpr hne, ?_, fun _ hindex => absurd rfl hindex⟩
    intro hinit
    contradiction

/-- In permuting mode, the first call is in front of all words. -/
theorem Fresh.start_at (h : Fresh s) {name : CString} {words : List CString}
    (hargv : s.argv = name :: words) (hopt : r.optstring = some optstring)
    (hposix : r.posixlyCorrect = false) (hplus : optstring.get 0 ≠ 43)
    (hdash : optstring.get 0 ≠ dash) :
    ∃ t, getopt r s = getopt r t ∧ At optstring words [] 0 t := by
  have hreset : s.reset.argv = s.argv ∧ s.reset.optind = 1 ∧ s.reset.index = 0 ∧
      s.reset.stopAtFirstNonoption = false ∧ s.reset.assignNonoptionToOne = false ∧
      s.reset.skipFirstCharOption = false ∧ s.reset.getoptInitialized = false := by
    rcases h with h0 | hstart
    · rw [State.reset, if_pos h0]
      exact ⟨rfl, rfl, rfl, rfl, rfl, rfl, rfl⟩
    · rw [hstart]
      exact ⟨rfl, rfl, rfl, rfl, rfl, rfl, rfl⟩
  obtain ⟨hsame, hoptind, hindex, hstop, hassign, hskip, hinit⟩ := hreset
  have hmarks : s.reset.readMarks r optstring = { s.reset with
      stopAtFirstNonoption := false
      assignNonoptionToOne := false
      skipFirstCharOption := decide (optstring.get 0 = colon)
      errorReturn := errorByte optstring
      exchange := s.reset.argv.length
      getoptInitialized := true } := by
    rw [State.readMarks, if_neg (by simp [hinit])]
    simp [hstop, hassign, hskip, hposix, hplus, hdash, errorByte]
  have hat : At optstring words [] 0 (s.reset.readMarks r optstring) := by
    rw [hmarks]
    refine ⟨Nat.le_of_eq hoptind.symm, ?_, ?_, ?_, fun a ha => absurd ha List.not_mem_nil, ⟨rfl, rfl⟩,
      rfl, ?_, rfl, hindex, fun h0 => absurd rfl h0⟩
    · rw [hsame, hargv, hoptind]
      exact Nat.succ_pos _
    · rw [hsame, hargv, hoptind, List.append_nil]
      rfl
    · simp
    · simp [State.letters, optionLetters]
  refine ⟨s.reset.readMarks r optstring, ?_, hat⟩
  rw [getopt, getopt, hopt]
  simp only [hat.reset_readMarks]

/-- What the calls are to do: report what the scan reports, and keep the arguments together, with the
name of the program in front. -/
def FollowsScan (r : Request) (optstring : CString) (s : State) (name : CString)
    (words : List CString) : Prop :=
  ∃ os last, getoptLoop r (wordsAndCharacters s.argv) s = some (os, last) ∧
    os.map reported = scanResults optstring false words ∧
    ∀ p ∈ os ++ [last], ∃ ws, p.2.argv = name :: ws ∧ ws.Perm words

theorem Rearranged.cons {argv : List CString} {name : CString} {words : List CString}
    (h : Rearranged (name :: words) argv) : ∃ ws, argv = name :: ws ∧ ws.Perm words := by
  obtain ⟨hperm, hhead⟩ := h
  cases argv with
  | nil => contradiction
  | cons a ws =>
    obtain rfl : a = name := Option.some.inj hhead
    exact ⟨ws, rfl, hperm.cons_inv⟩

/-- Along a loop of calls, the arguments are rearranged only. -/
theorem Loops.rearranged {os : List (Outcome × State)} {last : Outcome × State}
    (h : Loops r s os last) (hs : Between s) :
    ∀ p ∈ os ++ [last], Rearranged s.argv p.2.argv := by
  have hinv := Machine.Drives.invariant (I := fun t => Between t ∧ Rearranged s.argv t.argv) ?_ h
    ⟨hs, .refl _, rfl⟩
  · exact fun p hp => (hinv p hp).2
  · intro t t' o ht hstep
    obtain ⟨o', s', hcall, hbetween, hperm, -⟩ := ht.1.getopt r
    have hstep' : (getopt r t).map Prod.swap = some (t', o) := hstep
    rw [hcall] at hstep'
    cases hstep'
    exact ⟨hbetween, hperm.1.trans ht.2.1, hperm.2.trans ht.2.2⟩

/-- Loops of calls end within the words and characters. -/
theorem Loops.getoptLoop_eq {os : List (Outcome × State)} {last : Outcome × State}
    (h : Loops r s os last) (hs : Between s) :
    getoptLoop r (wordsAndCharacters s.argv) s = some (os, last) := by
  obtain ⟨os', last', hdrives, hlength⟩ := hs.drives r
  obtain ⟨rfl, rfl⟩ := hdrives.unique h
  exact hdrives.drive_eq hlength

/-- **The calls and the scan.** In permuting mode, without long options, the calls report exactly what
the scan does if and only if the scan does not report -1: if it does not come to a letter 0xff that
the option string knows. -/
theorem getopt_follows_scan_iff (r : Request) (optstring : CString) (hopt : r.optstring = some optstring)
    (hne : optstring.bytes ≠ []) (hplus : optstring.get 0 ≠ 43) (hdash : optstring.get 0 ≠ dash)
    (hposix : r.posixlyCorrect = false) (s : State) (hs : Fresh s) (name : CString)
    (words : List CString) (hargv : s.argv = name :: words) (hwords : ∀ w ∈ words, NoLong w) :
    FollowsScan r optstring s name words ↔
      ∀ p ∈ scanResults optstring false words, p.1 ≠ -1 := by
  have hbetween := hs.between (by rw [hargv]; exact List.cons_ne_nil _ _)
  obtain ⟨t, heq, hat⟩ := hs.start_at hargv hopt hposix hplus hdash
  obtain ⟨os, last, hloops, hos⟩ := loops_scan hopt hne words false hat hwords
  have hfrom : Loops r s os last := hloops.of_getopt_eq heq
  have hrun := hfrom.getoptLoop_eq hbetween
  have hcut : upToStop (scanResults optstring false words) = scanResults optstring false words ↔
      ∀ p ∈ scanResults optstring false words, p.1 ≠ -1 := by
    rw [upToStop, List.takeWhile_eq_self_iff]
    simp
  rw [← hcut]
  constructor
  · rintro ⟨os', last', hrun', hos', -⟩
    cases hrun.symm.trans hrun'
    rw [← hos, hos']
  · intro hall
    refine ⟨os, last, hrun, hos.trans hall, ?_⟩
    intro p hp
    have hperm := hfrom.rearranged hbetween p hp
    rw [hargv] at hperm
    exact hperm.cons

/-- `p x -ab y`, where `b` takes a parameter. -/
theorem getopt_follows_scan_cluster :
    FollowsScan plainRequest ⟨[97, 98, 58], by decide⟩ (.start plainArguments) ⟨[112], by decide⟩
      plainArguments.tail := by
  apply (getopt_follows_scan_iff plainRequest ⟨[97, 98, 58], by decide⟩ rfl (by decide) (by decide)
    (by decide) rfl (.start plainArguments) (.inr rfl) _ _ rfl (by decide)).mpr
  decide

/-- An option string that knows `a` and the letter 0xff. -/
def latinRequest : Request := { plainRequest with optstring := some ⟨[0xff, 97], by decide⟩ }

/-- The option 0xff, and then `-a`. -/
def latinArguments : List CString :=
  [latinRequest.programInvocationName, ⟨[45, 0xff], by decide⟩, ⟨[45, 97], by decide⟩]

/-- The option 0xff looks like the end, and `-a` is not reported. -/
theorem getopt_stops_at_0xff :
    ¬ ∀ (r : Request) (optstring : CString), r.optstring = some optstring → optstring.bytes ≠ [] →
      optstring.get 0 ≠ 43 → optstring.get 0 ≠ dash → r.posixlyCorrect = false →
      ∀ (s : State), Fresh s → ∀ (name : CString) (words : List CString), s.argv = name :: words →
      (∀ w ∈ words, NoLong w) → FollowsScan r optstring s name words := by
  intro h
  obtain ⟨os, last, hrun, hos, -⟩ := h latinRequest ⟨[0xff, 97], by decide⟩ rfl (by decide)
    (by decide) (by decide) rfl (.start latinArguments) (.inr rfl) _ _ rfl (by decide)
  have hnone : (getoptLoop latinRequest (wordsAndCharacters latinArguments)
      (.start latinArguments)).map (fun x => x.1.map reported) = some [] := by decide
  rw [show (State.start latinArguments).argv = latinArguments from rfl] at hrun
  rw [hrun, Option.map_some, hos] at hnone
  revert hnone
  decide

end WindowsLibc.Getopt
