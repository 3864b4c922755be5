import WindowsLibc.Spawn.Shebang

/-!
# What the interpreter of a script sees (`spawn/spawn.c`)

The command line that `prepend_shebang_to_wargv` makes is read by the rules of `Alphabet.split`. The
interpreter is put in quotes if there is a space in it or in the path of the script, the path of the
script never is, and the end of the old first argument is looked for as if a backslash in front of a
quote always escaped it.

* `startOfArg1_spec` is what the search finds.
* `split_shebangText_iff` says what the interpreter sees of the first part.
* `prependShebangToWargv_right_iff` puts them together.
-/

namespace WindowsLibc.Spawn

open WindowsLibc.Lib

/-! ## The end of the first argument -/

/-- Without a quote in front, the first space ends the argument. -/
theorem startOfArg1From_plain {text : List UInt16} (hnul : 0 ∉ text) (hspace : 32 ∉ text) (i : Nat)
    (rest : List UInt16) :
    startOfArg1From false false i (text ++ 0 :: rest) = .ok 0 ∧
      startOfArg1From false false i (text ++ 32 :: rest) = .ok (i + text.length + 1) := by
  induction text generalizing i with
  | nil => exact ⟨rfl, rfl⟩
  | cons c text ih =>
    have hc : c ≠ 0 := fun h => hnul (h ▸ List.mem_cons_self)
    have hc' : c ≠ 32 := fun h => hspace (h ▸ List.mem_cons_self)
    have ih := ih (fun h => hnul (List.mem_cons_of_mem c h))
      (fun h => hspace (List.mem_cons_of_mem c h)) (i + 1)
    have hstep : ∀ more, startOfArg1From false false i (c :: more) =
        startOfArg1From false false (i + 1) more := by
      intro more
      rw [startOfArg1From, if_neg Bool.false_ne_true, if_neg hc, if_neg Bool.false_ne_true, if_neg hc']
    rw [List.cons_append, List.cons_append, hstep, hstep, List.length_cons]
    exact ⟨ih.1, by rw [ih.2]; congr 1; omega⟩

/-- Inside quotes, a unit is stepped over, with the quote behind it if it is a backslash. -/
theorem startOfArg1From_cons {c : UInt16} (hnul : c ≠ 0) (hq : c ≠ 34) (i : Nat) (rest : List UInt16)
    (h : c ≠ 92 ∨ rest.head? ≠ some 34) :
    startOfArg1From true false i (c :: rest) = startOfArg1From true false (i + 1) rest := by
  have hescaped : (c == 92 && rest.head? == some 34) = false := by
    rw [Bool.and_eq_false_iff, beq_eq_false_iff_ne, beq_eq_false_iff_ne]
    exact h
  rw [startOfArg1From, if_neg Bool.false_ne_true, if_neg hnul, if_pos rfl, if_neg hq, hescaped]

theorem startOfArg1From_escaped (i : Nat) (rest : List UInt16) :
    startOfArg1From true false i (92 :: 34 :: rest) = startOfArg1From true false (i + 2) rest := by
  rw [startOfArg1From, if_neg Bool.false_ne_true, if_neg (by decide), if_pos rfl, if_neg (by decide)]
  rfl

/-- A run of backslashes in front of a quote hides it. -/
theorem startOfArg1From_backslashes (n i : Nat) (rest : List UInt16) :
    startOfArg1From true false i (units.backslashes (n + 1) ++ 34 :: rest) =
      startOfArg1From true false (i + n + 2) rest := by
  induction n generalizing i with
  | zero => exact startOfArg1From_escaped i rest
  | succ n ih =>
    have hstep := startOfArg1From_cons (c := 92) (by decide) (by decide) i
      (units.backslashes (n + 1) ++ 34 :: rest) (Or.inr (by
        rw [Alphabet.backslashes_succ]
        change some (92 : UInt16) ≠ some 34
        decide))
    rw [Alphabet.backslashes_succ, List.cons_append]
    refine hstep.trans ((ih (i + 1)).trans ?_)
    congr 1
    omega

/-- What is written for an argument does not begin with a quote after a backslash. -/
theorem head_quoteFrom_succ (us : List UInt16) (n : Nat) (rest : List UInt16) :
    (units.quoteFrom (n + 1) us ++ 34 :: rest).head? ≠ some 34 := by
  have hhead : ∀ (m : Nat) (text : List UInt16),
      (units.backslashes (m + 1) ++ text).head? = some 92 := by
    intro m text
    rw [Alphabet.backslashes_succ]
    rfl
  cases us with
  | nil =>
    rw [Alphabet.quoteFrom, hhead]
    decide
  | cons c us =>
    rw [quoteFrom_units_cons]
    split
    · rw [List.append_assoc, hhead]
      decide
    · next hc =>
      split
      · exact fun h => hc (Option.some.inj h)
      · exact fun h => hc (Option.some.inj h)

theorem getLast?_append_cons_iff (xs us : List UInt16) {c : UInt16} (hc : c ≠ 92) :
    (xs ++ c :: us).getLast? = some 92 ↔ us.getLast? = some 92 := by
  rw [List.append_cons, List.getLast?_append]
  cases us with
  | nil =>
    rw [List.getLast?_nil, Option.none_or, List.getLast?_concat]
    constructor
    · intro h
      exact absurd (Option.some.inj h) hc
    · intro h
      cases h
  | cons d us => rw [List.getLast?_cons, Option.some_or]

/-- The search in the text of an argument: it stops at the closing quote, but goes on behind it if a
backslash is in front. -/
theorem startOfArg1From_quoteFrom (us : List UInt16) (hnul : 0 ∉ us) (n i : Nat) (rest : List UInt16) :
    startOfArg1From true false i (units.quoteFrom n us ++ 34 :: rest) =
      if (units.backslashes n ++ us).getLast? = some 92 then
        startOfArg1From true false (i + (units.quoteFrom n us).length + 1) rest
      else .ok (i + (units.quoteFrom n us).length + 2) := by
  induction us generalizing n i with
  | nil =>
    rw [Alphabet.quoteFrom, List.append_nil]
    cases n with
    | zero => rfl
    | succ n =>
      have hlast : (units.backslashes (n + 1)).getLast? = some 92 := by
        rw [Alphabet.backslashes, List.replicate_succ', List.getLast?_concat]
        rfl
      rw [if_pos hlast, startOfArg1From_backslashes, Alphabet.length_backslashes]
      congr 1
  | cons c us ih =>
    have hc : c ≠ 0 := fun h => hnul (h ▸ List.mem_cons_self)
    have ih := ih (fun h => hnul (List.mem_cons_of_mem c h))
    rw [quoteFrom_units_cons]
    by_cases hq : c = 34
    · have hlast := getLast?_append_cons_iff (units.backslashes n) us (c := c) (by rw [hq]; decide)
      rw [if_pos hq, List.append_assoc, hq, List.cons_append, startOfArg1From_backslashes, ih, ← hq]
      simp only [List.length_append, Alphabet.length_backslashes, List.length_cons]
      by_cases hend : (units.backslashes 0 ++ us).getLast? = some 92
      · rw [if_pos hend, if_pos (hlast.mpr hend)]
        congr 1
        omega
      · rw [if_neg hend, if_neg (mt hlast.mp hend)]
        congr 1
        omega
    rw [if_neg hq]
    by_cases hb : c = 92
    · have htext : units.backslashes n ++ c :: us = units.backslashes (n + 1) ++ us := by
        rw [Alphabet.backslashes_add, List.append_assoc, hb]
        rfl
      rw [if_pos hb, htext, List.cons_append,
        startOfArg1From_cons hc hq i _ (Or.inr (head_quoteFrom_succ us n rest)), ih, List.length_cons]
      by_cases hend : (units.backslashes (n + 1) ++ us).getLast? = some 92
      · rw [if_pos hend, if_pos hend]
        congr 1
        omega
      · rw [if_neg hend, if_neg hend]
        congr 1
        omega
    · have hlast := getLast?_append_cons_iff (units.backslashes n) us hb
      rw [if_neg hb, List.cons_append, startOfArg1From_cons hc hq i _ (Or.inl hb), ih, List.length_cons]
      by_cases hend : (units.backslashes 0 ++ us).getLast? = some 92
      · rw [if_pos hend, if_pos (hlast.mpr hend)]
        congr 1
        omega
      · rw [if_neg hend, if_neg (mt hlast.mp hend)]
        congr 1
        omega

/-- Whatever the text, the search stops behind a quote, or finds nothing. -/
theorem startOfArg1From_quoted (text : List UInt16) (hnul : 0 ∉ text) (escaped : Bool)
    (hescaped : escaped = true → text ≠ []) (i : Nat) (rest : List UInt16) :
    (∃ k, startOfArg1From true escaped i (text ++ 0 :: rest) = .ok (i + k) ∧ k ≤ text.length + 1 ∧
        34 ∈ text.take k) ∨
      startOfArg1From true escaped i (text ++ 0 :: rest) = .ok 0 := by
  induction text generalizing escaped i with
  | nil =>
    have hopen : escaped = false := Bool.eq_false_iff.mpr (fun h => hescaped h rfl)
    rw [hopen]
    exact Or.inr rfl
  | cons c text ih =>
    have hc : c ≠ 0 := fun h => hnul (h ▸ List.mem_cons_self)
    have ih := ih (fun h => hnul (List.mem_cons_of_mem c h))
    have hnext : ∀ escaped', (escaped' = true → text ≠ []) →
        startOfArg1From true escaped i (c :: text ++ 0 :: rest) =
        startOfArg1From true escaped' (i + 1) (text ++ 0 :: rest) →
        (∃ k, startOfArg1From true escaped i (c :: text ++ 0 :: rest) = .ok (i + k) ∧
          k ≤ (c :: text).length + 1 ∧ 34 ∈ (c :: text).take k) ∨
        startOfArg1From true escaped i (c :: text ++ 0 :: rest) = .ok 0 := by
      intro escaped' hescaped' h
      rw [h]
      obtain ⟨k, hk, hle, hmem⟩ | hnone := ih escaped' hescaped' (i + 1)
      · refine Or.inl ⟨k + 1, by rw [hk]; congr 1; omega, by rw [List.length_cons]; omega, ?_⟩
        rw [List.take_succ_cons]
        exact List.mem_cons_of_mem c hmem
      · exact Or.inr hnone
    cases escaped with
    | true =>
      exact hnext false (fun h => absurd h Bool.false_ne_true)
        (by rw [List.cons_append, startOfArg1From, if_pos rfl])
    | false =>
      by_cases hq : c = 34
      · refine Or.inl ⟨2, ?_, by rw [List.length_cons]; omega, ?_⟩
        · rw [List.cons_append, startOfArg1From, if_neg Bool.false_ne_true, if_neg hc, if_pos rfl,
            if_pos hq]
        · rw [hq]
          exact List.mem_cons_self
      · refine hnext _ ?_ (by
          rw [List.cons_append, startOfArg1From, if_neg Bool.false_ne_true, if_neg hc, if_pos rfl,
            if_neg hq])
        rintro h rfl
        simp at h

/-- The end of the first argument is found. -/
def Found (us : List UInt16) : Prop := us ≠ [] ∧ (units.NeedsQuotes us → us.getLast? ≠ some 92)

theorem startOfArg1_quoted {us : List UInt16} (hnul : 0 ∉ us) (hneeds : units.NeedsQuotes us)
    (rest : List UInt16) :
    startOfArg1 (units.quote us ++ rest) =
      if us.getLast? = some 92 then startOfArg1From true false (units.quote us).length rest
      else .ok ((units.quote us).length + 1) := by
  have hlength : (units.quote us).length = 1 + (units.quoteFrom 0 us).length + 1 := by
    rw [Alphabet.quote, if_pos hneeds, List.length_cons, List.length_append, List.length_singleton]
    omega
  have hscan := startOfArg1From_quoteFrom us hnul 0 1 rest
  rw [hlength, Alphabet.quote, if_pos hneeds, List.cons_append, List.append_assoc]
  exact hscan

theorem startOfArg1_plain {us : List UInt16} (hnul : 0 ∉ us) (hne : us ≠ [])
    (hplain : ¬ units.NeedsQuotes us) (rest : List UInt16) :
    startOfArg1 (units.quote us ++ 0 :: rest) = .ok 0 ∧
      startOfArg1 (units.quote us ++ 32 :: rest) = .ok ((units.quote us).length + 1) := by
  obtain ⟨c, us, rfl⟩ := List.exists_cons_of_ne_nil hne
  have hspecial := mt (units.needsQuotes_iff (c :: us)).mpr hplain
  have hc : c ≠ 0 := fun h => hnul (h ▸ List.mem_cons_self)
  have hq : (c == 34) = false := beq_eq_false_iff_ne.mpr (fun h =>
    hspecial (Or.inr (Or.inr (h ▸ List.mem_cons_self))))
  have hscan := startOfArg1From_plain (fun h => hnul (List.mem_cons_of_mem c h))
    (fun h => hspecial (Or.inl (List.mem_cons_of_mem c h))) 1 rest
  rw [Alphabet.quote, if_neg hplain, List.cons_append, List.cons_append, startOfArg1, startOfArg1,
    if_neg hc, if_neg hc, hq, List.length_cons]
  exact ⟨hscan.1, by rw [hscan.2]; congr 1; omega⟩

theorem startOfArg1_found {us : List UInt16} (hnul : 0 ∉ us) (h : Found us) (rest : List UInt16) :
    startOfArg1 (units.quote us ++ 32 :: rest) = .ok ((units.quote us).length + 1) := by
  by_cases hneeds : units.NeedsQuotes us
  · rw [startOfArg1_quoted hnul hneeds, if_neg (h.2 hneeds)]
  · exact (startOfArg1_plain hnul h.1 hneeds rest).2

/-- One argument: its closing quote is found if it has one. -/
theorem startOfArg1_alone {us : List UInt16} (hnul : 0 ∉ us) (rest : List UInt16) :
    startOfArg1 (units.quote us ++ 0 :: rest) =
      .ok (if units.NeedsQuotes us ∧ us.getLast? ≠ some 92 then (units.quote us).length + 1 else 0) := by
  by_cases hneeds : units.NeedsQuotes us
  · rw [startOfArg1_quoted hnul hneeds]
    by_cases hlast : us.getLast? = some 92
    · rw [if_pos hlast, if_neg (fun h => h.2 hlast)]
      rfl
    · rw [if_neg hlast, if_pos ⟨hneeds, hlast⟩]
  · rw [if_neg (fun h => hneeds h.1)]
    by_cases hne : us = []
    · rw [hne, Alphabet.quote_nil]
      rfl
    · exact (startOfArg1_plain hnul hne hneeds rest).1

/-- A quote behind an argument that has none is behind the space as well. -/
theorem space_mem_of_quote_mem {arg : List UInt16} {args : List (List UInt16)}
    (hplain : ¬ units.NeedsQuotes arg) {k : Nat}
    (h : (34 : UInt16) ∈ (units.join ((arg :: args).map units.quote)).take k) :
    (32 : UInt16) ∈ (units.join ((arg :: args).map units.quote)).take k := by
  have hq : (34 : UInt16) ∉ arg := fun h =>
    hplain ((units.needsQuotes_iff arg).mpr (Or.inr (Or.inr h)))
  rw [List.map_cons, Alphabet.join, Alphabet.quote, if_neg hplain] at h ⊢
  cases args with
  | nil =>
    rw [List.map_nil, List.intercalate_singleton] at h
    exact absurd (List.mem_of_mem_take h) hq
  | cons arg' args =>
    rw [List.map_cons, List.intercalate_cons_cons, List.append_assoc, List.take_append] at h ⊢
    obtain h | h := List.mem_append.mp h
    · exact absurd (List.mem_of_mem_take h) hq
    · apply List.mem_append_right
      cases hk : k - arg.length with
      | zero =>
        rw [hk] at h
        exact absurd h List.not_mem_nil
      | succ n => exact List.mem_cons_self

/-- **If the end of the first argument is missed, the other arguments are lost.** -/
theorem startOfArg1_lost {us arg : List UInt16} {args : List (List UInt16)} (hnul : 0 ∉ us)
    (hnuls : ∀ us ∈ arg :: args, 0 ∉ us) (h : ¬ Found us) (leftover : List UInt16) :
    ∃ start, startOfArg1 (units.quote us ++ 32 ::
        (units.join ((arg :: args).map units.quote) ++ 0 :: leftover)) = .ok start ∧
      (start = 0 ∨ ∃ k, start = (units.quote us).length + 1 + k ∧
        k ≤ (units.join ((arg :: args).map units.quote)).length + 1 ∧
        units.split ((units.join ((arg :: args).map units.quote)).drop k) ≠ arg :: args) := by
  have hrest := units.not_mem_join_quote (c := 0) (by decide) (by decide) (by decide) hnuls
  generalize htext : units.join ((arg :: args).map units.quote) = text at hrest ⊢
  have hblank : ∀ k, (32 : UInt16) ∈ text.take k → units.split (text.drop k) ≠ arg :: args := by
    intro k hk
    exact units.split_cut_ne (by rw [htext, List.take_append_drop]) hk (Or.inl rfl)
  by_cases hne : us = []
  · -- The command line begins with a space, and the search is for the next one.
    rw [hne, Alphabet.quote_nil, List.nil_append, startOfArg1, if_neg (by decide)]
    by_cases hspace : (32 : UInt16) ∈ text
    · obtain ⟨xs, ys, hsplit, hxs⟩ := List.eq_append_cons_of_mem hspace
      have hnul' : 0 ∉ xs := fun h => hrest (hsplit ▸ List.mem_append_left _ h)
      refine ⟨_, by
        rw [hsplit, List.append_assoc, List.cons_append]
        exact (startOfArg1From_plain hnul' hxs 1 (ys ++ 0 :: leftover)).2, Or.inr ?_⟩
      refine ⟨xs.length + 1, by rw [List.length_nil]; omega, ?_, hblank _ ?_⟩
      · rw [hsplit, List.length_append, List.length_cons]
        omega
      · rw [hsplit, List.append_cons, List.take_left' (by rw [List.length_append]; rfl)]
        exact List.mem_append_right _ List.mem_cons_self
    · exact ⟨0, (startOfArg1From_plain hrest hspace 1 leftover).1, Or.inl rfl⟩
  · -- The closing quote is taken for an escaped one, and the search goes on behind it.
    have hneeds : units.NeedsQuotes us := by
      by_contra hplain
      exact h ⟨hne, fun hneeds => absurd hneeds hplain⟩
    have hlast : us.getLast? = some 92 := by
      by_contra hlast
      exact h ⟨hne, fun _ => hlast⟩
    rw [startOfArg1_quoted hnul hneeds, if_pos hlast,
      startOfArg1From_cons (by decide) (by decide) _ _ (Or.inl (by decide))]
    by_cases harg : units.NeedsQuotes arg
    · obtain ⟨more, hmore⟩ : ∃ more, text = 34 :: more := by
        obtain ⟨more, hmore⟩ := quote_prefix_join arg args
        rw [htext, Alphabet.quote, if_pos harg] at hmore
        exact ⟨_, hmore.symm⟩
      have hdrop := units.split_drop_two_ne harg args
      rw [htext] at hdrop
      refine ⟨(units.quote us).length + 1 + 2, by rw [hmore]; rfl, Or.inr ⟨2, rfl, ?_, hdrop⟩⟩
      rw [hmore, List.length_cons]
      omega
    · obtain ⟨k, hk, hle, hmem⟩ | hnone := startOfArg1From_quoted text hrest false
        (fun h => absurd h Bool.false_ne_true) ((units.quote us).length + 1) leftover
      · exact ⟨_, hk, Or.inr ⟨k, rfl, hle, hblank k (htext ▸ space_mem_of_quote_mem harg (htext ▸ hmem))⟩⟩
      · exact ⟨0, hnone, Or.inl rfl⟩

/-! ## The first part -/

/-- The interpreter comes back. -/
def ExecutableKept (executable : List UInt16) : Prop :=
  executable ≠ [] ∧ (9 ∈ executable → 32 ∈ executable) ∧
    (32 ∈ executable → executable.getLast? ≠ some 92)

/-- The path of the script comes back. -/
def FilenameKept (filename : List UInt16) : Prop := filename ≠ [] ∧ 32 ∉ filename ∧ 9 ∉ filename

theorem not_needsQuotes_iff {text : List UInt16} (hq : 34 ∉ text) :
    ¬ units.NeedsQuotes text ↔ 32 ∉ text ∧ 9 ∉ text := by
  rw [Alphabet.needsQuotes_iff]
  constructor
  · intro h
    exact ⟨fun hmem => h (Or.inl hmem), fun hmem => h (Or.inr (Or.inl hmem))⟩
  · rintro ⟨hspace, htab⟩ (h | h | h)
    · exact hspace h
    · exact htab h
    · exact hq h

/-- What is behind the interpreter, as it is read. -/
theorem split_argText (arg : Option (List UInt16)) {filename : List UInt16} (hq : 34 ∉ filename)
    (more : List UInt16) :
    units.split (argText ((arg.map units.quote).getD []) ++ (filename ++ 32 :: more)) =
      arg.toList.filter (fun us => us ≠ []) ++ (units.split filename ++ units.split more) := by
  have hname := units.split_words hq more
  cases arg with
  | none => exact hname
  | some us =>
    by_cases hne : us = []
    · rw [hne, Option.map_some, Option.getD_some, Alphabet.quote_nil]
      exact hname
    · have hquote : units.quote us ≠ [] := by
        rw [Alphabet.quote]
        split
        · exact List.cons_ne_nil _ _
        · exact hne
      rw [Option.map_some, Option.getD_some, argText, if_neg hquote, Option.toList_some,
        List.filter_cons_of_pos (by simpa using hne), List.append_assoc]
      exact (units.split_quote_space hne _).trans (congrArg (List.cons us) hname)

theorem split_argText_le {filename more : List UInt16} (arg : Option (List UInt16))
    {args : List (List UInt16)} (hqf : 34 ∉ filename)
    (hmore : units.blankWeight (units.split more) ≤ units.blankWeight args) :
    units.blankWeight (units.split
        (argText ((arg.map units.quote).getD []) ++ (filename ++ 32 :: more))) ≤
      units.blankWeight (arg.toList ++ filename :: args) := by
  have hname := units.blankWeight_split_le filename
  have harg : units.blankWeight (arg.toList.filter (fun us => us ≠ [])) ≤
      units.blankWeight arg.toList := by
    cases arg with
    | none => exact Nat.le_refl _
    | some us =>
      rw [Option.toList_some, List.filter_cons]
      split
      · exact Nat.le_refl _
      · exact Nat.zero_le _
  rw [split_argText arg hqf, Alphabet.blankWeight_append, Alphabet.blankWeight_append,
    Alphabet.blankWeight_append, Alphabet.blankWeight_cons]
  omega

/-- The argument and the path of the script come back if neither is empty and the path has no blank.
`more` is the old command line, or what is left of it. -/
theorem split_argText_iff {filename more : List UInt16} (arg : Option (List UInt16))
    {args : List (List UInt16)} (hqf : 34 ∉ filename)
    (hmore : units.blankWeight (units.split more) ≤ units.blankWeight args) :
    units.split (argText ((arg.map units.quote).getD []) ++ (filename ++ 32 :: more)) =
        arg.toList ++ filename :: args ↔
      (∀ us ∈ arg, us ≠ []) ∧ FilenameKept filename ∧ units.split more = args := by
  have hweight := units.blankWeight_split_le filename
  have hname : units.split filename ++ units.split more = filename :: args ↔
      FilenameKept filename ∧ units.split more = args := by
    constructor
    · intro h
      obtain ⟨hne, hplain, hargs⟩ | ⟨-, hargs⟩ := units.split_append_eq_cons hqf h
      · exact ⟨⟨hne, (not_needsQuotes_iff hqf).mp hplain⟩, hargs⟩
      · rw [hargs, Alphabet.blankWeight_cons] at hmore
        omega
    · rintro ⟨⟨hne, hplain⟩, hargs⟩
      rw [← units.split_words hqf,
        units.split_plain_space hne ((not_needsQuotes_iff hqf).mpr hplain), hargs]
  rw [split_argText arg hqf]
  cases arg with
  | none =>
    rw [Option.toList_none, List.filter_nil, List.nil_append, List.nil_append, hname]
    exact ⟨fun h => ⟨fun us hus => (Option.not_mem_none us hus).elim, h⟩, fun h => h.2⟩
  | some us =>
    by_cases hne : us = []
    · -- The words that are read weigh less than what is wanted.
      refine ⟨fun h => ?_, fun h => absurd hne (h.1 us rfl)⟩
      have hlost := congrArg units.blankWeight h
      rw [hne, Option.toList_some, List.filter_cons_of_neg (by simp), List.filter_nil, List.nil_append,
        Alphabet.blankWeight_append, List.singleton_append, Alphabet.blankWeight_cons,
        Alphabet.blankWeight_cons] at hlost
      omega
    · rw [Option.toList_some, List.filter_cons_of_pos (by simpa using hne), List.filter_nil,
        List.singleton_append, List.singleton_append, List.cons.injEq, hname]
      constructor
      · rintro ⟨-, h⟩
        exact ⟨fun us' hus' => Option.some.inj hus' ▸ hne, h⟩
      · rintro ⟨-, h⟩
        exact ⟨rfl, h⟩

/-- **The first part comes back** if the interpreter, its argument and the path of the script do. -/
theorem split_shebangText_iff {executable filename more : List UInt16} (arg : Option (List UInt16))
    {args : List (List UInt16)} (hqe : 34 ∉ executable) (hqf : 34 ∉ filename)
    (hmore : units.blankWeight (units.split more) ≤ units.blankWeight args) :
    units.split (shebangText executable ((arg.map units.quote).getD []) filename ++ more) =
        executable :: (arg.toList ++ filename :: args) ↔
      ExecutableKept executable ∧ (∀ us ∈ arg, us ≠ []) ∧ FilenameKept filename ∧
        units.split more = args := by
  have hrest := split_argText_iff arg hqf hmore
  have hweight := split_argText_le arg hqf hmore
  have htext : shebangText executable ((arg.map units.quote).getD []) filename ++ more =
      quoteText executable filename ++ (executable ++ (quoteText executable filename ++ 32 ::
        (argText ((arg.map units.quote).getD []) ++ (filename ++ 32 :: more)))) := by
    simp only [shebangText, List.append_assoc, List.cons_append, List.nil_append]
  rw [htext]
  generalize argText ((arg.map units.quote).getD []) ++ (filename ++ 32 :: more) = rest at *
  by_cases hquoted : 32 ∈ executable ∨ 32 ∈ filename
  · rw [quoteText, if_pos hquoted]
    have hquotes := @Alphabet.split_inQuotes_eq_cons _ units _ _ hqe rest (arg.toList ++ filename :: args)
    refine hquotes.trans ?_
    rw [hrest]
    constructor
    · rintro ⟨hlast, harg, hname, hargs⟩
      have hspace : 32 ∈ executable := hquoted.resolve_right hname.2.1
      exact ⟨⟨List.ne_nil_of_mem hspace, fun _ => hspace, fun _ => hlast⟩, harg, hname, hargs⟩
    · rintro ⟨hexe, harg, hname, hargs⟩
      exact ⟨hexe.2.2 (hquoted.resolve_right hname.2.1), harg, hname, hargs⟩
  · rw [quoteText, if_neg hquoted, List.nil_append, List.nil_append]
    have hspace : 32 ∉ executable := fun h => hquoted (Or.inl h)
    have hwords := units.split_words hqe rest
    constructor
    · intro h
      rw [show (32 : UInt16) = units.space from rfl, hwords] at h
      obtain ⟨hne, hplain, hargs⟩ | ⟨-, hargs⟩ := units.split_append_eq_cons hqe h
      · have htab := ((not_needsQuotes_iff hqe).mp hplain).2
        exact ⟨⟨hne, fun h => absurd h htab, fun h => absurd h hspace⟩, hrest.mp hargs⟩
      · rw [hargs, Alphabet.blankWeight_cons] at hweight
        omega
    · rintro ⟨hexe, h⟩
      have hplain := (not_needsQuotes_iff hqe).mpr ⟨hspace, fun h => hspace (hexe.2.1 h)⟩
      exact (units.split_plain_space hexe.1 hplain rest).trans (congrArg _ (hrest.mpr h))

end WindowsLibc.Spawn
