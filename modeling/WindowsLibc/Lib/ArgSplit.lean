import Mathlib.Algebra.BigOperators.Group.List.Basic
import Mathlib.Data.List.Count
import WindowsLibc.Lib.ArgQuote

/-!
# What splitting makes of any text

`Alphabet.split_join_quote` is about a command line that was quoted. Here are the rules for one that was
not, or of which the front is missing.

* A text without quotes is read word by word (`split_words`), and inside quotes it is read as it is, unless
  a backslash at its end escapes the closing quote (`split_inQuotes_eq_cons`).
* `weight_split_le`: a text has a blank for every blank of an argument and for every second argument. So a
  command line that has lost a blank gives other arguments (`split_cut_ne`), and so does one that has lost
  its opening quote and what comes next (`split_drop_two_ne`).
-/

namespace WindowsLibc.Lib.Alphabet

variable {α : Type*} (A : Alphabet α)

/-- How often `p` holds in the arguments, with `s` more for each. -/
def weight (p : α → Bool) (s : Nat) (args : List (List α)) : Nat :=
  (args.map (fun arg => arg.countP p + s)).sum

section weight

variable {p : α → Bool} {s : Nat}

theorem weight_cons (arg : List α) (args : List (List α)) :
    weight p s (arg :: args) = arg.countP p + s + weight p s args := by
  rw [weight, weight, List.map_cons, List.sum_cons]

theorem weight_append (xs ys : List (List α)) :
    weight p s (xs ++ ys) = weight p s xs + weight p s ys := by
  rw [weight, weight, weight, List.map_append, List.sum_append]

theorem countP_backslashes (hp : p A.backslash = false) (n : Nat) :
    (A.backslashes n).countP p = 0 := by
  rw [List.countP_eq_zero]
  intro c hc
  rw [List.eq_of_mem_replicate hc, hp]
  exact Bool.false_ne_true

theorem weight_ended_le (hp : p A.backslash = false) (arg : Option (List α)) (pending : Nat) :
    weight p s (A.ended arg pending) ≤ (arg.getD []).countP p + s := by
  have hone : weight p s [arg.getD [] ++ A.backslashes pending] = (arg.getD []).countP p + s := by
    rw [weight_cons, List.countP_append, A.countP_backslashes hp]
    rfl
  cases arg with
  | some arg => exact Nat.le_of_eq hone
  | none =>
    cases pending with
    | zero => exact Nat.zero_le _
    | succ pending => exact Nat.le_of_eq hone

variable [DecidableEq α]

/-- The characters of an argument are characters of the text, and a blank of the text ends an argument or is
in one. -/
theorem weight_splitFrom_le (hp : p A.backslash = false)
    (hblank : ∀ c, A.IsBlank c → s ≤ [c].countP p) (text : List α) (quoted : Bool)
    (arg : Option (List α)) (pending : Nat) :
    weight p s (A.splitFrom quoted arg pending text) ≤
      (arg.getD []).countP p + text.countP p + s := by
  induction text generalizing quoted arg pending with
  | nil => exact A.weight_ended_le hp arg pending
  | cons c text ih =>
    have hcons : (c :: text).countP p = [c].countP p + text.countP p :=
      @List.countP_append _ p [c] text
    rw [splitFrom, hcons]
    by_cases hb : c = A.backslash
    · rw [if_pos hb]
      have h := ih quoted arg (pending + 1)
      omega
    rw [if_neg hb]
    by_cases hq : c = A.quotation
    · rw [if_pos hq]
      split
      · have h := ih (!quoted) (some (arg.getD [] ++ A.backslashes (pending / 2))) 0
        rw [Option.getD_some, List.countP_append, A.countP_backslashes hp] at h
        omega
      · have h := ih quoted (some (arg.getD [] ++ A.backslashes (pending / 2) ++ [c])) 0
        rw [Option.getD_some, List.countP_append, List.countP_append, A.countP_backslashes hp] at h
        omega
    rw [if_neg hq]
    split
    · next hsep =>
      have hend := A.weight_ended_le (s := s) hp arg pending
      have h := ih false none 0
      have hc := hblank c hsep.1
      rw [Option.getD_none, List.countP_nil] at h
      rw [weight_append]
      omega
    · have h := ih quoted (some (arg.getD [] ++ A.backslashes pending ++ [c])) 0
      rw [Option.getD_some, List.countP_append, List.countP_append, A.countP_backslashes hp] at h
      omega

theorem weight_split_le (hp : p A.backslash = false)
    (hblank : ∀ c, A.IsBlank c → s ≤ [c].countP p) (text : List α) :
    weight p s (A.split text) ≤ text.countP p + s := by
  have h := A.weight_splitFrom_le hp hblank text false none 0
  rwa [Option.getD_none, List.countP_nil, Nat.zero_add] at h

theorem countP_quoteFrom (hp : p A.backslash = false) (arg : List α) (pending : Nat) :
    (A.quoteFrom pending arg).countP p = arg.countP p := by
  induction arg generalizing pending with
  | nil => exact A.countP_backslashes hp pending
  | cons c arg ih =>
    rw [quoteFrom]
    split
    · rw [List.countP_append, A.countP_backslashes hp, List.countP_cons, List.countP_cons, ih,
        Nat.zero_add]
    · split
      · rw [List.countP_cons, List.countP_cons, ih]
      · rw [List.countP_cons, List.countP_cons, ih]

theorem countP_quote (hp : p A.backslash = false) (hq : p A.quotation = false) (arg : List α) :
    (A.quote arg).countP p = arg.countP p := by
  have hmark : [A.quotation].countP p = 0 := by
    rw [List.countP_singleton, hq]
    rfl
  rw [quote]
  split
  · rw [List.countP_cons_of_neg (by rw [hq]; exact Bool.false_ne_true), List.countP_append,
      A.countP_quoteFrom hp, hmark]
    rfl
  · rfl

/-- A command line that was quoted has no more than that. -/
theorem countP_join_quote (hp : p A.backslash = false) (hq : p A.quotation = false)
    (hs : [A.space].countP p = s) (arg : List α) (args : List (List α)) :
    (A.join ((arg :: args).map A.quote)).countP p + s = weight p s (arg :: args) := by
  induction args generalizing arg with
  | nil =>
    rw [List.map_singleton, join, List.intercalate_singleton, A.countP_quote hp hq]
    rfl
  | cons arg' args ih =>
    have ih := ih arg'
    rw [join] at ih
    rw [List.map_cons, List.map_cons, join, List.intercalate_cons_cons, List.countP_append,
      List.countP_append, A.countP_quote hp hq, hs, Nat.add_assoc _ _ s, ← List.map_cons, ih,
      ← weight_cons]

/-- Quoting brings in no other characters. -/
theorem not_mem_join_quote {c : α} (hb : c ≠ A.backslash) (hq : c ≠ A.quotation) (hs : c ≠ A.space)
    {args : List (List α)} (h : ∀ arg ∈ args, c ∉ arg) : c ∉ A.join (args.map A.quote) := by
  let p : α → Bool := fun d => d = c
  have hcount : ∀ text : List α, text.countP p = 0 ↔ c ∉ text := by
    intro text
    rw [List.countP_eq_zero]
    constructor
    · intro hnone hc
      exact hnone c hc (decide_eq_true rfl)
    · intro hc d hd heq
      exact hc (of_decide_eq_true heq ▸ hd)
  have hweight : ∀ args : List (List α), (∀ arg ∈ args, c ∉ arg) → weight p 0 args = 0 := by
    intro args h
    induction args with
    | nil => rfl
    | cons arg args ih =>
      rw [weight_cons, (hcount arg).mpr (h arg List.mem_cons_self),
        ih (fun a ha => h a (List.mem_cons_of_mem arg ha))]
  cases args with
  | nil => exact List.not_mem_nil
  | cons arg args =>
    have hspace : [A.space].countP p = 0 :=
      (hcount _).mpr (fun h => hs (List.mem_singleton.mp h))
    have hjoin := A.countP_join_quote (decide_eq_false (fun h => hb h.symm))
      (decide_eq_false (fun h => hq h.symm)) hspace arg args
    rw [hweight _ h] at hjoin
    exact (hcount _).mp hjoin

end weight

variable [DecidableEq α]

/-! ## Words -/

/-- Without quotes, a space ends what is read. -/
theorem splitFrom_words {text : List α} (hq : A.quotation ∉ text) (arg : Option (List α))
    (pending : Nat) (rest : List α) :
    A.splitFrom false arg pending (text ++ A.space :: rest) =
      A.splitFrom false arg pending text ++ A.split rest := by
  induction text generalizing arg pending with
  | nil => exact A.splitFrom_space arg pending rest
  | cons c text ih =>
    have hc : c ≠ A.quotation := fun h => hq (h ▸ List.mem_cons_self)
    have ih := ih (fun h => hq (List.mem_cons_of_mem c h))
    rw [List.cons_append, splitFrom, splitFrom]
    by_cases hb : c = A.backslash
    · rw [if_pos hb, if_pos hb, ih]
    rw [if_neg hb, if_neg hb, if_neg hc, if_neg hc]
    split
    · rw [ih, List.append_assoc]
    · rw [ih]

theorem split_words {text : List α} (hq : A.quotation ∉ text) (rest : List α) :
    A.split (text ++ A.space :: rest) = A.split text ++ A.split rest :=
  A.splitFrom_words hq none 0 rest

omit [DecidableEq α] in
theorem not_isBlank_backslash : ¬ A.IsBlank A.backslash := fun h =>
  h.elim A.backslash_ne_space A.backslash_ne_tab

omit [DecidableEq α] in
theorem not_isBlank_quotation : ¬ A.IsBlank A.quotation := fun h =>
  h.elim A.quotation_ne_space A.quotation_ne_tab

omit [DecidableEq α] in
theorem not_isBlank_of_mem_append_backslashes {arg : List α} (h : ∀ c ∈ arg, ¬ A.IsBlank c) {n : Nat} :
    ∀ c ∈ arg ++ A.backslashes n, ¬ A.IsBlank c := by
  intro c hc
  obtain hc | hc := List.mem_append.mp hc
  · exact h c hc
  · rw [List.eq_of_mem_replicate hc]
    exact A.not_isBlank_backslash

/-- Without quotes, nothing that is read has a blank. -/
theorem not_isBlank_of_mem_splitFrom {text : List α} (hq : A.quotation ∉ text)
    {arg : Option (List α)} (harg : ∀ c ∈ arg.getD [], ¬ A.IsBlank c) {pending : Nat} :
    ∀ word ∈ A.splitFrom false arg pending text, ∀ c ∈ word, ¬ A.IsBlank c := by
  have hended : ∀ {arg : Option (List α)} {pending : Nat}, (∀ c ∈ arg.getD [], ¬ A.IsBlank c) →
      ∀ word ∈ A.ended arg pending, ∀ c ∈ word, ¬ A.IsBlank c := by
    intro arg pending harg word hword
    have hword' : word = arg.getD [] ++ A.backslashes pending := by
      cases arg with
      | some arg => exact List.mem_singleton.mp hword
      | none =>
        cases pending with
        | zero => exact absurd hword List.not_mem_nil
        | succ pending => exact List.mem_singleton.mp hword
    rw [hword']
    exact A.not_isBlank_of_mem_append_backslashes harg
  induction text generalizing arg pending with
  | nil => exact hended harg
  | cons c text ih =>
    have hc : c ≠ A.quotation := fun h => hq (h ▸ List.mem_cons_self)
    have hq' : A.quotation ∉ text := fun h => hq (List.mem_cons_of_mem c h)
    rw [splitFrom]
    by_cases hb : c = A.backslash
    · rw [if_pos hb]
      exact ih hq' harg
    rw [if_neg hb, if_neg hc]
    split
    · intro word hword
      obtain hword | hword := List.mem_append.mp hword
      · exact hended harg word hword
      · exact @ih hq' none (fun c hc => absurd hc List.not_mem_nil) 0 word hword
    · next hblank =>
      apply ih hq'
      intro d hd
      rw [Option.getD_some, List.mem_append, List.mem_singleton] at hd
      obtain hd | rfl := hd
      · exact A.not_isBlank_of_mem_append_backslashes harg d hd
      · exact fun h => hblank ⟨h, rfl⟩

/-- A text without quotes comes back as the first argument if nothing is special in it. Else it is all
blank, and the first argument is one behind it. -/
theorem split_append_eq_cons {text : List α} (hq : A.quotation ∉ text) {ts us : List (List α)}
    (h : A.split text ++ ts = text :: us) :
    (text ≠ [] ∧ ¬ A.NeedsQuotes text ∧ ts = us) ∨ (A.split text = [] ∧ ts = text :: us) := by
  cases hsplit : A.split text with
  | nil =>
    rw [hsplit] at h
    exact Or.inr ⟨rfl, h⟩
  | cons word words =>
    rw [hsplit, List.cons_append] at h
    obtain ⟨rfl, hrest⟩ := List.cons.inj h
    have hplain : ¬ A.NeedsQuotes word := by
      rintro ⟨c, hc, hblank | rfl⟩
      · have hword : word ∈ A.split word := hsplit ▸ List.mem_cons_self
        exact A.not_isBlank_of_mem_splitFrom hq (fun c hc => absurd hc List.not_mem_nil) word hword
          c hc hblank
      · exact hq hc
    have hne : word ≠ [] := by
      rintro rfl
      cases hsplit
    have hone := A.split_quote hne
    rw [quote, if_neg hplain, hsplit] at hone
    rw [(List.cons.inj hone).2, List.nil_append] at hrest
    exact Or.inl ⟨hne, hplain, hrest⟩

theorem split_plain_space {text : List α} (hne : text ≠ []) (hplain : ¬ A.NeedsQuotes text)
    (rest : List α) : A.split (text ++ A.space :: rest) = text :: A.split rest := by
  have h := A.split_quote_space hne rest
  rwa [quote, if_neg hplain] at h

/-! ## Inside quotes -/

/-- What is in an argument already stays at its front. -/
theorem splitFrom_some (text : List α) (quoted : Bool) (arg : List α) (pending : Nat) :
    ∃ more args, A.splitFrom quoted (some arg) pending text = (arg ++ more) :: args := by
  induction text generalizing quoted arg pending with
  | nil => exact ⟨A.backslashes pending, [], rfl⟩
  | cons c text ih =>
    rw [splitFrom]
    by_cases hb : c = A.backslash
    · rw [if_pos hb]
      exact ih quoted arg (pending + 1)
    rw [if_neg hb]
    by_cases hq : c = A.quotation
    · rw [if_pos hq]
      split
      · obtain ⟨more, args, h⟩ := ih (!quoted) (arg ++ A.backslashes (pending / 2)) 0
        exact ⟨_, args, by rw [Option.getD_some, h, List.append_assoc]⟩
      · obtain ⟨more, args, h⟩ := ih quoted (arg ++ A.backslashes (pending / 2) ++ [c]) 0
        exact ⟨_, args, by rw [Option.getD_some, h, List.append_assoc, List.append_assoc]⟩
    rw [if_neg hq]
    split
    · exact ⟨A.backslashes pending, _, rfl⟩
    · obtain ⟨more, args, h⟩ := ih quoted (arg ++ A.backslashes pending ++ [c]) 0
      exact ⟨_, args, by rw [Option.getD_some, h, List.append_assoc, List.append_assoc]⟩

/-- Inside quotes, a text without quotes is read as it is; `n` backslashes are at its end. -/
theorem splitFrom_inQuotes {text : List α} (hq : A.quotation ∉ text) {arg : List α}
    (harg : arg.getLast? ≠ some A.backslash) (pending : Nat) (rest : List α) :
    ∃ arg' n, A.splitFrom true (some arg) pending (text ++ rest) =
        A.splitFrom true (some arg') n rest ∧
      arg' ++ A.backslashes n = arg ++ A.backslashes pending ++ text ∧
      arg'.getLast? ≠ some A.backslash := by
  induction text generalizing arg pending with
  | nil => exact ⟨arg, pending, rfl, (List.append_nil _).symm, harg⟩
  | cons c text ih =>
    have hc : c ≠ A.quotation := fun h => hq (h ▸ List.mem_cons_self)
    have hq' : A.quotation ∉ text := fun h => hq (List.mem_cons_of_mem c h)
    rw [List.cons_append, splitFrom]
    by_cases hb : c = A.backslash
    · obtain ⟨arg', n, hsplit, htext, hlast⟩ := ih hq' harg (pending + 1)
      refine ⟨arg', n, by rw [if_pos hb, hsplit], ?_, hlast⟩
      rw [htext, backslashes_add, hb, List.append_assoc, List.append_assoc, List.append_assoc]
      rfl
    · have hnew : (arg ++ A.backslashes pending ++ [c]).getLast? ≠ some A.backslash := by
        rw [List.getLast?_concat]
        exact fun h => hb (Option.some.inj h)
      obtain ⟨arg', n, hsplit, htext, hlast⟩ := ih hq' hnew 0
      refine ⟨arg', n, ?_, ?_, hlast⟩
      · rw [if_neg hb, if_neg hc, if_neg (by simp), Option.getD_some, hsplit]
      · rw [htext, backslashes_zero, List.append_nil, List.append_assoc]
        rfl

/-- **A text between quotes comes back if the closing quote is not escaped.** -/
theorem split_inQuotes_eq_cons {text : List α} (hq : A.quotation ∉ text) {rest : List α}
    {args : List (List α)} :
    A.split (A.quotation :: (text ++ A.quotation :: A.space :: rest)) = text :: args ↔
      text.getLast? ≠ some A.backslash ∧ A.split rest = args := by
  obtain ⟨arg, n, hsplit, htext, hlast⟩ := @splitFrom_inQuotes _ A _ text hq [] (by simp) 0
    (A.quotation :: A.space :: rest)
  rw [split, splitFrom, if_neg A.backslash_ne_quotation.symm, if_pos rfl, if_pos rfl]
  change A.splitFrom true (some []) 0 _ = _ ↔ _
  rw [hsplit, splitFrom, if_neg A.backslash_ne_quotation.symm, if_pos rfl]
  change arg ++ A.backslashes n = text at htext
  cases n with
  | zero =>
    rw [backslashes_zero, List.append_nil] at htext
    have hword : A.ended (some ((some arg).getD [] ++ A.backslashes (0 / 2))) 0 = [arg] :=
      A.ended_of_reads ⟨Or.inl (Option.some_ne_none _), by
        rw [Nat.zero_div, backslashes_zero]; simp⟩
    rw [if_pos rfl, Bool.not_true, splitFrom_space, hword, ← htext, List.singleton_append]
    constructor
    · intro h
      exact ⟨hlast, (List.cons.inj h).2⟩
    · rintro ⟨-, rfl⟩
      rfl
  | succ n =>
    have hend : text.getLast? = some A.backslash := by
      rw [← htext, backslashes, List.replicate_succ', ← List.append_assoc, List.getLast?_concat]
    constructor
    · intro h
      exfalso
      split at h
      · -- Half of the backslashes are lost.
        rw [Bool.not_true, splitFrom_space] at h
        have hword := (List.cons.inj h).1
        rw [← htext, Option.getD_some, Option.getD_some] at hword
        change arg ++ A.backslashes ((n + 1) / 2) ++ [] = _ at hword
        have hlen := congrArg List.length hword
        simp only [List.length_append, length_backslashes, List.length_nil] at hlen
        omega
      · -- The quote is in the argument.
        obtain ⟨more, rest', hmore⟩ := A.splitFrom_some (A.space :: rest) true
          ((some arg).getD [] ++ A.backslashes ((n + 1) / 2) ++ [A.quotation]) 0
        rw [hmore] at h
        apply hq
        rw [← (List.cons.inj h).1]
        simp
    · rintro ⟨h, -⟩
      exact absurd hend h

/-! ## A command line without its front -/

/-- The arguments and the blanks in them. -/
def blankWeight (args : List (List α)) : Nat := weight (fun c => A.IsBlank c) 1 args

theorem blankWeight_cons (arg : List α) (args : List (List α)) :
    A.blankWeight (arg :: args) = arg.countP (fun c => A.IsBlank c) + 1 + A.blankWeight args :=
  weight_cons arg args

theorem blankWeight_append (xs ys : List (List α)) :
    A.blankWeight (xs ++ ys) = A.blankWeight xs + A.blankWeight ys := weight_append xs ys

theorem countP_blank {c : α} (hc : A.IsBlank c) : [c].countP (fun c => A.IsBlank c) = 1 := by
  have hc : decide (A.IsBlank c) = true := decide_eq_true hc
  rw [List.countP_singleton, if_pos hc]

theorem blankWeight_split_le (text : List α) :
    A.blankWeight (A.split text) ≤ text.countP (fun c => A.IsBlank c) + 1 := by
  apply A.weight_split_le (decide_eq_false A.not_isBlank_backslash)
  intro c hc
  exact Nat.le_of_eq (A.countP_blank hc).symm

theorem countP_join_quote_isBlank (arg : List α) (args : List (List α)) :
    (A.join ((arg :: args).map A.quote)).countP (fun c => A.IsBlank c) + 1 =
      A.blankWeight (arg :: args) := by
  exact A.countP_join_quote (decide_eq_false A.not_isBlank_backslash)
    (decide_eq_false A.not_isBlank_quotation) (A.countP_blank (Or.inl rfl)) arg args

/-- What is left of a command line gives no more than all of it. -/
theorem blankWeight_split_drop_le (arg : List α) (args : List (List α)) (k : Nat) :
    A.blankWeight (A.split ((A.join ((arg :: args).map A.quote)).drop k)) ≤
      A.blankWeight (arg :: args) := by
  rw [← countP_join_quote_isBlank]
  exact Nat.le_trans (A.blankWeight_split_le _)
    (Nat.add_le_add_right (List.drop_sublist k _).countP_le 1)

/-- **A command line that has lost a blank gives other arguments.** -/
theorem split_cut_ne {arg : List α} {args : List (List α)} {front back : List α}
    (h : front ++ back = A.join ((arg :: args).map A.quote)) {c : α} (hc : c ∈ front)
    (hblank : A.IsBlank c) : A.split back ≠ arg :: args := by
  intro hsplit
  have hwhole := A.countP_join_quote_isBlank arg args
  have hback := A.blankWeight_split_le back
  have hfront : 0 < front.countP (fun c => A.IsBlank c) :=
    List.countP_pos_iff.mpr ⟨c, hc, decide_eq_true hblank⟩
  rw [← h, List.countP_append] at hwhole
  rw [hsplit] at hback
  omega

/-- One that begins with a character of the first argument has lost it. -/
theorem split_cut_ne_of_count {arg : List α} {args : List (List α)} {front back : List α}
    (h : front ++ back = A.join ((arg :: args).map A.quote)) {c : α} (hc : c ∈ front)
    (hb : c ≠ A.backslash) (hq : c ≠ A.quotation) : A.split back ≠ arg :: args := by
  by_cases hblank : A.IsBlank c
  · exact A.split_cut_ne h hc hblank
  intro hsplit
  let p : α → Bool := fun d => d = c
  have hp : p A.backslash = false := decide_eq_false (fun h => hb h.symm)
  have hs : [A.space].countP p = 0 := by
    rw [List.countP_singleton, if_neg]
    exact fun h => hblank (Or.inl (of_decide_eq_true h).symm)
  have hwhole := A.countP_join_quote hp (decide_eq_false (fun h => hq h.symm)) hs arg args
  have hback := A.weight_split_le (s := 0) hp (fun _ _ => Nat.zero_le _) back
  have hfront : 0 < front.countP p := List.countP_pos_iff.mpr ⟨c, hc, decide_eq_true rfl⟩
  rw [← h, List.countP_append] at hwhole
  rw [hsplit] at hback
  omega

theorem splitFrom_word {rest : List α} (hrest : rest = [] ∨ ∃ more, rest = A.space :: more)
    (word : List α) : ∃ args, A.splitFrom false (some word) 0 rest = word :: args := by
  have hended : A.ended (some word) 0 = [word] :=
    A.ended_of_reads ⟨Or.inl (Option.some_ne_none _), List.append_nil word⟩
  obtain rfl | ⟨more, rfl⟩ := hrest
  · exact ⟨[], hended⟩
  · exact ⟨A.split more, by rw [splitFrom_space, hended]; rfl⟩

/-- One backslash short, and outside of the quotes that it was written for, an argument is another one.
`n + 1` backslashes are its front. -/
theorem splitFrom_quoteFrom_succ_ne (arg : List α) (n : Nat) {rest : List α}
    (hrest : rest = [] ∨ ∃ more, rest = A.space :: more)
    (hblank : n = 0 → ∀ c ∈ arg.head?, ¬ A.IsBlank c) (args : List (List α)) :
    A.splitFrom false none n (A.quoteFrom (n + 1) arg ++ A.quotation :: rest) ≠
      (A.backslashes (n + 1) ++ arg) :: args := by
  have hn : ∀ m, A.backslashes (m + 1) = A.backslashes m ++ [A.backslash] := fun m =>
    A.backslashes_add m 1
  induction arg generalizing n with
  | nil =>
    rw [quoteFrom, splitFrom_backslashes, splitFrom, if_neg A.backslash_ne_quotation.symm, if_pos rfl,
      if_neg (by omega)]
    intro h
    -- The closing quote is in the argument.
    obtain ⟨more, args', hmore⟩ := A.splitFrom_some rest false
      (none.getD [] ++ A.backslashes ((n + (n + 1)) / 2) ++ [A.quotation]) 0
    rw [hmore] at h
    have hmem : A.quotation ∈ A.backslashes (n + 1) ++ [] := by
      rw [← (List.cons.inj h).1]
      simp
    rw [List.append_nil] at hmem
    exact A.backslash_ne_quotation (List.eq_of_mem_replicate hmem).symm
  | cons c arg ih =>
    rw [quoteFrom]
    by_cases hq : c = A.quotation
    · -- The quote that was escaped begins a quoted part, which the closing quote ends.
      rw [if_pos hq, List.append_assoc, splitFrom_backslashes, List.cons_append, hq, splitFrom,
        if_neg A.backslash_ne_quotation.symm, if_pos rfl, if_pos (by omega), Bool.not_false,
        splitFrom_quoteFrom, show (n + (n + 1 + 1)) / 2 = n + 1 by omega]
      intro h
      obtain ⟨args', hword⟩ := A.splitFrom_word hrest
        (none.getD [] ++ A.backslashes (n + 1) ++ A.backslashes 0 ++ arg)
      rw [hword] at h
      have hlen := congrArg List.length (List.cons.inj h).1
      simp only [List.length_append, length_backslashes, List.length_cons, Option.getD_none, List.length_nil]
        at hlen
      omega
    rw [if_neg hq]
    by_cases hb : c = A.backslash
    · rw [if_pos hb, List.cons_append, hb, splitFrom, if_pos rfl]
      have h := ih (n + 1) (fun h => absurd h (Nat.succ_ne_zero n))
      rwa [hn (n + 1), List.append_assoc] at h
    rw [if_neg hb, List.cons_append, splitFrom, if_neg hb, if_neg hq]
    split
    · next hsep =>
      cases n with
      | zero => exact absurd hsep.1 (hblank rfl c rfl)
      | succ n =>
        intro h
        have hlen := congrArg List.length (List.cons.inj h).1
        simp only [List.length_append, length_backslashes, List.length_cons, Option.getD_none, List.length_nil]
          at hlen
        omega
    · intro h
      obtain ⟨more, args', hmore⟩ := A.splitFrom_some (A.quoteFrom 0 arg ++ A.quotation :: rest) false
        (none.getD [] ++ A.backslashes n ++ [c]) 0
      rw [hmore, Option.getD_none, List.nil_append, hn n, List.append_assoc, List.append_assoc] at h
      have hword := List.append_cancel_left (List.cons.inj h).1
      exact hb (List.cons.inj hword).1

/-- **A command line that has lost its opening quote and what comes next gives other arguments.** -/
theorem split_drop_two_ne {arg : List α} (hneeds : A.NeedsQuotes arg) (args : List (List α)) :
    A.split ((A.join ((arg :: args).map A.quote)).drop 2) ≠ arg :: args := by
  obtain ⟨rest, hrest, htext⟩ : ∃ rest, (rest = [] ∨ ∃ more, rest = A.space :: more) ∧
      A.join ((arg :: args).map A.quote) =
        A.quotation :: (A.quoteFrom 0 arg ++ A.quotation :: rest) := by
    rw [List.map_cons, quote, if_pos hneeds]
    cases args with
    | nil => exact ⟨[], Or.inl rfl, by simp [join]⟩
    | cons arg' args => exact ⟨_, Or.inr ⟨_, rfl⟩, by simp [join, List.intercalate_cons_cons]; rfl⟩
  obtain ⟨c, tail, rfl⟩ : ∃ c tail, arg = c :: tail := by
    obtain ⟨c, hc, -⟩ := hneeds
    exact List.exists_cons_of_ne_nil (List.ne_nil_of_mem hc)
  by_cases hq : c = A.quotation
  · -- Only the backslash in front of the quote is lost.
    rw [htext, quoteFrom, if_pos hq, hq]
    change A.splitFrom false none 0 (A.quotation :: (A.quoteFrom 0 tail ++ A.quotation :: rest)) ≠ _
    rw [splitFrom, if_neg A.backslash_ne_quotation.symm, if_pos rfl, if_pos rfl, Bool.not_false]
    change A.splitFrom true (some []) 0 _ ≠ _
    rw [splitFrom_quoteFrom]
    obtain ⟨args', hword⟩ := A.splitFrom_word hrest ([] ++ A.backslashes 0 ++ tail)
    rw [hword]
    intro h
    have hlen := congrArg List.length (List.cons.inj h).1
    rw [backslashes_zero, List.length_cons] at hlen
    exact absurd hlen (Nat.succ_ne_self _).symm
  by_cases hb : c = A.backslash
  · by_cases hblank : ∃ d more, tail = d :: more ∧ A.IsBlank d
    · -- The blank behind the backslash is lost as well.
      obtain ⟨d, more, rfl, hd⟩ := hblank
      have hd_ne : d ≠ A.quotation ∧ d ≠ A.backslash :=
        ⟨fun h => A.not_isBlank_quotation (h ▸ hd), fun h => A.not_isBlank_backslash (h ▸ hd)⟩
      rw [htext, quoteFrom, if_neg hq, if_pos hb, quoteFrom, if_neg hd_ne.1, if_neg hd_ne.2]
      change A.splitFrom false none 0 (d :: (A.quoteFrom 0 more ++ A.quotation :: rest)) ≠ _
      rw [splitFrom, if_neg hd_ne.2, if_neg hd_ne.1, if_pos ⟨hd, rfl⟩]
      refine @split_cut_ne _ A _ _ _ [A.quotation, c, d] _ ?_ d (by simp) hd
      rw [htext, quoteFrom, if_neg hq, if_pos hb, quoteFrom, if_neg hd_ne.1, if_neg hd_ne.2]
      rfl
    · rw [htext, quoteFrom, if_neg hq, if_pos hb, hb]
      apply A.splitFrom_quoteFrom_succ_ne tail 0 hrest
      intro _ d hd hdblank
      obtain ⟨more, rfl⟩ : ∃ more, tail = d :: more := by
        cases tail with
        | nil => cases hd
        | cons e more => cases hd; exact ⟨more, rfl⟩
      exact hblank ⟨d, more, rfl, hdblank⟩
  · refine A.split_cut_ne_of_count (List.take_append_drop 2 _) (c := c) ?_ hb hq
    rw [htext, quoteFrom, if_neg hq, if_neg hb]
    exact List.mem_cons_of_mem _ List.mem_cons_self

end WindowsLibc.Lib.Alphabet
