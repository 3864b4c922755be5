import Mathlib.Algebra.Order.Ring.Nat
import Mathlib.Data.List.Basic

/-!
# Quoting and splitting command-line arguments

The rules by which a Windows program splits its command line into arguments, and a way to write
arguments so that they survive it, over any alphabet that has the four characters involved. Blanks
separate arguments, quotes turn that off and on, and backslashes are only special in front of a
quote: `2n` of them give `n` backslashes, and the quote is one that toggles; `2n + 1` give `n`
backslashes, and the quote is an ordinary character.

* `split` reads a command line.
* `quote` writes one argument, and leaves alone an argument in which nothing is special.
* `split_join_quote`: splitting arguments that were quoted and joined with blanks gives them back,
  except that empty ones are lost.
-/

namespace WindowsLibc.Lib

/-- The characters that mean something in a command line. -/
structure Alphabet (α : Type*) where
  backslash : α
  quotation : α
  space : α
  tab : α
  backslash_ne_quotation : backslash ≠ quotation
  backslash_ne_space : backslash ≠ space
  backslash_ne_tab : backslash ≠ tab
  quotation_ne_space : quotation ≠ space
  quotation_ne_tab : quotation ≠ tab

namespace Alphabet

variable {α : Type*} (A : Alphabet α)

/-- A character that separates arguments. -/
def IsBlank (c : α) : Prop := c = A.space ∨ c = A.tab

/-- `n` backslashes. -/
def backslashes (n : Nat) : List α := List.replicate n A.backslash

theorem backslashes_zero : A.backslashes 0 = [] := rfl

theorem length_backslashes (n : Nat) : (A.backslashes n).length = n := List.length_replicate

theorem backslashes_succ (n : Nat) : A.backslashes (n + 1) = A.backslash :: A.backslashes n :=
  List.replicate_succ

theorem backslashes_add (m n : Nat) :
    A.backslashes (m + n) = A.backslashes m ++ A.backslashes n :=
  List.replicate_add m n A.backslash

variable [DecidableEq α]

instance (c : α) : Decidable (A.IsBlank c) := inferInstanceAs (Decidable (_ ∨ _))

/-! ## Splitting -/

/-- The argument that ends here, if there is one: `arg` is `none` between arguments. -/
def ended : Option (List α) → Nat → List (List α)
  | none, 0 => []
  | arg, pending => [arg.getD [] ++ A.backslashes pending]

/-- The splitter is inside an argument (`arg`, or `none` between arguments), has seen `pending`
backslashes since, and blanks are ordinary while `quoted`. -/
@[grind =]
def splitFrom (quoted : Bool) (arg : Option (List α)) (pending : Nat) : List α → List (List α)
  | [] => A.ended arg pending
  | c :: rest =>
    if c = A.backslash then splitFrom quoted arg (pending + 1) rest
    else if c = A.quotation then
      if pending % 2 = 0 then
        splitFrom (!quoted) (some (arg.getD [] ++ A.backslashes (pending / 2))) 0 rest
      else
        splitFrom quoted (some (arg.getD [] ++ A.backslashes (pending / 2) ++ [c])) 0 rest
    else if A.IsBlank c ∧ quoted = false then A.ended arg pending ++ splitFrom false none 0 rest
    else splitFrom quoted (some (arg.getD [] ++ A.backslashes pending ++ [c])) 0 rest

/-- The arguments of a command line. One set of rules is meant for all of them, the program's name too. -/
def split (line : List α) : List (List α) := A.splitFrom false none 0 line

/-! ## Quoting -/

/-- The inside of the quotes, after `pending` backslashes that are written already: a quote doubles
them and gets one of its own, and so does the end of the argument, without one of its own. -/
@[grind =]
def quoteFrom (pending : Nat) : List α → List α
  | [] => A.backslashes pending
  | c :: arg =>
    if c = A.quotation then A.backslashes (pending + 1) ++ c :: quoteFrom 0 arg
    else if c = A.backslash then c :: quoteFrom (pending + 1) arg
    else c :: quoteFrom 0 arg

/-- Something in the argument is special. -/
def NeedsQuotes (arg : List α) : Prop := ∃ c ∈ arg, A.IsBlank c ∨ c = A.quotation

instance (arg : List α) : Decidable (A.NeedsQuotes arg) :=
  inferInstanceAs (Decidable (∃ c ∈ arg, _))

def quote (arg : List α) : List α :=
  if A.NeedsQuotes arg then A.quotation :: (A.quoteFrom 0 arg ++ [A.quotation]) else arg

/-- Arguments joined by spaces. -/
def join (args : List (List α)) : List α := [A.space].intercalate args

/-- A run of other characters is written as it is. -/
theorem quoteFrom_plain {xs : List α} (hne : xs ≠ [])
    (hxs : ∀ x ∈ xs, x ≠ A.quotation ∧ x ≠ A.backslash) (pending : Nat) (arg : List α) :
    A.quoteFrom pending (xs ++ arg) = xs ++ A.quoteFrom 0 arg := by
  induction xs generalizing pending with
  | nil => exact absurd rfl hne
  | cons x xs ih =>
    have hx := hxs x List.mem_cons_self
    rw [List.cons_append, quoteFrom, if_neg hx.1, if_neg hx.2]
    cases xs with
    | nil => rfl
    | cons y ys =>
      rw [ih (List.cons_ne_nil y ys) (fun z hz => hxs z (List.mem_cons_of_mem x hz))]
      rfl

/-! ## Splitting what was quoted -/

theorem splitFrom_backslashes (quoted : Bool) (arg : Option (List α)) (pending n : Nat)
    (rest : List α) :
    A.splitFrom quoted arg pending (A.backslashes n ++ rest) =
      A.splitFrom quoted arg (pending + n) rest := by
  induction n generalizing pending with
  | zero => rfl
  | succ n ih =>
    rw [backslashes_succ, List.cons_append, splitFrom, if_pos rfl, ih]
    congr 1
    omega

/-- Inside quotes, what `quoteFrom` writes is read back, and its end closes the quotes. -/
theorem splitFrom_quoteFrom (arg acc : List α) (pending : Nat) (rest : List α) :
    A.splitFrom true (some acc) pending (A.quoteFrom pending arg ++ A.quotation :: rest) =
      A.splitFrom false (some (acc ++ A.backslashes pending ++ arg)) 0 rest := by
  induction arg generalizing acc pending with
  | nil =>
    rw [quoteFrom, splitFrom_backslashes, splitFrom, if_neg A.backslash_ne_quotation.symm,
      if_pos rfl, if_pos (by omega), show (pending + pending) / 2 = pending by omega,
      List.append_nil]
    rfl
  | cons c arg ih =>
    rw [quoteFrom]
    by_cases hq : c = A.quotation
    · -- The backslashes are doubled, and one more makes the quote an ordinary character.
      subst hq
      rw [if_pos rfl, List.append_assoc, splitFrom_backslashes, List.cons_append, splitFrom,
        if_neg A.backslash_ne_quotation.symm, if_pos rfl, if_neg (by omega),
        show (pending + (pending + 1)) / 2 = pending by omega, ih]
      simp [backslashes]
    rw [if_neg hq]
    by_cases hb : c = A.backslash
    · subst hb
      rw [if_pos rfl, List.cons_append, splitFrom, if_pos rfl, ih, backslashes_add]
      simp [backslashes]
    · rw [if_neg hb, List.cons_append, splitFrom, if_neg hb, if_neg hq, if_neg (by simp), ih]
      simp [backslashes]

omit [DecidableEq α] in
theorem needsQuotes_iff (arg : List α) :
    A.NeedsQuotes arg ↔ A.space ∈ arg ∨ A.tab ∈ arg ∨ A.quotation ∈ arg := by
  constructor
  · rintro ⟨c, hc, (rfl | rfl) | rfl⟩
    · exact Or.inl hc
    · exact Or.inr (Or.inl hc)
    · exact Or.inr (Or.inr hc)
  · rintro (h | h | h)
    · exact ⟨_, h, Or.inl (Or.inl rfl)⟩
    · exact ⟨_, h, Or.inl (Or.inr rfl)⟩
    · exact ⟨_, h, Or.inr rfl⟩

omit [DecidableEq α] in
theorem not_needsQuotes_cons {c : α} {arg : List α} (h : ¬ A.NeedsQuotes (c :: arg)) :
    ¬ A.IsBlank c ∧ c ≠ A.quotation ∧ ¬ A.NeedsQuotes arg := by
  refine ⟨fun hb => h ⟨c, List.mem_cons_self, Or.inl hb⟩,
    fun hq => h ⟨c, List.mem_cons_self, Or.inr hq⟩, ?_⟩
  rintro ⟨d, hd, hspecial⟩
  exact h ⟨d, List.mem_cons_of_mem c hd, hspecial⟩

/-- The splitter is inside an argument that reads `text` so far. -/
def Reads (arg : Option (List α)) (pending : Nat) (text : List α) : Prop :=
  (arg ≠ none ∨ pending ≠ 0) ∧ arg.getD [] ++ A.backslashes pending = text

omit [DecidableEq α] in
theorem ended_of_reads {arg : Option (List α)} {pending : Nat} {text : List α}
    (h : A.Reads arg pending text) : A.ended arg pending = [text] := by
  obtain ⟨hin, rfl⟩ := h
  cases arg with
  | some arg => rfl
  | none =>
    cases pending with
    | zero => exact absurd (hin.resolve_left (fun h => h rfl)) (fun h => h rfl)
    | succ pending => rfl

/-- Outside quotes, an argument in which nothing is special is read as it is. -/
theorem splitFrom_plain {arg : List α} (h : ¬ A.NeedsQuotes arg) {acc : Option (List α)}
    {pending : Nat} {text : List α} (hr : A.Reads acc pending text) (rest : List α) :
    ∃ acc' pending', A.splitFrom false acc pending (arg ++ rest) =
        A.splitFrom false acc' pending' rest ∧ A.Reads acc' pending' (text ++ arg) := by
  induction arg generalizing acc pending text with
  | nil => exact ⟨acc, pending, rfl, by rwa [List.append_nil]⟩
  | cons c arg ih =>
    obtain ⟨hblank, hquote, harg⟩ := A.not_needsQuotes_cons h
    rw [List.cons_append, splitFrom]
    by_cases hb : c = A.backslash
    · have hr' : A.Reads acc (pending + 1) (text ++ [c]) := by
        refine ⟨Or.inr (Nat.succ_ne_zero pending), ?_⟩
        rw [backslashes_add, ← List.append_assoc, hr.2, hb]
        rfl
      obtain ⟨acc', pending', hsplit, hreads⟩ := ih harg hr'
      rw [List.append_assoc] at hreads
      exact ⟨acc', pending', by rw [if_pos hb, hsplit], hreads⟩
    · have hr' : A.Reads (some (acc.getD [] ++ A.backslashes pending ++ [c])) 0 (text ++ [c]) := by
        refine ⟨Or.inl (Option.some_ne_none _), ?_⟩
        rw [← hr.2]
        exact List.append_nil _
      obtain ⟨acc', pending', hsplit, hreads⟩ := ih harg hr'
      rw [List.append_assoc] at hreads
      refine ⟨acc', pending', ?_, hreads⟩
      rw [if_neg hb, if_neg hquote, if_neg (fun h => hblank h.1), hsplit]

/-- One quoted argument that is not empty, wherever the command line goes on. -/
theorem splitFrom_quote {arg : List α} (hne : arg ≠ []) (rest : List α) :
    ∃ acc pending, A.splitFrom false none 0 (A.quote arg ++ rest) =
        A.splitFrom false acc pending rest ∧ A.Reads acc pending arg := by
  rw [quote]
  split
  · refine ⟨some arg, 0, ?_, Or.inl (Option.some_ne_none _), List.append_nil _⟩
    rw [List.cons_append, List.append_assoc, splitFrom, if_neg A.backslash_ne_quotation.symm,
      if_pos rfl, if_pos rfl]
    exact A.splitFrom_quoteFrom arg [] 0 rest
  · next hplain =>
    -- The first character begins the argument.
    obtain ⟨c, arg, rfl⟩ := List.exists_cons_of_ne_nil hne
    obtain ⟨hblank, hquote, harg⟩ := A.not_needsQuotes_cons hplain
    rw [List.cons_append, splitFrom]
    by_cases hb : c = A.backslash
    · have hr : A.Reads none 1 [c] := ⟨Or.inr Nat.one_ne_zero, by rw [hb]; rfl⟩
      obtain ⟨acc, pending, hsplit, hreads⟩ := A.splitFrom_plain harg hr rest
      exact ⟨acc, pending, by rw [if_pos hb, hsplit], hreads⟩
    · have hr : A.Reads (some [c]) 0 [c] := ⟨Or.inl (Option.some_ne_none _), rfl⟩
      obtain ⟨acc, pending, hsplit, hreads⟩ := A.splitFrom_plain harg hr rest
      refine ⟨acc, pending, ?_, hreads⟩
      rw [if_neg hb, if_neg hquote, if_neg (fun h => hblank h.1)]
      exact hsplit

theorem splitFrom_space (acc : Option (List α)) (pending : Nat) (rest : List α) :
    A.splitFrom false acc pending (A.space :: rest) =
      A.ended acc pending ++ A.split rest := by
  rw [splitFrom, if_neg A.backslash_ne_space.symm, if_neg A.quotation_ne_space.symm,
    if_pos ⟨Or.inl rfl, rfl⟩]
  rfl

theorem quote_nil : A.quote [] = [] := by
  rw [quote, if_neg]
  rintro ⟨c, hc, _⟩
  exact List.not_mem_nil hc

/-- A quoted argument that is not empty is read as one. -/
theorem split_quote_space {arg : List α} (hne : arg ≠ []) (rest : List α) :
    A.split (A.quote arg ++ A.space :: rest) = arg :: A.split rest := by
  obtain ⟨acc, pending, hsplit, hreads⟩ := A.splitFrom_quote hne (A.space :: rest)
  rw [split, hsplit, splitFrom_space, A.ended_of_reads hreads]
  rfl

theorem split_quote {arg : List α} (hne : arg ≠ []) : A.split (A.quote arg) = [arg] := by
  obtain ⟨acc, pending, hsplit, hreads⟩ := A.splitFrom_quote hne []
  rw [List.append_nil] at hsplit
  rw [split, hsplit, splitFrom, A.ended_of_reads hreads]

/-- **Splitting quoted arguments gives them back, but for the empty ones.** -/
theorem split_join_quote (args : List (List α)) :
    A.split (A.join (args.map A.quote)) = args.filter (fun arg => arg ≠ []) := by
  induction args with
  | nil => rfl
  | cons arg args ih =>
    have hone : ∀ rest, A.split (A.quote arg ++ A.space :: rest) =
        [arg].filter (fun arg => arg ≠ []) ++ A.split rest := by
      intro rest
      by_cases hne : arg = []
      · rw [hne, quote_nil, List.nil_append, split, splitFrom_space]
        rfl
      · rw [A.split_quote_space hne, List.filter_cons_of_pos (by simpa using hne)]
        rfl
    cases args with
    | nil =>
      rw [List.map_singleton, join, List.intercalate_singleton]
      by_cases hne : arg = []
      · rw [hne, quote_nil]
        rfl
      · rw [A.split_quote hne, List.filter_cons_of_pos (by simpa using hne)]
        rfl
    | cons arg' args =>
      rw [join] at ih
      rw [List.map_cons, List.map_cons, join, List.intercalate_cons_cons, List.append_assoc,
        List.singleton_append, hone, ← List.map_cons, ih, ← List.filter_append,
        List.singleton_append]

end Alphabet

end WindowsLibc.Lib
