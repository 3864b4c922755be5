import WindowsLibc.Lib.ArgQuote

/-!
# One argument from the front of a command line

What the C runtime of a program does with its command line, an argument at a time: `read` gives the argument
and what is left of the line. Inside quotes, two quotes in a row stand for one. That is the only rule which
`split` does not know, and quoting never writes two in a row.

* `read_quote`: a quoted argument is read to its end, whatever follows, as long as that is nothing or a blank.
-/

namespace WindowsLibc.Lib

namespace Alphabet

variable {α : Type*} (A : Alphabet α)

/-- A place between arguments, or the end of the line. -/
def Ended (rest : List α) : Prop := ∀ c ∈ rest.head?, A.IsBlank c

variable [DecidableEq α]

instance (rest : List α) : Decidable (A.Ended rest) :=
  inferInstanceAs (Decidable (∀ c ∈ rest.head?, A.IsBlank c))

/-- The runtime is inside an argument, of which it has `arg`, and has seen `pending` backslashes since. -/
@[grind =]
def readFrom (quoted : Bool) (arg : List α) (pending : Nat) : List α → List α × List α
  | [] => (arg ++ A.backslashes pending, [])
  | c :: rest =>
    if c = A.backslash then readFrom quoted arg (pending + 1) rest
    else if c = A.quotation then
      let arg := arg ++ A.backslashes (pending / 2)
      if pending % 2 = 1 then readFrom quoted (arg ++ [c]) 0 rest
      else
        match quoted, rest with
        | true, d :: rest =>
          if d = A.quotation then readFrom true (arg ++ [d]) 0 rest else readFrom false arg 0 (d :: rest)
        | true, [] => readFrom false arg 0 []
        | false, rest => readFrom true arg 0 rest
    else if A.IsBlank c ∧ quoted = false then (arg ++ A.backslashes pending, c :: rest)
    else readFrom quoted (arg ++ A.backslashes pending ++ [c]) 0 rest

/-- The argument at the front of a line. -/
def read (line : List α) : List α × List α := A.readFrom false [] 0 line

theorem readFrom_backslashes (quoted : Bool) (arg : List α) (pending n : Nat) (rest : List α) :
    A.readFrom quoted arg pending (A.backslashes n ++ rest) = A.readFrom quoted arg (pending + n) rest := by
  induction n generalizing pending with
  | zero => rfl
  | succ n ih =>
    rw [backslashes_succ, List.cons_append, readFrom, if_pos rfl, ih, Nat.add_right_comm, Nat.add_assoc]

/-- Outside quotes, the argument ends where the line does, or with a blank. -/
theorem readFrom_ended {rest : List α} (h : A.Ended rest) (arg : List α) :
    A.readFrom false arg 0 rest = (arg, rest) := by
  cases rest with
  | nil => rw [readFrom, backslashes_zero, List.append_nil]
  | cons c rest =>
    have hblank : A.IsBlank c := h c rfl
    have hb : c ≠ A.backslash := by
      rcases hblank with rfl | rfl
      · exact A.backslash_ne_space.symm
      · exact A.backslash_ne_tab.symm
    have hq : c ≠ A.quotation := by
      rcases hblank with rfl | rfl
      · exact A.quotation_ne_space.symm
      · exact A.quotation_ne_tab.symm
    rw [readFrom, if_neg hb, if_neg hq, if_pos ⟨hblank, rfl⟩, backslashes_zero, List.append_nil]

/-- A quote that no other follows closes the quotes. -/
theorem readFrom_close {pending : Nat} (heven : pending % 2 = 0) {rest : List α} (h : A.Ended rest)
    (arg : List α) :
    A.readFrom true arg pending (A.quotation :: rest) = (arg ++ A.backslashes (pending / 2), rest) := by
  rw [readFrom, if_neg A.backslash_ne_quotation.symm, if_pos rfl]
  dsimp only
  rw [if_neg (by omega)]
  cases rest with
  | nil => exact A.readFrom_ended h _
  | cons c rest =>
    have hq : c ≠ A.quotation := by
      rcases h c rfl with rfl | rfl
      · exact A.quotation_ne_space.symm
      · exact A.quotation_ne_tab.symm
    dsimp only
    rw [if_neg hq, A.readFrom_ended h]

/-- Inside quotes, what `quoteFrom` writes is read back, and its end closes the quotes. -/
theorem readFrom_quoteFrom {rest : List α} (h : A.Ended rest) (arg acc : List α) (pending : Nat) :
    A.readFrom true acc pending (A.quoteFrom pending arg ++ A.quotation :: rest) =
      (acc ++ A.backslashes pending ++ arg, rest) := by
  induction arg generalizing acc pending with
  | nil =>
    rw [quoteFrom, readFrom_backslashes, A.readFrom_close (by omega) h, List.append_nil,
      show (pending + pending) / 2 = pending by omega]
  | cons c arg ih =>
    rw [quoteFrom]
    by_cases hq : c = A.quotation
    · -- an odd number of backslashes, the last of which is the quote's own
      subst hq
      rw [if_pos rfl, List.append_assoc, readFrom_backslashes, List.cons_append, readFrom,
        if_neg A.backslash_ne_quotation.symm, if_pos rfl]
      dsimp only
      rw [if_pos (by omega), show (pending + (pending + 1)) / 2 = pending by omega, ih, backslashes_zero,
        List.append_nil, List.append_assoc _ [A.quotation], List.singleton_append]
    rw [if_neg hq]
    by_cases hb : c = A.backslash
    · subst hb
      rw [if_pos rfl, List.cons_append, readFrom, if_pos rfl, ih, backslashes_add, ← List.append_assoc,
        List.append_assoc _ (A.backslashes 1)]
      rfl
    · rw [if_neg hb, List.cons_append, readFrom, if_neg hb, if_neg hq, if_neg (fun hblank => by simp at hblank),
        ih, backslashes_zero, List.append_nil, List.append_assoc _ [c], List.singleton_append]

/-- **A quoted argument is read to its end**, and gives the argument. -/
theorem read_quote {arg : List α} (hneeds : A.NeedsQuotes arg) {rest : List α} (h : A.Ended rest) :
    A.read (A.quote arg ++ rest) = (arg, rest) := by
  rw [read, quote, if_pos hneeds, List.cons_append, List.append_assoc, List.singleton_append, readFrom,
    if_neg A.backslash_ne_quotation.symm, if_pos rfl]
  dsimp only
  rw [if_neg (by decide), A.readFrom_quoteFrom h]
  rfl

end Alphabet

end WindowsLibc.Lib
