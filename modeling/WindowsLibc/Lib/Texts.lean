import Mathlib.Data.List.TakeWhile

/-!
# Texts in a block

Texts are put one behind the other into a block, each with a mark behind it that is in none of them, and a mark
behind them all. The mark tells a reader where a text ends, and two in a row that there are no more.

* `readTexts_packTexts`: a reader finds the texts up to the first empty one, whatever follows.
-/

namespace WindowsLibc.Lib

variable {α : Type*}

/-- The block of some texts. -/
def packTexts (mark : α) (texts : List (List α)) : List α := texts.flatMap (· ++ [mark]) ++ [mark]

/-- The texts of a block. `text` is what has been read of the next one; an empty one ends the block. -/
def readTexts [DecidableEq α] (mark : α) (text : List α) : List α → List (List α)
  | [] => []
  | c :: block =>
    if c = mark then if text.isEmpty then [] else text :: readTexts mark [] block
    else readTexts mark (text ++ [c]) block

variable {mark : α}

theorem packTexts_cons (text : List α) (texts : List (List α)) :
    packTexts mark (text :: texts) = text ++ mark :: packTexts mark texts := by
  rw [packTexts, packTexts, List.flatMap_cons, List.append_assoc, List.append_assoc, List.singleton_append]

variable [DecidableEq α]

/-- A text is read up to its mark. -/
theorem readTexts_append {text : List α} (htext : mark ∉ text) (read block : List α) :
    readTexts mark read (text ++ block) = readTexts mark (read ++ text) block := by
  induction text generalizing read with
  | nil => rw [List.nil_append, List.append_nil]
  | cons c text ih =>
    obtain ⟨hc, htext⟩ := not_or.mp (mt List.mem_cons.mpr htext)
    rw [List.cons_append, readTexts, if_neg (fun h => hc h.symm), ih htext, List.append_assoc,
      List.singleton_append]

/-- **Reading a block.** The texts up to the first that is empty. -/
theorem readTexts_packTexts {texts : List (List α)} (htexts : ∀ text ∈ texts, mark ∉ text) (rest : List α) :
    readTexts mark [] (packTexts mark texts ++ rest) = texts.takeWhile (fun text => !text.isEmpty) := by
  induction texts with
  | nil =>
    change (if mark = mark then if ([] : List α).isEmpty then [] else _ else _) = []
    rw [if_pos rfl]
    rfl
  | cons text texts ih =>
    have ih := ih (fun t ht => htexts t (List.mem_cons_of_mem _ ht))
    rw [packTexts_cons, List.append_assoc, readTexts_append (htexts _ List.mem_cons_self), List.nil_append,
      List.cons_append, readTexts, if_pos rfl, ih]
    cases text with
    | nil => rfl
    | cons c text => rfl

end WindowsLibc.Lib
