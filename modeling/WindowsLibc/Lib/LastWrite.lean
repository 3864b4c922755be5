import Mathlib.Data.List.Basic

/-!
# The last write to a place

A list of operations each of which writes one place, or none. `lastWrite` is what stands at a place behind
all of them: what was written last, or what was there (`lastWrite_cases`).
-/

namespace WindowsLibc.Lib

variable {α κ ε ε' : Type*} [DecidableEq κ]

/-- What stands at `key` behind the operations `as`. -/
def lastWrite (write : α → Option (κ × ε)) (key : κ) (init : ε) (as : List α) : ε :=
  as.foldl (fun e a => (write a).elim e fun w => if w.1 = key then w.2 else e) init

variable {write : α → Option (κ × ε)} {key : κ} {init : ε} {as : List α}

theorem lastWrite_append (write : α → Option (κ × ε)) (key : κ) (init : ε) (as bs : List α) :
    lastWrite write key init (as ++ bs) = lastWrite write key (lastWrite write key init as) bs :=
  List.foldl_append

theorem lastWrite_cons (write : α → Option (κ × ε)) (key : κ) (init : ε) (a : α) (as : List α) :
    lastWrite write key init (a :: as) = lastWrite write key (lastWrite write key init [a]) as := rfl

theorem lastWrite_self {a : α} {e : ε} (h : write a = some (key, e)) :
    lastWrite write key init [a] = e := by
  simp [lastWrite, h]

theorem lastWrite_other {a : α} (h : ∀ e, write a ≠ some (key, e)) :
    lastWrite write key init [a] = init := by
  cases hwrite : write a with
  | none => simp [lastWrite, hwrite]
  | some w =>
    have hkey : w.1 ≠ key := by
      rintro rfl
      exact h w.2 hwrite
    simp [lastWrite, hwrite, hkey]

/-- A place that is not written keeps what it has. -/
theorem lastWrite_unwritten (h : ∀ a ∈ as, ∀ e, write a ≠ some (key, e)) :
    lastWrite write key init as = init := by
  induction as generalizing init with
  | nil => rfl
  | cons a as ih =>
    rw [lastWrite_cons, ih fun b hb => h b (List.mem_cons_of_mem _ hb),
      lastWrite_other (h a List.mem_cons_self)]

/-- What was written last. -/
theorem lastWrite_last {as bs : List α} {a : α} {e : ε} (h : write a = some (key, e))
    (hlast : ∀ b ∈ bs, ∀ e', write b ≠ some (key, e')) :
    lastWrite write key init (as ++ a :: bs) = e := by
  rw [lastWrite_append, lastWrite_cons, lastWrite_unwritten hlast, lastWrite_self h]

/-- **What stands there was there before, or has been written last.** -/
theorem lastWrite_cases (write : α → Option (κ × ε)) (key : κ) (init : ε) (as : List α) :
    (lastWrite write key init as = init ∧ ∀ a ∈ as, ∀ e, write a ≠ some (key, e)) ∨
      ∃ l a r e, as = l ++ a :: r ∧ write a = some (key, e) ∧ lastWrite write key init as = e ∧
        ∀ b ∈ r, ∀ e', write b ≠ some (key, e') := by
  induction as generalizing init with
  | nil => exact .inl ⟨rfl, fun a ha => absurd ha List.not_mem_nil⟩
  | cons a as ih =>
    rcases ih (lastWrite write key init [a]) with ⟨heq, hnone⟩ | ⟨l, b, r, e, rfl, hwrite, heq, hlast⟩
    · by_cases hfirst : ∃ e, write a = some (key, e)
      · obtain ⟨e, he⟩ := hfirst
        refine .inr ⟨[], a, as, e, rfl, he, ?_, hnone⟩
        rw [lastWrite_cons, heq, lastWrite_self he]
      · have hother : ∀ e, write a ≠ some (key, e) := fun e he => hfirst ⟨e, he⟩
        refine .inl ⟨?_, ?_⟩
        · rw [lastWrite_cons, heq, lastWrite_other hother]
        · intro b hb
          rcases List.mem_cons.mp hb with rfl | hb
          · exact hother
          · exact hnone b hb
    · exact .inr ⟨a :: l, b, r, e, rfl, hwrite, heq, hlast⟩

/-- Something that can be said of what is written can be said of what stands there. -/
theorem lastWrite_map (f : ε → ε') {write' : α → Option (κ × ε')}
    (h : ∀ a ∈ as, (write a).map (fun w => (w.1, f w.2)) = write' a) (init : ε) :
    f (lastWrite write key init as) = lastWrite write' key (f init) as := by
  induction as generalizing init with
  | nil => rfl
  | cons a as ih =>
    have hfirst : f (lastWrite write key init [a]) = lastWrite write' key (f init) [a] := by
      have ha := h a List.mem_cons_self
      unfold lastWrite
      rw [List.foldl_cons, List.foldl_nil, List.foldl_cons, List.foldl_nil, ← ha]
      cases write a with
      | none => rfl
      | some w => exact apply_ite f _ _ _
    rw [lastWrite_cons, ih (fun b hb => h b (List.mem_cons_of_mem _ hb)), hfirst, ← lastWrite_cons]

end WindowsLibc.Lib
