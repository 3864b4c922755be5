import Mathlib.Algebra.Order.Ring.Nat
import Mathlib.Data.List.Induction

/-!
# Resolving a path with a stack

A path is a list of components, three of which are marks: one for the current directory, one for the
parent and a blank one, which two separators in a row leave between them. Nothing in this module
knows what components are made of.

* `resolve` is what a path means: marks for the current directory and blanks do nothing, a mark for
  the parent removes the last component left, and there is nothing above the root.
* `keep` is the stack machine that treats a blank like any other component.
* `kept_eq_resolved_iff` says when the two agree: after every blank, the path climbs back to the
  root, where `levels` counts blanks as well.
-/

namespace WindowsLibc.Lib

/-- The components that are not names. -/
structure Marks (α : Type*) where
  here : α
  parent : α
  blank : α
  blank_ne_here : blank ≠ here
  blank_ne_parent : blank ≠ parent
  here_ne_parent : here ≠ parent

namespace Marks

variable {α : Type*} [DecidableEq α] (M : Marks α)

/-- One component on a stack with its top at the end; blanks are pushed. -/
def keep (stack : List α) (c : α) : List α :=
  if c = M.parent then stack.dropLast else if c = M.here then stack else stack ++ [c]

/-- One component on a stack with its top at the end; blanks are dropped. -/
def resolve (stack : List α) (c : α) : List α :=
  if c = M.blank then stack else M.keep stack c

def kept (cs : List α) : List α := cs.foldl M.keep []

def resolved (cs : List α) : List α := cs.foldl M.resolve []

/-- The depth of a path below the root, with a level for every blank. -/
def levels (cs : List α) : Nat :=
  cs.foldl (fun n c => if c = M.parent then n - 1 else if c = M.here then n else n + 1) 0

/-- After every blank the path climbs back to the root. -/
def Climbs (cs : List α) : Prop :=
  ∀ pre suf, cs = pre ++ M.blank :: suf →
    ∃ mid rest, suf = mid ++ rest ∧ M.levels (pre ++ M.blank :: mid) = 0

@[simp] theorem kept_concat (cs : List α) (c : α) : M.kept (cs ++ [c]) = M.keep (M.kept cs) c := by
  rw [kept, List.foldl_append]
  rfl

@[simp] theorem resolved_concat (cs : List α) (c : α) :
    M.resolved (cs ++ [c]) = M.resolve (M.resolved cs) c := by
  rw [resolved, List.foldl_append]
  rfl

theorem levels_concat (cs : List α) (c : α) : M.levels (cs ++ [c]) =
    if c = M.parent then M.levels cs - 1 else if c = M.here then M.levels cs
    else M.levels cs + 1 := by
  rw [levels, List.foldl_append]
  rfl

theorem length_keep (stack : List α) (c : α) : (M.keep stack c).length =
    if c = M.parent then stack.length - 1 else if c = M.here then stack.length
    else stack.length + 1 := by
  rw [keep]
  split
  · exact List.length_dropLast
  · split
    · rfl
    · exact List.length_append

theorem length_kept (cs : List α) : (M.kept cs).length = M.levels cs := by
  induction cs using List.reverseRecOn with
  | nil => rfl
  | append_singleton cs c ih => rw [kept_concat, length_keep, levels_concat, ih]

/-! ## What is kept comes from the path -/

theorem kept_sublist (cs : List α) : (M.kept cs).Sublist cs := by
  induction cs using List.reverseRecOn with
  | nil => exact List.Sublist.refl _
  | append_singleton cs c ih =>
    rw [kept_concat, keep]
    split
    · exact ((List.dropLast_sublist _).trans ih).trans (List.sublist_append_left cs [c])
    · split
      · exact ih.trans (List.sublist_append_left cs [c])
      · exact ih.append (List.Sublist.refl [c])

/-- No mark for the current directory or the parent is left. -/
theorem mark_not_mem_kept (cs : List α) : M.here ∉ M.kept cs ∧ M.parent ∉ M.kept cs := by
  induction cs using List.reverseRecOn with
  | nil => exact ⟨List.not_mem_nil, List.not_mem_nil⟩
  | append_singleton cs c ih =>
    rw [kept_concat, keep]
    split
    · have hsub := (List.dropLast_sublist (M.kept cs)).subset
      exact ⟨fun h => ih.1 (hsub h), fun h => ih.2 (hsub h)⟩
    · next hparent =>
      split
      · exact ih
      · next hhere =>
        constructor
        · intro h
          rcases List.mem_append.mp h with h | h
          · exact ih.1 h
          · exact hhere (List.mem_singleton.mp h).symm
        · intro h
          rcases List.mem_append.mp h with h | h
          · exact ih.2 h
          · exact hparent (List.mem_singleton.mp h).symm

/-! ## When keeping blanks does not show -/

/-- Dropping blanks never leaves more. -/
theorem length_resolved_le (cs : List α) : (M.resolved cs).length ≤ (M.kept cs).length := by
  induction cs using List.reverseRecOn with
  | nil => exact Nat.le_refl _
  | append_singleton cs c ih =>
    rw [kept_concat, resolved_concat, resolve]
    split
    · next hc =>
      rw [hc, length_keep, if_neg M.blank_ne_parent, if_neg M.blank_ne_here]
      omega
    · rw [length_keep, length_keep]
      split
      · omega
      · split <;> omega

/-- At the root again, whatever was blank before is forgotten. -/
theorem climbs_of_levels {cs : List α} (h : M.levels cs = 0) : M.Climbs cs := by
  intro pre suf hcs
  exact ⟨suf, [], (List.append_nil suf).symm, hcs ▸ h⟩

theorem not_climbs_blank {cs : List α} : ¬ M.Climbs (cs ++ [M.blank]) := by
  intro h
  obtain ⟨mid, rest, hnil, hlev⟩ := h cs [] rfl
  have hmid : mid = [] := (List.append_eq_nil_iff.mp hnil.symm).1
  rw [hmid, levels_concat, if_neg M.blank_ne_parent, if_neg M.blank_ne_here] at hlev
  omega

/-- Away from the root, a component that is not blank changes nothing. -/
theorem climbs_concat {cs : List α} {c : α} (hc : c ≠ M.blank) (hlev : M.levels (cs ++ [c]) ≠ 0) :
    M.Climbs (cs ++ [c]) ↔ M.Climbs cs := by
  constructor
  · intro h pre suf hcs
    obtain ⟨mid, rest, hsuf, hzero⟩ := h pre (suf ++ [c]) (by rw [hcs]; simp)
    rcases List.eq_nil_or_concat rest with hrest | ⟨rest', c', hrest⟩
    · -- The climb cannot end only with the last component.
      rw [hrest, List.append_nil] at hsuf
      rw [← hsuf] at hzero
      exact absurd (by rw [hcs]; simpa using hzero) hlev
    · rw [hrest, List.concat_eq_append, ← List.append_assoc] at hsuf
      exact ⟨mid, rest', (List.append_inj' hsuf rfl).1, hzero⟩
  · intro h pre suf hcs
    rcases List.eq_nil_or_concat suf with hsuf | ⟨suf', c', hsuf⟩
    · rw [hsuf] at hcs
      exact absurd (List.singleton_inj.mp (List.append_inj' hcs rfl).2) hc
    · rw [hsuf, List.concat_eq_append, ← List.cons_append, ← List.append_assoc] at hcs
      obtain ⟨mid, rest, hmid, hzero⟩ := h pre suf' (List.append_inj' hcs rfl).1
      exact ⟨mid, rest ++ [c'], by rw [hsuf, hmid]; simp, hzero⟩

/-- If every blank is climbed out of, the stacks agree; if not, the one with blanks is higher. -/
theorem kept_or_higher (cs : List α) :
    (M.Climbs cs → M.kept cs = M.resolved cs) ∧
    (¬ M.Climbs cs → (M.resolved cs).length < (M.kept cs).length) := by
  induction cs using List.reverseRecOn with
  | nil =>
    refine ⟨fun _ => rfl, fun h => absurd (M.climbs_of_levels rfl) h⟩
  | append_singleton cs c ih =>
    have hlen := M.length_kept (cs ++ [c])
    have hle := M.length_resolved_le (cs ++ [c])
    by_cases hlev : M.levels (cs ++ [c]) = 0
    · -- At the root both stacks are empty.
      refine ⟨fun _ => ?_, fun h => absurd (M.climbs_of_levels hlev) h⟩
      rw [hlev] at hlen
      rw [hlen] at hle
      rw [List.eq_nil_of_length_eq_zero hlen, List.eq_nil_of_length_eq_zero (Nat.le_zero.mp hle)]
    by_cases hc : c = M.blank
    · -- A blank is pushed onto one stack only, so that one is higher.
      subst hc
      refine ⟨fun h => absurd h M.not_climbs_blank, fun _ => ?_⟩
      have hle' := M.length_resolved_le cs
      rw [kept_concat, resolved_concat, resolve, if_pos rfl, length_keep,
        if_neg M.blank_ne_parent, if_neg M.blank_ne_here]
      omega
    · rw [M.climbs_concat hc hlev]
      rw [kept_concat, length_keep] at hlen
      rw [kept_concat, resolved_concat, resolve, if_neg hc]
      refine ⟨fun h => by rw [ih.1 h], fun h => ?_⟩
      -- Away from the root a `..` pops a level of the higher stack, which stays the higher one.
      have hlt := ih.2 h
      rw [length_keep, length_keep]
      split
      · next hparent => rw [if_pos hparent] at hlen; omega
      · split <;> omega

/-- **Keeping blanks does not show exactly when every blank is climbed out of.** -/
theorem kept_eq_resolved_iff (cs : List α) : M.kept cs = M.resolved cs ↔ M.Climbs cs := by
  constructor
  · intro h
    by_contra hnot
    have hlt := (M.kept_or_higher cs).2 hnot
    rw [h] at hlt
    exact Nat.lt_irrefl _ hlt
  · exact (M.kept_or_higher cs).1

end Marks

/-! ## Texts of paths -/

section Split

variable {α : Type*} [BEq α] [LawfulBEq α] {a : α} {text part : List α}

/-- A component does not contain the separator. -/
theorem not_mem_of_mem_splitOn (h : part ∈ text.splitOn a) : a ∉ part := by
  induction text generalizing part with
  | nil =>
    rw [List.splitOn_nil, List.mem_singleton] at h
    rw [h]
    exact List.not_mem_nil
  | cons c text ih =>
    rw [List.splitOn_cons_eq_if_modifyHead] at h
    split at h
    · rcases List.mem_cons.mp h with rfl | h
      · exact List.not_mem_nil
      · exact ih h
    · next hc =>
      obtain ⟨first, others, heq⟩ := List.exists_cons_of_ne_nil (List.splitOn_ne_nil a text)
      rw [heq] at h ih
      rcases List.mem_cons.mp h with rfl | h
      · intro hmem
        rcases List.mem_cons.mp hmem with hsame | hmem
        · exact hc (beq_iff_eq.mpr hsame.symm)
        · exact ih List.mem_cons_self hmem
      · exact ih (List.mem_cons_of_mem first h)

/-- What is in a component is in the text. -/
theorem mem_of_mem_splitOn {c : α} (h : part ∈ text.splitOn a) (hc : c ∈ part) : c ∈ text := by
  have htext : [a].intercalate (text.splitOn a) = text := List.intercalate_splitOn a
  rw [← htext]
  generalize text.splitOn a = parts at h ⊢
  induction parts with
  | nil => exact absurd h List.not_mem_nil
  | cons first others ih =>
    rcases List.mem_cons.mp h with rfl | h
    · cases others with
      | nil => rwa [List.intercalate_singleton]
      | cons _ _ =>
        rw [List.intercalate_cons_cons]
        exact List.mem_append_left _ (List.mem_append_left _ hc)
    · cases others with
      | nil => exact absurd h List.not_mem_nil
      | cons _ _ =>
        rw [List.intercalate_cons_cons]
        exact List.mem_append_right _ (ih h)

end Split

end WindowsLibc.Lib
