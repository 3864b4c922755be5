import Mathlib.Data.List.Basic
import Mathlib.Data.List.Nodup

/-!
# Doubly linked lists

Nodes that are found by their addresses, of an arbitrary type. `prev` leads from a node to the one behind it in
the list, `next` to the one before it. Nothing in this module knows what is being modelled.

* `Segment links before l behind` says that the nodes of `l` are linked in this order, between the nodes
  `before` and `behind`, which may be missing. A whole list is a segment between no nodes.
* `segment_append` cuts a segment in two; `Segment.setBehind` and `Segment.setBefore` put another
  neighbour to an end of it.
* `Segment.push` and `Segment.unlink` are the rules for a new first node, and for taking a node out.
* `Segment.visits` and `Segment.inverse` say what the links of a segment are good for.
-/

namespace WindowsLibc.Lib

/-- The neighbours of a node. -/
structure Links (α : Type*) where
  prev : Option α
  next : Option α
  deriving DecidableEq

variable {α : Type*}

/-- The nodes of a list are linked in its order, between `before` and `behind`. -/
@[grind =]
def Segment (links : α → Option (Links α)) : Option α → List α → Option α → Prop
  | _, [], _ => True
  | before, p :: l, behind =>
    links p = some ⟨l.head?.or behind, before⟩ ∧ Segment links (some p) l behind

/-- Following `prev` from a node on, or from none. -/
inductive Visits (links : α → Option (Links α)) : Option α → List α → Prop where
  | nil : Visits links none []
  | cons {p : α} {a : Links α} {l : List α} : links p = some a → Visits links a.prev l →
      Visits links (some p) (p :: l)

variable {links links' : α → Option (Links α)} {before behind : Option α} {l xs ys : List α} {p q : α}

/-- Only the links of what is visited matter. -/
theorem Visits.congr_of_mem {start : Option α} (h : Visits links start l) (heq : ∀ p ∈ l, links' p = links p) :
    Visits links' start l := by
  induction h with
  | nil => exact .nil
  | cons hp _ ih =>
    exact .cons ((heq _ List.mem_cons_self).trans hp) (ih fun q hq => heq q (List.mem_cons_of_mem _ hq))

/-- Only the links matter. -/
theorem Visits.congr {start : Option α} (h : Visits links start l) (heq : ∀ p, links' p = links p) :
    Visits links' start l :=
  h.congr_of_mem fun p _ => heq p

theorem segment_append :
    Segment links before (xs ++ ys) behind ↔
      Segment links before xs (ys.head?.or behind) ∧ Segment links (xs.getLast?.or before) ys behind := by
  induction xs generalizing before with
  | nil => exact ⟨fun h => ⟨trivial, h⟩, fun h => h.2⟩
  | cons p xs ih =>
    have hhead : (xs ++ ys).head?.or behind = xs.head?.or (ys.head?.or behind) := by
      rw [List.head?_append, Option.or_assoc]
    have hlast : xs.getLast?.or (some p) = (p :: xs).getLast?.or before := by
      rw [List.getLast?_cons, Option.or_some]
      cases xs.getLast? <;> rfl
    rw [List.cons_append, Segment, ih, hhead, hlast, Segment, and_assoc]

/-- Only the nodes of a segment matter. -/
theorem Segment.congr (h : Segment links before l behind) (heq : ∀ p ∈ l, links' p = links p) :
    Segment links' before l behind := by
  induction l generalizing before with
  | nil => trivial
  | cons p l ih =>
    exact ⟨(heq p List.mem_cons_self).trans h.1, ih h.2 fun q hq => heq q (List.mem_cons_of_mem p hq)⟩

theorem Segment.exists_links (h : Segment links before l behind) (hp : p ∈ l) : ∃ a, links p = some a := by
  obtain ⟨xs, ys, rfl⟩ := List.append_of_mem hp
  exact ⟨_, (segment_append.mp h).2.1⟩

/-- Another node behind the segment: its last node says so. -/
theorem Segment.setBehind (h : Segment links before l behind) (hnodup : l.Nodup) {behind' : Option α}
    (hlast : ∀ q a, l.getLast? = some q → links q = some a → links' q = some ⟨behind', a.next⟩)
    (hothers : ∀ p ∈ l, l.getLast? ≠ some p → links' p = links p) : Segment links' before l behind' := by
  rcases List.eq_nil_or_concat l with rfl | ⟨xs, q, rfl⟩
  · trivial
  · rw [List.concat_eq_append] at h hnodup hlast hothers ⊢
    obtain ⟨hxs, hq, -⟩ := segment_append.mp h
    refine segment_append.mpr ⟨hxs.congr ?_, hlast q _ List.getLast?_concat hq, trivial⟩
    intro p hp
    refine hothers p (List.mem_append_left _ hp) ?_
    rw [List.getLast?_concat]
    rintro ⟨rfl⟩
    exact (List.nodup_append.mp hnodup).2.2 q hp q List.mem_cons_self rfl

/-- Another node before the segment: its first node says so. -/
theorem Segment.setBefore (h : Segment links before l behind) (hnodup : l.Nodup) {before' : Option α}
    (hfirst : ∀ q a, l.head? = some q → links q = some a → links' q = some ⟨a.prev, before'⟩)
    (hothers : ∀ p ∈ l, l.head? ≠ some p → links' p = links p) : Segment links' before' l behind := by
  cases l with
  | nil => trivial
  | cons q l =>
    refine ⟨hfirst q _ rfl h.1, h.2.congr fun p hp => hothers p (List.mem_cons_of_mem q hp) ?_⟩
    rintro hpq
    cases hpq
    exact (List.nodup_cons.mp hnodup).1 hp

/-- A new node before a whole list. -/
theorem Segment.push (h : Segment links none l none) (hnodup : l.Nodup)
    (hnew : links' p = some ⟨l.head?, none⟩)
    (hfirst : ∀ q a, l.head? = some q → links q = some a → links' q = some ⟨a.prev, some p⟩)
    (hothers : ∀ q ∈ l, l.head? ≠ some q → links' q = links q) : Segment links' none (p :: l) none :=
  ⟨by rw [hnew, Option.or_none], h.setBefore hnodup hfirst hothers⟩

/-- A node is taken out of a whole list, and its neighbours are linked. -/
theorem Segment.unlink (h : Segment links none (xs ++ p :: ys) none) (hnodup : (xs ++ p :: ys).Nodup)
    (hlast : ∀ q a, xs.getLast? = some q → links q = some a → links' q = some ⟨ys.head?, a.next⟩)
    (hfirst : ∀ q a, ys.head? = some q → links q = some a → links' q = some ⟨a.prev, xs.getLast?⟩)
    (hothers : ∀ q ∈ xs ++ ys, xs.getLast? ≠ some q → ys.head? ≠ some q → links' q = links q) :
    Segment links' none (xs ++ ys) none := by
  obtain ⟨hxs, -, hys⟩ := segment_append.mp h
  obtain ⟨hnodupx, hnodupy, hdisjoint⟩ := List.nodup_append.mp hnodup
  have hne {q r : α} (hq : q ∈ xs) (hr : r ∈ ys) : q ≠ r := hdisjoint q hq r (List.mem_cons_of_mem p hr)
  refine segment_append.mpr ⟨?_, ?_⟩
  · rw [Option.or_none]
    refine hxs.setBehind hnodupx hlast fun q hq hnot => hothers q (List.mem_append_left _ hq) hnot ?_
    exact fun hhead => hne hq (List.mem_of_mem_head? hhead) rfl
  · rw [Option.or_none]
    refine hys.setBefore (List.nodup_cons.mp hnodupy).2 hfirst fun q hq hnot =>
      hothers q (List.mem_append_right _ hq) ?_ hnot
    exact fun hlast => hne (List.mem_of_getLast? hlast) hq rfl

/-- The neighbours of a node of a whole list. -/
theorem Segment.links_eq (h : Segment links none (xs ++ p :: ys) none) :
    links p = some ⟨ys.head?, xs.getLast?⟩ := by
  have hp := (segment_append.mp h).2.1
  rwa [Option.or_none, Option.or_none] at hp

/-- `prev` visits the nodes in their order. -/
theorem Segment.visits (h : Segment links before l none) : Visits links l.head? l := by
  induction l generalizing before with
  | nil => exact .nil
  | cons p l ih =>
    refine .cons h.1 ?_
    rw [Option.or_none]
    exact ih h.2

/-- `next` is the inverse of `prev`. -/
theorem Segment.inverse (h : Segment links none l none) {a b : Links α} (hp : p ∈ l) (hq : q ∈ l)
    (ha : links p = some a) (hb : links q = some b) : a.prev = some q ↔ b.next = some p := by
  constructor
  · intro hprev
    obtain ⟨xs, ys, rfl⟩ := List.append_of_mem hp
    rw [h.links_eq] at ha
    cases ha
    obtain ⟨zs, rfl⟩ := List.head?_eq_some_iff.mp hprev
    rw [List.append_cons xs p (q :: zs)] at h
    rw [h.links_eq, List.getLast?_concat] at hb
    cases hb
    rfl
  · intro hnext
    obtain ⟨xs, ys, rfl⟩ := List.append_of_mem hq
    rw [h.links_eq] at hb
    cases hb
    obtain ⟨zs, rfl⟩ := List.getLast?_eq_some_iff.mp hnext
    rw [List.append_assoc, List.singleton_append] at h
    rw [h.links_eq] at ha
    cases ha
    rfl

end WindowsLibc.Lib
