import WindowsLibc.Acl.Counted

/-!
# The enumeration of an access control list (`wlibc_acl_get_entry`, `sys/acl/entry.c`)

A caller goes through a list with one variable: the first call puts the address of the first entry there, and
every further call is to replace an address by the next one, the last one by the null pointer.

The search for the address skips the first entry, and where it stops is what is stored. So the entry behind the
first one is never found, an entry between is followed by itself (`nextEntry_slot`), and a list without entries
has a first entry. Exactly a list of one entry is enumerated as it should be (`enumerates_iff`), while an entry
that is deleted is always gone from the list (`deletes`).
-/

namespace WindowsLibc.Acl

open WindowsLibc.Lib

/-! ## The function -/

/-- `ACL_FIRST_ENTRY` -/
def aclFirstEntry : Int := 0

/-- `ACL_NEXT_ENTRY` -/
def aclNextEntry : Int := 1

/-- `ACL_LAST_ENTRY` -/
def aclLastEntry : Int := 2

/-- The search of `wlibc_acl_get_entry`, with `left` entries from `i` on. A loop that is not entered leaves
`index` as it is. -/
def findFrom (entry i : Nat) : Nat → Option Nat
  | 0 => some 0
  | left + 1 =>
    if entry = slot i then some i
    else if left = 0 then none
    else findFrom entry (i + 1) left

/-- `ACL_NEXT_ENTRY`, from an entry that is not null. -/
def nextEntry (count : UInt16) (entry : Nat) : Except Errno (Option Nat) :=
  match findFrom entry 1 (count.toNat - 1) with
  | none => .error .ESRCH
  | some index => if index + 1 = count.toNat then .ok none else .ok (some (slot index))

/-- `wlibc_acl_get_entry`, with what it stores through `entry`. The address in front of the entries, for the
last one of none, is no pointer into the allocation. -/
def getEntry (acl : List UInt8) (entryId : Int) (entry : Option (Option Nat)) :
    Option (Except Errno (Option Nat)) :=
  match entry with
  | none => some (.error .EINVAL)
  | some entry =>
    if entryId ≠ aclFirstEntry ∧ entryId ≠ aclNextEntry ∧ entryId ≠ aclLastEntry then
      some (.error .EINVAL)
    else if entryId = aclFirstEntry then some (.ok (some (slot 0)))
    else if entryId = aclLastEntry then do
      let count ← aclCount acl
      if count = 0 then none else some (.ok (some (slot (count.toNat - 1))))
    else
      match entry with
      | none => some (.error .EINVAL)
      | some entry => (aclCount acl).map (fun count => nextEntry count entry)

/-- The caller's variable after a call: one that fails stores nothing. -/
def stored (entry : Option Nat) : Except Errno (Option Nat) → Option Nat
  | .ok entry' => entry'
  | .error _ => entry

/-- The calls of a caller with one variable. -/
def cursor (acl : List UInt8) : Machine (Option Nat) Int (Except Errno (Option Nat)) where
  step entry entryId := (getEntry acl entryId (some entry)).map (fun r => (stored entry r, r))

/-! ## What is wanted -/

/-- The entries in order, each one once, and then the null pointer. -/
def Enumerates (acl : List UInt8) : Prop :=
  ∃ count, aclCount acl = some count ∧ ∀ entry, ∃ entry',
    (cursor acl).run entry (aclFirstEntry :: List.replicate count.toNat aclNextEntry) =
      some (entry', (List.range count.toNat).map (fun i => .ok (some (slot i))) ++ [.ok none])

/-- An entry is deleted, and nothing else is. -/
def Deletes (acl : List UInt8) (k : Nat) (acl' : List UInt8) : Prop :=
  deleteEntry acl (some (slot k)) = some (acl', .ok ()) ∧
    ∃ es, entriesOf acl = some es ∧ entriesOf acl' = some (es.eraseIdx k)

/-! ## The search -/

theorem slot_inj {i j : Nat} : slot i = slot j ↔ i = j := by
  simp only [slot]
  omega

/-- An entry in front of the search is not found. -/
theorem findFrom_before {i j left : Nat} (h : i < j) (hleft : left ≠ 0) :
    findFrom (slot i) j left = none := by
  induction left generalizing j with
  | zero => exact absurd rfl hleft
  | succ left ih =>
    have hne : slot i ≠ slot j := fun heq => Nat.ne_of_lt h (slot_inj.mp heq)
    rw [findFrom, if_neg hne]
    by_cases hlast : left = 0
    · rw [if_pos hlast]
    · rw [if_neg hlast]
      exact ih (Nat.lt_succ_of_lt h) hlast

theorem findFrom_slot {i j left : Nat} (h : j ≤ i) (hlt : i < j + left) :
    findFrom (slot i) j left = some i := by
  induction left generalizing j with
  | zero => omega
  | succ left ih =>
    by_cases heq : i = j
    · rw [findFrom, if_pos (congrArg slot heq), heq]
    · rw [findFrom, if_neg (fun hslot => heq (slot_inj.mp hslot)), if_neg (by omega)]
      exact ih (by omega) (by omega)

/-- What follows an entry of a list: behind the only one and behind the last one there is nothing, the first one
is not found, and an entry between is followed by itself. -/
theorem nextEntry_slot {count : UInt16} {i : Nat} (hi : i < count.toNat) :
    nextEntry count (slot i) =
      if i + 1 = count.toNat then .ok none
      else if i = 0 then .error .ESRCH
      else .ok (some (slot i)) := by
  rw [nextEntry]
  by_cases hfirst : i = 0
  · subst hfirst
    by_cases hone : 0 + 1 = count.toNat
    · rw [← hone]
      rfl
    · rw [findFrom_before Nat.one_pos (by omega), if_neg hone, if_pos rfl]
  · rw [findFrom_slot (Nat.one_le_iff_ne_zero.mpr hfirst) (by omega), if_neg hfirst]

/-! ## Enumerations -/

theorem cursor_first (acl : List UInt8) (entry : Option Nat) :
    (cursor acl).step entry aclFirstEntry = some (some (slot 0), .ok (some (slot 0))) := rfl

theorem cursor_next {acl : List UInt8} {count : UInt16} (h : aclCount acl = some count) (entry : Nat) :
    (cursor acl).step (some entry) aclNextEntry =
      some (stored (some entry) (nextEntry count entry), nextEntry count entry) := by
  have hget : getEntry acl aclNextEntry (some (some entry)) = some (nextEntry count entry) := by
    simp only [getEntry, h, Option.map_some]
    rfl
  simp only [cursor, hget, Option.map_some]

/-- Only one entry is followed by nothing at once. -/
theorem enumerates_iff_count {acl : List UInt8} {count : UInt16} (h : aclCount acl = some count) :
    Enumerates acl ↔ count.toNat = 1 := by
  constructor
  · rintro ⟨count', hcount, hrun⟩
    cases h.symm.trans hcount
    obtain ⟨entry', hrun⟩ := hrun none
    rw [Machine.run_cons (cursor_first acl none)] at hrun
    obtain ⟨⟨entry₁, outs⟩, hnext, heq⟩ := Option.map_eq_some_iff.mp hrun
    rcases hn : count.toNat with _ | _ | n
    · -- the null pointer is expected at once
      rw [hn] at heq
      cases heq
    · rfl
    · -- the second entry is expected, and the first one is not found
      rw [hn, List.replicate_succ, Machine.run_cons (cursor_next h _),
        nextEntry_slot (by omega), if_neg (by omega), if_pos rfl] at hnext
      obtain ⟨⟨entry₂, outs'⟩, _, heq'⟩ := Option.map_eq_some_iff.mp hnext
      cases heq'
      rw [hn, List.range_succ_eq_map, List.range_succ_eq_map] at heq
      cases heq
  · intro hone
    refine ⟨count, h, fun entry => ⟨none, ?_⟩⟩
    rw [hone, List.replicate_one, Machine.run_cons (cursor_first acl entry),
      Machine.run_cons (cursor_next h _), nextEntry_slot (by omega), if_pos hone.symm]
    rfl

theorem length_of_entriesOf {acl : List UInt8} {es : List (List UInt8)} (h : entriesOf acl = some es) :
    ∃ count, aclCount acl = some count ∧ count.toNat = es.length := by
  obtain ⟨count, hcount, hrecords⟩ := Option.bind_eq_some_iff.mp h
  obtain ⟨_, _, hlength, _⟩ := records_parts hrecords
  exact ⟨count, hcount, hlength.symm⟩

theorem enumerates_iff_length {acl : List UInt8} {es : List (List UInt8)} (h : entriesOf acl = some es) :
    Enumerates acl ↔ es.length = 1 := by
  obtain ⟨count, hcount, hlength⟩ := length_of_entriesOf h
  rw [enumerates_iff_count hcount, hlength]

/-- An entry of a list can be deleted, whatever the header says of the size. -/
theorem deletes {acl : List UInt8} {es : List (List UInt8)} (h : entriesOf acl = some es) {k : Nat}
    (hk : k < es.length) : ∃ acl', Deletes acl k acl' := by
  have hes : es ≠ [] := List.ne_nil_of_length_pos (by omega)
  obtain ⟨c, rfl, rfl⟩ := exists_counted h hes
  exact ⟨_, Counted.deleteEntry_eq hk, _, c.entriesOf_eq, (c.erase k hk).entriesOf_eq⟩

theorem deletes_enumerates {acl : List UInt8} {es : List (List UInt8)} (h : entriesOf acl = some es) {k : Nat}
    (hk : k < es.length) : ∃ acl', Deletes acl k acl' ∧ (Enumerates acl' ↔ es.length = 2) := by
  obtain ⟨acl', hdelete, es', hes, hes'⟩ := deletes h hk
  cases h.symm.trans hes
  refine ⟨acl', ⟨hdelete, es, h, hes'⟩, ?_⟩
  rw [enumerates_iff_length hes', List.length_eraseIdx_of_lt hk]
  omega

/-- Whatever the number of entries, one that is deleted is gone and the others are left. An enumeration is right
exactly for one entry: from the beginning if there is one, and behind a deletion if there were two. So it is never
right both from the beginning and behind every deletion. -/
theorem enumerates_iff {acl : List UInt8} {es : List (List UInt8)} (h : entriesOf acl = some es) :
    (Enumerates acl ↔ es.length = 1) ∧
      (∀ k < es.length, ∃ acl', Deletes acl k acl' ∧ (Enumerates acl' ↔ es.length = 2)) ∧
      ¬ (Enumerates acl ∧ ∀ k < es.length, ∀ acl', Deletes acl k acl' → Enumerates acl') := by
  refine ⟨enumerates_iff_length h, fun k hk => deletes_enumerates h hk, ?_⟩
  rintro ⟨henumerates, hall⟩
  have hone := (enumerates_iff_length h).mp henumerates
  obtain ⟨acl', hdeletes, hiff⟩ := deletes_enumerates h (k := 0) (by omega)
  have htwo := hiff.mp (hall 0 (by omega) acl' hdeletes)
  omega

/-- Two empty entries, of which the first one is deleted. -/
def twoEntries : List UInt8 := [2, 0] ++ leBytes 2 160 ++ leBytes 2 2 ++ leBytes 2 0 ++ List.replicate 152 0

theorem entriesOf_twoEntries : entriesOf twoEntries = some (List.replicate 2 (List.replicate 76 0)) := by
  decide +kernel

theorem enumerates_twoEntries : ¬ Enumerates twoEntries ∧
    ∃ acl', Deletes twoEntries 0 acl' ∧ Enumerates acl' := by
  obtain ⟨henum, hdelete, -⟩ := enumerates_iff entriesOf_twoEntries
  obtain ⟨acl', hdeletes, hiff⟩ := hdelete 0 (by decide)
  exact ⟨fun h => absurd (henum.mp h) (by decide), acl', hdeletes, hiff.mpr rfl⟩

/-- The entry behind the first one of two is not found. -/
theorem not_enumerates : ∃ acl es, entriesOf acl = some es ∧ ¬ Enumerates acl :=
  ⟨_, _, entriesOf_twoEntries,
    fun h => absurd ((enumerates_iff_length entriesOf_twoEntries).mp h) (by decide)⟩

end WindowsLibc.Acl
