import Mathlib.Data.List.Perm.Basic
import Mathlib.Data.List.Nodup
import WindowsLibc.Lib.Machine

/-!
# The table of child processes (`spawn/internal.c`)

`_wlibc_process_table` is an array of `(handle, id)` slots with a size and a count of children. A
slot is free when its id is 0 (for `add_child`) or its handle is NULL (for `delete_child`), and the
occupied slots are meant to be the first `count` ones.

* `addChild`, `deleteChild`, `getProcessinfo` follow the C functions. An access to a slot outside
  the allocation is a fault, `none`.
* `Packed t kids` is the invariant: the slots are `kids`, then free slots.
* `Children` says what the table is for: the children added and not yet deleted.

`deleteChild` keeps the invariant only when the child it is given is in the table and not in the
table's last slot: it decrements the count even when it finds nothing, and its search for the last
child starts two slots after the deleted one.
-/

namespace WindowsLibc.Process

open WindowsLibc.Lib

/-! ## The model -/

/-- `processinfo`. -/
structure ProcessInfo where
  handle : UInt64
  id : UInt32
  deriving DecidableEq, Repr

/-- A free slot: `handle = NULL`, `id = 0`. -/
def ProcessInfo.free : ProcessInfo := ⟨0, 0⟩

/-- The globals of `spawn/internal.c`; `_wlibc_process_table_size` is the number of slots. -/
structure ProcessTable where
  table : List ProcessInfo
  /-- `_wlibc_child_process_count`, a `size_t`. -/
  count : UInt64
  deriving DecidableEq, Repr

/-- `process_init`: four zeroed slots. -/
def processInit : ProcessTable := ⟨List.replicate 4 .free, 0⟩

/-- `get_processinfo`: the first slot with that id, of all the slots. -/
def getProcessinfo (t : ProcessTable) (pid : UInt32) : ProcessInfo :=
  match t.table.find? (fun p => pid == p.id) with
  | some p => ⟨p.handle, p.id⟩
  | none => .free

/-- `add_child`. The table doubles when no slot has id 0; `realloc` says whether that allocation
succeeds. -/
def addChild (t : ProcessTable) (realloc : Bool) (id : UInt32) (child : UInt64) :
    ProcessTable × Int :=
  let i := t.table.findIdx (fun p => p.id == 0)
  if i = t.table.length then
    if realloc then
      (⟨t.table ++ ⟨child, id⟩ :: List.replicate (t.table.length - 1) .free, t.count + 1⟩, 0)
    else (t, -1)
  else (⟨t.table.set i ⟨child, id⟩, t.count + 1⟩, 0)

/-- The outer loop of `delete_child`, `count - i` steps from slot `i`: the first slot with that id.
Running past the slots of the table is a fault. -/
def findChild (id : UInt32) : List ProcessInfo → Nat → Nat → Option (Option Nat)
  | _, _, 0 => some none
  | [], _, _ + 1 => none
  | p :: ps, i, n + 1 => if id == p.id then some (some i) else findChild id ps (i + 1) n

/-- `for (j = i + 2; j < size; j++)` up to the first NULL handle: where `j` stops. -/
def searchFree (table : List ProcessInfo) (i : Nat) : Nat :=
  i + 2 + (table.drop (i + 2)).findIdx (fun p => p.handle == 0)

/-- Clear slot `i` and move slot `j - 1` there. The guard `j != i` always holds. -/
def vacate (table : List ProcessInfo) (i : Nat) : Option (List ProcessInfo) :=
  let table := table.set i .free
  let j := searchFree table i
  if j ≠ i then
    (table[j - 1]?).map (fun p => (table.set i p).set (j - 1) .free)
  else some table

/-- `delete_child`. -/
def deleteChild (t : ProcessTable) (id : UInt32) : Option ProcessTable :=
  match findChild id t.table 0 t.count.toNat with
  | none => none
  | some none => some ⟨t.table, t.count - 1⟩
  | some (some i) => (vacate t.table i).map (fun table => ⟨table, t.count - 1⟩)

/-- The calls that change the table. -/
inductive Call where
  | add (id : UInt32) (child : UInt64)
  | delete (id : UInt32)
  deriving DecidableEq, Repr

/-- The table under `add_child` (no allocation fails) and `delete_child`. -/
def tableMachine : Machine ProcessTable Call Unit where
  step t
    | .add id child => some ((addChild t true id child).1, ())
    | .delete id => (deleteChild t id).map (fun t' => (t', ()))

/-! ## What the table is for -/

/-- The children added and not yet deleted. -/
abbrev Children := List ProcessInfo

def Children.step (live : Children) : Call → Children
  | .add id child => ⟨child, id⟩ :: live
  | .delete id => live.filter (fun p => p.id ≠ id)

def Children.after (live : Children) (calls : List Call) : Children := calls.foldl Children.step live

/-- Every `add_child` brings a handle that is not NULL and an id that is neither 0 nor in use. -/
def Fresh : Children → List Call → Prop
  | _, [] => True
  | live, .add id child :: calls =>
    id ≠ 0 ∧ child ≠ 0 ∧ id ∉ live.map (·.id) ∧ Fresh (live.step (.add id child)) calls
  | live, .delete id :: calls => Fresh (live.step (.delete id)) calls

/-- The table holds exactly the children `live`: the occupied slots are the first `count` ones, the
pairs in them are `live` up to order, and a lookup finds exactly the children. -/
structure Holds (t : ProcessTable) (live : Children) : Prop where
  occupied : ∀ i (hi : i < t.table.length), t.table[i].id ≠ 0 ↔ i < t.count.toNat
  count_le : t.count.toNat ≤ t.table.length
  pairs : (t.table.take t.count.toNat).Perm live
  found : ∀ p ∈ live, getProcessinfo t p.id = p
  missing : ∀ pid, pid ∉ live.map (·.id) → getProcessinfo t pid = .free

/-- The calls, made on a table of the children `live`, do what the table is for: no access outside
the table, the right children after every call, and a deletion of an id that is not in the table
changes nothing. -/
def RunsTrue (t : ProcessTable) (live : Children) (calls : List Call) : Prop :=
  ∀ n, ∃ t' os, tableMachine.run t (calls.take n) = some (t', os) ∧
    Holds t' (live.after (calls.take n)) ∧
    ∀ id, calls[n]? = some (.delete id) → id ∉ (live.after (calls.take n)).map (·.id) →
      deleteChild t' id = some t'

/-- A deletion names a child in the table, and not in the table's last slot. -/
def Deletable (t : ProcessTable) : Call → Prop
  | .add _ _ => True
  | .delete id =>
    ∃ i, i + 1 < t.table.length ∧ i < t.count.toNat ∧ (t.table[i]?).map (·.id) = some id

/-! ## The invariant -/

/-- The slots are `kids` followed by free slots. -/
structure Packed (t : ProcessTable) (kids : List ProcessInfo) : Prop where
  table : ∃ m, t.table = kids ++ List.replicate m .free
  count : t.count.toNat = kids.length
  id_ne : ∀ p ∈ kids, p.id ≠ 0
  handle_ne : ∀ p ∈ kids, p.handle ≠ 0
  nodup : (kids.map (·.id)).Nodup
  size : 2 ≤ t.table.length

theorem packed_init : Packed processInit [] where
  table := ⟨4, rfl⟩
  count := rfl
  id_ne := by simp
  handle_ne := by simp
  nodup := List.nodup_nil
  size := by decide

variable {t : ProcessTable} {kids : List ProcessInfo}

/-- Ids are 32-bit and distinct, so the count never wraps upwards. -/
theorem Packed.length_le (h : Packed t kids) : kids.length ≤ 2 ^ 32 := by
  have hnodup : (kids.map (fun p => p.id.toNat)).Nodup := by
    have h' := h.nodup.map (f := UInt32.toNat) (fun _ _ => UInt32.toNat_inj.mp)
    rwa [List.map_map] at h'
  -- Distinct ids below `2 ^ 32`, so no more of them than numbers there.
  have hsub : kids.map (fun p => p.id.toNat) ⊆ List.range (2 ^ 32) := by
    intro n hn
    obtain ⟨p, _, rfl⟩ := List.mem_map.mp hn
    exact List.mem_range.mpr p.id.toNat_lt
  have hle := (List.subperm_of_subset hnodup hsub).length_le
  rwa [List.length_map, List.length_range] at hle

theorem find_free (pid : UInt32) (m : Nat) :
    ((List.replicate m ProcessInfo.free).find? (fun p => pid == p.id)).getD .free = .free := by
  cases m with
  | zero => rfl
  | succ m =>
    rw [List.replicate_succ, List.find?_cons]
    split
    · rfl
    · rw [List.find?_replicate]
      split <;> simp_all

theorem getProcessinfo_eq (t : ProcessTable) (pid : UInt32) :
    getProcessinfo t pid = (t.table.find? (fun p => pid == p.id)).getD .free := by
  rw [getProcessinfo]
  cases t.table.find? (fun p => pid == p.id) <;> rfl

/-- A packed table holds its children, whatever their order. -/
theorem Packed.holds (h : Packed t kids) {live : Children} (hp : kids.Perm live) :
    Holds t live := by
  obtain ⟨m, hm⟩ := h.table
  have hids := hp.map (·.id)
  constructor
  · intro i hi
    rw [h.count]
    by_cases hlt : i < kids.length
    · have hget : t.table[i] = kids[i] := by simp [hm, hlt]
      rw [hget]
      exact iff_of_true (h.id_ne _ (List.getElem_mem hlt)) hlt
    · have hget : t.table[i] = ProcessInfo.free := by
        simp [hm, List.getElem_append_right (Nat.le_of_not_lt hlt)]
      rw [hget]
      exact iff_of_false (fun hne => hne rfl) hlt
  · rw [h.count, hm, List.length_append]
    exact Nat.le_add_right _ _
  · rw [h.count, hm, List.take_left]
    exact hp
  · intro p hp'
    have hmem := hp.mem_iff.mpr hp'
    have hfind : kids.find? (fun q => p.id == q.id) = some p := by
      rw [List.find?_eq_some_iff_append]
      obtain ⟨as, bs, rfl⟩ := List.append_of_mem hmem
      refine ⟨by simp, as, bs, rfl, ?_⟩
      intro q hq
      have hnd := h.nodup
      rw [List.map_append, List.nodup_append] at hnd
      have hne := hnd.2.2 q.id (List.mem_map_of_mem hq) p.id (by simp)
      simpa using fun heq : p.id = q.id => hne heq.symm
    rw [getProcessinfo_eq, hm, List.find?_append, hfind]
    rfl
  · intro pid hpid
    have hfind : kids.find? (fun q => pid == q.id) = none := by
      rw [List.find?_eq_none]
      intro q hq heq
      apply hpid
      rw [beq_iff_eq.mp heq]
      exact hids.mem_iff.mp (List.mem_map_of_mem hq)
    rw [getProcessinfo_eq, hm, List.find?_append, hfind]
    exact find_free pid m

/-! ## Adding a child -/

/-- A search for a free slot stops right behind the children. -/
theorem findIdx_kids {f : ProcessInfo → Bool} (hkids : ∀ p ∈ kids, f p = false)
    (hfree : f .free = true) (m : Nat) :
    (kids ++ List.replicate m ProcessInfo.free).findIdx f = kids.length := by
  have hnone : kids.findIdx f = kids.length := List.findIdx_eq_length.mpr hkids
  rw [List.findIdx_append, hnone, if_neg (Nat.lt_irrefl _)]
  cases m with
  | zero => exact Nat.zero_add _
  | succ m => rw [List.replicate_succ, List.findIdx_cons, hfree, cond_true, Nat.zero_add]

/-- `add_child` puts the new child in the first free slot, which the doubled table always has. -/
theorem addChild_packed (h : Packed t kids) {p : ProcessInfo} (hid : p.id ≠ 0)
    (hhandle : p.handle ≠ 0) (hnew : p.id ∉ kids.map (·.id)) :
    Packed (addChild t true p.id p.handle).1 (kids ++ [p]) := by
  obtain ⟨m, hm⟩ := h.table
  have hlen := h.length_le
  have hsize := h.size
  have hcount : (t.count + 1).toNat = (kids ++ [p]).length := by
    rw [UInt64.toNat_add, h.count, List.length_append]
    exact Nat.mod_eq_of_lt (by simp; omega)
  have hids : ∀ q ∈ kids ++ [p], q.id ≠ 0 := by
    intro q hq
    rcases List.mem_append.mp hq with hq | hq
    · exact h.id_ne q hq
    · rw [List.mem_singleton.mp hq]; exact hid
  have hhandles : ∀ q ∈ kids ++ [p], q.handle ≠ 0 := by
    intro q hq
    rcases List.mem_append.mp hq with hq | hq
    · exact h.handle_ne q hq
    · rw [List.mem_singleton.mp hq]; exact hhandle
  have hnodup : ((kids ++ [p]).map (·.id)).Nodup := by
    rw [List.map_append, List.map_singleton]
    exact List.nodup_append.mpr ⟨h.nodup, List.nodup_singleton _, by
      intro a ha b hb heq
      rw [heq, List.mem_singleton.mp hb] at ha
      exact hnew ha⟩
  have hfirst : t.table.findIdx (fun p => p.id == 0) = kids.length := by
    rw [hm]
    exact findIdx_kids (fun q hq => by simpa using h.id_ne q hq) rfl m
  cases m with
  | zero =>
    -- No free slot: the table doubles and the child goes to the first new slot.
    rw [List.replicate_zero, List.append_nil] at hm
    have hadd : (addChild t true p.id p.handle).1 =
        ⟨kids ++ p :: List.replicate (kids.length - 1) .free, t.count + 1⟩ := by
      simp only [addChild, hfirst, if_true]
      rw [if_pos (congrArg List.length hm).symm, hm]
    rw [hadd]
    refine ⟨⟨kids.length - 1, by simp⟩, hcount, hids, hhandles, hnodup, ?_⟩
    rw [hm] at hsize
    simp only [List.length_append]
    omega
  | succ m =>
    have hadd : (addChild t true p.id p.handle).1 =
        ⟨kids ++ p :: List.replicate m .free, t.count + 1⟩ := by
      have hroom : kids.length ≠ t.table.length := by simp [hm]
      simp only [addChild, hfirst]
      rw [if_neg hroom, hm, List.set_append_right _ _ (Nat.le_refl _), Nat.sub_self,
        List.replicate_succ, List.set_cons_zero]
    rw [hadd]
    refine ⟨⟨m, by simp⟩, hcount, hids, hhandles, hnodup, ?_⟩
    rw [hm] at hsize
    simpa using hsize

/-! ## Deleting a child -/

theorem findChild_found {id : UInt32} {as bs : List ProcessInfo} {p : ProcessInfo} {i n : Nat}
    (has : id ∉ as.map (·.id)) (hp : p.id = id) (hn : as.length < n) :
    findChild id (as ++ p :: bs) i n = some (some (i + as.length)) := by
  induction as generalizing i n with
  | nil =>
    obtain ⟨n, rfl⟩ := Nat.exists_eq_succ_of_ne_zero (Nat.ne_of_gt hn)
    simp [findChild, hp]
  | cons a as ih =>
    obtain ⟨n, rfl⟩ := Nat.exists_eq_succ_of_ne_zero (Nat.ne_of_gt (Nat.zero_lt_of_lt hn))
    rw [List.map_cons, List.mem_cons, not_or] at has
    rw [List.length_cons] at hn
    rw [List.cons_append, findChild, if_neg (by simpa using has.1), ih has.2 (by omega),
      List.length_cons]
    congr 2
    omega

theorem findChild_missing {id : UInt32} {as bs : List ProcessInfo} {i : Nat}
    (has : id ∉ as.map (·.id)) : findChild id (as ++ bs) i as.length = some none := by
  induction as generalizing i with
  | nil => cases bs <;> rfl
  | cons a as ih =>
    rw [List.map_cons, List.mem_cons, not_or] at has
    rw [List.cons_append, List.length_cons, findChild, if_neg (by simpa using has.1)]
    exact ih has.2

/-- With slot `as.length` cleared, the search stops one slot after the last child, or two slots after
the cleared one when that was the last child. -/
theorem searchFree_packed {as bs : List ProcessInfo} {m : Nat} (hbs : ∀ q ∈ bs, q.handle ≠ 0) :
    searchFree (as ++ .free :: (bs ++ List.replicate m .free)) as.length =
      as.length + 2 + (bs.length - 1) := by
  have hfree : ∀ q ∈ bs, (q.handle == 0) = false := by
    intro q hq
    simpa using hbs q hq
  rw [searchFree, List.drop_length_add_append, List.drop_succ_cons]
  cases bs with
  | nil =>
    -- The cleared slot was the last child's, so slot `i + 2` is free or outside the table.
    rw [List.nil_append, List.drop_replicate]
    cases m - 1 <;> rfl
  | cons b bs =>
    rw [List.cons_append, List.drop_succ_cons, List.drop_zero,
      findIdx_kids (fun q hq => hfree q (List.mem_cons_of_mem _ hq)) rfl m]
    rfl

/-- Slot `j - 1` moves to the cleared slot. -/
theorem vacate_packed {as bs rest : List ProcessInfo} {p : ProcessInfo} {m : Nat}
    (hbs : ∀ q ∈ bs, q.handle ≠ 0) (hrest : rest = bs ++ List.replicate m .free) :
    vacate (as ++ p :: rest) as.length =
      (rest[bs.length - 1]?).map (fun q => as ++ q :: rest.set (bs.length - 1) .free) := by
  have hset : ∀ q, (as ++ p :: rest).set as.length q = as ++ q :: rest := by
    intro q
    rw [List.set_append_right _ _ (Nat.le_refl _), Nat.sub_self, List.set_cons_zero]
  have hj : searchFree (as ++ .free :: rest) as.length = as.length + 2 + (bs.length - 1) := by
    rw [hrest]
    exact searchFree_packed hbs
  have hpred : as.length + 2 + (bs.length - 1) - 1 = as.length + (bs.length - 1 + 1) := by omega
  have hget : (as ++ .free :: rest)[as.length + (bs.length - 1 + 1)]? = rest[bs.length - 1]? := by
    rw [List.getElem?_append_right (Nat.le_add_right _ _), Nat.add_sub_cancel_left,
      List.getElem?_cons_succ]
  simp only [vacate, hset, hj, hpred, hget]
  rw [if_pos (by omega)]
  congr 1
  funext q
  have hset' : (as ++ .free :: rest).set as.length q = as ++ q :: rest := by
    rw [← hset .free, List.set_set, hset]
  rw [hset', List.set_append_right _ _ (Nat.le_add_right _ _), Nat.add_sub_cancel_left,
    List.set_cons_succ]

/-- `delete_child` of the child between `as` and `bs`. -/
theorem deleteChild_packed {as bs : List ProcessInfo} {p : ProcessInfo} {m : Nat}
    (h : Packed t (as ++ p :: bs))
    (hm : t.table = (as ++ p :: bs) ++ List.replicate m .free) :
    deleteChild t p.id =
      ((bs ++ List.replicate m .free)[bs.length - 1]?).map (fun q =>
        ⟨as ++ q :: (bs ++ List.replicate m ProcessInfo.free).set (bs.length - 1) .free,
          t.count - 1⟩) := by
  have hnodup := h.nodup
  rw [List.map_append, List.map_cons, List.nodup_append] at hnodup
  have has : p.id ∉ as.map (·.id) := by
    intro hin
    exact hnodup.2.2 p.id hin p.id List.mem_cons_self rfl
  have hbs : ∀ q ∈ bs, q.handle ≠ 0 := by
    intro q hq
    apply h.handle_ne
    exact List.mem_append_right _ (List.mem_cons_of_mem _ hq)
  rw [List.append_assoc, List.cons_append] at hm
  have hfind : findChild p.id t.table 0 t.count.toNat = some (some as.length) := by
    rw [hm, findChild_found has rfl, Nat.zero_add]
    rw [h.count, List.length_append, List.length_cons]
    omega
  simp only [deleteChild, hfind]
  rw [hm, vacate_packed hbs rfl, Option.map_map]
  rfl

theorem deleteChild_missing (h : Packed t kids) {id : UInt32} (hid : id ∉ kids.map (·.id)) :
    deleteChild t id = some ⟨t.table, t.count - 1⟩ := by
  obtain ⟨m, hm⟩ := h.table
  have hfind : findChild id t.table 0 t.count.toNat = some none := by
    rw [h.count, hm]
    exact findChild_missing hid
  simp only [deleteChild, hfind]

/-- A full table whose last child is deleted: slot `size` is read. -/
theorem deleteChild_fault {as : List ProcessInfo} {p : ProcessInfo} (h : Packed t (as ++ [p]))
    (hfull : t.table.length = as.length + 1) : deleteChild t p.id = none := by
  obtain ⟨m, hm⟩ := h.table
  have hm0 : m = 0 := by
    rw [hm] at hfull
    simp only [List.length_append, List.length_singleton, List.length_replicate] at hfull
    omega
  rw [deleteChild_packed h hm, hm0]
  rfl

/-- Without one child, and with one more free slot. -/
theorem Packed.without {as bs kids' : List ProcessInfo} {p : ProcessInfo} {m : Nat}
    (h : Packed t (as ++ p :: bs)) (hm : t.table = (as ++ p :: bs) ++ List.replicate m .free)
    (hperm : kids'.Perm (as ++ bs)) :
    Packed ⟨kids' ++ List.replicate (m + 1) .free, t.count - 1⟩ kids' := by
  have hsub : (as ++ bs).Sublist (as ++ p :: bs) := (List.sublist_cons_self p bs).append_left as
  have hmem : ∀ q ∈ kids', q ∈ as ++ p :: bs := fun q hq => hsub.subset (hperm.subset hq)
  have hcount := h.count
  have hsize := h.size
  rw [List.length_append, List.length_cons] at hcount
  rw [hm] at hsize
  simp only [List.length_append, List.length_cons, List.length_replicate] at hsize
  refine ⟨⟨m + 1, rfl⟩, ?_, fun q hq => h.id_ne q (hmem q hq),
    fun q hq => h.handle_ne q (hmem q hq), ?_, ?_⟩
  · have hle : (1 : UInt64) ≤ t.count := by
      rw [UInt64.le_iff_toNat_le, hcount]
      exact Nat.le_add_left 1 (as.length + bs.length)
    rw [UInt64.toNat_sub_of_le _ _ hle, hcount, hperm.length_eq, List.length_append]
    rfl
  · exact (hperm.map _).nodup_iff.mpr ((hsub.map _).nodup h.nodup)
  · rw [List.length_append, hperm.length_eq, List.length_append, List.length_replicate]
    omega

/-- Any other child: the table stays packed, without that child. -/
theorem deleteChild_kept {as bs : List ProcessInfo} {p : ProcessInfo}
    (h : Packed t (as ++ p :: bs)) (hroom : as.length + 1 < t.table.length) :
    ∃ t' kids', deleteChild t p.id = some t' ∧ Packed t' kids' ∧ kids'.Perm (as ++ bs) := by
  obtain ⟨m, hm⟩ := h.table
  have hdel := deleteChild_packed h hm
  rcases List.eq_nil_or_concat bs with rfl | ⟨cs, q, rfl⟩
  · -- The last child: the slot behind it is free and takes its place.
    obtain ⟨k, rfl⟩ : ∃ k, m = k + 1 := by
      rw [hm] at hroom
      simp only [List.length_append, List.length_singleton, List.length_replicate] at hroom
      exact ⟨m - 1, by omega⟩
    exact ⟨_, as, hdel, h.without hm (by rw [List.append_nil]), by rw [List.append_nil]⟩
  · -- The last child, `q`, takes its place.
    rw [List.concat_eq_append] at *
    have hlast : ((cs ++ [q]) ++ List.replicate m ProcessInfo.free)[(cs ++ [q]).length - 1]? =
        some q := by simp
    have hset : ((cs ++ [q]) ++ List.replicate m ProcessInfo.free).set ((cs ++ [q]).length - 1)
        .free = cs ++ List.replicate (m + 1) .free := by simp [List.replicate_succ]
    have hperm : (as ++ q :: cs).Perm (as ++ (cs ++ [q])) :=
      (List.perm_append_singleton q cs).symm.append_left as
    rw [hlast, hset, Option.map_some, ← List.cons_append, ← List.append_assoc] at hdel
    exact ⟨_, as ++ q :: cs, hdel, h.without hm hperm, hperm⟩

/-! ## Steps and runs -/

/-- The table holds the children `live` in its first slots, in some order. -/
def Keeps (t : ProcessTable) (live : Children) : Prop := ∃ kids, Packed t kids ∧ kids.Perm live

theorem Keeps.holds {live : Children} (h : Keeps t live) : Holds t live := by
  obtain ⟨kids, hp, hperm⟩ := h
  exact hp.holds hperm

theorem Keeps.add {live : Children} (h : Keeps t live) {id : UInt32} {child : UInt64}
    (hid : id ≠ 0) (hchild : child ≠ 0) (hnew : id ∉ live.map (·.id)) :
    Keeps (addChild t true id child).1 (live.step (.add id child)) := by
  obtain ⟨kids, hp, hperm⟩ := h
  have hnew' : id ∉ kids.map (·.id) := by
    rwa [(hperm.map _).mem_iff]
  refine ⟨kids ++ [⟨child, id⟩], ?_, ?_⟩
  · exact addChild_packed (p := ⟨child, id⟩) hp hid hchild hnew'
  · exact (List.perm_append_singleton _ kids).trans (hperm.cons _)

/-- Deleting by id takes out one child. -/
theorem filter_id {as bs : List ProcessInfo} {p : ProcessInfo}
    (hnodup : ((as ++ p :: bs).map (·.id)).Nodup) :
    (as ++ p :: bs).filter (fun q => q.id ≠ p.id) = as ++ bs := by
  rw [List.map_append, List.map_cons, List.nodup_append, List.nodup_cons] at hnodup
  have has : as.filter (fun q => q.id ≠ p.id) = as := by
    rw [List.filter_eq_self]
    intro q hq
    simpa using hnodup.2.2 q.id (List.mem_map_of_mem hq) p.id List.mem_cons_self
  have hbs : bs.filter (fun q => q.id ≠ p.id) = bs := by
    rw [List.filter_eq_self]
    intro q hq
    simp only [decide_eq_true_eq]
    intro heq
    exact hnodup.2.1.1 (heq ▸ List.mem_map_of_mem hq)
  rw [List.filter_append, has, List.filter_cons_of_neg (by simp), hbs]

/-- A deletion finds its child among the children. -/
theorem Packed.deletable (h : Packed t kids) {id : UInt32} (hdel : Deletable t (.delete id)) :
    ∃ (i : Nat) (hi : i < kids.length), i + 1 < t.table.length ∧ kids[i].id = id := by
  obtain ⟨m, hm⟩ := h.table
  obtain ⟨i, hroom, hi, hslot⟩ := hdel
  rw [h.count] at hi
  rw [hm, List.getElem?_append_left hi, List.getElem?_eq_getElem hi, Option.map_some] at hslot
  exact ⟨i, hi, hroom, Option.some.inj hslot⟩

theorem Keeps.deletable_mem {live : Children} (h : Keeps t live) {id : UInt32}
    (hdel : Deletable t (.delete id)) : id ∈ live.map (·.id) := by
  obtain ⟨kids, hp, hperm⟩ := h
  obtain ⟨i, hi, _, rfl⟩ := hp.deletable hdel
  exact (hperm.map _).subset (List.mem_map_of_mem (List.getElem_mem hi))

theorem Keeps.delete {live : Children} (h : Keeps t live) {id : UInt32}
    (hdel : Deletable t (.delete id)) :
    ∃ t', deleteChild t id = some t' ∧ Keeps t' (live.step (.delete id)) := by
  obtain ⟨kids, hp, hperm⟩ := h
  obtain ⟨i, hi, hroom, hid⟩ := hp.deletable hdel
  have hsplit : kids = kids.take i ++ kids[i] :: kids.drop (i + 1) := by simp
  have hlen : (kids.take i).length = i := by simp; omega
  rw [hsplit] at hp
  obtain ⟨t', kids', hstep, hp', hperm'⟩ := deleteChild_kept hp (by rw [hlen]; exact hroom)
  refine ⟨t', hid ▸ hstep, kids', hp', ?_⟩
  have hleft := filter_id hp.nodup
  rw [← hsplit, hid] at hleft
  rw [← hleft] at hperm'
  exact hperm'.trans (hperm.filter _)

theorem step_delete_missing {live : Children} {id : UInt32} (hid : id ∉ live.map (·.id)) :
    live.step (.delete id) = live := by
  apply List.filter_eq_self.mpr
  intro p hp
  simp only [decide_eq_true_eq]
  intro heq
  exact hid (heq ▸ List.mem_map_of_mem hp)

/-- Every other deletion faults or leaves a wrong count behind. -/
theorem Keeps.delete_fails {live : Children} (h : Keeps t live) {id : UInt32}
    (hdel : ¬ Deletable t (.delete id)) {t' : ProcessTable} (hstep : deleteChild t id = some t') :
    ¬ Holds t' (live.step (.delete id)) := by
  intro hholds
  obtain ⟨kids, hp, hperm⟩ := h
  obtain ⟨m, hm⟩ := hp.table
  by_cases hid : id ∈ kids.map (·.id)
  · -- A child that is not deletable is in the last slot, and nothing is behind it: a fault.
    obtain ⟨p, hpin, rfl⟩ := List.mem_map.mp hid
    obtain ⟨as, bs, rfl⟩ := List.append_of_mem hpin
    have hcount := hp.count
    have hlen := congrArg List.length hm
    simp only [List.length_append, List.length_cons, List.length_replicate] at hlen hcount
    have hslot : (t.table[as.length]?).map (·.id) = some p.id := by
      rw [hm, List.append_assoc, List.getElem?_append_right (Nat.le_refl _), Nat.sub_self]
      rfl
    have hfull : t.table.length = as.length + 1 := by
      by_contra hne
      exact hdel ⟨as.length, by omega, by omega, hslot⟩
    have hbs : bs = [] := List.eq_nil_of_length_eq_zero (by omega)
    subst hbs
    rw [deleteChild_fault hp hfull] at hstep
    cases hstep
  · -- Nothing is deleted but the count goes down, so it no longer counts the children.
    have hid' : id ∉ live.map (·.id) := by
      rwa [← (hperm.map _).mem_iff]
    rw [step_delete_missing hid'] at hholds
    rw [deleteChild_missing hp hid] at hstep
    cases hstep
    have hle := hholds.count_le
    have hlen := hholds.pairs.length_eq
    rw [List.length_take, Nat.min_eq_left hle, ← hperm.length_eq, ← hp.count,
      UInt64.toNat_sub] at hlen
    have hlt := t.count.toNat_lt
    change (2 ^ 64 - 1 + t.count.toNat) % 2 ^ 64 = t.count.toNat at hlen
    omega

theorem runsTrue_nil {live : Children} (h : Keeps t live) : RunsTrue t live [] := by
  intro n
  rw [List.take_nil]
  refine ⟨t, [], rfl, h.holds, ?_⟩
  intro id hcall
  rw [List.getElem?_nil] at hcall
  cases hcall

/-- A step that is right in front of a run that is right. -/
theorem RunsTrue.cons {live : Children} (h : Keeps t live) {c : Call} {calls : List Call}
    (hmissing : ∀ id, c = .delete id → id ∉ live.map (·.id) → deleteChild t id = some t)
    {t' : ProcessTable} (hstep : tableMachine.step t c = some (t', ()))
    (hrest : RunsTrue t' (live.step c) calls) : RunsTrue t live (c :: calls) := by
  intro n
  cases n with
  | zero =>
    refine ⟨t, [], rfl, h.holds, ?_⟩
    intro id hcall hid
    exact hmissing id (Option.some.inj hcall) hid
  | succ n =>
    obtain ⟨t'', os, hrun, hholds, hnext⟩ := hrest n
    refine ⟨t'', () :: os, ?_, hholds, ?_⟩
    · rw [List.take_succ_cons, Machine.run_cons hstep, hrun]
      rfl
    · intro id hcall hid
      rw [List.getElem?_cons_succ] at hcall
      exact hnext id hcall hid

/-- The first step of a run that is right is right, and so is the rest. -/
theorem RunsTrue.step {live : Children} {c : Call} {calls : List Call}
    (h : RunsTrue t live (c :: calls)) :
    ∃ t', tableMachine.step t c = some (t', ()) ∧ Holds t' (live.step c) ∧
      RunsTrue t' (live.step c) calls := by
  cases hstep : tableMachine.step t c with
  | none =>
    obtain ⟨t', os, hrun, _⟩ := h 1
    simp [Machine.run, hstep] at hrun
  | some r =>
    obtain ⟨t₁, u⟩ := r
    have hfrom : RunsTrue t₁ (live.step c) calls := by
      intro n
      obtain ⟨t', os, hrun, hholds, hnext⟩ := h (n + 1)
      rw [List.take_succ_cons, Machine.run_cons hstep] at hrun
      obtain ⟨⟨t'', os'⟩, hrun', heq⟩ := Option.map_eq_some_iff.mp hrun
      cases heq
      refine ⟨t'', os', hrun', hholds, ?_⟩
      intro id hcall hid
      exact hnext id (by rwa [List.getElem?_cons_succ]) hid
    obtain ⟨t', os, hrun, hholds, _⟩ := hfrom 0
    cases hrun
    exact ⟨t₁, rfl, hholds, hfrom⟩

theorem runsTrue_iff_along (calls : List Call) {live : Children} (h : Keeps t live)
    (hfresh : Fresh live calls) :
    RunsTrue t live calls ↔ tableMachine.Along Deletable t calls := by
  -- On the calls: a table that keeps its children keeps them over a call exactly when that call is
  -- deletable, so each side speaks of the first call and of the rest.
  induction calls generalizing t live with
  | nil => exact iff_of_true (runsTrue_nil h) trivial
  | cons c calls ih =>
    cases c with
    | add id child =>
      obtain ⟨hid, hchild, hnew, hfresh'⟩ := hfresh
      have hkeeps := h.add hid hchild hnew
      have hiff := ih hkeeps hfresh'
      constructor
      · intro hrun
        refine ⟨trivial, ?_⟩
        intro t' o hstep
        obtain ⟨t'', hstep', _, hrest⟩ := hrun.step
        cases hstep
        cases hstep'
        exact hiff.mp hrest
      · intro halong
        apply RunsTrue.cons h (fun id' hc => by cases hc) rfl
        exact hiff.mpr (halong.2 _ () rfl)
    | delete id =>
      constructor
      · intro hrun
        obtain ⟨t', hstep, hholds, hrest⟩ := hrun.step
        obtain ⟨t₁, hdel, heq⟩ := Option.map_eq_some_iff.mp hstep
        cases heq
        have hsafe : Deletable t (.delete id) := by
          by_contra hnot
          exact h.delete_fails hnot hdel hholds
        refine ⟨hsafe, ?_⟩
        intro t'' o hstep'
        rw [hstep] at hstep'
        cases hstep'
        obtain ⟨t₂, hdel', hkeeps⟩ := h.delete hsafe
        rw [hdel] at hdel'
        cases hdel'
        exact (ih hkeeps hfresh).mp hrest
      · intro halong
        obtain ⟨t', hdel, hkeeps⟩ := h.delete halong.1
        have hstep : tableMachine.step t (.delete id) = some (t', ()) := by
          simp only [tableMachine, hdel, Option.map_some]
        apply RunsTrue.cons h _ hstep
        · exact (ih hkeeps hfresh).mpr (halong.2 t' () hstep)
        · intro id' hc hid
          cases hc
          exact absurd (h.deletable_mem halong.1) hid

/-- **The children table is right exactly as long as every deletion names a child in the table that
is not in its last slot.** -/
theorem runsTrue_iff (calls : List Call) (hfresh : Fresh [] calls) :
    RunsTrue processInit [] calls ↔ tableMachine.Along Deletable processInit calls :=
  runsTrue_iff_along calls ⟨[], packed_init, .refl _⟩ hfresh

/-- Two children, the first of them deleted. -/
theorem twoChildren_runsTrue :
    Fresh [] [.add 7 100, .add 8 104, .delete 7] ∧
      RunsTrue processInit [] [.add 7 100, .add 8 104, .delete 7] := by
  have hfresh : Fresh [] [.add 7 100, .add 8 104, .delete 7] := by
    simp [Fresh, Children.step]
  refine ⟨hfresh, (runsTrue_iff _ hfresh).mpr ⟨trivial, ?_⟩⟩
  rintro t o ⟨⟩
  refine ⟨trivial, ?_⟩
  rintro t o ⟨⟩
  exact ⟨⟨0, by decide, by decide, by decide⟩, fun _ _ _ => trivial⟩

/-- Deleting an id that is not in the table makes the count wrong; deleting the last child of a full
table reaches past its slots. -/
theorem oneChild_miscounted :
    (Fresh [] [.add 7 100, .delete 9] ∧ ¬ RunsTrue processInit [] [.add 7 100, .delete 9]) ∧
      Fresh [] [.add 1 100, .add 2 104, .add 3 108, .add 4 112, .delete 4] ∧
      ¬ RunsTrue processInit [] [.add 1 100, .add 2 104, .add 3 108, .add 4 112, .delete 4] := by
  refine ⟨⟨by simp [Fresh], ?_⟩, by simp [Fresh, Children.step], ?_⟩
  · intro h
    obtain ⟨t, os, hrun, hholds, _⟩ := h 2
    have hcount : (tableMachine.run processInit [.add 7 100, .delete 9]).map (·.1.count) =
        some 0 := by decide
    have hlen := hholds.pairs.length_eq
    rw [show List.take 2 [Call.add 7 100, .delete 9] = [.add 7 100, .delete 9] from rfl] at hrun
    rw [hrun, Option.map_some] at hcount
    rw [Option.some.inj hcount, UInt64.toNat_zero, List.take_zero] at hlen
    revert hlen
    decide
  · intro h
    obtain ⟨t, os, hrun, _⟩ := h 5
    have hfault : tableMachine.run processInit
        [.add 1 100, .add 2 104, .add 3 108, .add 4 112, .delete 4] = none := by decide
    cases hfault.symm.trans hrun

end WindowsLibc.Process
