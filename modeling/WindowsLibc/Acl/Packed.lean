import WindowsLibc.Acl.Counted

/-!
# Access control lists whose entries fit

`Packed` is a list of entries with the free space behind it, of which the header tells the truth:
there is no `Packed` whose entries do not fit in the recorded size. `Packed.bytes` is its allocation,
and each function of `sys/acl/entry.c` that finds room does to the allocation what `append`, `grow`,
`erase` and `set` do to the list.
-/

namespace WindowsLibc.Acl

open WindowsLibc.Lib

/-! ## Packed lists -/

/-- Entries and free space under a header that tells how much there is of them. -/
structure Packed where
  header : Header
  entries : List (List UInt8)
  free : List UInt8
  width : ∀ e ∈ entries, e.length = 76
  count_eq : header.count.toNat = entries.length
  size_eq : header.size.toNat = slot entries.length + free.length

namespace Packed

variable (p : Packed)

def bytes : List UInt8 := p.header.bytes ++ (p.entries.flatten ++ p.free)

/-- The entries, without what is known of the size. -/
def counted : Counted := ⟨p.header, p.entries, p.free, p.width, p.count_eq⟩

theorem length_flatten : p.entries.flatten.length = 76 * p.entries.length := p.counted.length_flatten

theorem length_bytes : p.bytes.length = p.header.size.toNat := by
  rw [bytes, List.length_append, List.length_append, p.length_flatten, Header.length_bytes, p.size_eq, slot]
  omega

theorem aclSize_eq : aclSize p.bytes = some p.header.size := p.header.aclSize_eq _

theorem aclCount_eq : aclCount p.bytes = some p.header.count := p.counted.aclCount_eq

theorem entriesOf_eq : entriesOf p.bytes = some p.entries := p.counted.entriesOf_eq

theorem slot_le : slot p.entries.length ≤ p.header.size.toNat := by
  rw [p.size_eq]
  omega

/-- The number of entries can be counted, and so can one more. -/
theorem length_lt : p.entries.length < 863 := by
  have hle := p.slot_le
  have hlt := p.header.size.toNat_lt
  simp only [slot] at hle
  omega

theorem used_eq : (usedSize p.header.count).toNat = slot p.entries.length := by
  have hlt := p.length_lt
  rw [usedSize, UInt16.toNat_ofNat', p.count_eq, slot]
  omega

theorem needsSpace_iff : NeedsSpace p.header.size (usedSize p.header.count) ↔ p.free.length < 76 := by
  have hsize := p.size_eq
  have hlt := p.header.size.toNat_lt
  rw [NeedsSpace, p.used_eq]
  omega

/-! ### The operations -/

/-- `entry->size = sizeof(struct _wlibc_acl_entry_t)` -/
def sized (entry : List UInt8) : List UInt8 := entry.take 2 ++ leBytes 2 76 ++ entry.drop 4

theorem length_sized {entry : List UInt8} (h : entry.length = 76) : (sized entry).length = 76 := by
  rw [sized]
  simp only [List.length_append, length_leBytes, List.length_take, List.length_drop]
  omega

theorem width_append (entry : List UInt8) (h : entry.length = 76) :
    ∀ e ∈ p.entries ++ [sized entry], e.length = 76 := by
  intro e he
  rcases List.mem_append.mp he with he | he
  · exact p.width e he
  · rw [List.mem_singleton.mp he, length_sized h]

theorem count_append (entry : List UInt8) :
    (p.header.count + 1).toNat = (p.entries ++ [entry]).length := by
  have hlt := p.length_lt
  rw [UInt16.toNat_add, p.count_eq, List.length_append, List.length_singleton]
  exact Nat.mod_eq_of_lt (by simp only [UInt16.toNat_one]; omega)

theorem size_append (entry : List UInt8) (h : 76 ≤ p.free.length) :
    p.header.size.toNat = slot (p.entries ++ [entry]).length + (p.free.drop 76).length := by
  have hsize := p.size_eq
  simp only [List.length_append, List.length_singleton, List.length_drop, slot] at hsize ⊢
  omega

/-- The first of the free space becomes an entry. -/
def append (h : 76 ≤ p.free.length) : Packed where
  header := { p.header with count := p.header.count + 1 }
  entries := p.entries ++ [sized (p.free.take 76)]
  free := p.free.drop 76
  width := p.width_append _ (List.length_take_of_le h)
  count_eq := p.count_append _
  size_eq := p.size_append _ h

/-- More free space. -/
def grow (size : UInt16) (h : p.header.size.toNat ≤ size.toNat) : Packed where
  header := { p.header with size := size }
  entries := p.entries
  free := p.free ++ List.replicate (size.toNat - p.header.size.toNat) 0
  width := p.width
  count_eq := p.count_eq
  size_eq := by
    have hsize := p.size_eq
    change size.toNat = _
    rw [List.length_append, List.length_replicate]
    omega

theorem width_erase (k : Nat) {e : List UInt8} (he : e ∈ p.entries.eraseIdx k) : e.length = 76 :=
  p.width e (List.mem_of_mem_eraseIdx he)

theorem size_erase (k : Nat) (hk : k < p.entries.length) :
    p.header.size.toNat = slot (p.entries.eraseIdx k).length + (List.replicate 76 0 ++ p.free).length := by
  have hsize := p.size_eq
  rw [List.length_eraseIdx_of_lt hk, List.length_append, List.length_replicate]
  simp only [slot] at hsize ⊢
  omega

/-- An entry is erased, and its space becomes free. -/
def erase (k : Nat) (hk : k < p.entries.length) : Packed where
  header := { p.header with count := p.header.count - 1 }
  entries := p.entries.eraseIdx k
  free := List.replicate 76 0 ++ p.free
  width := fun _ he => p.width_erase k he
  count_eq := (p.counted.erase k hk).count_eq
  size_eq := p.size_erase k hk

/-- An entry is filled. -/
def set (k : Nat) (source : List.Vector UInt8 76) : Packed where
  header := p.header
  entries := p.entries.set k source.toList
  free := p.free
  width := by
    intro e he
    rcases List.mem_or_eq_of_mem_set he with he | rfl
    · exact p.width e he
    · exact source.toList_length
  count_eq := by rw [p.count_eq, List.length_set]
  size_eq := by rw [p.size_eq, List.length_set]

/-! ### The functions on packed lists -/

variable {p}

theorem poke_sized {free : List UInt8} (h : 76 ≤ free.length) :
    poke free 2 (leBytes 2 76) = some (sized (free.take 76) ++ free.drop 76) := by
  have hhead : (free.take 76).take 2 = free.take 2 := by rw [List.take_take]; rfl
  have htail : (free.take 76).drop 4 ++ free.drop 76 = free.drop 4 := by
    rw [List.drop_take, show free.drop 76 = (free.drop 4).drop 72 by rw [List.drop_drop]]
    exact List.take_append_drop 72 _
  rw [poke, if_pos (by rw [length_leBytes]; omega), overwrite_of_le (by omega), length_leBytes, sized, hhead,
    List.append_assoc, List.append_assoc, htail, List.append_assoc]

theorem countEntry_eq (h : 76 ≤ p.free.length) :
    countEntry p.bytes (slot p.entries.length) = some (p.append h).bytes := by
  have hoff : slot p.entries.length + 2 = 8 + (p.entries.flatten.length + 2) := by
    rw [p.length_flatten, slot, Nat.add_assoc]
  have hstore : store16 p.bytes (slot p.entries.length + 2) 76 =
      some (p.header.bytes ++ (p.entries.flatten ++ (sized (p.free.take 76) ++ p.free.drop 76))) := by
    rw [hoff, store16, bytes, Header.poke_behind, poke_front, show (76 : UInt16).toNat = 76 from rfl,
      poke_sized h]
    rfl
  rw [countEntry, hstore, Option.bind_eq_bind, Option.bind_some, Header.aclCount_eq, Option.bind_eq_bind,
    Option.bind_some, Header.store_count]
  simp only [bytes, append, List.flatten_append, List.flatten_singleton, List.append_assoc]

theorem createEntry_of_space (h : 76 ≤ p.free.length) :
    createEntry p.bytes true = some ((p.append h).bytes, .ok (slot p.entries.length)) := by
  have hspace : ¬ NeedsSpace p.header.size (usedSize p.header.count) := by
    rw [p.needsSpace_iff]
    omega
  simp only [createEntry, p.aclSize_eq, p.aclCount_eq, Option.bind_eq_bind, Option.bind_some, if_neg hspace,
    p.used_eq, countEntry_eq h, Bool.not_true, Bool.false_eq_true, if_false]

theorem allocateMore_eq (h : p.header.size.toNat ≤ (allocatedSize p.header.count).toNat) :
    allocateMore p.bytes p.header.count = some (p.grow _ h).bytes := by
  have hcut : p.bytes.take (allocatedSize p.header.count).toNat = p.bytes :=
    List.take_of_length_le (p.length_bytes.trans_le h)
  rw [allocateMore, reallocateZeroed, hcut, p.length_bytes, bytes, List.append_assoc, Header.store_size]
  simp only [bytes, grow, List.append_assoc]

/-- Twice the entries leave space for one more. -/
theorem createEntry_of_grow (hspace : p.free.length < 76) (hcount : 2 ≤ p.entries.length)
    (hsize : 152 * p.entries.length < 65536) :
    ∃ (h : p.header.size.toNat ≤ (allocatedSize p.header.count).toNat)
      (hfree : 76 ≤ (p.grow _ h).free.length),
      createEntry p.bytes true =
        some (((p.grow _ h).append hfree).bytes, .ok (slot p.entries.length)) := by
  have hallocated : (allocatedSize p.header.count).toNat = 152 * p.entries.length := by
    rw [allocatedSize, UInt16.toNat_ofNat', p.count_eq]
    omega
  have hold := p.size_eq
  have h : p.header.size.toNat ≤ (allocatedSize p.header.count).toNat := by
    rw [hallocated, hold, slot]
    omega
  have hfree : 76 ≤ (p.grow _ h).free.length := by
    rw [grow, List.length_append, List.length_replicate, hallocated, hold, slot]
    omega
  refine ⟨h, hfree, ?_⟩
  have hcounted := countEntry_eq (p := p.grow _ h) hfree
  simp only [createEntry, p.aclSize_eq, p.aclCount_eq, Option.bind_eq_bind, Option.bind_some,
    if_pos (p.needsSpace_iff.mpr hspace), allocateMore_eq h, p.used_eq, Bool.not_true, Bool.false_eq_true,
    if_false]
  rw [show slot p.entries.length = slot (p.grow _ h).entries.length from rfl, hcounted]
  rfl

theorem deleteEntry_eq {k : Nat} (hk : k < p.entries.length) :
    deleteEntry p.bytes (some (slot k)) = some ((p.erase k hk).bytes, .ok ()) :=
  Counted.deleteEntry_eq (c := p.counted) hk

theorem deleteEntry_of_none {entry : Nat} (h : findEntry p.header.count entry = none) :
    deleteEntry p.bytes (some entry) = some (p.bytes, .error .ESRCH) :=
  Counted.deleteEntry_of_none (c := p.counted) h

theorem copyEntry_eq {k : Nat} (hk : k < p.entries.length) (source : List.Vector UInt8 76) :
    copyEntry p.bytes (some (slot k)) (some source) = some ((p.set k source).bytes, .ok ()) := by
  have hlong : source.toList.length ≤ (p.entries[k] ++ (p.entries.drop (k + 1)).flatten).length := by
    rw [source.toList_length, List.length_append, p.width _ (List.getElem_mem hk)]
    omega
  have hdrop : (p.entries[k] ++ (p.entries.drop (k + 1)).flatten).drop source.toList.length =
      (p.entries.drop (k + 1)).flatten := by
    rw [source.toList_length, ← p.width _ (List.getElem_mem hk)]
    exact List.drop_left
  have haround : p.bytes = p.header.bytes ++ ((p.entries.take k).flatten ++
      (p.entries[k] ++ (p.entries.drop (k + 1)).flatten) ++ p.free) := p.counted.bytes_around hk
  have hfront : (p.entries.take k).flatten.length = 76 * k :=
    p.counted.flatten_take k (Nat.le_of_lt hk)
  rw [copyEntry, haround, slot, ← hfront, Header.poke_behind,
    poke_over _ _ hlong, hdrop]
  simp only [Option.map_some, bytes, set, List.set_eq_take_append_cons_drop, if_pos hk, List.flatten_append,
    List.flatten_cons, List.append_assoc]

end Packed

end WindowsLibc.Acl
