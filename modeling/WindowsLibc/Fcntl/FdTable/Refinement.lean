import Mathlib.Data.List.Perm.Basic
import Mathlib.Data.List.Nodup
import WindowsLibc.Fcntl.FdTable

/-!
# The table of file descriptors is a partial map

Each function of the table is given one specification, in terms of the map `FdTable.binding`: which
descriptor it binds or frees, and that the invariant `WellFormed` survives. `step_represents` puts
them together for one call and `fdMachine_refines` for a run.

The two ways to grow the table both append entries with a NULL handle, which say nothing
(`bindings_append`).
-/

namespace WindowsLibc.Fcntl

open WindowsLibc.Lib

/-! ## Entries and bindings -/

theorem castInt_of_lt {n : Nat} (h : n < 2 ^ 31) : castInt n = n := by
  have hmod : n % 2 ^ 32 = n := Nat.mod_eq_of_lt (by omega)
  rw [castInt, hmod, if_pos h]

theorem bindings_natCast (table : List FdInfo) (n : Nat) :
    bindings table n = (table[n]?).bind FdInfo.binding := by
  rw [bindings, if_neg (Int.not_lt.mpr (Int.natCast_nonneg n)), Int.toNat_natCast]

theorem bindings_neg (table : List FdInfo) {fd : Int} (h : fd < 0) : bindings table fd = none := by
  rw [bindings, if_pos h]

/-- Tables with the same entries at every index stand for the same map. -/
theorem bindings_ext {m : FdMap} {table : List FdInfo} (hneg : ∀ fd < 0, m fd = none)
    (h : ∀ n : Nat, (table[n]?).bind FdInfo.binding = m n) : bindings table = m := by
  funext fd
  rcases lt_or_ge fd 0 with hfd | hfd
  · rw [bindings_neg table hfd, hneg fd hfd]
  · obtain ⟨n, rfl⟩ := Int.eq_ofNat_of_zero_le hfd
    rw [bindings_natCast, h]

/-- Writing an entry changes the binding of its descriptor only. -/
theorem bindings_set {table : List FdInfo} {i : Nat} (hi : i < table.length) (e : FdInfo) :
    bindings (table.set i e) = Function.update (bindings table) i e.binding := by
  apply bindings_ext
  · intro fd hfd
    rw [Function.update_of_ne (by omega), bindings_neg table hfd]
  · intro n
    by_cases hn : n = i
    · subst hn
      rw [Function.update_self, List.getElem?_set_self hi]
      rfl
    · rw [Function.update_of_ne (by omega), bindings_natCast,
        List.getElem?_set_ne (fun h => hn h.symm)]

theorem bindings_modify {table : List FdInfo} {i : Nat} (hi : i < table.length)
    {f : FdInfo → FdInfo} (hf : ∀ e, (f e).handle = 0) :
    bindings (table.modify i f) = (bindings table).free i := by
  have hfree : (f table[i]).binding = none := by rw [FdInfo.binding, if_pos (hf _)]
  rw [List.modify_eq_set_get _ hi, bindings_set hi, List.get_eq_getElem, hfree]
  rfl

/-- Free entries at the end say nothing. -/
theorem bindings_append {table extra : List FdInfo} (h : ∀ e ∈ extra, e.handle = 0) :
    bindings (table ++ extra) = bindings table := by
  apply bindings_ext
  · exact fun fd hfd => bindings_neg table hfd
  · intro n
    rw [bindings_natCast]
    rcases Nat.lt_or_ge n table.length with hn | hn
    · rw [List.getElem?_append_left hn]
    · rw [List.getElem?_append_right hn, List.getElem?_eq_none hn]
      cases hget : extra[n - table.length]? with
      | none => rfl
      | some e => rw [Option.bind_some, FdInfo.binding, if_pos (h e (List.mem_of_getElem? hget))]; rfl

/-! ## What the lookups report -/

variable {t : FdTable}

theorem binding_of_size_le {fd : Int} (h : t.size ≤ fd) : t.binding fd = none := by
  obtain ⟨n, rfl⟩ := Int.eq_ofNat_of_zero_le (Int.le_trans (Int.natCast_nonneg _) h)
  rw [FdTable.binding, bindings_natCast, List.getElem?_eq_none (Int.ofNat_le.mp h)]
  rfl

theorem validateFd_eq (hw : WellFormed t) (fd : Int) :
    validateFd t fd = (t.binding fd).isSome := by
  rw [validateFd, castInt_of_lt hw.size_lt]
  by_cases hout : fd < 0 ∨ fd ≥ t.size
  · rw [if_pos hout]
    rcases hout with hneg | hge
    · rw [FdTable.binding, bindings_neg _ hneg]
      rfl
    · rw [binding_of_size_le hge]
      rfl
  · rw [if_neg hout]
    obtain ⟨n, rfl⟩ := Int.eq_ofNat_of_zero_le (show 0 ≤ fd by omega)
    rw [FdTable.binding, bindings_natCast, Int.toNat_natCast]
    cases t.table[n]? with
    | none => rfl
    | some e =>
      rw [Option.any_some, Option.bind_some, FdInfo.binding]
      by_cases he : e.handle = 0 <;> simp [he]

/-- A bound descriptor is an index of the table, and its entry has what it is bound to. -/
theorem entry_of_binding {fd : Int} {b : Binding} (hb : t.binding fd = some b) :
    ∃ (n : Nat) (hn : n < t.table.length), fd = n ∧ t.table[n].handle ≠ 0 ∧
      b = ⟨t.table[n].handle, t.table[n].type, t.table[n].flags⟩ := by
  have hnonneg : 0 ≤ fd := by
    by_contra hneg
    rw [FdTable.binding, bindings_neg _ (Int.not_le.mp hneg)] at hb
    cases hb
  obtain ⟨n, rfl⟩ := Int.eq_ofNat_of_zero_le hnonneg
  rw [FdTable.binding, bindings_natCast] at hb
  obtain ⟨e, he, hbe⟩ := Option.bind_eq_some_iff.mp hb
  obtain ⟨hn, rfl⟩ := List.getElem?_eq_some_iff.mp he
  rw [FdInfo.binding] at hbe
  split at hbe
  · cases hbe
  · next hne => exact ⟨n, hn, rfl, hne, (Option.some.inj hbe).symm⟩

theorem binding_of_entry {n : Nat} (hn : n < t.table.length) (hne : t.table[n].handle ≠ 0) :
    t.binding n = some ⟨t.table[n].handle, t.table[n].type, t.table[n].flags⟩ := by
  rw [FdTable.binding, bindings_natCast, List.getElem?_eq_getElem hn, Option.bind_some,
    FdInfo.binding, if_neg hne]

/-- `get_fdinfo` reports the binding of a descriptor that has one. -/
theorem getFdinfo_bound (hw : WellFormed t) {fd : Int} {b : Binding} (hb : t.binding fd = some b)
    (info : FdInfo) : (getFdinfo t fd info).handle = b.handle ∧
      (getFdinfo t fd info).type = b.type ∧ (getFdinfo t fd info).flags = b.flags := by
  have hvalid : validateFd t fd = true := by rw [validateFd_eq hw, hb]; rfl
  obtain ⟨n, hn, rfl, _, rfl⟩ := entry_of_binding hb
  rw [getFdinfo, if_pos hvalid, Int.toNat_natCast, List.getElem?_eq_getElem hn]
  exact ⟨rfl, rfl, rfl⟩

/-- For any other descriptor it reports a NULL handle and an invalid type. -/
theorem getFdinfo_unbound (hw : WellFormed t) {fd : Int} (hb : t.binding fd = none)
    (info : FdInfo) : getFdinfo t fd info = { info with handle := 0, type := .invalid } := by
  have hvalid : ¬ validateFd t fd = true := by rw [validateFd_eq hw, hb]; exact Bool.false_ne_true
  rw [getFdinfo, if_neg hvalid]

/-! ## Keeping the invariant -/

theorem WellFormed.bind (hw : WellFormed t) {t' : FdTable} {fd : Int} {b : Binding}
    (hfresh : Fresh t.binding b.handle) (hb : t'.binding = t.binding.bind fd b)
    (hpos : 0 < t'.size) (hlt : t'.size < 2 ^ 31) : WellFormed t' := by
  refine ⟨hpos, hlt, ?_, ?_⟩
  · intro fd' b' hb'
    rw [hb, FdMap.bind, Function.update_apply] at hb'
    split at hb'
    · cases hb'
      exact hfresh.1
    · exact hw.handles fd' b' hb'
  · intro fd₁ fd₂ b₁ b₂ h₁ h₂ heq
    rw [hb, FdMap.bind, Function.update_apply] at h₁ h₂
    split at h₁ <;> split at h₂
    · next e₁ e₂ => exact e₁.trans e₂.symm
    · cases h₁
      exact absurd heq.symm (hfresh.2 fd₂ b₂ h₂)
    · cases h₂
      exact absurd heq (hfresh.2 fd₁ b₁ h₁)
    · exact hw.distinct fd₁ fd₂ b₁ b₂ h₁ h₂ heq

theorem WellFormed.free (hw : WellFormed t) {t' : FdTable} {fd : Int}
    (hb : t'.binding = t.binding.free fd) (hsize : t'.size = t.size) : WellFormed t' := by
  have hold : ∀ fd' b', t'.binding fd' = some b' → t.binding fd' = some b' := by
    intro fd' b' hb'
    rw [hb, FdMap.free, Function.update_apply] at hb'
    split at hb'
    · cases hb'
    · exact hb'
  refine ⟨hsize ▸ hw.size_pos, hsize ▸ hw.size_lt, fun fd' b' h => hw.handles fd' b' (hold _ _ h),
    fun fd₁ fd₂ b₁ b₂ h₁ h₂ => hw.distinct fd₁ fd₂ b₁ b₂ (hold _ _ h₁) (hold _ _ h₂)⟩

/-- The first free entry, or the end of the table. -/
def FdTable.firstFree (t : FdTable) : Nat := t.table.findIdx (fun e => e.handle == 0)

theorem binding_firstFree (t : FdTable) : t.binding t.firstFree = none := by
  rw [FdTable.binding, bindings_natCast]
  cases hget : t.table[t.firstFree]? with
  | none => rfl
  | some e =>
    obtain ⟨hlt, rfl⟩ := List.getElem?_eq_some_iff.mp hget
    have h0 : (t.table[t.firstFree].handle == 0) = true := List.findIdx_getElem (w := hlt)
    rw [Option.bind_some, FdInfo.binding, if_pos (beq_iff_eq.mp h0)]

theorem binding_below_firstFree {n : ℕ} (hn : n < t.firstFree) : t.binding n ≠ none := by
  have hlt : n < t.table.length := Nat.lt_of_lt_of_le hn List.findIdx_le_length
  have hne := List.not_of_lt_findIdx hn
  rw [binding_of_entry hlt (by simpa using hne)]
  exact Option.some_ne_none _

theorem firstFree_eq (t : FdTable) : (t.firstFree : Int) = t.binding.lowestFree := by
  have hnonempty : {n : ℕ | t.binding n = none}.Nonempty := ⟨t.firstFree, binding_firstFree t⟩
  rw [FdMap.lowestFree]
  apply congrArg
  apply Nat.le_antisymm
  · by_contra hlt
    exact binding_below_firstFree (Nat.lt_of_not_le hlt) (Nat.sInf_mem hnonempty)
  · exact Nat.sInf_le (binding_firstFree t)

/-- A full table holds distinct handles, so it has at most 2^24 entries. -/
theorem size_le_of_full (hw : WellFormed t)
    (hfull : t.firstFree = t.size) : t.size ≤ 2 ^ 24 := by
  have hbinding : ∀ (n : ℕ) (hn : n < t.table.length),
      t.binding n = some ⟨t.table[n].handle, t.table[n].type, t.table[n].flags⟩ := by
    intro n hn
    have hne := List.findIdx_eq_length.mp hfull _ (List.getElem_mem hn)
    exact binding_of_entry hn (by simpa using hne)
  -- Handles are multiples of four, so their quarters are distinct too.
  have hnodup : (t.table.map (fun e => e.handle.toNat / 4)).Nodup := by
    rw [List.Nodup, List.pairwise_map, List.pairwise_iff_getElem]
    intro i j hi hj hij heq
    have hbi := hbinding i hi
    have hbj := hbinding j hj
    have hki := (hw.handles _ _ hbi).2.1
    have hkj := (hw.handles _ _ hbj).2.1
    have hsame : t.table[i].handle = t.table[j].handle := by
      apply UInt64.toNat_inj.mp
      simp only at hki hkj
      omega
    have := hw.distinct _ _ _ _ hbi hbj hsame
    omega
  have hsub : t.table.map (fun e => e.handle.toNat / 4) ⊆ List.range (2 ^ 24) := by
    intro k hk
    obtain ⟨e, he, rfl⟩ := List.mem_map.mp hk
    obtain ⟨n, hn, rfl⟩ := List.mem_iff_getElem.mp he
    have hlt := (hw.handles _ _ (hbinding n hn)).2.2
    simp only at hlt
    rw [List.mem_range]
    omega
  have hle := (List.subperm_of_subset hnodup hsub).length_le
  rwa [List.length_map, List.length_range] at hle

/-- The descriptors below the lowest free one hold distinct handles. -/
theorem lowestFree_lt (hw : WellFormed t) : t.binding.lowestFree < 2 ^ 24 := by
  rw [← firstFree_eq]
  by_contra hge
  obtain ⟨k, hk⟩ : ∃ k : ℕ, k = 2 ^ 24 := ⟨_, rfl⟩
  have hbound {n : ℕ} (hn : n < k) : ∃ b, t.binding n = some b :=
    Option.ne_none_iff_exists'.mp (binding_below_firstFree (by omega))
  obtain ⟨quarter, hquarter⟩ : ∃ quarter : ℕ → ℕ, ∀ (n : ℕ) b, t.binding n = some b →
      quarter n = b.handle.toNat / 4 :=
    ⟨fun n => ((t.binding n).map fun b => b.handle.toNat / 4).getD 0, fun n b hb => by simp only [hb, Option.map_some, Option.getD_some]⟩
  have hnodup : ((List.range k).map quarter).Nodup := by
    refine List.nodup_range.map_on ?_
    intro i hi j hj heq
    obtain ⟨b, hb⟩ := hbound (List.mem_range.mp hi)
    obtain ⟨b', hb'⟩ := hbound (List.mem_range.mp hj)
    rw [hquarter i b hb, hquarter j b' hb'] at heq
    have hfour := (hw.handles _ _ hb).2.1
    have hfour' := (hw.handles _ _ hb').2.1
    have hsame : b.handle = b'.handle := by
      apply UInt64.toNat_inj.mp
      omega
    exact Int.ofNat_inj.mp (hw.distinct _ _ _ _ hb hb' hsame)
  -- no handle is NULL
  have hsub : (List.range k).map quarter ⊆ List.range' 1 (k - 1) := by
    intro i hi
    obtain ⟨n, hn, rfl⟩ := List.mem_map.mp hi
    obtain ⟨b, hb⟩ := hbound (List.mem_range.mp hn)
    obtain ⟨hne, hfour, hlt⟩ := hw.handles _ _ hb
    have hpos : b.handle.toNat ≠ 0 := fun h0 => hne (UInt64.toNat_inj.mp h0)
    rw [hquarter n b hb, List.mem_range'_1]
    omega
  have hle := (List.subperm_of_subset hnodup hsub).length_le
  rw [List.length_map, List.length_range, List.length_range'] at hle
  omega

/-! ## One specification for each function -/

theorem internalInsertFd_spec {n : Nat} {h : UInt64} (hn : n < t.size) (hh : h ≠ 0)
    (type : HandleType) (flags : UInt32) :
    ∃ t', internalInsertFd t n h type flags = some (t', .ok n) ∧
      t'.table = t.table.set n ⟨h, type, flags, t.sequence + 1⟩ ∧
      t'.binding = t.binding.bind n ⟨h, type, flags⟩ := by
  have hin : 0 ≤ (n : Int) ∧ (n : Int) < t.size := by omega
  rw [internalInsertFd, if_pos hin]
  refine ⟨_, rfl, rfl, ?_⟩
  have hset := bindings_set hn ⟨h, type, flags, t.sequence + 1⟩
  rw [FdInfo.binding, if_neg hh] at hset
  exact hset

theorem length_realloc (heap : Nat → FdInfo) (table : List FdInfo) {n : Nat}
    (hn : table.length ≤ n) : (realloc heap table n).length = n := by
  rw [realloc, List.length_append, List.length_take, List.length_map, List.length_range']
  omega

/-- Growing the table: the old entries, then cleared ones. -/
theorem clearFrom_realloc (heap : Nat → FdInfo) (table : List FdInfo) {n : Nat}
    (hn : table.length ≤ n) :
    ∃ extra, clearFrom (realloc heap table n) table.length = table ++ extra ∧
      (∀ e ∈ extra, e.handle = 0) ∧ (table ++ extra).length = n := by
  refine ⟨((List.range' table.length (n - table.length)).map heap).map
    (fun e => { e with handle := 0 }), ?_, ?_, ?_⟩
  · rw [clearFrom, realloc, List.take_of_length_le hn, List.take_left, List.drop_left]
  · intro e he
    obtain ⟨e', _, rfl⟩ := List.mem_map.mp he
    rfl
  · rw [List.length_append, List.length_map, List.length_map, List.length_range']
    omega

/-- Doubling the table and filling its first new entry. -/
theorem clearFrom_doubled (heap : Nat → FdInfo) {table : List FdInfo} (hpos : 0 < table.length)
    (e : FdInfo) :
    ∃ extra, clearFrom ((realloc heap table (table.length * 2)).set table.length e)
        (table.length + 1) = (table ++ [e]) ++ extra ∧
      (∀ e ∈ extra, e.handle = 0) ∧ ((table ++ [e]) ++ extra).length = table.length * 2 := by
  obtain ⟨n, hn⟩ : ∃ n, table.length * 2 - table.length = n + 1 := ⟨table.length - 1, by omega⟩
  have hgrown : (realloc heap table (table.length * 2)).set table.length e =
      (table ++ [e]) ++ (List.range' (table.length + 1) n).map heap := by
    rw [realloc, List.take_of_length_le (by omega), hn, List.range'_succ, List.map_cons,
      List.set_append_right _ _ (Nat.le_refl _), Nat.sub_self, List.set_cons_zero,
      List.append_assoc]
    rfl
  have hlen : table.length + 1 = (table ++ [e]).length := by
    rw [List.length_append, List.length_singleton]
  refine ⟨((List.range' (table.length + 1) n).map heap).map (fun e => { e with handle := 0 }),
    ?_, ?_, ?_⟩
  · rw [hgrown, clearFrom]
    nth_rewrite 1 [hlen]
    rw [List.take_left]
    nth_rewrite 1 [hlen]
    rw [List.drop_left]
  · intro e' he'
    obtain ⟨e'', _, rfl⟩ := List.mem_map.mp he'
    rfl
  · simp only [List.length_append, List.length_map, List.length_range', List.length_singleton]
    omega

theorem bindings_concat (table : List FdInfo) {e : FdInfo} (he : e.handle ≠ 0) :
    bindings (table ++ [e]) = (bindings table).bind table.length ⟨e.handle, e.type, e.flags⟩ := by
  have hfree : bindings (table ++ [{ e with handle := 0 }]) = bindings table :=
    bindings_append (by simp)
  have hlast : table.length < (table ++ [{ e with handle := 0 }]).length := by simp
  have hset := bindings_set hlast e
  rw [List.set_append_right _ _ (Nat.le_refl _), Nat.sub_self, List.set_cons_zero, hfree,
    FdInfo.binding, if_neg he] at hset
  exact hset

/-- `register_to_fd_table` binds the lowest free descriptor. -/
theorem registerToFdTable_spec (hw : WellFormed t) (heap : Nat → FdInfo) {h : UInt64}
    (hfresh : Fresh t.binding h) (type : HandleType) (flags : UInt32) :
    ∃ t', registerToFdTable (some heap) t h type flags = some (t', .ok t.binding.lowestFree) ∧
      t'.binding = t.binding.bind t.binding.lowestFree ⟨h, type, flags⟩ ∧ WellFormed t' := by
  have hsize := hw.size_lt
  have hpos := hw.size_pos
  have hfirst : t.table.findIdx (fun e => e.handle == 0) = t.firstFree := rfl
  have hle : t.firstFree ≤ t.size := List.findIdx_le_length
  rw [← firstFree_eq t]
  by_cases hroom : t.firstFree < t.size
  · obtain ⟨t', hins, htable, hbind⟩ := internalInsertFd_spec hroom hfresh.1.1 type flags
    refine ⟨t', ?_, hbind, ?_⟩
    · simp only [registerToFdTable, hfirst]
      rw [if_pos hroom, castInt_of_lt (by omega)]
      exact hins
    · have hsame : t'.size = t.size := by rw [FdTable.size, htable, List.length_set]; rfl
      exact hw.bind hfresh hbind (hsame ▸ hpos) (hsame ▸ hsize)
  · -- The table is full and doubles; its first new entry is the one that is taken.
    have hfull : t.firstFree = t.size := by omega
    have hmax := size_le_of_full hw hfull
    have hgrown : t.size < FdTable.size { t with table := realloc heap t.table (t.size * 2) } := by
      have hlen : t.table.length ≤ t.size * 2 := Nat.le_mul_of_pos_right _ (by omega)
      show t.size < (realloc heap t.table (t.size * 2)).length
      rw [length_realloc heap t.table hlen]
      omega
    obtain ⟨t', hins, htable, _⟩ := internalInsertFd_spec hgrown hfresh.1.1 type flags
    obtain ⟨extra, hclear, hextra, hlen⟩ := clearFrom_doubled heap hpos
      ⟨h, type, flags, t.sequence + 1⟩
    have hbind : bindings (clearFrom t'.table (t.size + 1)) =
        t.binding.bind t.size ⟨h, type, flags⟩ := by
      rw [htable]
      exact (congrArg bindings hclear).trans
        ((bindings_append hextra).trans (bindings_concat t.table hfresh.1.1))
    refine ⟨{ t' with table := clearFrom t'.table (t.size + 1) }, ?_, ?_, ?_⟩
    · simp only [registerToFdTable, hfirst]
      rw [if_neg hroom, castInt_of_lt hsize, hins, hfull]
    · rw [hfull]
      exact hbind
    · have hdouble : (clearFrom t'.table (t.size + 1)).length = t.size * 2 := by
        rw [htable]
        exact (congrArg List.length hclear).trans hlen
      refine hw.bind hfresh hbind ?_ ?_
      · rw [FdTable.size, hdouble]
        omega
      · rw [FdTable.size, hdouble]
        omega

/-- `insert_into_fd_table` binds the descriptor it is given. -/
theorem insertIntoFdTable_spec (hw : WellFormed t) (heap : Nat → FdInfo) {fd : Int} {h : UInt64}
    (hfresh : Fresh t.binding h) (hfd : 0 ≤ fd) (hmax : fd < 2 ^ 30) (type : HandleType)
    (flags : UInt32) :
    ∃ t', insertIntoFdTable (some heap) t fd h type flags = some (t', .ok fd) ∧
      t'.binding = t.binding.bind fd ⟨h, type, flags⟩ ∧ WellFormed t' := by
  have hsize := hw.size_lt
  have hpos := hw.size_pos
  obtain ⟨n, rfl⟩ := Int.eq_ofNat_of_zero_le hfd
  rw [insertIntoFdTable, castInt_of_lt hsize]
  by_cases hroom : n < t.size
  · obtain ⟨t', hins, htable, hbind⟩ := internalInsertFd_spec hroom hfresh.1.1 type flags
    have hsame : t'.size = t.size := by rw [FdTable.size, htable, List.length_set]; rfl
    rw [if_neg (by omega)]
    exact ⟨t', hins, hbind, hw.bind hfresh hbind (hsame ▸ hpos) (hsame ▸ hsize)⟩
  · -- The table grows to `2 * n` entries, which has room for `n` because `n` is positive.
    have htwice : ((n : Int) * 2).toNat = n * 2 := by omega
    have hle : t.table.length ≤ n * 2 := by
      have : t.table.length = t.size := rfl
      omega
    obtain ⟨extra, hclear, hextra, hlen⟩ := clearFrom_realloc heap t.table hle
    have hgrown : n < FdTable.size { t with table := t.table ++ extra } := by
      show n < (t.table ++ extra).length
      omega
    obtain ⟨t', hins, htable, hbind⟩ := internalInsertFd_spec hgrown hfresh.1.1 type flags
    have hold : FdTable.binding { t with table := t.table ++ extra } = t.binding :=
      bindings_append hextra
    have hsize' : t'.size = n * 2 := by rw [FdTable.size, htable, List.length_set, hlen]
    rw [hold] at hbind
    rw [if_pos (by omega)]
    simp only [Int.toNat_natCast, htwice]
    rw [if_pos (by omega), show t.size = t.table.length from rfl, hclear]
    exact ⟨t', hins, hbind, hw.bind hfresh hbind (by omega) (by omega)⟩

/-- `close_fd` frees its descriptor. -/
theorem closeFd_spec (hw : WellFormed t) {fd : Int} (hvalid : validateFd t fd = true) :
    ∃ t', closeFd t true fd = some (t', .ok 0) ∧ t'.binding = t.binding.free fd ∧
      t'.size = t.size ∧ WellFormed t' := by
  have hin : 0 ≤ fd ∧ fd < t.size := by
    rw [validateFd, castInt_of_lt hw.size_lt] at hvalid
    by_contra hout
    rw [if_pos (by omega)] at hvalid
    cases hvalid
  obtain ⟨n, rfl⟩ := Int.eq_ofNat_of_zero_le hin.1
  have hn : n < t.table.length := Int.ofNat_lt.mp hin.2
  rw [closeFd, if_pos hin, if_pos rfl]
  refine ⟨_, rfl, ?_, ?_, ?_⟩
  · exact bindings_modify hn (fun _ => rfl)
  · exact List.length_modify ..
  · exact hw.free (bindings_modify hn (fun _ => rfl)) (List.length_modify ..)

/-- A handle that is bound is bound once, so whichever descriptor is chosen is the one. -/
theorem WellFormed.holder (hw : WellFormed t) {h : UInt64} {fd : Int} {b : Binding}
    (hb : t.binding fd = some b) (hh : b.handle = h)
    (bound : ∃ fd, (t.binding fd).map (·.handle) = some h) : bound.choose = fd := by
  obtain ⟨b', hb', hh'⟩ := Option.map_eq_some_iff.mp bound.choose_spec
  exact hw.distinct _ _ _ _ hb' hb (hh'.trans hh.symm)

theorem FdMap.free_of_unbound {m : FdMap} {fd : Int} (h : m fd = none) : m.free fd = m := by
  rw [FdMap.free, ← h, Function.update_eq_self]

/-- `unregister_from_fd_table` frees the descriptor of the handle, if it has one. -/
theorem unregisterFromFdTable_spec (hw : WellFormed t) (h : UInt64) :
    (unregisterFromFdTable t h).binding = (t.binding.step (.unregister h)).1 ∧
      WellFormed (unregisterFromFdTable t h) := by
  let i := t.table.findIdx (fun e => e.handle != invalidHandleValue && e.handle == h)
  have htable : (unregisterFromFdTable t h).table =
      t.table.modify i (fun e => { e with handle := 0 }) := rfl
  by_cases bound : ∃ fd, (t.binding fd).map (·.handle) = some h
  · -- The entry that is found is the one with the handle.
    obtain ⟨b, hb, hh⟩ := Option.map_eq_some_iff.mp bound.choose_spec
    obtain ⟨n, hn, hfd, hne, rfl⟩ := entry_of_binding hb
    have hkernel := hw.handles _ _ hb
    have hvalue : t.table[n].handle ≠ invalidHandleValue := by
      intro heq
      have hlt := hkernel.2.2
      simp only [heq] at hlt
      revert hlt
      decide
    have hi : i < t.table.length := by
      apply List.findIdx_lt_length_of_exists
      refine ⟨t.table[n], List.getElem_mem hn, ?_⟩
      simp only [bne_iff_ne, ne_eq, Bool.and_eq_true, beq_iff_eq]
      exact ⟨hvalue, hh⟩
    have hpred : (t.table[i].handle != invalidHandleValue && t.table[i].handle == h) = true :=
      List.findIdx_getElem (w := hi)
    simp only [Bool.and_eq_true, beq_iff_eq] at hpred
    have hbi := binding_of_entry hi (by rw [hpred.2, ← hh]; exact hne)
    -- Two descriptors of one handle are one descriptor, so the map frees the same one.
    have hchoose := hw.holder hbi hpred.2 bound
    have hfree : (unregisterFromFdTable t h).binding = t.binding.free i := by
      rw [FdTable.binding, htable]
      exact bindings_modify hi (fun _ => rfl)
    refine ⟨?_, hw.free hfree (by rw [FdTable.size, htable, List.length_modify]; rfl)⟩
    simp only [FdMap.step]
    rw [dif_pos bound, hchoose, hfree]
  · -- Nothing is bound to the handle: at most a free entry is freed again.
    have hsize : (unregisterFromFdTable t h).size = t.size := by
      rw [FdTable.size, htable, List.length_modify]; rfl
    have hsame : (unregisterFromFdTable t h).binding = t.binding := by
      rw [FdTable.binding, htable]
      by_cases hi : i < t.table.length
      · have hpred : (t.table[i].handle != invalidHandleValue && t.table[i].handle == h) = true :=
          List.findIdx_getElem (w := hi)
        simp only [Bool.and_eq_true, beq_iff_eq] at hpred
        have hnone : t.binding i = none := by
          cases hb : t.binding i with
          | none => rfl
          | some b =>
            obtain ⟨n, hn, hin, _, rfl⟩ := entry_of_binding hb
            cases Int.ofNat_inj.mp hin
            exact absurd ⟨_, by rw [hb, Option.map_some, hpred.2]⟩ bound
        rw [bindings_modify hi (fun _ => rfl)]
        exact FdMap.free_of_unbound hnone
      · rw [List.modify_eq_self (Nat.le_of_not_lt hi)]
        rfl
    refine ⟨?_, ?_⟩
    · simp only [FdMap.step]
      rw [dif_neg bound, hsame]
    · exact ⟨hsize ▸ hw.size_pos, hsize ▸ hw.size_lt, hsame ▸ hw.handles, hsame ▸ hw.distinct⟩

/-! ## Duplicating -/

theorem Fresh.free {m : FdMap} {h : UInt64} (hf : Fresh m h) (fd : Int) : Fresh (m.free fd) h := by
  refine ⟨hf.1, ?_⟩
  intro fd' b hb
  rw [FdMap.free, Function.update_apply] at hb
  split at hb
  · cases hb
  · exact hf.2 fd' b hb

/-- `dup2` and `dup3`: whatever was bound to `newfd` is closed first. -/
theorem doDup_spec (hw : WellFormed t) (heap : Nat → FdInfo) (info : FdInfo) {oldfd newfd : Int}
    {flags : UInt32} {target : UInt64} {old : Binding} (hold : t.binding oldfd = some old)
    (hfresh : Fresh t.binding target) (hfd : 0 ≤ newfd) (hmax : newfd < 2 ^ 30) :
    ∃ t', doDup (some heap) info t oldfd newfd flags ⟨some target, true⟩ =
        some (t', .ok newfd) ∧
      t'.binding = t.binding.bind newfd ⟨target, old.type, old.flags ||| flags⟩ ∧
      WellFormed t' := by
  obtain ⟨_, htype, hflags⟩ := getFdinfo_bound hw hold info
  simp only [doDup, htype, hflags]
  rw [if_neg (by omega)]
  by_cases hvalid : validateFd t newfd = true
  · obtain ⟨t₁, hclose, hfree, _, hw₁⟩ := closeFd_spec hw hvalid
    have hfresh₁ : Fresh t₁.binding target := by
      rw [hfree]
      exact hfresh.free newfd
    obtain ⟨t₂, hins, hbind, hw₂⟩ := insertIntoFdTable_spec hw₁ heap hfresh₁ hfd hmax
      old.type (old.flags ||| flags)
    rw [if_pos hvalid, hclose]
    refine ⟨t₂, hins, ?_, hw₂⟩
    -- Freeing `newfd` is lost when it is bound again.
    rw [hbind, hfree, FdMap.bind, FdMap.free, Function.update_idem]
    rfl
  · rw [if_neg hvalid]
    exact insertIntoFdTable_spec hw heap hfresh hfd hmax _ _

/-- `wlibc_common_dup` onto a given descriptor. -/
theorem commonDup_spec (hw : WellFormed t) (heap : Nat → FdInfo) (info : FdInfo)
    (oldfd : Int) {newfd : Int} {flags : UInt32} {target : UInt64}
    (hflags : ¬ (flags ≠ 0 ∧ flags ≠ oCloexec)) (hfresh : Fresh t.binding target)
    (hfd : 0 ≤ newfd) (hmax : newfd < 2 ^ 30) :
    ∃ t', commonDup (some heap) info t oldfd newfd flags ⟨some target, true⟩ =
        some (t', (t.binding.dupTo oldfd newfd flags target).2) ∧
      t'.binding = (t.binding.dupTo oldfd newfd flags target).1 ∧ WellFormed t' := by
  rw [commonDup, validateFd_eq hw]
  cases hold : t.binding oldfd with
  | none =>
    simp only [FdMap.dupTo, hold]
    exact ⟨t, rfl, rfl, hw⟩
  | some old =>
    simp only [FdMap.dupTo, hold]
    rw [if_neg (by simp), if_neg hflags]
    by_cases hsame : newfd = oldfd
    · rw [if_pos hsame, if_pos hsame]
      exact ⟨t, rfl, rfl, hw⟩
    · rw [if_neg hsame, if_neg hsame]
      exact doDup_spec hw heap info hold hfresh hfd hmax

theorem dup_spec (hw : WellFormed t) (heap : Nat → FdInfo) (info : FdInfo) (oldfd : Int)
    {target : UInt64} (hfresh : Fresh t.binding target) :
    ∃ t', dup (some heap) info t oldfd ⟨some target, true⟩ =
        some (t', (t.binding.step (.dup oldfd target)).2) ∧
      t'.binding = (t.binding.step (.dup oldfd target)).1 ∧ WellFormed t' := by
  rw [dup, commonDup, validateFd_eq hw]
  cases hold : t.binding oldfd with
  | none =>
    simp only [FdMap.step, hold]
    exact ⟨t, rfl, rfl, hw⟩
  | some old =>
    obtain ⟨n, _, rfl, _, _⟩ := entry_of_binding hold
    obtain ⟨_, htype, hflags⟩ := getFdinfo_bound hw hold info
    simp only [FdMap.step, hold]
    rw [if_neg (by simp), if_neg (by simp), if_neg (by omega)]
    simp only [doDup, htype, hflags, if_true]
    exact registerToFdTable_spec hw heap hfresh _ _

theorem dup2_spec (hw : WellFormed t) (heap : Nat → FdInfo) (info : FdInfo) (oldfd : Int)
    {newfd : Int} {target : UInt64} (hfresh : Fresh t.binding target) (hmax : newfd < 2 ^ 30) :
    ∃ t', dup2 (some heap) info t oldfd newfd ⟨some target, true⟩ =
        some (t', (t.binding.step (.dup2 oldfd newfd target)).2) ∧
      t'.binding = (t.binding.step (.dup2 oldfd newfd target)).1 ∧ WellFormed t' := by
  simp only [FdMap.step, dup2]
  by_cases hneg : oldfd < 0 ∨ newfd < 0
  · rw [if_pos hneg, if_pos hneg]
    exact ⟨t, rfl, rfl, hw⟩
  · rw [if_neg hneg, if_neg hneg]
    exact commonDup_spec hw heap info oldfd (by simp) hfresh (by omega) hmax

theorem dup3_spec (hw : WellFormed t) (heap : Nat → FdInfo) (info : FdInfo) (oldfd : Int)
    {newfd : Int} (flags : UInt32) {target : UInt64} (hfresh : Fresh t.binding target)
    (hmax : newfd < 2 ^ 30) :
    ∃ t', dup3 (some heap) info t oldfd newfd flags ⟨some target, true⟩ =
        some (t', (t.binding.step (.dup3 oldfd newfd flags target)).2) ∧
      t'.binding = (t.binding.step (.dup3 oldfd newfd flags target)).1 ∧ WellFormed t' := by
  simp only [FdMap.step, dup3]
  by_cases hneg : oldfd < 0 ∨ newfd < 0
  · rw [if_pos hneg, if_pos (by omega)]
    exact ⟨t, rfl, rfl, hw⟩
  by_cases hsame : newfd = oldfd
  · rw [if_neg hneg, if_pos hsame, if_pos (Or.inr (Or.inr hsame))]
    exact ⟨t, rfl, rfl, hw⟩
  rw [if_neg hneg, if_neg hsame, if_neg (by omega)]
  by_cases hflags : flags ≠ 0 ∧ flags ≠ oCloexec
  · rw [commonDup, validateFd_eq hw, if_pos hflags, if_pos hflags]
    cases hold : t.binding oldfd with
    | none => exact ⟨t, rfl, rfl, hw⟩
    | some old => exact ⟨t, rfl, rfl, hw⟩
  · have hspec := commonDup_spec hw heap info oldfd hflags hfresh (by omega) hmax
    rw [if_neg hflags]
    by_cases hold : t.binding oldfd = none
    · rw [if_pos hold]
      simpa only [FdMap.dupTo, hold] using hspec
    · rw [if_neg hold]
      exact hspec

/-! ## Runs -/

/-- The table stands for the map, and keeps the invariant. -/
def Represents (t : FdTable) (m : FdMap) : Prop := t.binding = m ∧ WellFormed t

/-- Every call does to the table what it does to the map, and returns the same. -/
theorem step_represents (heap : Nat → FdInfo) (info : FdInfo) (t : FdTable) (m : FdMap) (c : Call)
    (hr : Represents t m) (hc : Allowed t c) :
    ∃ t' m' r, (fdMachine heap info).step t c = some (t', r) ∧
      FdMap.machine.step m c = some (m', r) ∧ Represents t' m' := by
  obtain ⟨rfl, hw⟩ := hr
  have hstep : ∃ t', (fdMachine heap info).step t c = some (t', (t.binding.step c).2) ∧
      t'.binding = (t.binding.step c).1 ∧ WellFormed t' := by
    -- One spec for each call; `Allowed` is what that spec asks of its arguments.
    cases c with
    | register h type flags => exact registerToFdTable_spec hw heap hc type flags
    | insert fd h type flags => exact insertIntoFdTable_spec hw heap hc.1 hc.2.1 hc.2.2 type flags
    | close fd =>
      obtain ⟨t', hclose, hb, _, hw'⟩ := closeFd_spec hw hc
      exact ⟨t', hclose, hb, hw'⟩
    | unregister h =>
      obtain ⟨hb, hw'⟩ := unregisterFromFdTable_spec hw h
      refine ⟨unregisterFromFdTable t h, ?_, hb, hw'⟩
      simp only [fdMachine, FdMap.step]
      split <;> rfl
    | dup oldfd target => exact dup_spec hw heap info oldfd hc
    | dup2 oldfd newfd target => exact dup2_spec hw heap info oldfd hc.1 hc.2
    | dup3 oldfd newfd flags target => exact dup3_spec hw heap info oldfd flags hc.1 hc.2
  obtain ⟨t', hcode, hb, hw'⟩ := hstep
  exact ⟨t', _, _, hcode, rfl, hb, hw'⟩

/-- What the lookups report is the map. -/
structure Reports (t : FdTable) (m : FdMap) : Prop where
  valid : ∀ fd, validateFd t fd = (m fd).isSome
  bound : ∀ fd b info, m fd = some b → (getFdinfo t fd info).handle = b.handle ∧
    (getFdinfo t fd info).type = b.type ∧ (getFdinfo t fd info).flags = b.flags
  unbound : ∀ fd info, m fd = none →
    getFdinfo t fd info = { info with handle := 0, type := .invalid }

/-- What holds of the maps of tables: the lowest free descriptor is free and every lower one is
bound, and no two descriptors share a handle. -/
structure FdMap.Proper (m : FdMap) : Prop where
  lowest : m m.lowestFree = none
  below : ∀ fd, 0 ≤ fd → fd < m.lowestFree → m fd ≠ none
  distinct : ∀ fd fd' b b', m fd = some b → m fd' = some b' → b.handle = b'.handle → fd = fd'

theorem Represents.reports {m : FdMap} (h : Represents t m) : Reports t m := by
  obtain ⟨rfl, hw⟩ := h
  exact ⟨validateFd_eq hw, fun _ _ info hb => getFdinfo_bound hw hb info,
    fun _ info hb => getFdinfo_unbound hw hb info⟩

theorem Represents.proper {m : FdMap} (h : Represents t m) : m.Proper := by
  obtain ⟨rfl, hw⟩ := h
  refine ⟨?_, ?_, hw.distinct⟩
  · rw [← firstFree_eq]
    exact binding_firstFree t
  · intro fd hfd hlt
    rw [← firstFree_eq] at hlt
    obtain ⟨n, rfl⟩ := Int.eq_ofNat_of_zero_le hfd
    exact binding_below_firstFree (Int.ofNat_lt.mp hlt)

/-- **The table is the partial map.** Every run of calls is a run of the map, with the same results,
and after it the lookups report exactly the bindings of the map. -/
theorem fdMachine_refines (heap : Nat → FdInfo) (info : FdInfo) {t : FdTable} (hw : WellFormed t)
    (calls : List Call) (hcalls : (fdMachine heap info).Along Allowed t calls) :
    ∃ t' m' rs, (fdMachine heap info).run t calls = some (t', rs) ∧
      FdMap.machine.run t.binding calls = some (m', rs) ∧ Reports t' m' ∧ m'.Proper := by
  obtain ⟨t', m', rs, hrun, hspec, hr⟩ := Machine.run_sim (step_represents heap info) calls
    (show Represents t t.binding from ⟨rfl, hw⟩) hcalls
  exact ⟨t', m', rs, hrun, hspec, hr.reports, hr.proper⟩

theorem fresh_of_entries {h : UInt64} (hk : KernelHandle h) (hne : ∀ e ∈ t.table, e.handle ≠ h) :
    Fresh t.binding h := by
  refine ⟨hk, ?_⟩
  intro fd b hb
  obtain ⟨n, hn, _, _, rfl⟩ := entry_of_binding hb
  exact hne _ (List.getElem_mem hn)

/-- A table of four free entries, as `init_fd_table` leaves it in a process without standard
handles. -/
def emptyTable : FdTable := ⟨List.replicate 4 ⟨0, .file, 7, 9⟩, 0, 0, 0, 0⟩

theorem wellFormed_emptyTable : WellFormed emptyTable := by
  have hnone : ∀ fd b, emptyTable.binding fd ≠ some b := by
    intro fd b hb
    obtain ⟨n, hn, _, hne, _⟩ := entry_of_binding hb
    exact hne (congrArg FdInfo.handle (List.getElem_replicate hn))
  exact ⟨by decide, by decide, fun fd b hb => absurd hb (hnone fd b),
    fun fd _ b _ hb => absurd hb (hnone fd b)⟩

/-- A file opened, duplicated beyond the end of the table, and closed. -/
theorem emptyTable_refines :
    ∃ t' m' rs, (fdMachine (fun _ => ⟨5, .pipe, 1, 1⟩) ⟨0, .file, 0, 0⟩).run emptyTable
        [.register 4 .file 2, .dup2 0 9 8, .close 0] = some (t', rs) ∧
      FdMap.machine.run emptyTable.binding [.register 4 .file 2, .dup2 0 9 8, .close 0] =
        some (m', rs) ∧ Reports t' m' ∧ m'.Proper := by
  apply fdMachine_refines _ _ wellFormed_emptyTable
  refine ⟨fresh_of_entries (by decide) (by decide), ?_⟩
  rintro t o ⟨⟩
  refine ⟨⟨fresh_of_entries (by decide) (by decide), by decide⟩, ?_⟩
  rintro t o ⟨⟩
  refine ⟨?_, fun _ _ _ => trivial⟩
  show validateFd _ 0 = true
  decide

end WindowsLibc.Fcntl
