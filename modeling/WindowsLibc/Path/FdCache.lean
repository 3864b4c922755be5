import WindowsLibc.Fcntl.FdTable.Refinement

/-!
# The cache of the paths of descriptors (`internal/path.c`)

Asking the kernel for the path of a handle is slow, so `get_fd_ntpath_internal` keeps 128 answers. The slot
of a descriptor is the low bits of the sequence number that its entry got when it was registered, and nothing
is taken out of the cache when a descriptor is closed.

* What the kernel says of an open handle does not change while it is open; a handle that comes again after it
  was closed may be of another file.
* `cacheMachine` runs the calls on the table together with the lookups.
* `Coherent` is why an old answer is never given: a number in the cache is no later than the last one given
  out, and an entry of the table with the number and the descriptor of a slot has the path of the slot.
* `cacheMachine_right_iff`: every lookup of a run is right exactly if none is of a descriptor that was
  registered with the type `INVALID_HANDLE`, as `open("/")` does.
-/

namespace WindowsLibc.Path

open WindowsLibc.Lib WindowsLibc.Fcntl

variable {P : Type*}

/-! ## The model -/

/-- `fd_path`. -/
structure FdPath (P : Type*) where
  fd : Int
  sequence : UInt32
  ntPath : Option P

/-- `FD_PATH_CACHE_SLOTS`. -/
def fdPathCacheSlots : Nat := 128

/-- `fd_path_cache`. -/
abbrev FdPathCache (P : Type*) := Fin fdPathCacheSlots → FdPath P

/-- `{{-1, 0, NULL}}`: only the first slot has the descriptor -1. -/
def initialFdPathCache : FdPathCache P := fun i => ⟨if i.val = 0 then -1 else 0, 0, none⟩

/-- `sequence & (FD_PATH_CACHE_SLOTS - 1)`. -/
def slotOf (sequence : UInt32) : Fin fdPathCacheSlots :=
  ⟨(sequence &&& 127).toNat, by
    rw [UInt32.toNat_and]
    exact Nat.lt_of_le_of_lt Nat.and_le_right (by decide)⟩

/-- `check_fd_path_cache`. -/
def checkFdPathCache (cache : FdPathCache P) (fd : Int) (sequence : UInt32) : Option P :=
  let slot := cache (slotOf sequence)
  if sequence = slot.sequence ∧ fd = slot.fd then slot.ntPath else none

/-- `update_fd_path_cache`. The path that was in the slot is freed. -/
def updateFdPathCache (cache : FdPathCache P) (fd : Int) (sequence : UInt32) (ntPath : P) :
    FdPathCache P :=
  Function.update cache (slotOf sequence) ⟨fd, sequence, some ntPath⟩

/-- The table of descriptors, the cache, and the path that the kernel has for each handle. -/
structure State (P : Type*) where
  table : FdTable
  cache : FdPathCache P
  paths : UInt64 → P

/-- `get_handle_ntpath`; `answers` says whether there is memory and the query succeeds. -/
def getHandleNtpath (paths : UInt64 → P) (answers : Bool) (handle : UInt64) : Option P :=
  if answers then some (paths handle) else none

/-- `get_fd_ntpath_internal`; `info` is its uninitialised local. -/
def getFdNtpathInternal (s : State P) (info : FdInfo) (answers : Bool) (fd : Int) :
    State P × Option P :=
  let info := getFdinfo s.table fd info
  if info.type = .invalid then (s, none)
  else
    match checkFdPathCache s.cache fd info.sequence with
    | some path => (s, some path)
    | none =>
      match getHandleNtpath s.paths answers info.handle with
      | some path => ({ s with cache := updateFdPathCache s.cache fd info.sequence path }, some path)
      | none => (s, none)

/-- The calls. A handle that is registered comes with the path of the file it was opened on. -/
inductive CacheCall (P : Type*) where
  | register (heap : Fcntl.Heap) (h : UInt64) (type : HandleType) (flags : UInt32) (path : P)
  | insert (heap : Fcntl.Heap) (fd : Int) (h : UInt64) (type : HandleType) (flags : UInt32) (path : P)
  | close (closed : Bool) (fd : Int)
  | getPath (info : FdInfo) (answers : Bool) (fd : Int)

/-- What a call returns. -/
inductive Answer (P : Type*) where
  | result (r : Result)
  | path (p : Option P)

/-- The table after a call, and the path of the handle that came with it. -/
def State.opened (s : State P) (h : UInt64) (path : P) (r : FdTable × Result) : State P × Answer P :=
  ({ s with table := r.1, paths := Function.update s.paths h path }, .result r.2)

/-- The calls on the table and the lookups. -/
def cacheMachine : Machine (State P) (CacheCall P) (Answer P) where
  step s
    | .register heap h type flags path =>
      (registerToFdTable heap s.table h type flags).map (s.opened h path)
    | .insert heap fd h type flags path =>
      (insertIntoFdTable heap s.table fd h type flags).map (s.opened h path)
    | .close closed fd =>
      (closeFd s.table closed fd).map fun r => ({ s with table := r.1 }, .result r.2)
    | .getPath info answers fd =>
      let r := getFdNtpathInternal s info answers fd
      some (r.1, .path r.2)

/-! ## What a lookup is for -/

/-- The path of the handle that a descriptor is bound to. -/
def State.pathOf (s : State P) (fd : Int) : Option P :=
  (s.table.binding fd).map fun b => s.paths b.handle

/-- A lookup returns the path of its descriptor, or nothing when the kernel does not answer. -/
def Right (s : State P) : CacheCall P → Prop
  | .getPath info answers fd =>
    (getFdNtpathInternal s info answers fd).2 = s.pathOf fd ∨
      answers = false ∧ (getFdNtpathInternal s info answers fd).2 = none
  | _ => True

/-- A descriptor that is looked up was not registered as `INVALID_HANDLE`. -/
def Typed (s : State P) : CacheCall P → Prop
  | .getPath _ answers fd => answers = true → ∀ b ∈ s.table.binding fd, b.type ≠ .invalid
  | _ => True

instance [DecidableEq P] (s : State P) (c : CacheCall P) : Decidable (Right s c) :=
  match c with
  | .getPath _ _ _ => inferInstanceAs (Decidable (_ ∨ _))
  | .register .. | .insert .. | .close .. => .isTrue trivial

instance (s : State P) (c : CacheCall P) : Decidable (Typed s c) :=
  match c with
  | .getPath _ answers fd =>
    inferInstanceAs (Decidable (answers = true → ∀ b ∈ s.table.binding fd, b.type ≠ .invalid))
  | .register .. | .insert .. | .close .. => .isTrue trivial

/-- What the callers guarantee, as for the table alone. -/
def AllowedCall (s : State P) : CacheCall P → Prop
  | .register _ h _ _ _ => Fresh s.table.binding h
  | .insert _ fd h _ _ _ => Fresh s.table.binding h ∧ 0 ≤ fd ∧ fd < 2 ^ 30
  | .close _ fd => validateFd s.table fd = true
  | .getPath _ _ _ => True

/-- How often a descriptor is registered. -/
def registrations (calls : List (CacheCall P)) : Nat :=
  calls.countP fun
    | .register .. | .insert .. => true
    | _ => false

/-! ## The entries after a call -/

variable {t t' : FdTable}

/-- The entries in use are old ones, and `e`. -/
def OnlyNew (t t' : FdTable) (e : FdInfo) : Prop :=
  ∀ (n : Nat) (e' : FdInfo), t'.table[n]? = some e' → e'.handle ≠ 0 →
    t.table[n]? = some e' ∨ e' = e

theorem getElem?_of_append_free {table extra : List FdInfo} (hfree : ∀ e ∈ extra, e.handle = 0)
    {n : Nat} {e : FdInfo} (he : (table ++ extra)[n]? = some e) (hne : e.handle ≠ 0) :
    table[n]? = some e := by
  rcases Nat.lt_or_ge n table.length with hn | hn
  · rwa [List.getElem?_append_left hn] at he
  · rw [List.getElem?_append_right hn] at he
    exact absurd (hfree e (List.mem_of_getElem? he)) hne

theorem internalInsertFd_eq_some {index : Int} {h : UInt64} {type : HandleType} {flags : UInt32}
    {r : Result} (hcall : internalInsertFd t index h type flags = some (t', r)) :
    t'.table = t.table.set index.toNat ⟨h, type, flags, t.sequence + 1⟩ ∧
      t'.sequence = t.sequence + 1 := by
  rw [internalInsertFd] at hcall
  split at hcall
  · cases hcall
    exact ⟨rfl, rfl⟩
  · cases hcall

theorem onlyNew_of_set {i : Nat} {e : FdInfo} (htable : t'.table = t.table.set i e) :
    OnlyNew t t' e := by
  intro n e' he' _
  rw [htable, List.getElem?_set] at he'
  split at he'
  · split at he'
    · exact .inr (Option.some.inj he').symm
    · cases he'
  · exact .inl he'

/-- `register_to_fd_table` gives the next number. -/
theorem registerToFdTable_onlyNew (hw : WellFormed t) {heap : Nat → FdInfo} {h : UInt64}
    {type : HandleType} {flags : UInt32} {r : Result}
    (hcall : registerToFdTable (some heap) t h type flags = some (t', r)) :
    t'.sequence = t.sequence + 1 ∧ OnlyNew t t' ⟨h, type, flags, t.sequence + 1⟩ := by
  simp only [registerToFdTable] at hcall
  split at hcall
  · obtain ⟨htable, hseq⟩ := internalInsertFd_eq_some hcall
    exact ⟨hseq, onlyNew_of_set htable⟩
  · split at hcall
    · cases hcall
    · next t₁ fd hins =>
      cases hcall
      obtain ⟨htable, hseq⟩ := internalInsertFd_eq_some hins
      obtain ⟨extra, hclear, hextra, _⟩ := clearFrom_doubled heap hw.size_pos
        ⟨h, type, flags, t.sequence + 1⟩
      refine ⟨hseq, ?_⟩
      intro n e' he' hne
      -- The doubled table is the old one, the new entry, and free ones.
      rw [htable, castInt_of_lt hw.size_lt, Int.toNat_natCast] at he'
      have hold := getElem?_of_append_free hextra ((congrArg (·[n]?) hclear).symm.trans he') hne
      rcases Nat.lt_or_ge n t.table.length with hn | hn
      · rw [List.getElem?_append_left hn] at hold
        exact .inl hold
      · rw [List.getElem?_append_right hn] at hold
        exact .inr (List.mem_singleton.mp (List.mem_of_getElem? hold))

/-- So does `insert_into_fd_table`. -/
theorem insertIntoFdTable_onlyNew (hw : WellFormed t) {heap : Nat → FdInfo} {fd : Int} {h : UInt64}
    {type : HandleType} {flags : UInt32} {r : Result}
    (hcall : insertIntoFdTable (some heap) t fd h type flags = some (t', r)) :
    t'.sequence = t.sequence + 1 ∧ OnlyNew t t' ⟨h, type, flags, t.sequence + 1⟩ := by
  rw [insertIntoFdTable, castInt_of_lt hw.size_lt] at hcall
  split at hcall
  · next hge =>
    simp only [Int.toNat_natCast] at hcall
    split at hcall
    · obtain ⟨htable, hseq⟩ := internalInsertFd_eq_some hcall
      have hpos := hw.size_pos
      have hle : t.table.length ≤ (fd * 2).toNat := by
        have : t.table.length = t.size := rfl
        omega
      obtain ⟨extra, hclear, hextra, _⟩ := clearFrom_realloc heap t.table hle
      refine ⟨hseq, ?_⟩
      intro n e' he' hne
      rcases onlyNew_of_set htable n e' he' hne with hold | hnew
      · exact .inl (getElem?_of_append_free hextra ((congrArg (·[n]?) hclear).symm.trans hold) hne)
      · exact .inr hnew
    · cases hcall
  · obtain ⟨htable, hseq⟩ := internalInsertFd_eq_some hcall
    exact ⟨hseq, onlyNew_of_set htable⟩

/-- Without memory a call changes nothing, or does what it does with memory. -/
theorem registerToFdTable_none (t : FdTable) (heap : Nat → FdInfo) (h : UInt64) (type : HandleType)
    (flags : UInt32) :
    registerToFdTable none t h type flags = some (t, .error .enomem) ∨
      registerToFdTable none t h type flags = registerToFdTable (some heap) t h type flags := by
  simp only [registerToFdTable]
  split
  · exact .inr rfl
  · exact .inl rfl

theorem insertIntoFdTable_none (t : FdTable) (heap : Nat → FdInfo) (fd : Int) (h : UInt64)
    (type : HandleType) (flags : UInt32) :
    insertIntoFdTable none t fd h type flags = some (t, .error .enomem) ∨
      insertIntoFdTable none t fd h type flags = insertIntoFdTable (some heap) t fd h type flags := by
  simp only [insertIntoFdTable]
  split
  · exact .inl rfl
  · exact .inr rfl

/-- The table after a call that registers `e`, unless it fails. -/
structure Registered (t : FdTable) (e : FdInfo) (t' : FdTable) : Prop where
  wellFormed : WellFormed t'
  entries : t' = t ∨ t'.sequence = e.sequence ∧ OnlyNew t t' e

theorem registerToFdTable_registered (hw : WellFormed t) (heap : Fcntl.Heap) {h : UInt64}
    (hfresh : Fresh t.binding h) (type : HandleType) (flags : UInt32) :
    ∃ r, registerToFdTable heap t h type flags = some r ∧
      Registered t ⟨h, type, flags, t.sequence + 1⟩ r.1 := by
  have hsome : ∀ heap, ∃ r, registerToFdTable (some heap) t h type flags = some r ∧
      Registered t ⟨h, type, flags, t.sequence + 1⟩ r.1 := by
    intro heap
    obtain ⟨t', hcall, _, hw'⟩ := registerToFdTable_spec hw heap hfresh type flags
    exact ⟨_, hcall, hw', .inr (registerToFdTable_onlyNew hw hcall)⟩
  cases heap with
  | some heap => exact hsome heap
  | none =>
    rcases registerToFdTable_none t (fun _ => ⟨0, .invalid, 0, 0⟩) h type flags with hnone | heq
    · exact ⟨_, hnone, hw, .inl rfl⟩
    · rw [heq]
      exact hsome _

theorem insertIntoFdTable_registered (hw : WellFormed t) (heap : Fcntl.Heap) {fd : Int} {h : UInt64}
    (hfresh : Fresh t.binding h) (hfd : 0 ≤ fd) (hmax : fd < 2 ^ 30) (type : HandleType)
    (flags : UInt32) :
    ∃ r, insertIntoFdTable heap t fd h type flags = some r ∧
      Registered t ⟨h, type, flags, t.sequence + 1⟩ r.1 := by
  have hsome : ∀ heap, ∃ r, insertIntoFdTable (some heap) t fd h type flags = some r ∧
      Registered t ⟨h, type, flags, t.sequence + 1⟩ r.1 := by
    intro heap
    obtain ⟨t', hcall, _, hw'⟩ := insertIntoFdTable_spec hw heap hfresh hfd hmax type flags
    exact ⟨_, hcall, hw', .inr (insertIntoFdTable_onlyNew hw hcall)⟩
  cases heap with
  | some heap => exact hsome heap
  | none =>
    rcases insertIntoFdTable_none t (fun _ => ⟨0, .invalid, 0, 0⟩) fd h type flags with hnone | heq
    · exact ⟨_, hnone, hw, .inl rfl⟩
    · rw [heq]
      exact hsome _

/-- `close_fd` leaves no entry in use that was not. -/
theorem closeFd_entries (hw : WellFormed t) {fd : Int} (hvalid : validateFd t fd = true)
    (closed : Bool) :
    ∃ r, closeFd t closed fd = some r ∧ WellFormed r.1 ∧ r.1.sequence = t.sequence ∧
      ∀ (n : Nat) (e : FdInfo), r.1.table[n]? = some e → e.handle ≠ 0 → t.table[n]? = some e := by
  obtain ⟨t', hcall, _, _, hw'⟩ := closeFd_spec hw hvalid
  rw [closeFd] at hcall ⊢
  split at hcall
  · next hin =>
    rw [if_pos hin]
    cases closed with
    | false => exact ⟨_, rfl, hw, rfl, fun _ _ he _ => he⟩
    | true =>
      cases hcall
      refine ⟨_, rfl, hw', rfl, ?_⟩
      intro n e he hne
      simp only [List.getElem?_modify] at he
      obtain ⟨e', he', rfl⟩ := Option.map_eq_some_iff.mp he
      split at hne
      · exact absurd rfl hne
      · next hn => rw [he', if_neg hn]
  · cases hcall

/-! ## Coherence -/

variable {s : State P}

/-- No slot has the path of an earlier handle for an entry of the table. -/
structure Coherent (s : State P) : Prop where
  wellFormed : WellFormed s.table
  numbered : ∀ (n : Nat) e, s.table.table[n]? = some e → e.handle ≠ 0 →
    e.sequence.toNat ≤ s.table.sequence.toNat
  older : ∀ i p, (s.cache i).ntPath = some p → (s.cache i).sequence.toNat ≤ s.table.sequence.toNat
  current : ∀ i p (n : Nat) e, (s.cache i).ntPath = some p → s.table.table[n]? = some e →
    e.handle ≠ 0 → e.sequence = (s.cache i).sequence → (n : Int) = (s.cache i).fd →
      p = s.paths e.handle

/-- A table whose entries got their numbers from its counter, with nothing looked up yet. -/
structure Started (s : State P) : Prop where
  wellFormed : WellFormed s.table
  numbered : ∀ e ∈ s.table.table, e.handle ≠ 0 → e.sequence.toNat ≤ s.table.sequence.toNat
  cache : s.cache = initialFdPathCache

theorem Started.coherent (h : Started s) : Coherent s := by
  have hempty : ∀ i, (s.cache i).ntPath = none := fun i => by rw [h.cache]; rfl
  refine ⟨h.wellFormed, fun n e he => h.numbered e (List.mem_of_getElem? he), ?_, ?_⟩
  · intro i p hp
    cases (hempty i).symm.trans hp
  · intro i p n e hp
    cases (hempty i).symm.trans hp

/-- A handle of the table is not a new one. -/
theorem handle_ne_of_fresh {h : UInt64} (hfresh : Fresh t.binding h) {n : Nat} {e : FdInfo}
    (he : t.table[n]? = some e) (hne : e.handle ≠ 0) : e.handle ≠ h := by
  obtain ⟨hn, rfl⟩ := List.getElem?_eq_some_iff.mp he
  exact hfresh.2 _ _ (binding_of_entry hn hne)

theorem Coherent.opened (hc : Coherent s) {h : UInt64} (hfresh : Fresh s.table.binding h)
    {type : HandleType} {flags : UInt32} {r : FdTable × Result}
    (hreg : Registered s.table ⟨h, type, flags, s.table.sequence + 1⟩ r.1)
    (hnext : (s.table.sequence + 1).toNat = s.table.sequence.toNat + 1) (path : P) :
    Coherent (s.opened h path r).1 := by
  have hpath : ∀ (n : Nat) e, s.table.table[n]? = some e → e.handle ≠ 0 →
      Function.update s.paths h path e.handle = s.paths e.handle :=
    fun n e he hne => Function.update_of_ne (handle_ne_of_fresh hfresh he hne) ..
  rcases hreg.entries with hsame | ⟨hseq, honly⟩
  · refine ⟨hreg.wellFormed, ?_, ?_, ?_⟩ <;> simp only [State.opened, hsame]
    · exact hc.numbered
    · exact hc.older
    · intro i p n e hp he hne hseq hfd
      rw [hpath n e he hne]
      exact hc.current i p n e hp he hne hseq hfd
  · have hnumber : r.1.sequence.toNat = s.table.sequence.toNat + 1 := by rw [hseq]; exact hnext
    refine ⟨hreg.wellFormed, ?_, ?_, ?_⟩ <;> simp only [State.opened]
    · intro n e he hne
      rcases honly n e he hne with hold | rfl
      · have := hc.numbered n e hold hne
        omega
      · exact Nat.le_of_eq (congrArg UInt32.toNat hseq.symm)
    · intro i p hp
      have := hc.older i p hp
      omega
    · intro i p n e hp he hne hsame hfd
      rcases honly n e he hne with hold | rfl
      · rw [hpath n e hold hne]
        exact hc.current i p n e hp hold hne hsame hfd
      · -- The new number is later than any in the cache.
        have hold := hc.older i p hp
        have hnumber : (s.table.sequence + 1).toNat = (s.cache i).sequence.toNat :=
          congrArg UInt32.toNat hsame
        omega

theorem Coherent.closed (hc : Coherent s) {t' : FdTable} (hw : WellFormed t')
    (hseq : t'.sequence = s.table.sequence)
    (hentries : ∀ (n : Nat) (e : FdInfo), t'.table[n]? = some e → e.handle ≠ 0 →
      s.table.table[n]? = some e) : Coherent { s with table := t' } := by
  refine ⟨hw, ?_, ?_, ?_⟩ <;> simp only [hseq]
  · exact fun n e he hne => hc.numbered n e (hentries n e he hne) hne
  · exact hc.older
  · exact fun i p n e hp he hne => hc.current i p n e hp (hentries n e he hne) hne

/-! ## A lookup -/

theorem getFdNtpathInternal_invalid {info : FdInfo} (answers : Bool) {fd : Int}
    (h : (getFdinfo s.table fd info).type = .invalid) :
    getFdNtpathInternal s info answers fd = (s, none) := by
  simp only [getFdNtpathInternal]
  rw [if_pos h]

/-- What the cache has for an entry of the table is its path. -/
theorem Coherent.check (hc : Coherent s) {n : Nat} {e : FdInfo} (he : s.table.table[n]? = some e)
    (hne : e.handle ≠ 0) {p : P} (hp : checkFdPathCache s.cache n e.sequence = some p) :
    p = s.paths e.handle := by
  simp only [checkFdPathCache] at hp
  split at hp
  · next hmatch => exact hc.current _ p n e hp he hne hmatch.1 hmatch.2
  · cases hp

/-- A slot that is filled with the path of an entry of the table. -/
theorem Coherent.update (hc : Coherent s) {n : Nat} {e : FdInfo} (he : s.table.table[n]? = some e)
    (hne : e.handle ≠ 0) :
    Coherent { s with cache := updateFdPathCache s.cache n e.sequence (s.paths e.handle) } := by
  refine ⟨hc.wellFormed, hc.numbered, ?_, ?_⟩
  · intro i p hp
    simp only [updateFdPathCache] at hp ⊢
    by_cases hi : i = slotOf e.sequence
    · rw [hi, Function.update_self]
      exact hc.numbered n e he hne
    · rw [Function.update_of_ne hi] at hp ⊢
      exact hc.older i p hp
  · intro i p m e' hp he' hne' hseq hfd
    simp only [updateFdPathCache] at hp hseq hfd
    by_cases hi : i = slotOf e.sequence
    · rw [hi, Function.update_self] at hp hfd
      rw [Int.ofNat_inj.mp hfd, he] at he'
      rw [← Option.some.inj he']
      exact (Option.some.inj hp).symm
    · rw [Function.update_of_ne hi] at hp hseq hfd
      exact hc.current i p m e' hp he' hne' hseq hfd

/-- A lookup of a descriptor in use. -/
theorem Coherent.getPath_bound (hc : Coherent s) {n : Nat} {e : FdInfo}
    (he : s.table.table[n]? = some e) (hne : e.handle ≠ 0) (info : FdInfo) (answers : Bool)
    (htype : e.type ≠ .invalid) :
    Coherent (getFdNtpathInternal s info answers n).1 ∧
      (getFdNtpathInternal s info answers n).1.table = s.table ∧
      ((getFdNtpathInternal s info answers n).2 = some (s.paths e.handle) ∨
        answers = false ∧ (getFdNtpathInternal s info answers n).2 = none) := by
  obtain ⟨hn, hget⟩ := List.getElem?_eq_some_iff.mp he
  have hbound := binding_of_entry hn (hget ▸ hne)
  have hinfo : getFdinfo s.table n info = e := by
    rw [getFdinfo, validateFd_eq hc.wellFormed, hbound, Option.isSome_some, if_pos rfl,
      Int.toNat_natCast, he, Option.getD_some]
  simp only [getFdNtpathInternal, hinfo]
  rw [if_neg htype]
  cases hcheck : checkFdPathCache s.cache n e.sequence with
  | some p =>
    rw [hc.check he hne hcheck]
    exact ⟨hc, rfl, .inl rfl⟩
  | none =>
    cases answers with
    | true => exact ⟨hc.update he hne, rfl, .inl rfl⟩
    | false => exact ⟨hc, rfl, .inr ⟨rfl, rfl⟩⟩

/-- A lookup keeps the cache coherent, and is right exactly if its descriptor has a type. -/
theorem Coherent.getPath (hc : Coherent s) (info : FdInfo) (answers : Bool) (fd : Int) :
    Coherent (getFdNtpathInternal s info answers fd).1 ∧
      (getFdNtpathInternal s info answers fd).1.table = s.table ∧
      (Right s (.getPath info answers fd) ↔ Typed s (.getPath info answers fd)) := by
  cases hb : s.table.binding fd with
  | none =>
    have hnone := getFdNtpathInternal_invalid answers
      (congrArg FdInfo.type (getFdinfo_unbound hc.wellFormed hb info))
    have hright : Right s (.getPath info answers fd) := by
      simp only [Right, hnone, State.pathOf, hb]
      exact .inl rfl
    have htyped : Typed s (.getPath info answers fd) := by
      intro _ b hb'
      cases hb.symm.trans hb'
    exact ⟨hnone ▸ hc, by rw [hnone], iff_of_true hright htyped⟩
  | some b =>
    have hbtype := (getFdinfo_bound hc.wellFormed hb info).2.1
    have hpath : s.pathOf fd = some (s.paths b.handle) := by rw [State.pathOf, hb]; rfl
    by_cases htype : b.type = .invalid
    · have hnone := getFdNtpathInternal_invalid answers (hbtype.trans htype)
      refine ⟨hnone ▸ hc, by rw [hnone], ?_⟩
      simp only [Right, Typed, hnone, hpath, hb]
      constructor
      · rintro (h | ⟨h, _⟩) hanswers
        · cases h
        · cases h.symm.trans hanswers
      · intro h
        cases answers with
        | false => exact .inr (by decide)
        | true => exact absurd htype (h rfl b rfl)
    · obtain ⟨n, hn, rfl, hne, rfl⟩ := entry_of_binding hb
      obtain ⟨hc', htable, hright⟩ := hc.getPath_bound (List.getElem?_eq_getElem hn) hne info answers htype
      refine ⟨hc', htable, iff_of_true ?_ ?_⟩
      · rw [← hpath] at hright
        exact hright
      · intro _ b' hb'
        cases hb.symm.trans hb'
        exact htype

/-! ## Runs -/

theorem registrations_cons (c : CacheCall P) (calls : List (CacheCall P)) :
    registrations (c :: calls) = registrations [c] + registrations calls :=
  @List.countP_append _ _ [c] calls

theorem toNat_add_one {x : UInt32} (h : x.toNat + 1 < 2 ^ 32) : (x + 1).toNat = x.toNat + 1 := by
  rw [UInt32.toNat_add]
  exact Nat.mod_eq_of_lt h

/-- A call that may register takes at most one number. -/
theorem Coherent.opens (hc : Coherent s) {h : UInt64} (hfresh : Fresh s.table.binding h)
    {type : HandleType} {flags : UInt32} {call : Option (FdTable × Result)} (path : P)
    (hcall : ∃ r, call = some r ∧
      Registered s.table ⟨h, type, flags, s.table.sequence + 1⟩ r.1) {n : Nat}
    (hcount : s.table.sequence.toNat + (1 + n) < 2 ^ 32) :
    ∃ s' a, call.map (s.opened h path) = some (s', a) ∧ Coherent s' ∧
      s'.table.sequence.toNat + n < 2 ^ 32 := by
  obtain ⟨r, rfl, hreg⟩ := hcall
  have hnext := toNat_add_one (x := s.table.sequence) (by omega)
  refine ⟨_, _, rfl, hc.opened hfresh hreg hnext path, ?_⟩
  show r.1.sequence.toNat + n < 2 ^ 32
  rcases hreg.entries with hsame | ⟨hseq, _⟩
  · rw [hsame]
    omega
  · rw [hseq, hnext]
    omega

/-- A call keeps the cache coherent, and takes a number only if it registers. -/
theorem Coherent.step (hc : Coherent s) {c : CacheCall P} (hallowed : AllowedCall s c) {n : Nat}
    (hcount : s.table.sequence.toNat + (registrations [c] + n) < 2 ^ 32) :
    ∃ s' a, cacheMachine.step s c = some (s', a) ∧ Coherent s' ∧
      s'.table.sequence.toNat + n < 2 ^ 32 := by
  cases c with
  | register heap h type flags path =>
    exact hc.opens hallowed path
      (registerToFdTable_registered hc.wellFormed heap hallowed type flags) hcount
  | insert heap fd h type flags path =>
    obtain ⟨hfresh, hfd, hmax⟩ := hallowed
    exact hc.opens hfresh path
      (insertIntoFdTable_registered hc.wellFormed heap hfresh hfd hmax type flags) hcount
  | close closed fd =>
    obtain ⟨r, hcall, hw, hseq, hentries⟩ := closeFd_entries hc.wellFormed hallowed closed
    refine ⟨_, _, congrArg (Option.map _) hcall, hc.closed hw hseq hentries, ?_⟩
    show r.1.sequence.toNat + n < 2 ^ 32
    rw [hseq]
    omega
  | getPath info answers fd =>
    obtain ⟨hc', hseq, _⟩ := hc.getPath info answers fd
    refine ⟨_, _, rfl, hc', ?_⟩
    show (getFdNtpathInternal s info answers fd).1.table.sequence.toNat + n < 2 ^ 32
    rw [hseq]
    omega

theorem Coherent.right_iff (hc : Coherent s) (c : CacheCall P) : Right s c ↔ Typed s c := by
  cases c with
  | getPath info answers fd => exact (hc.getPath info answers fd).2.2
  | _ => exact Iff.rfl

theorem Coherent.along_iff (calls : List (CacheCall P)) :
    ∀ {s : State P}, Coherent s → s.table.sequence.toNat + registrations calls < 2 ^ 32 →
      cacheMachine.Along AllowedCall s calls →
      (cacheMachine.Along Right s calls ↔ cacheMachine.Along Typed s calls) := by
  induction calls with
  | nil => exact fun _ _ _ => Iff.rfl
  | cons c calls ih =>
    rintro s hc hcount ⟨hallowed, hrest⟩
    rw [registrations_cons] at hcount
    obtain ⟨s', a, hstep, hc', hcount'⟩ := hc.step hallowed hcount
    rw [Machine.along_cons hstep, Machine.along_cons hstep, hc.right_iff c,
      ih hc' hcount' (hrest s' a hstep)]

/-- **Coherence.** From a table that was just set up, with fewer than 2^32 registrations in all, every
lookup of a run returns the path of the handle that its descriptor is bound to, and nothing for a
descriptor that is not bound, exactly if none is of a descriptor registered as `INVALID_HANDLE`. -/
theorem cacheMachine_right_iff {s : State P} (hs : Started s) (calls : List (CacheCall P))
    (hcount : s.table.sequence.toNat + registrations calls < 2 ^ 32)
    (hallowed : cacheMachine.Along AllowedCall s calls) :
    cacheMachine.Along Right s calls ↔ cacheMachine.Along Typed s calls :=
  Coherent.along_iff calls hs.coherent hcount hallowed

/-- The start of a process without standard handles. -/
def emptyState : State String := ⟨emptyTable, initialFdPathCache, fun _ => ""⟩

theorem started_emptyState : Started emptyState := by
  refine ⟨wellFormed_emptyTable, ?_, rfl⟩
  intro e he hne
  exact absurd (congrArg FdInfo.handle (List.eq_of_mem_replicate he)) hne

/-- A descriptor is looked up, closed and used for another file with the same handle. -/
def reopened : List (CacheCall String) :=
  [.register none 4 .directory 0 "\\Device\\HarddiskVolume1\\", .getPath ⟨0, .file, 0, 0⟩ true 0,
    .close true 0, .register none 4 .file 0 "\\Device\\HarddiskVolume1\\a",
    .getPath ⟨0, .file, 0, 0⟩ true 0]

theorem allowed_reopened : cacheMachine.Along AllowedCall emptyState reopened := by
  refine ⟨fresh_of_entries (by decide) (by decide), ?_⟩
  rintro s a ⟨⟩
  refine ⟨trivial, ?_⟩
  rintro s a ⟨⟩
  refine ⟨?_, ?_⟩
  · show validateFd _ 0 = true
    decide
  rintro s a ⟨⟩
  refine ⟨fresh_of_entries (by decide) (by decide), ?_⟩
  rintro s a ⟨⟩
  exact ⟨trivial, fun _ _ _ => trivial⟩

theorem reopened_right : cacheMachine.Along Right emptyState reopened :=
  (cacheMachine_right_iff started_emptyState reopened (by decide) allowed_reopened).mpr (by decide)

/-- `open("/")` and a lookup. -/
def openedRoot : List (CacheCall String) :=
  [.register none 4 .invalid 0 "\\Device\\HarddiskVolume1\\", .getPath ⟨0, .file, 0, 0⟩ true 0]

theorem not_openedRoot_right :
    Started emptyState ∧ cacheMachine.Along AllowedCall emptyState openedRoot ∧
      ¬ cacheMachine.Along Right emptyState openedRoot := by
  refine ⟨started_emptyState, ⟨fresh_of_entries (by decide) (by decide), ?_⟩, by decide⟩
  rintro s a ⟨⟩
  exact ⟨trivial, fun _ _ _ => trivial⟩

end WindowsLibc.Path
