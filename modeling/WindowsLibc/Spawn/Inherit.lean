import Mathlib.Data.List.GetD
import WindowsLibc.Fcntl.FdTable.Refinement
import WindowsLibc.Fcntl.Init

/-!
# Descriptors for a child (`spawn/spawn.c`)

`initialize_inherit_information` copies the table of the parent, and
`give_inherit_information_to_startupinfo` packs it into the block that the child finds in `RuntimeData`. The
size of the block is a `WORD`, which is too small from 7282 descriptors on.

* A store outside of the block is a fault, `none`.
* `Encoded` says what the block has; `inheritFd` of the child reads just that (`Encoded.says`).
* `inherits_iff`: the child has the handles of the parent exactly if the descriptors in use end in time.
-/

namespace WindowsLibc.Spawn

open WindowsLibc.Lib WindowsLibc.Fcntl

/-! ## The copy -/

/-- `inherit_fdinfo`. -/
structure InheritFdinfo where
  handle : UInt64
  type : HandleType
  flags : UInt32
  deriving DecidableEq, Repr

/-- `inherit_information`: the entries of the descriptors from 0 to `fds`. -/
abbrev InheritInformation := List InheritFdinfo

/-- The fields that are copied. -/
def InheritFdinfo.ofFdInfo (e : FdInfo) : InheritFdinfo := ⟨e.handle, e.type, e.flags⟩

/-- A descriptor that is not in use. -/
def InheritFdinfo.none : InheritFdinfo := ⟨0, .invalid, 0⟩

/-- `initialize_inherit_information`; `alloc` is the answer of the allocator. The sum `max_fd + 1` is
signed. -/
def initializeInheritInformation (alloc : Bool) (t : FdTable) (maxFd : Int) :
    Option (Except Errno InheritInformation) :=
  if 0 ≤ maxFd ∧ maxFd + 1 < 2 ^ 31 then
    if alloc then
      some (.ok ((List.range (maxFd.toNat + 1)).map fun (i : Nat) =>
        if (i : Int) < castInt t.size then ((t.table[i]?).map .ofFdInfo).getD .none else .none))
    else some (.error .enomem)
  else none

theorem length_initialize {alloc : Bool} {t : FdTable} {maxFd : Int} {info : InheritInformation}
    (h : initializeInheritInformation alloc t maxFd = some (.ok info)) :
    (info.length : Int) = maxFd + 1 := by
  unfold initializeInheritInformation at h
  split at h
  · next hint =>
    split at h
    · rw [← Except.ok.inj (Option.some.inj h), List.length_map, List.length_range]
      omega
    · exact absurd (Option.some.inj h) (by simp)
  · cases h

/-! ## The block -/

/-- The fields of `STARTUPINFOW` that are set here. -/
structure StartupInfo where
  useStdHandles : Bool := false
  cbReserved2 : UInt16 := 0
  lpReserved2 : List UInt8 := []
  hStdInput : UInt64 := 0
  hStdOutput : UInt64 := 0
  hStdError : UInt64 := 0

/-- The highest descriptor with a handle, or 0. -/
def realMaxFd (info : InheritInformation) : Nat :=
  (List.range info.length).foldl
    (fun max i => if (info.getD i .none).handle ≠ 0 then i else max) 0

/-- The byte of flags: `FOPEN_FLAG`, `FAPPEND_FLAG`, `FPIPE_FLAG` and `FDEV_FLAG`. -/
def osfileFlag (e : InheritFdinfo) : UInt8 :=
  let flag : UInt8 := fopenFlag
  let flag := if e.flags &&& oAppend ≠ 0 then flag ||| 0x20 else flag
  if e.type = .pipe then flag ||| 0x08
  else if e.type = .console ∨ e.type = .null then flag ||| 0x40
  else flag

/-- The handle that is passed. -/
def passedHandle (e : InheritFdinfo) : UInt64 := if e.handle ≠ 0 then e.handle else invalidHandleValue

/-- A turn of the loop over the descriptors. -/
def giveFd (info : InheritInformation) (number : Nat) (s : StartupInfo) (i : Nat) :
    Option StartupInfo := do
  let e := info.getD i .none
  let block ← poke s.lpReserved2 (4 + i) [osfileFlag e]
  let block ← poke block (4 + number + i * 8) (leBytes 8 (passedHandle e).toNat)
  return { s with
    lpReserved2 := block
    hStdInput := if i = 0 then e.handle else s.hStdInput
    hStdOutput := if i = 1 then e.handle else s.hStdOutput
    hStdError := if i = 2 then e.handle else s.hStdError }

/-- `give_inherit_information_to_startupinfo`; `heap` is what the heap has at the place of the block. -/
def giveInheritInformationToStartupinfo (heap : Option (Nat → UInt8)) (info : InheritInformation) :
    Option (Except Errno StartupInfo) := do
  let number := realMaxFd info + 1
  let cbReserved2 := UInt16.ofNat (4 + (8 + 1) * number)
  match heap with
  | none => return .error .enomem
  | some heap =>
    let block ← poke ((List.range cbReserved2.toNat).map heap) 0 (leBytes 4 number)
    let s : StartupInfo := {
      useStdHandles := true
      cbReserved2 := cbReserved2
      lpReserved2 := block }
    let s ← (List.range number).foldlM (giveFd info number) s
    return .ok s

/-- The parameters of a child that is created with `s`. -/
def StartupInfo.parameters (s : StartupInfo) (consoleHandle : UInt64) : ProcessParameters where
  consoleHandle := consoleHandle
  standardInput := s.hStdInput
  standardOutput := s.hStdOutput
  standardError := s.hStdError
  runtimeData := some s.lpReserved2

/-! ## What the block has -/

variable {info : InheritInformation} {number : Nat} {s s' : StartupInfo}

/-- The block has the number, and the flags and the handles of the first `n` descriptors. -/
structure Encoded (info : InheritInformation) (number n : Nat) (block : List UInt8) : Prop where
  count : peek block 0 4 = some (leBytes 4 number)
  flag : ∀ i < n, peek block (4 + i) 1 = some [osfileFlag (info.getD i .none)]
  handle : ∀ i < n, peek block (4 + number + i * 8) 8 =
    some (leBytes 8 (passedHandle (info.getD i .none)).toNat)

/-- **A turn encodes one more descriptor**, if there is room. -/
theorem giveFd_encodes {n : Nat} (hn : n < number) (h : Encoded info number n s.lpReserved2)
    (hsize : 4 + 9 * number ≤ s.lpReserved2.length) :
    ∃ s', giveFd info number s n = some s' ∧ Encoded info number (n + 1) s'.lpReserved2 ∧
      s'.lpReserved2.length = s.lpReserved2.length := by
  obtain ⟨block₁, hflag⟩ := @exists_poke s.lpReserved2 [osfileFlag (info.getD n .none)]
    (4 + n) (by rw [List.length_singleton]; omega)
  have hlength₁ := length_poke hflag
  obtain ⟨block₂, hhandle⟩ := @exists_poke block₁
    (leBytes 8 (passedHandle (info.getD n .none)).toNat) (4 + number + n * 8) (by rw [length_leBytes]; omega)
  have hlength₂ := length_poke hhandle
  unfold giveFd
  simp only [hflag, hhandle, Option.bind_eq_bind, Option.bind_some]
  refine ⟨_, rfl, ?_, hlength₂.trans hlength₁⟩
  have hkeeps {off k : Nat} (h₁ : off + k ≤ 4 + n ∨ 4 + n + 1 ≤ off)
      (h₂ : off + k ≤ 4 + number + n * 8 ∨ 4 + number + n * 8 + 8 ≤ off) :
      peek block₂ off k = peek s.lpReserved2 off k := by
    rw [peek_poke_disjoint hhandle (by rw [length_leBytes]; exact h₂),
      peek_poke_disjoint hflag (by rw [List.length_singleton]; exact h₁)]
  refine ⟨?_, ?_, ?_⟩
  · rw [hkeeps (by omega) (by omega)]
    exact h.count
  · intro i hi
    rcases Nat.lt_succ_iff_lt_or_eq.mp hi with hlt | rfl
    · rw [hkeeps (by omega) (by omega)]
      exact h.flag i hlt
    · rw [peek_poke_disjoint hhandle (by omega)]
      exact peek_poke hflag
  · intro i hi
    rcases Nat.lt_succ_iff_lt_or_eq.mp hi with hlt | rfl
    · rw [hkeeps (by omega) (by omega)]
      exact h.handle i hlt
    · have hself := peek_poke hhandle
      rwa [length_leBytes] at hself

theorem giveFds_encodes {n : Nat} (hn : n ≤ number) (h : Encoded info number 0 s.lpReserved2)
    (hsize : 4 + 9 * number ≤ s.lpReserved2.length) :
    ∃ s', (List.range n).foldlM (giveFd info number) s = some s' ∧
      Encoded info number n s'.lpReserved2 ∧ s'.lpReserved2.length = s.lpReserved2.length := by
  induction n with
  | zero => exact ⟨s, rfl, h, rfl⟩
  | succ n ih =>
    obtain ⟨s₁, hloop, hencoded, hlength⟩ := ih (Nat.le_of_succ_le hn)
    obtain ⟨s₂, hturn, hencoded₂, hlength₂⟩ := giveFd_encodes hn hencoded (by rwa [hlength])
    refine ⟨s₂, ?_, hencoded₂, hlength₂.trans hlength⟩
    rw [List.range_succ, List.foldlM_append, hloop]
    simp only [List.foldlM_cons, List.foldlM_nil, Option.bind_eq_bind, Option.bind_some, hturn]
    rfl

/-- **The block is complete**, if its size has not been cut off. -/
theorem give_encodes (heap : Nat → UInt8) (info : InheritInformation)
    (hsize : 4 + 9 * (realMaxFd info + 1) < 2 ^ 16) :
    ∃ s, giveInheritInformationToStartupinfo (some heap) info = some (.ok s) ∧
      Encoded info (realMaxFd info + 1) (realMaxFd info + 1) s.lpReserved2 := by
  have hcb : (UInt16.ofNat (4 + (8 + 1) * (realMaxFd info + 1))).toNat =
      4 + 9 * (realMaxFd info + 1) := by
    rw [UInt16.toNat_ofNat', Nat.mod_eq_of_lt hsize]
  have hlength : ((List.range (4 + 9 * (realMaxFd info + 1))).map heap).length =
      4 + 9 * (realMaxFd info + 1) := by
    rw [List.length_map, List.length_range]
  obtain ⟨block, hcount⟩ := @exists_poke
    ((List.range (4 + 9 * (realMaxFd info + 1))).map heap) (leBytes 4 (realMaxFd info + 1)) 0
    (by rw [hlength, length_leBytes]; omega)
  have hpeek := peek_poke hcount
  rw [length_leBytes] at hpeek
  have hempty : Encoded info (realMaxFd info + 1) 0 block :=
    ⟨hpeek, fun i hi => absurd hi (Nat.not_lt_zero i), fun i hi => absurd hi (Nat.not_lt_zero i)⟩
  obtain ⟨s, hloop, hencoded, -⟩ := giveFds_encodes
    (s := { useStdHandles := true, cbReserved2 := .ofNat (4 + (8 + 1) * (realMaxFd info + 1)), lpReserved2 := block })
    (Nat.le_refl _) hempty (by rw [length_poke hcount, hlength])
  refine ⟨s, ?_, hencoded⟩
  unfold giveInheritInformationToStartupinfo
  dsimp only
  rw [hcb]
  simp only [hcount, Option.bind_eq_bind, Option.bind_some, hloop]
  rfl

/-- What a turn that does not fault needs. -/
theorem giveFd_le {i : Nat} (h : giveFd info number s i = some s') :
    4 + number + i * 8 + 8 ≤ s.lpReserved2.length ∧ s'.lpReserved2.length = s.lpReserved2.length := by
  unfold giveFd at h
  obtain ⟨block₁, hflag, h⟩ := Option.bind_eq_some_iff.mp h
  obtain ⟨block₂, hhandle, h⟩ := Option.bind_eq_some_iff.mp h
  cases h
  have hle := (poke_le hhandle).1
  rw [length_leBytes, length_poke hflag] at hle
  exact ⟨hle, (length_poke hhandle).trans (length_poke hflag)⟩

theorem giveFds_length {fds : List Nat} (h : fds.foldlM (giveFd info number) s = some s') :
    s'.lpReserved2.length = s.lpReserved2.length := by
  induction fds generalizing s with
  | nil =>
    cases h
    rfl
  | cons i fds ih =>
    rw [List.foldlM_cons] at h
    obtain ⟨s₁, hturn, h⟩ := Option.bind_eq_some_iff.mp h
    rw [ih h, (giveFd_le hturn).2]

/-- **A block whose size has been cut off is overrun.** -/
theorem give_faults (heap : Nat → UInt8) (info : InheritInformation)
    (hsize : 2 ^ 16 ≤ 4 + 9 * (realMaxFd info + 1)) :
    giveInheritInformationToStartupinfo (some heap) info = none := by
  by_contra hne
  obtain ⟨result, h⟩ := Option.ne_none_iff_exists'.mp hne
  unfold giveInheritInformationToStartupinfo at h
  obtain ⟨block, hcount, h⟩ := Option.bind_eq_some_iff.mp h
  obtain ⟨s, hloop, -⟩ := Option.bind_eq_some_iff.mp h
  -- the last handle ends where the block should
  rw [List.range_succ, List.foldlM_append] at hloop
  obtain ⟨s₁, hfirst, hlast⟩ := Option.bind_eq_some_iff.mp hloop
  rw [List.foldlM_cons] at hlast
  obtain ⟨s₂, hturn, -⟩ := Option.bind_eq_some_iff.mp hlast
  have hle := (giveFd_le hturn).1
  rw [giveFds_length hfirst] at hle
  change _ ≤ block.length at hle
  rw [length_poke hcount, List.length_map, List.length_range] at hle
  have hword := (UInt16.ofNat (4 + (8 + 1) * (realMaxFd info + 1))).toNat_lt
  omega

/-! ## The child -/

theorem osfileFlag_open (e : InheritFdinfo) : osfileFlag e &&& fopenFlag ≠ 0 := by
  unfold osfileFlag
  dsimp only
  split_ifs <;> decide

/-- **The child reads what the parent has written**: the handle, or NULL where there is none. -/
theorem Encoded.says {block : List UInt8} {k : Kernel} {i : Nat} (h : Encoded info number number block)
    (hi : i < number)
    (hvalid : ∀ e ∈ info, e.handle ≠ 0 →
      e.handle ≠ invalidHandleValue ∧ determineHandleType k e.handle ≠ .invalid) :
    Says k block number i (info.getD i .none).handle := by
  have hword (x : UInt64) : UInt64.ofNat (leNat (leBytes 8 x.toNat)) = x := by
    rw [leNat_leBytes, Nat.mod_eq_of_lt (show x.toNat < 256 ^ 8 from x.toNat_lt)]
    exact UInt64.ofNat_toNat
  refine ⟨_, _, h.flag i hi, h.handle i hi, osfileFlag_open _, ?_⟩
  rw [hword]
  unfold passedHandle
  by_cases hzero : (info.getD i .none).handle = 0
  · rw [if_neg (not_not.mpr hzero)]
    exact .inl ⟨hzero, rfl⟩
  · rw [if_pos hzero]
    refine .inr ⟨rfl, hvalid _ ?_ hzero⟩
    rw [List.getD_eq_getElem?_getD] at hzero ⊢
    cases hentry : info[i]? with
    | none =>
      rw [hentry] at hzero
      exact absurd rfl hzero
    | some e => exact List.mem_of_getElem? hentry

theorem realMaxFd_spec (info : InheritInformation) :
    (∀ i, (info.getD i .none).handle ≠ 0 → i ≤ realMaxFd info) ∧
      (realMaxFd info = 0 ∨ (info.getD (realMaxFd info) .none).handle ≠ 0) ∧
      (realMaxFd info = 0 ∨ realMaxFd info < info.length) := by
  have hloop (n max : Nat) (h : (List.range n).foldl
      (fun max i => if (info.getD i .none).handle ≠ 0 then i else max) 0 = max) :
      (∀ i < n, (info.getD i .none).handle ≠ 0 → i ≤ max) ∧
        (max = 0 ∨ (info.getD max .none).handle ≠ 0) ∧ (max = 0 ∨ max < n) := by
    induction n generalizing max with
    | zero =>
      cases h
      exact ⟨fun i hi => absurd hi (Nat.not_lt_zero i), .inl rfl, .inl rfl⟩
    | succ n ih =>
      rw [List.range_succ, List.foldl_append, List.foldl_cons, List.foldl_nil] at h
      obtain ⟨hle, hused, hlt⟩ := ih _ rfl
      subst h
      split
      · next hn => exact ⟨fun i hi _ => Nat.le_of_lt_succ hi, .inr hn, .inr (Nat.lt_succ_self n)⟩
      · next hn =>
        refine ⟨fun i hi hne => ?_, hused, hlt.imp_right Nat.lt_succ_of_lt⟩
        rcases Nat.lt_succ_iff_lt_or_eq.mp hi with hi | rfl
        · exact hle i hi hne
        · exact absurd hne hn
  obtain ⟨hle, hused, hlt⟩ := hloop info.length (realMaxFd info) rfl
  refine ⟨fun i hne => ?_, hused, hlt⟩
  by_cases hi : i < info.length
  · exact hle i hi hne
  · rw [List.getD_eq_default _ _ (Nat.not_lt.mp hi)] at hne
    exact absurd rfl hne

/-! ## From the table of the parent to the table of the child -/

/-- The child finds the handles of the parent: for every descriptor from 3 up to the highest one in use the
same handle, or NULL for one that is not in use. -/
def Inherits (k : Kernel) (heap : Nat → UInt8) (heap' : Nat → FdInfo) (consoleHandle : UInt64)
    (t : FdTable) (maxFd : Int) : Prop :=
  ∃ info s child, initializeInheritInformation true t maxFd = some (.ok info) ∧
    giveInheritInformationToStartupinfo (some heap) info = some (.ok s) ∧
    initFdTable k (some heap') (s.parameters consoleHandle) = some (.ok child) ∧
    ∀ i : Nat, 3 ≤ i → (∃ j : Nat, i ≤ j ∧ t.binding j ≠ none) →
      child.handleAt i = some (((t.binding i).map Binding.handle).getD 0)

variable {t : FdTable} {maxFd : Int}

theorem handle_binding (t : FdTable) (i : Nat) :
    ((t.binding i).map Binding.handle).getD 0 = ((t.table[i]?).map FdInfo.handle).getD 0 := by
  rw [FdTable.binding, bindings_natCast]
  cases t.table[i]? with
  | none => rfl
  | some e =>
    rw [Option.bind_some, FdInfo.binding]
    split
    · next hzero => exact hzero.symm
    · rfl

/-- The copy, and the handles in it. -/
theorem initialize_spec (hsize : t.size < 2 ^ 31) (hmax : t.size ≤ maxFd + 1)
    (hint : 0 ≤ maxFd ∧ maxFd + 1 < 2 ^ 31) :
    ∃ info, initializeInheritInformation true t maxFd = some (.ok info) ∧ info.length < 2 ^ 31 ∧
      ∀ i : Nat, (info.getD i .none).handle = ((t.binding i).map Binding.handle).getD 0 := by
  rw [initializeInheritInformation, if_pos hint, if_pos rfl, castInt_of_lt hsize]
  refine ⟨_, rfl, ?_, ?_⟩
  · rw [List.length_map, List.length_range]
    omega
  · intro i
    rw [handle_binding, List.getD_eq_getElem?_getD, List.getElem?_map]
    by_cases hi : i < maxFd.toNat + 1
    · rw [List.getElem?_range hi, Option.map_some, Option.getD_some]
      split
      · cases t.table[i]? <;> rfl
      · next hge => rw [List.getElem?_eq_none (Int.ofNat_le.mp (Int.not_lt.mp hge))]; rfl
    · have hout : t.size ≤ i := by omega
      rw [List.getElem?_eq_none (by rw [List.length_range]; omega), List.getElem?_eq_none hout]
      rfl

theorem binding_iff_handle (hhandles : ∀ i : Nat,
      (info.getD i .none).handle = ((t.binding i).map Binding.handle).getD 0) (i : Nat) :
    (info.getD i .none).handle ≠ 0 ↔ t.binding i ≠ none := by
  rw [hhandles, handle_binding, FdTable.binding, bindings_natCast]
  cases t.table[i]? with
  | none => exact ⟨fun h => absurd rfl h, fun h => absurd rfl h⟩
  | some e =>
    rw [Option.bind_some, FdInfo.binding]
    split
    · next hzero => exact ⟨fun h => absurd hzero h, fun h => absurd rfl h⟩
    · next hne => exact ⟨fun _ => Option.some_ne_none _, fun _ => hne⟩

/-- The block of a parent whose child inherits has not been overrun. -/
theorem Inherits.low {k : Kernel} {heap : Nat → UInt8} {heap' : Nat → FdInfo} {consoleHandle : UInt64}
    (h : Inherits k heap heap' consoleHandle t maxFd) (hsize : t.size < 2 ^ 31)
    (hmax : t.size ≤ maxFd + 1) (hint : 0 ≤ maxFd ∧ maxFd + 1 < 2 ^ 31) {fd : Int} {b : Binding}
    (hb : t.binding fd = some b) : fd ≤ 7280 := by
  obtain ⟨info, s, child, hinit, hgive, -, -⟩ := h
  obtain ⟨info', hinit', -, hhandles⟩ := initialize_spec hsize hmax hint
  rw [hinit'] at hinit
  cases hinit
  have hroom : 4 + 9 * (realMaxFd info + 1) < 2 ^ 16 := by
    by_contra hfull
    rw [give_faults heap info (Nat.not_lt.mp hfull)] at hgive
    cases hgive
  obtain ⟨n, -, rfl, -, -⟩ := entry_of_binding hb
  have hn := (realMaxFd_spec info).1 n
    ((binding_iff_handle hhandles n).mpr (by rw [hb]; exact Option.some_ne_none b))
  omega

/-- **The child has the descriptors of the parent exactly if none above 7280 is in use.** -/
theorem inherits_iff (k : Kernel) (heap : Nat → UInt8) (heap' : Nat → FdInfo) (consoleHandle : UInt64)
    (hsize : t.size < 2 ^ 31) (hmax : t.size ≤ maxFd + 1) (hint : 0 ≤ maxFd ∧ maxFd + 1 < 2 ^ 31)
    (hvalid : ∀ fd b, t.binding fd = some b →
      b.handle ≠ invalidHandleValue ∧ determineHandleType k b.handle ≠ .invalid) :
    Inherits k heap heap' consoleHandle t maxFd ↔ ∀ fd b, t.binding fd = some b → fd ≤ 7280 := by
  refine ⟨fun h fd b hb => h.low hsize hmax hint hb, fun hlow => ?_⟩
  obtain ⟨info, hinit, hlength, hhandles⟩ := initialize_spec hsize hmax hint
  obtain ⟨hhighest, hused, hlt⟩ := realMaxFd_spec info
  have hbound := binding_iff_handle hhandles
  have hroom : 4 + 9 * (realMaxFd info + 1) < 2 ^ 16 := by
    rcases hused with hzero | hne
    · omega
    · obtain ⟨b, hb⟩ := Option.ne_none_iff_exists'.mp ((hbound _).mp hne)
      have hle := hlow _ b hb
      omega
  obtain ⟨s, hgive, hencoded⟩ := give_encodes heap info hroom
  have hentries : ∀ e ∈ info, e.handle ≠ 0 →
      e.handle ≠ invalidHandleValue ∧ determineHandleType k e.handle ≠ .invalid := by
    intro e he hne
    obtain ⟨i, hi, rfl⟩ := List.getElem_of_mem he
    have hget : info.getD i .none = info[i] := List.getD_eq_getElem _ _ hi
    obtain ⟨b, hb⟩ := Option.ne_none_iff_exists'.mp ((hbound i).mp (by rwa [hget]))
    have heq := hhandles i
    rw [hget, hb] at heq
    rw [heq]
    exact hvalid _ b hb
  obtain ⟨child, hchild, htable⟩ := @initFdTable_spec _ k heap' (s.parameters consoleHandle) _
    (fun i => (info.getD i .none).handle) rfl
    (show (peek s.lpReserved2 0 4).map leNat = some (realMaxFd info + 1) by
      rw [hencoded.count, Option.map_some, leNat_leBytes, Nat.mod_eq_of_lt (by omega)])
    (by omega) (fun i _ hi => hencoded.says hi hentries)
  refine ⟨info, s, child, hinit, hgive, hchild, ?_⟩
  rintro i hi ⟨j, hij, hj⟩
  rw [htable i hi (by have := hhighest j ((hbound j).mpr hj); omega), hhandles]

/-- Some kernel, for which every handle is of a file. -/
def fileKernel : Kernel := ⟨fun _ => some .disk, fun _ => some 0, fun _ => some 1, 0, 0⟩

/-- A table whose highest descriptor is `n`, and no other is in use. -/
def tableWith (n : Nat) : FdTable :=
  ⟨List.replicate n ⟨0, .invalid, 0, 0⟩ ++ [⟨20, .file, 0, 1⟩], 1, 0, 0, 0⟩

theorem size_tableWith (n : Nat) : (tableWith n).size = n + 1 := by
  rw [FdTable.size, tableWith, List.length_append, List.length_replicate, List.length_singleton]

theorem binding_tableWith (n : Nat) (fd : Int) :
    (tableWith n).binding fd = if fd = n then some ⟨20, .file, 0⟩ else none := by
  refine congrFun (bindings_ext (m := fun fd => if fd = n then some ⟨20, .file, 0⟩ else none) ?_ ?_) fd
  · intro fd hneg
    exact if_neg (by omega)
  · intro i
    simp only [tableWith, Int.ofNat_inj]
    rcases Nat.lt_trichotomy i n with hlt | rfl | hgt
    · rw [List.getElem?_append_left (by rwa [List.length_replicate]), List.getElem?_replicate,
        if_pos hlt, if_neg (Nat.ne_of_lt hlt)]
      rfl
    · rw [List.getElem?_append_right (by rw [List.length_replicate]), List.length_replicate,
        Nat.sub_self, if_pos rfl]
      rfl
    · rw [List.getElem?_eq_none (by
        rw [List.length_append, List.length_replicate, List.length_singleton]; exact hgt),
        if_neg (Nat.ne_of_gt hgt)]
      rfl

theorem valid_tableWith (n : Nat) (fd : Int) (b : Binding) (hb : (tableWith n).binding fd = some b) :
    b.handle ≠ invalidHandleValue ∧ determineHandleType fileKernel b.handle ≠ .invalid := by
  rw [binding_tableWith] at hb
  split at hb
  · cases hb
    exact ⟨by decide, by decide⟩
  · cases hb

/-- A descriptor 5. -/
theorem inherits_five : Inherits fileKernel (fun _ => 0) (fun _ => ⟨0, .invalid, 0, 0⟩) 0 (tableWith 5) 5 := by
  refine (inherits_iff fileKernel _ _ 0 ?_ ?_ (by decide) (valid_tableWith 5)).mpr ?_
  · rw [size_tableWith]
    decide
  · rw [size_tableWith]
    decide
  · intro fd b hb
    rw [binding_tableWith] at hb
    split at hb
    · omega
    · cases hb

/-- A descriptor 7281: 65542 bytes do not fit into the 6 bytes that are allocated. -/
theorem not_inherits : (∀ fd b, (tableWith 7281).binding fd = some b →
      b.handle ≠ invalidHandleValue ∧ determineHandleType fileKernel b.handle ≠ .invalid) ∧
    ¬ Inherits fileKernel (fun _ => 0) (fun _ => ⟨0, .invalid, 0, 0⟩) 0 (tableWith 7281) 7281 := by
  refine ⟨valid_tableWith 7281, fun h => ?_⟩
  have hbinding : (tableWith 7281).binding 7281 = some ⟨20, .file, 0⟩ := by
    rw [binding_tableWith]; exact if_pos rfl
  have hlow := h.low (by rw [size_tableWith]; decide) (by rw [size_tableWith]; decide) (by decide) hbinding
  omega

end WindowsLibc.Spawn
