import WindowsLibc.Fcntl.FdTable
import WindowsLibc.Lib.Block

/-!
# The table of a new process (`fcntl/internal.c`)

`init_fd_table` makes the table of a process from its parameters: the standard handles, and the block
that its parent has left in `RuntimeData`. The block has the number of descriptors, a byte of flags for each
and a handle for each.

* A load outside of the block is a fault, `none`.
* What the kernel says of a handle is a `Kernel`.
* `initFdTable_spec`: which handles are in the table, as long as the block has what it says.
-/

namespace WindowsLibc.Fcntl

open WindowsLibc.Lib

/-! ## What the kernel says of a handle -/

/-- `FILE_DEVICE_NULL` and its like. -/
inductive DeviceType where
  | null | console | disk | namedPipe | other
  deriving DecidableEq, Repr

/-- The answers of the kernel, `none` where a query fails: the device of a handle, the attributes of its
file and the access it was opened with. Opening a console gives a handle, or NULL. -/
structure Kernel where
  deviceType : UInt64 → Option DeviceType
  fileAttributes : UInt64 → Option UInt32
  accessFlags : UInt64 → Option UInt32
  openConin : UInt64
  openConout : UInt64

/-- `determine_handle_type`. -/
def determineHandleType (k : Kernel) (handle : UInt64) : HandleType :=
  match k.deviceType handle with
  | none => .invalid
  | some .null => .null
  | some .console => .console
  | some .disk =>
    match k.fileAttributes handle with
    | none => .file
    | some attributes => if attributes &&& 0x10 ≠ 0 then .directory else .file
  | some .namedPipe => .pipe
  | some .other => .invalid

/-- `O_WRONLY`, `O_RDWR` and `O_APPEND`. -/
def oWronly : UInt32 := 0x1

def oRdwr : UInt32 := 0x2

def oAppend : UInt32 := 0x8

/-- `determine_handle_flags`. -/
def determineHandleFlags (k : Kernel) (handle : UInt64) : UInt32 :=
  match k.accessFlags handle with
  | none => 0
  | some access =>
    let flags := if access &&& 0x4 ≠ 0 then oAppend ||| oWronly else 0
    -- the generic permissions first
    let flags :=
      if access &&& 0xF0000000 ≠ 0 then
        if access &&& 0x10000000 ≠ 0 ∨ access &&& 0xC0000000 = 0xC0000000 then flags ||| oRdwr
        else if access &&& 0x40000000 ≠ 0 then flags ||| oWronly
        else flags
      else flags
    let flags :=
      if access &&& 0x3 = 0x3 then flags ||| oRdwr
      else if access &&& 0x2 ≠ 0 then flags ||| oWronly
      else flags
    if flags &&& (oWronly ||| oRdwr) = oWronly ||| oRdwr then flags &&& ~~~oWronly else flags

/-! ## The table -/

/-- The parameters of a process that are read here. -/
structure ProcessParameters where
  consoleHandle : UInt64
  standardInput : UInt64
  standardOutput : UInt64
  standardError : UInt64
  runtimeData : Option (List UInt8)

/-- An entry for a handle, with the next sequence number. -/
def FdTable.enter (t : FdTable) (index : Nat) (handle : UInt64) (type : HandleType)
    (flags : UInt32) : FdTable :=
  { t with
    table := t.table.set index ⟨handle, type, flags, t.sequence + 1⟩
    sequence := t.sequence + 1 }

/-- `_wlibc_fd_table[index].handle = NULL`. -/
def FdTable.clear (t : FdTable) (index : Nat) : FdTable :=
  { t with table := t.table.modify index fun e => { e with handle := 0 } }

/-- `initialize_std_handles`. -/
def initializeStdHandles (k : Kernel) (handle : UInt64) (index : Nat) (consoleSubsystem output : Bool)
    (t : FdTable) : FdTable :=
  let type := determineHandleType k handle
  if type ≠ .invalid then t.enter index handle type (determineHandleFlags k handle)
  else if consoleSubsystem then
    let console := if output then k.openConout else k.openConin
    if console ≠ 0 then t.enter index console .console (if output then oWronly else 0)
    else t.clear index
  else t

/-- `while (_wlibc_fd_table_size < number_of_handles_inherited)`. -/
def growSize (number : Nat) : Nat → Nat → Nat
  | 0, size => size
  | fuel + 1, size => if size < number then growSize number fuel (size * 2) else size

/-- `FOPEN_FLAG`. -/
def fopenFlag : UInt8 := 0x01

/-- A turn of the loop over the descriptors that are inherited. -/
def inheritFd (k : Kernel) (block : List UInt8) (number : Nat) (t : FdTable) (i : Nat) :
    Option FdTable := do
  let flag ← peek block (4 + i) 1
  let handle ← peek block (4 + number + i * 8) 8
  let handle := UInt64.ofNat (leNat handle)
  if flag.headD 0 &&& fopenFlag = 0 ∨ handle = invalidHandleValue then return t.clear i
  let type := determineHandleType k handle
  if type = .invalid then return t.clear i
  return t.enter i handle type (determineHandleFlags k handle)

/-- `init_fd_table`; `heap` is what the heap has at the place of the table. Without memory the process
ends. -/
def initFdTable (k : Kernel) (heap : Heap) (params : ProcessParameters) :
    Option (Except Errno FdTable) := do
  let consoleSubsystem := ¬ (params.consoleHandle = 0 ∨ params.consoleHandle = invalidHandleValue)
  let number ← match params.runtimeData with
    | none => some 0
    | some block => (peek block 0 4).map leNat
  let size := growSize number 64 4
  match heap with
  | none => return .error .enomem
  | some heap =>
    let t : FdTable := {
      table := (List.range size).map fun i => { heap i with handle := 0 }
      sequence := 0
      standardInput := params.standardInput
      standardOutput := params.standardOutput
      standardError := params.standardError }
    let t := initializeStdHandles k params.standardInput 0 consoleSubsystem false t
    let t := initializeStdHandles k params.standardOutput 1 consoleSubsystem true t
    let t := initializeStdHandles k params.standardError 2 consoleSubsystem true t
    let block := params.runtimeData.getD []
    let t ← (List.range' 3 (number - 3)).foldlM (inheritFd k block number) t
    return .ok t

/-! ## What is in the table -/

variable {k : Kernel} {t t' : FdTable} {block : List UInt8}

/-- The handle of an entry. -/
def FdTable.handleAt (t : FdTable) (i : Nat) : Option UInt64 := (t.table[i]?).map FdInfo.handle

theorem size_enter (t : FdTable) (index : Nat) (handle : UInt64) (type : HandleType) (flags : UInt32) :
    (t.enter index handle type flags).size = t.size := List.length_set

theorem size_clear (t : FdTable) (index : Nat) : (t.clear index).size = t.size :=
  List.length_modify _ _ _

theorem handleAt_enter (t : FdTable) (index i : Nat) (handle : UInt64) (type : HandleType)
    (flags : UInt32) :
    (t.enter index handle type flags).handleAt i =
      if i = index ∧ i < t.size then some handle else t.handleAt i := by
  unfold FdTable.handleAt FdTable.enter FdTable.size
  dsimp only
  rw [List.getElem?_set]
  by_cases heq : index = i
  · subst heq
    by_cases hlt : index < t.table.length
    · rw [if_pos rfl, if_pos hlt, if_pos ⟨rfl, hlt⟩]
      rfl
    · rw [if_pos rfl, if_neg hlt, if_neg (fun h => hlt h.2), List.getElem?_eq_none (Nat.not_lt.mp hlt)]
  · rw [if_neg heq, if_neg (fun h => heq h.1.symm)]

theorem handleAt_clear (t : FdTable) (index i : Nat) :
    (t.clear index).handleAt i = if i = index ∧ i < t.size then some 0 else t.handleAt i := by
  unfold FdTable.handleAt FdTable.clear FdTable.size
  dsimp only
  rw [List.getElem?_modify]
  by_cases heq : index = i
  · subst heq
    by_cases hlt : index < t.table.length
    · rw [if_pos ⟨rfl, hlt⟩, List.getElem?_eq_getElem hlt]
      simp
    · rw [if_neg (fun h => hlt h.2), List.getElem?_eq_none (Nat.not_lt.mp hlt)]
      rfl
  · rw [if_neg (fun h => heq h.1.symm)]
    simp [heq]

theorem size_initializeStdHandles (k : Kernel) (handle : UInt64) (index : Nat)
    (consoleSubsystem output : Bool) (t : FdTable) :
    (initializeStdHandles k handle index consoleSubsystem output t).size = t.size := by
  unfold initializeStdHandles
  dsimp only
  split
  · exact size_enter _ _ _ _ _
  · split
    · generalize (if output = true then k.openConout else k.openConin) = console
      by_cases hopen : console ≠ 0
      · rw [if_pos hopen]
        exact size_enter _ _ _ _ _
      · rw [if_neg hopen]
        exact size_clear _ _
    · rfl

/-- The size is large enough for what the block says. -/
theorem le_growSize {number fuel size : Nat} (h : number ≤ size * 2 ^ fuel) :
    number ≤ growSize number fuel size := by
  induction fuel generalizing size with
  | zero => rwa [Nat.pow_zero, Nat.mul_one] at h
  | succ fuel ih =>
    rw [growSize]
    split
    · exact ih (by rwa [Nat.mul_assoc, ← Nat.pow_succ'])
    · omega

/-- What the block says of a descriptor: the handle that its entry gets. -/
def Says (k : Kernel) (block : List UInt8) (number i : Nat) (handle : UInt64) : Prop :=
  ∃ flag bytes, peek block (4 + i) 1 = some [flag] ∧ peek block (4 + number + i * 8) 8 = some bytes ∧
    flag &&& fopenFlag ≠ 0 ∧
    ((handle = 0 ∧ UInt64.ofNat (leNat bytes) = invalidHandleValue) ∨
      (handle = UInt64.ofNat (leNat bytes) ∧ handle ≠ invalidHandleValue ∧
        determineHandleType k handle ≠ .invalid))

/-- **A turn enters what the block says.** -/
theorem inheritFd_spec {number i : Nat} {handle : UInt64} (hi : i < t.size)
    (h : Says k block number i handle) :
    ∃ t', inheritFd k block number t i = some t' ∧ t'.size = t.size ∧
      t'.handleAt i = some handle ∧ ∀ j ≠ i, t'.handleAt j = t.handleAt j := by
  obtain ⟨flag, bytes, hflag, hbytes, hopen, hhandle⟩ := h
  unfold inheritFd
  simp only [hflag, hbytes, Option.bind_eq_bind, Option.bind_some, List.headD_cons, hopen, false_or]
  rcases hhandle with ⟨rfl, hinvalid⟩ | ⟨rfl, hvalid, htype⟩
  · rw [if_pos hinvalid]
    refine ⟨_, rfl, size_clear _ _, ?_, ?_⟩
    · rw [handleAt_clear, if_pos ⟨rfl, hi⟩]
    · intro j hj
      rw [handleAt_clear, if_neg (fun h => hj h.1)]
  · rw [if_neg hvalid, if_neg htype]
    refine ⟨_, rfl, size_enter _ _ _ _ _, ?_, ?_⟩
    · rw [handleAt_enter, if_pos ⟨rfl, hi⟩]
    · intro j hj
      rw [handleAt_enter, if_neg (fun h => hj h.1)]

/-- The loop enters what the block says, and nothing else. -/
theorem inheritFds_spec {number : Nat} (handles : Nat → UInt64) {first count : Nat}
    (hsize : first + count ≤ t.size)
    (h : ∀ i, first ≤ i → i < first + count → Says k block number i (handles i)) :
    ∃ t', (List.range' first count).foldlM (inheritFd k block number) t = some t' ∧
      t'.size = t.size ∧ (∀ i, first ≤ i → i < first + count → t'.handleAt i = some (handles i)) ∧
      ∀ i < first, t'.handleAt i = t.handleAt i := by
  induction count generalizing first t with
  | zero =>
    refine ⟨t, rfl, rfl, ?_, fun _ _ => rfl⟩
    intro i hlow hhigh
    omega
  | succ count ih =>
    obtain ⟨t₁, hturn, hsize₁, hentry, hothers⟩ :=
      inheritFd_spec (t := t) (by omega) (h first (Nat.le_refl _) (by omega))
    obtain ⟨t₂, hloop, hsize₂, hentries, hbefore⟩ := @ih t₁ (first + 1) (by omega)
      (fun i hlow hhigh => h i (by omega) (by omega))
    refine ⟨t₂, ?_, hsize₂.trans hsize₁, ?_, ?_⟩
    · rw [List.range'_succ, List.foldlM_cons, hturn]
      exact hloop
    · intro i hlow hhigh
      rcases Nat.eq_or_lt_of_le hlow with rfl | hlt
      · rw [hbefore first (Nat.lt_succ_self _), hentry]
      · exact hentries i hlt (by omega)
    · intro i hi
      rw [hbefore i (by omega), hothers i (by omega)]

/-- **The new table has the handles of the block**, if the block says something of every descriptor. -/
theorem initFdTable_spec (k : Kernel) (heap : Nat → FdInfo) {params : ProcessParameters} {number : Nat}
    (handles : Nat → UInt64) (hblock : params.runtimeData = some block)
    (hnumber : (peek block 0 4).map leNat = some number) (hsmall : number < 2 ^ 32)
    (h : ∀ i, 3 ≤ i → i < number → Says k block number i (handles i)) :
    ∃ t, initFdTable k (some heap) params = some (.ok t) ∧
      ∀ i, 3 ≤ i → i < number → t.handleAt i = some (handles i) := by
  have hgrow : number ≤ growSize number 64 4 := le_growSize (by omega)
  unfold initFdTable
  simp only [hblock, hnumber, Option.bind_eq_bind, Option.bind_some, Option.getD_some]
  generalize htable : initializeStdHandles k params.standardError 2 _ true _ = t
  have hsize : t.size = growSize number 64 4 := by
    rw [← htable, size_initializeStdHandles, size_initializeStdHandles, size_initializeStdHandles]
    exact (List.length_map _).trans List.length_range
  by_cases hnone : number ≤ 3
  · rw [Nat.sub_eq_zero_of_le hnone]
    exact ⟨t, rfl, fun i hlow hhigh => by omega⟩
  · obtain ⟨t', hloop, -, hentries, -⟩ := @inheritFds_spec k t block number handles 3
      (number - 3) (by omega) (fun i hlow hhigh => h i hlow (by omega))
    rw [hloop]
    exact ⟨t', rfl, fun i hlow hhigh => hentries i hlow (by omega)⟩

end WindowsLibc.Fcntl
