import Mathlib.Data.Vector.Basic
import WindowsLibc.Lib.Machine
import WindowsLibc.Lib.Records

/-!
# Entries of access control lists (`sys/acl/entry.c`, `sys/acl/acl.c`)

An access control list is one allocation: a header of eight bytes, with the recorded size and the number of
entries as 16-bit words, and then the entries, of 76 bytes each. Pointers to entries are offsets in the
allocation. An access outside of it is a fault, `none`.

`RtlCreateAcl`, which fills in the header of a fresh allocation, is a parameter (`CreatesAcl`).
-/

namespace WindowsLibc.Acl

open WindowsLibc.Lib

inductive Errno where
  | EINVAL
  | ESRCH
  deriving DecidableEq

/-! ## Words of the header -/

def load16 (block : List UInt8) (off : Nat) : Option UInt16 :=
  (peek block off 2).map (fun bytes => UInt16.ofNat (leNat bytes))

def store16 (block : List UInt8) (off : Nat) (word : UInt16) : Option (List UInt8) :=
  poke block off (leBytes 2 word.toNat)

/-- `acl->size` -/
def aclSize (acl : List UInt8) : Option UInt16 := load16 acl 2

/-- `acl->count` -/
def aclCount (acl : List UInt8) : Option UInt16 := load16 acl 4

/-- `&acl->entries[i]` -/
def slot (i : Nat) : Nat := 8 + 76 * i

/-! ## The functions -/

/-- `wlibc_acl_init`. -/
def aclInit (rtlCreateAcl : List UInt8 → Nat → UInt8 → List UInt8) (count : Int) :
    Except Errno (List UInt8) :=
  if count < 0 then .error .EINVAL
  else
    let size := (8 + (if count ≠ 0 then count.toNat else 1) * 76) % 2 ^ 32
    .ok (rtlCreateAcl (List.replicate size 0) size 2)

/-- What is documented of `RtlCreateAcl`: it refuses a length that cannot be recorded, and otherwise writes
the header of an empty list. -/
structure CreatesAcl (rtlCreateAcl : List UInt8 → Nat → UInt8 → List UInt8) : Prop where
  refused : ∀ acl length revision, length < 8 ∨ 65535 < length → rtlCreateAcl acl length revision = acl
  created : ∀ acl length revision, acl.length = length → 8 ≤ length → length ≤ 65535 → 4 ∣ length →
    rtlCreateAcl acl length revision =
      [revision, 0] ++ leBytes 2 length ++ leBytes 2 0 ++ leBytes 2 0 ++ acl.drop 8

/-- `RtlReAllocateHeap` with `HEAP_ZERO_MEMORY`. -/
def reallocateZeroed (block : List UInt8) (size : Nat) : List UInt8 :=
  block.take size ++ List.replicate (size - block.length) 0

/-- `wlibc_acl_copy_entry` into an entry of the list. -/
def copyEntry (acl : List UInt8) (destination : Option Nat) (source : Option (List.Vector UInt8 76)) :
    Option (List UInt8 × Except Errno Unit) :=
  match destination, source with
  | some destination, some source => (poke acl destination source.toList).map (fun acl => (acl, .ok ()))
  | _, _ => some (acl, .error .EINVAL)

/-- `used_size` -/
def usedSize (count : UInt16) : UInt16 := UInt16.ofNat (8 + count.toNat * 76)

/-- `allocated_size` -/
def allocatedSize (count : UInt16) : UInt16 := UInt16.ofNat (76 * count.toNat * 2)

/-- `(*acl)->size - used_size < sizeof(struct _wlibc_acl_entry_t)`: the difference is an `int` and the
comparison one of `size_t`. -/
def NeedsSpace (size used : UInt16) : Prop := ((size.toNat : Int) - used.toNat) % 2 ^ 64 < 76

instance (size used : UInt16) : Decidable (NeedsSpace size used) :=
  inferInstanceAs (Decidable (_ < _))

/-- "Allocate more space": the branch of `wlibc_acl_create_entry` that reallocates the list. -/
def allocateMore (acl : List UInt8) (count : UInt16) : Option (List UInt8) :=
  store16 (reallocateZeroed acl (allocatedSize count).toNat) 2 (allocatedSize count)

/-- "Store the address at the end of the previous entry", and count the entry. -/
def countEntry (acl : List UInt8) (used : Nat) : Option (List UInt8) := do
  let acl ← store16 acl (used + 2) 76
  let count ← aclCount acl
  store16 acl 4 (count + 1)

/-- `wlibc_acl_create_entry`, with the entry. `entry` says whether there is a place for its address. -/
def createEntry (acl : List UInt8) (entry : Bool) : Option (List UInt8 × Except Errno Nat) :=
  if !entry then some (acl, .error .EINVAL)
  else do
    let size ← aclSize acl
    let count ← aclCount acl
    let used := usedSize count
    let acl ← if NeedsSpace size used then allocateMore acl count else some acl
    let acl ← countEntry acl used.toNat
    some (acl, .ok used.toNat)

/-- The search of `wlibc_acl_delete_entry`. -/
def findEntry (count : UInt16) (entry : Nat) : Option Nat :=
  (List.range count.toNat).find? (fun i => entry = slot i)

/-- "Do a memmove overwriting the entry", unless it is the last one. -/
def moveBehind (acl : List UInt8) (index last : Nat) : Option (List UInt8) :=
  if index = last then some acl
  else do
    let behind ← peek acl (slot (index + 1)) (76 * (last - index))
    poke acl (slot index) behind

/-- `wlibc_acl_delete_entry`. -/
def deleteEntry (acl : List UInt8) (entry : Option Nat) : Option (List UInt8 × Except Errno Unit) :=
  match entry with
  | none => some (acl, .error .EINVAL)
  | some entry => do
    let count ← aclCount acl
    if count = 0 then some (acl, .error .ESRCH)
    else
      match findEntry count entry with
      | none => some (acl, .error .ESRCH)
      | some index =>
        let last := count.toNat - 1
        let acl ← moveBehind acl index last
        let acl ← poke acl (slot last) (List.replicate 76 0)
        let acl ← store16 acl 4 (count - 1)
        some (acl, .ok ())

/-! ## Runs -/

inductive Call where
  | create (entry : Bool)
  | delete (entry : Option Nat)
  /-- The caller fills the entry with this index, if there is one. -/
  | copy (k : Nat) (source : List.Vector UInt8 76)

inductive Outcome where
  | entry (offset : Nat)
  | done
  | failed (errno : Errno)
  deriving DecidableEq

def Outcome.ofUnit : Except Errno Unit → Outcome
  | .ok () => .done
  | .error errno => .failed errno

def Outcome.ofEntry : Except Errno Nat → Outcome
  | .ok offset => .entry offset
  | .error errno => .failed errno

def step (acl : List UInt8) : Call → Option (List UInt8 × Outcome)
  | .create entry => (createEntry acl entry).map (fun r => (r.1, .ofEntry r.2))
  | .delete entry => (deleteEntry acl entry).map (fun r => (r.1, .ofUnit r.2))
  | .copy k source => do
    let count ← aclCount acl
    let r ← copyEntry acl (if k < count.toNat then some (slot k) else none) (some source)
    some (r.1, .ofUnit r.2)

def machine : Machine (List UInt8) Call Outcome := ⟨step⟩

/-! ## What is wanted -/

/-- `acl->entries` -/
def entriesOf (acl : List UInt8) : Option (List (List UInt8)) := do
  let count ← aclCount acl
  records acl 76 count.toNat 8

/-- What a call that succeeds makes of the entries, in an allocation of `n` bytes. -/
def Moves (n : Nat) (es es' : List (List UInt8)) : Call → Outcome → Prop
  | .create _, .entry offset => offset = slot es.length ∧ offset + 76 ≤ n ∧ ∃ e, es' = es ++ [e]
  | .delete entry, .done => ∃ k < es.length, entry = some (slot k) ∧ es' = es.eraseIdx k
  | .copy k source, .done => es' = es.set k source.toList
  | _, _ => False

/-- The header and the entries are inside of the recorded size, and the entries are what they should be. -/
def Right (acl : List UInt8) (call : Call) : Prop :=
  ∃ acl' outcome, step acl call = some (acl', outcome) ∧
    ((∃ errno, outcome = .failed errno) ∨
      ∃ size es es', aclSize acl' = some size ∧ entriesOf acl = some es ∧ entriesOf acl' = some es' ∧
        slot es'.length ≤ size.toNat ∧ Moves acl'.length es es' call outcome)

/-- There is space for one more entry, or twice the entries leave space for it and can be recorded. -/
def RoomFor (size count : UInt16) : Prop :=
  slot (count.toNat + 1) ≤ size.toNat ∨
    slot count.toNat ≤ size.toNat ∧ 2 ≤ count.toNat ∧ 152 * count.toNat < 65536

instance (size count : UInt16) : Decidable (RoomFor size count) :=
  inferInstanceAs (Decidable (_ ∨ _))

/-- The count of the entries is in the allocation, and a new entry finds room. A call that is turned away at
once needs neither. -/
def Roomy (acl : List UInt8) : Call → Prop
  | .create false => True
  | .create true => ∃ size count, aclSize acl = some size ∧ aclCount acl = some count ∧ RoomFor size count
  | .delete none => True
  | .delete (some _) => ∃ count, aclCount acl = some count
  | .copy _ _ => ∃ count, aclCount acl = some count

instance (acl : List UInt8) : Decidable (∃ count, aclCount acl = some count) :=
  decidable_of_iff _ Option.isSome_iff_exists

instance (acl : List UInt8) :
    Decidable (∃ size count, aclSize acl = some size ∧ aclCount acl = some count ∧ RoomFor size count) :=
  match aclSize acl, aclCount acl with
  | none, _ => .isFalse fun ⟨_, _, h, _⟩ => by cases h
  | some _, none => .isFalse fun ⟨_, _, _, h, _⟩ => by cases h
  | some size, some count => decidable_of_iff (RoomFor size count)
      ⟨fun h => ⟨size, count, rfl, rfl, h⟩, fun ⟨_, _, hs, hc, h⟩ => by cases hs; cases hc; exact h⟩

instance (acl : List UInt8) : (call : Call) → Decidable (Roomy acl call)
  | .create false => .isTrue trivial
  | .create true => inferInstanceAs (Decidable (∃ _ _, _))
  | .delete none => .isTrue trivial
  | .delete (some _) => inferInstanceAs (Decidable (∃ _, _))
  | .copy _ _ => inferInstanceAs (Decidable (∃ _, _))

end WindowsLibc.Acl
