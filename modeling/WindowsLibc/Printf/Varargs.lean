import Mathlib.Data.List.Basic
import WindowsLibc.Lib.Machine
import WindowsLibc.Printf.Format

/-!
# The argument cache (`internal/varargs.h`)

`va_arg` can only go forward, and a format may name its arguments by number. `variadic_args_get`
therefore keeps what it has read: 64 arguments in the structure itself, the others in a block that
grows.

* `Cache` is the C structure. An access outside `args[64]`, outside the block, or to an entry of it
  that has not been written is a fault, and so is reading past the last argument.
* The cache refines `VariadicArgs` (`get_sim`), which the rest of the development works with.
* `variadicArgsGet_serves_iff`: every permitted sequence of calls is served if and only if there are
  at most 2^31 + 64 arguments. From there on doubling the capacity wraps around to 4.
-/

namespace WindowsLibc.Printf

open WindowsLibc.Lib

/-! ## The code -/

/-- `variadic_args`. `list` is what `va_arg` has still to deliver. -/
structure Cache where
  list : List UInt64
  currentIndex : UInt32
  readCount : UInt32
  args : Vector UInt64 64
  extraCapacity : UInt32
  extraArgs : Option (List (Option UInt64))

namespace Cache

/-- `variadic_args_init`. -/
def init (list : List UInt64) : Cache := ⟨list, 0, 0, Vector.replicate 64 0, 0, none⟩

/-- `MAX`. -/
def maximum (a b : UInt32) : UInt32 := if a > b then a else b

/-- `ROUND_UP`. -/
def roundUp (x y : UInt32) : UInt32 := (x + (y - 1)) / y * y

/-- `args->args[args->read_count++] = va_arg(args->list, void *)`. -/
def storeArg (c : Cache) : Option Cache :=
  match c.list with
  | [] => none
  | a :: list =>
    if h : c.readCount.toNat < 64 then
      some { c with
        list := list
        args := c.args.set c.readCount.toNat a h
        readCount := c.readCount + 1 }
    else none

/-- `args->extra_args[args->read_count++ - 64] = va_arg(args->list, void *)`. -/
def storeExtra (c : Cache) : Option Cache :=
  match c.list, c.extraArgs with
  | a :: list, some extra =>
    if (c.readCount - 64).toNat < extra.length then
      some { c with
        list := list
        extraArgs := some (extra.set (c.readCount - 64).toNat (some a))
        readCount := c.readCount + 1 }
    else none
  | _, _ => none

/-- `args->args[index]`. -/
def loadArg (c : Cache) (index : UInt32) : Option UInt64 :=
  if h : index.toNat < 64 then some c.args[index.toNat] else none

/-- `args->extra_args[index]`. -/
def loadExtra (c : Cache) (index : UInt32) : Option UInt64 :=
  match c.extraArgs with
  | none => none
  | some extra => (extra[index.toNat]?).join

/-- `realloc`: the old entries, as far as there is room, and then new ones. -/
def realloc (extra : Option (List (Option UInt64))) (capacity : Nat) : List (Option UInt64) :=
  (extra.getD []).take capacity ++ List.replicate (capacity - (extra.getD []).length) none

/-- The block with a new capacity. -/
def grow (c : Cache) (capacity : UInt32) : Cache :=
  { c with
    extraCapacity := capacity
    extraArgs := some (realloc c.extraArgs capacity.toNat) }

/-- A loop that stores `n` arguments. -/
def repeatStore (store : Cache → Option Cache) : Nat → Cache → Option Cache
  | 0, c => some c
  | n + 1, c => (store c).bind (repeatStore store n)

/-- The next argument is in `args`. -/
def readArg (c : Cache) : Option Cache :=
  if c.readCount = c.currentIndex then c.storeArg else some c

/-- The next argument is in the block, which is doubled when it is full. -/
def readExtra (c : Cache) : Option Cache :=
  if c.readCount = c.currentIndex then
    if c.extraArgs = none ∨ c.readCount - 64 = c.extraCapacity then
      (c.grow (maximum 4 (c.extraCapacity * 2))).storeExtra
    else c.storeExtra
  else some c

/-- `variadic_args_get` for index 0: the next argument. -/
def getNext (c : Cache) : Option (Cache × UInt64) :=
  if c.currentIndex < 64 then do
    let c ← c.readArg
    let a ← c.loadArg c.currentIndex
    some ({ c with currentIndex := c.currentIndex + 1 }, a)
  else do
    let c ← c.readExtra
    let a ← c.loadExtra (c.currentIndex - 64)
    some ({ c with currentIndex := c.currentIndex + 1 }, a)

/-- Room for the argument `index` in the block. -/
def reserve (c : Cache) (index : UInt32) : Cache :=
  if c.extraArgs = none ∨ index - 64 > c.extraCapacity then
    c.grow (maximum 4 (roundUp (index - 64) 4))
  else c

/-- `variadic_args_get` for an argument that is named by number. -/
def getAt (c : Cache) (index : UInt32) : Option (Cache × UInt64) :=
  if index ≤ 64 then do
    let c ← c.repeatStore storeArg (index.toNat - c.readCount.toNat)
    let a ← c.loadArg (index - 1)
    some (c, a)
  else do
    let c ← c.repeatStore storeArg (64 - c.readCount.toNat)
    let c := c.reserve index
    let c ← c.repeatStore storeExtra (index.toNat - c.readCount.toNat)
    let a ← c.loadExtra (index - 64 - 1)
    some (c, a)

end Cache

/-- `variadic_args_get`. -/
def variadicArgsGet (c : Cache) (index : UInt32) : Option (Cache × UInt64) :=
  if index = 0 then c.getNext else c.getAt index

/-- Calls of `variadic_args_get`, one after the other. -/
def cacheMachine : Machine Cache UInt32 UInt64 where
  step := variadicArgsGet

/-! ## What the cache is for -/

/-- What the calls are to return, when `n` sequential ones have been made before. -/
def answers (as : List UInt64) : Nat → List UInt32 → List (Option UInt64)
  | _, [] => []
  | n, index :: calls =>
    if index = 0 then as[n]? :: answers as (n + 1) calls
    else as[index.toNat - 1]? :: answers as n calls

/-- How many arguments the calls need. -/
def needed (calls : List UInt32) : Nat :=
  max (calls.count 0) ((calls.map UInt32.toNat).foldr max 0)

/-- Calls that ask for arguments that have been supplied. -/
def Permitted (as : List UInt64) (calls : List UInt32) : Prop := needed calls ≤ as.length

/-- The calls return what they should, and have taken from the `va_list`, in order and once each, the
arguments they need and no others. -/
def Serves (as : List UInt64) (calls : List UInt32) : Prop :=
  ∃ c os, cacheMachine.run (.init as) calls = some (c, os) ∧
    os.map some = answers as 0 calls ∧ c.list = as.drop (needed calls)

/-! ## What the cache holds -/

/-- The block, empty if there is none. -/
def Cache.extra (c : Cache) : List (Option UInt64) := c.extraArgs.getD []

/-- The cache holds the first `n` arguments, and the `va_list` the others. -/
structure Caches (as : List UInt64) (n : Nat) (c : Cache) : Prop where
  readCount : c.readCount.toNat = n
  le : n ≤ as.length
  list : c.list = as.drop n
  args : ∀ i (_ : i < 64), i < n → some c.args[i] = as[i]?
  extra : ∀ i, 64 + i < n → c.extra[i]? = some as[64 + i]?
  capacity : c.extra.length = c.extraCapacity.toNat

variable {as : List UInt64} {n : Nat} {c : Cache}

theorem caches_init (as : List UInt64) : Caches as 0 (.init as) where
  readCount := rfl
  le := Nat.zero_le _
  list := rfl
  args i _ h := absurd h (Nat.not_lt_zero i)
  extra _ h := absurd h (Nat.not_lt_zero _)
  capacity := rfl

/-- What has been read is in the block as far as it is not in `args`. -/
theorem Caches.room (h : Caches as n c) : n ≤ 64 + c.extraCapacity.toNat := by
  by_contra hlt
  have hstored := h.extra c.extraCapacity.toNat (by omega)
  rw [← h.capacity, List.getElem?_eq_none (Nat.le_refl _)] at hstored
  cases hstored

/-- What a store leaves alone. -/
structure Cache.SameShape (c c' : Cache) : Prop where
  currentIndex : c'.currentIndex = c.currentIndex
  extraCapacity : c'.extraCapacity = c.extraCapacity

theorem toNat_succ {x : UInt32} {n : Nat} (hx : x.toNat = n) (hn : n + 1 < 2 ^ 32) :
    (x + 1).toNat = n + 1 := by
  rw [UInt32.toNat_add, hx]
  exact Nat.mod_eq_of_lt hn

theorem toNat_sub_64 {x : UInt32} {n : Nat} (hx : x.toNat = n) (hn : 64 ≤ n) :
    (x - 64).toNat = n - 64 := by
  rw [UInt32.toNat_sub_of_le _ _ (by rw [UInt32.le_iff_toNat_le, hx]; exact hn), hx]
  rfl

theorem storeArg_caches (h : Caches as n c) (hn : n < as.length) (hargs : n < 64) :
    ∃ c', c.storeArg = some c' ∧ Caches as (n + 1) c' ∧ c.SameShape c' := by
  have hlist : c.list = as[n] :: as.drop (n + 1) := by
    rw [h.list, List.drop_eq_getElem_cons hn]
  have hread : c.readCount.toNat < 64 := h.readCount ▸ hargs
  simp only [Cache.storeArg, hlist, hread, dif_pos]
  refine ⟨_, rfl, ?_, rfl, rfl⟩
  refine ⟨toNat_succ h.readCount (by omega), hn, rfl, ?_, ?_, h.capacity⟩
  · intro i hi hlt
    simp only [h.readCount, Vector.getElem_set]
    split
    · next heq =>
      subst heq
      exact (List.getElem?_eq_getElem hn).symm
    · exact h.args i hi (by omega)
  · intro i hi
    exact absurd hi (by omega)

theorem storeExtra_caches (h : Caches as n c) (hn : n < as.length) (hextra : 64 ≤ n)
    (hroom : n < 64 + c.extraCapacity.toNat) (hwrap : n + 1 < 2 ^ 32) :
    ∃ c', c.storeExtra = some c' ∧ Caches as (n + 1) c' ∧ c.SameShape c' := by
  have hlist : c.list = as[n] :: as.drop (n + 1) := by
    rw [h.list, List.drop_eq_getElem_cons hn]
  have hindex := toNat_sub_64 h.readCount hextra
  have hcapacity := h.capacity
  have hstored := h.extra
  rw [Cache.extra] at hcapacity
  simp only [Cache.extra] at hstored
  cases hblock : c.extraArgs with
  | none =>
    rw [hblock, Option.getD_none, List.length_nil] at hcapacity
    omega
  | some extra =>
    rw [hblock, Option.getD_some] at hcapacity
    simp only [hblock, Option.getD_some] at hstored
    have hlt : (c.readCount - 64).toNat < extra.length := by omega
    simp only [Cache.storeExtra, hlist, hblock, hlt, if_true]
    refine ⟨_, rfl, ?_, rfl, rfl⟩
    refine ⟨toNat_succ h.readCount hwrap, hn, rfl, ?_, ?_, ?_⟩
    · intro i hi hlt
      exact h.args i hi (by omega)
    · intro i hi
      simp only [Cache.extra, Option.getD_some, hindex]
      rw [List.getElem?_set]
      split
      · next heq =>
        subst heq
        rw [if_pos (by omega), Nat.add_sub_cancel' hextra, List.getElem?_eq_getElem hn]
      · exact hstored i (by omega)
    · simp only [Cache.extra, Option.getD_some, List.length_set, hcapacity]

theorem grow_caches (h : Caches as n c) {capacity : UInt32} (hroom : n ≤ 64 + capacity.toNat) :
    Caches as n (c.grow capacity) := by
  refine ⟨h.readCount, h.le, h.list, h.args, ?_, ?_⟩
  · intro i hi
    have hstored := h.extra i hi
    have hlt : i < (c.extra.take capacity.toNat).length := by
      obtain ⟨hlt, -⟩ := List.getElem?_eq_some_iff.mp hstored
      rw [List.length_take]
      omega
    show (c.extra.take capacity.toNat ++ _)[i]? = _
    rw [List.getElem?_append_left hlt, List.getElem?_take_of_lt (by omega), hstored]
  · show (c.extra.take capacity.toNat ++ List.replicate (capacity.toNat - c.extra.length) none).length
      = capacity.toNat
    rw [List.length_append, List.length_take, List.length_replicate]
    omega

/-- A loop of stores, up to `top` arguments. -/
theorem repeatStore_caches {store : Cache → Option Cache} {P : Nat → Cache → Prop} {top : Nat}
    (hstore : ∀ n c, Caches as n c → P n c → n < top →
      ∃ c', store c = some c' ∧ Caches as (n + 1) c' ∧ c.SameShape c' ∧ P (n + 1) c')
    (h : Caches as n c) (hP : P n c) :
    ∃ c', c.repeatStore store (top - n) = some c' ∧ Caches as (max n top) c' ∧
      c.SameShape c' := by
  induction hk : top - n generalizing n c with
  | zero =>
    refine ⟨c, rfl, ?_, rfl, rfl⟩
    rwa [Nat.max_eq_left (Nat.sub_eq_zero_iff_le.mp hk)]
  | succ k ih =>
    obtain ⟨c₁, hc₁, h₁, hshape₁, hP₁⟩ := hstore n c h hP (by omega)
    obtain ⟨c₂, hc₂, h₂, hshape₂⟩ := ih h₁ hP₁ (by omega)
    refine ⟨c₂, ?_, ?_, hshape₂.1.trans hshape₁.1, hshape₂.2.trans hshape₁.2⟩
    · rw [Cache.repeatStore, hc₁, Option.bind_some, hc₂]
    · rwa [show max n top = max (n + 1) top by omega]

theorem loadArg_caches (h : Caches as n c) {index : UInt32} (hargs : index.toNat < 64)
    (hn : index.toNat < n) : c.loadArg index = as[index.toNat]? := by
  rw [Cache.loadArg, dif_pos hargs, h.args _ hargs hn]

theorem loadExtra_caches (h : Caches as n c) {index : UInt32} (hn : 64 + index.toNat < n) :
    c.loadExtra index = as[64 + index.toNat]? := by
  have hstored := h.extra index.toNat hn
  rw [Cache.loadExtra]
  rw [Cache.extra] at hstored
  cases hblock : c.extraArgs with
  | none =>
    rw [hblock] at hstored
    cases hstored
  | some extra =>
    rw [hblock, Option.getD_some] at hstored
    show extra[index.toNat]?.join = _
    rw [hstored, Option.join_some]

/-! ## One call -/

/-- A sequential call that has to read may count one more argument, and may double the capacity. -/
structure CanGrow (n : Nat) (c : Cache) : Prop where
  count : n + 1 < 2 ^ 32
  capacity : n = 64 + c.extraCapacity.toNat → c.extraCapacity.toNat < 2 ^ 31

theorem toNat_maximum (a b : UInt32) : (Cache.maximum a b).toNat = max a.toNat b.toNat := by
  rw [Cache.maximum]
  split
  · next h =>
    rw [gt_iff_lt, UInt32.lt_iff_toNat_lt] at h
    omega
  · next h =>
    rw [gt_iff_lt, UInt32.lt_iff_toNat_lt] at h
    omega

theorem toNat_double {x : UInt32} (h : x.toNat < 2 ^ 31) : (x * 2).toNat = x.toNat * 2 := by
  rw [UInt32.toNat_mul]
  exact Nat.mod_eq_of_lt (by show x.toNat * 2 < _; omega)

variable {m : Nat}

theorem readCount_eq_currentIndex (h : Caches as n c) (hcurrent : c.currentIndex.toNat = m) :
    c.readCount = c.currentIndex ↔ n = m := by
  rw [← UInt32.toNat_inj, h.readCount, hcurrent]

theorem readArg_caches (h : Caches as n c) (hcurrent : c.currentIndex.toNat = m) (hm : m ≤ n)
    (hlt : m < as.length) (hargs : m < 64) :
    ∃ c', c.readArg = some c' ∧ Caches as (max n (m + 1)) c' ∧ c.SameShape c' := by
  have heq := readCount_eq_currentIndex h hcurrent
  rw [Cache.readArg]
  split
  · next hread =>
    obtain rfl := heq.mp hread
    rw [Nat.max_eq_right (Nat.le_succ n)]
    exact storeArg_caches h hlt hargs
  · next hread =>
    have hne : n ≠ m := fun e => hread (heq.mpr e)
    rw [Nat.max_eq_left (by omega)]
    exact ⟨c, rfl, h, rfl, rfl⟩

/-- A block that is used up has as many entries as arguments have been put there. -/
theorem Caches.full (h : Caches as n c) (hextra : 64 ≤ n)
    (hfull : c.extraArgs = none ∨ c.readCount - 64 = c.extraCapacity) :
    n = 64 + c.extraCapacity.toNat := by
  have hroom := h.room
  cases hfull with
  | inl hnone =>
    have hzero := h.capacity
    rw [Cache.extra, hnone, Option.getD_none, List.length_nil] at hzero
    omega
  | inr heq =>
    have hindex := toNat_sub_64 h.readCount hextra
    rw [heq] at hindex
    omega

/-- A sequential call that has read everything so far stores one more argument in the block. -/
theorem readExtra_caches (h : Caches as n c) (hcurrent : c.currentIndex.toNat = m) (hm : m ≤ n)
    (hlt : m < as.length) (hextra : 64 ≤ m) (hgrows : m = n → CanGrow n c) :
    ∃ c', c.readExtra = some c' ∧ Caches as (max n (m + 1)) c' ∧
      c'.currentIndex = c.currentIndex ∧ (m < n → c'.extraCapacity = c.extraCapacity) := by
  have heq := readCount_eq_currentIndex h hcurrent
  rw [Cache.readExtra]
  split
  · next hread =>
    obtain rfl := heq.mp hread
    have hgrows := hgrows rfl
    rw [Nat.max_eq_right (Nat.le_succ n)]
    split
    · next hfull =>
      have hcapacity := h.full hextra hfull
      have hdouble := toNat_double (hgrows.capacity hcapacity)
      have hmax := toNat_maximum 4 (c.extraCapacity * 2)
      have hfour : (4 : UInt32).toNat = 4 := rfl
      have hlt' : n < 64 + (Cache.maximum 4 (c.extraCapacity * 2)).toNat := by omega
      obtain ⟨c', hc', hcaches, hshape⟩ :=
        storeExtra_caches (grow_caches h (Nat.le_of_lt hlt')) hlt hextra hlt' hgrows.count
      exact ⟨c', hc', hcaches, hshape.currentIndex, fun hn => absurd hn (Nat.lt_irrefl n)⟩
    · next hfull =>
      have hroom := h.room
      have hne : n - 64 ≠ c.extraCapacity.toNat := fun e =>
        hfull (.inr (UInt32.toNat_inj.mp ((toNat_sub_64 h.readCount hextra).trans e)))
      obtain ⟨c', hc', hcaches, hshape⟩ :=
        storeExtra_caches h hlt hextra (by omega) hgrows.count
      exact ⟨c', hc', hcaches, hshape.currentIndex, fun _ => hshape.extraCapacity⟩
  · next hread =>
    have hne : n ≠ m := fun e => hread (heq.mpr e)
    rw [Nat.max_eq_left (by omega)]
    exact ⟨c, rfl, h, rfl, fun _ => rfl⟩

/-- Only the place of the next sequential argument changes. -/
theorem Caches.advance (h : Caches as n c) :
    Caches as n { c with currentIndex := c.currentIndex + 1 } :=
  ⟨h.readCount, h.le, h.list, h.args, h.extra, h.capacity⟩

theorem getNext_caches (h : Caches as n c) (hcurrent : c.currentIndex.toNat = m) (hm : m ≤ n)
    (hlt : m < as.length) (hgrows : m = n → CanGrow n c) :
    ∃ c' a, c.getNext = some (c', a) ∧ as[m]? = some a ∧ Caches as (max n (m + 1)) c' ∧
      c'.currentIndex.toNat = m + 1 ∧ (m < n → c'.extraCapacity = c.extraCapacity) := by
  have hbound : n < 2 ^ 32 := h.readCount ▸ c.readCount.toNat_lt
  have hnext : m + 1 < 2 ^ 32 := by
    rcases Nat.lt_or_eq_of_le hm with hm | hm
    · omega
    · exact hm ▸ (hgrows hm).count
  obtain ⟨a, ha⟩ : ∃ a, as[m]? = some a := ⟨_, List.getElem?_eq_getElem hlt⟩
  have h64 : c.currentIndex < 64 ↔ m < 64 := by
    rw [UInt32.lt_iff_toNat_lt, hcurrent]
    rfl
  rw [Cache.getNext]
  by_cases hargs : m < 64
  · obtain ⟨c', hc', hcaches, hshape⟩ := readArg_caches h hcurrent hm hlt hargs
    have hcur : c'.currentIndex.toNat = m := hshape.currentIndex ▸ hcurrent
    have hload : c'.loadArg c'.currentIndex = some a := by
      rw [loadArg_caches hcaches (by omega) (by omega), hcur, ha]
    refine ⟨_, a, ?_, ha, hcaches.advance, toNat_succ hcur hnext, fun _ => hshape.extraCapacity⟩
    rw [if_pos (h64.mpr hargs), hc', Option.bind_eq_bind, Option.bind_some, hload]
    rfl
  · obtain ⟨c', hc', hcaches, hshape, hcap⟩ :=
      readExtra_caches h hcurrent hm hlt (Nat.le_of_not_lt hargs) hgrows
    have hcur : c'.currentIndex.toNat = m := hshape ▸ hcurrent
    have hindex := toNat_sub_64 hcur (Nat.le_of_not_lt hargs)
    have hload : c'.loadExtra (c'.currentIndex - 64) = some a := by
      rw [loadExtra_caches hcaches (by omega), hindex, Nat.add_sub_cancel' (by omega), ha]
    refine ⟨_, a, ?_, ha, hcaches.advance, toNat_succ hcur hnext, hcap⟩
    rw [if_neg (fun e => hargs (h64.mp e)), hc', Option.bind_eq_bind, Option.bind_some, hload]
    rfl

theorem toNat_roundUp {x : UInt32} (h : x.toNat + 3 < 2 ^ 32) :
    (Cache.roundUp x 4).toNat = (x.toNat + 3) / 4 * 4 := by
  have hadd : (x + (4 - 1)).toNat = x.toNat + 3 := by
    rw [UInt32.toNat_add]
    exact Nat.mod_eq_of_lt h
  have hdiv : ((x + (4 - 1)) / 4).toNat = (x.toNat + 3) / 4 := by
    rw [UInt32.toNat_div, hadd]
    rfl
  rw [Cache.roundUp, UInt32.toNat_mul, hdiv]
  exact Nat.mod_eq_of_lt (by show (x.toNat + 3) / 4 * 4 < 2 ^ 32; omega)

/-- There is room up to `index`. -/
theorem reserve_caches (h : Caches as n c) {index : UInt32} (hindex : 64 < index.toNat) :
    Caches as n (c.reserve index) ∧ index.toNat ≤ 64 + (c.reserve index).extraCapacity.toNat ∧
      (c.reserve index).currentIndex = c.currentIndex ∧
      (64 + c.extraCapacity.toNat < index.toNat →
        (c.reserve index).extraCapacity = Cache.maximum 4 (Cache.roundUp (index - 64) 4)) := by
  have hsub := toNat_sub_64 (x := index) rfl (Nat.le_of_lt hindex)
  have hroom := h.room
  have hbound := index.toNat_lt
  have hround := toNat_roundUp (x := index - 64) (by omega)
  have hmax := toNat_maximum 4 (Cache.roundUp (index - 64) 4)
  have hgt : index - 64 > c.extraCapacity ↔ 64 + c.extraCapacity.toNat < index.toNat := by
    rw [gt_iff_lt, UInt32.lt_iff_toNat_lt, hsub]
    omega
  rw [Cache.reserve]
  split
  · next hgrow =>
    have hlt : 64 + c.extraCapacity.toNat < index.toNat := by
      cases hgrow with
      | inl hnone =>
        have hzero := h.capacity
        rw [Cache.extra, hnone, Option.getD_none, List.length_nil] at hzero
        omega
      | inr hlt => exact hgt.mp hlt
    refine ⟨grow_caches h (by omega), ?_, rfl, fun _ => rfl⟩
    show index.toNat ≤ 64 + (Cache.maximum 4 (Cache.roundUp (index - 64) 4)).toNat
    omega
  · next hgrow =>
    have hle : ¬ 64 + c.extraCapacity.toNat < index.toNat := fun hlt =>
      hgrow (.inr (hgt.mpr hlt))
    exact ⟨h, Nat.le_of_not_lt hle, rfl, fun hlt => absurd hlt hle⟩

/-- The loop over `args`. -/
theorem repeatStore_storeArg (h : Caches as n c) {top : Nat} (htop : top ≤ 64)
    (hle : top ≤ as.length) :
    ∃ c', c.repeatStore Cache.storeArg (top - n) = some c' ∧ Caches as (max n top) c' ∧
      c.SameShape c' := by
  refine repeatStore_caches (P := fun _ _ => True) (fun i c hc _ hi => ?_) h trivial
  obtain ⟨c', hstore, hcaches, hshape⟩ := storeArg_caches hc (by omega) (by omega)
  exact ⟨c', hstore, hcaches, hshape, trivial⟩

/-- The loop over the block. -/
theorem repeatStore_storeExtra (h : Caches as n c) (hextra : 64 ≤ n) {top : Nat}
    (hroom : top ≤ 64 + c.extraCapacity.toNat) (hle : top ≤ as.length) (htop : top < 2 ^ 32) :
    ∃ c', c.repeatStore Cache.storeExtra (top - n) = some c' ∧ Caches as (max n top) c' ∧
      c.SameShape c' := by
  refine repeatStore_caches (P := fun i c => 64 ≤ i ∧ top ≤ 64 + c.extraCapacity.toNat)
    (fun i c hc hP hi => ?_) h ⟨hextra, hroom⟩
  obtain ⟨c', hstore, hcaches, hshape⟩ :=
    storeExtra_caches hc (by omega) hP.1 (by omega) (by omega)
  exact ⟨c', hstore, hcaches, hshape, by omega, hshape.extraCapacity ▸ hP.2⟩

theorem getAt_caches (h : Caches as n c) {index : UInt32} (hpos : 0 < index.toNat)
    (hle : index.toNat ≤ as.length) :
    ∃ c' a, c.getAt index = some (c', a) ∧ as[index.toNat - 1]? = some a ∧
      Caches as (max n index.toNat) c' ∧ c'.currentIndex = c.currentIndex ∧
      (64 + c.extraCapacity.toNat < index.toNat →
        c'.extraCapacity = Cache.maximum 4 (Cache.roundUp (index - 64) 4)) := by
  obtain ⟨a, ha⟩ : ∃ a, as[index.toNat - 1]? = some a :=
    ⟨_, List.getElem?_eq_getElem (by omega)⟩
  have h64 : index ≤ 64 ↔ index.toNat ≤ 64 := UInt32.le_iff_toNat_le
  have hbound := index.toNat_lt
  rw [Cache.getAt]
  by_cases hargs : index.toNat ≤ 64
  · obtain ⟨c', hc', hcaches, hshape⟩ := repeatStore_storeArg h hargs hle
    have hindex : (index - 1).toNat = index.toNat - 1 :=
      UInt32.toNat_sub_of_le _ _ (UInt32.le_iff_toNat_le.mpr hpos)
    have hload : c'.loadArg (index - 1) = some a := by
      rw [loadArg_caches hcaches (by omega) (by omega), hindex, ha]
    refine ⟨c', a, ?_, ha, hcaches, hshape.currentIndex, fun hlt => absurd hlt (by omega)⟩
    rw [if_pos (h64.mpr hargs), h.readCount, hc', Option.bind_eq_bind, Option.bind_some, hload]
    rfl
  · have hgt := Nat.lt_of_not_le hargs
    obtain ⟨c₁, hc₁, hcaches₁, hshape₁⟩ := repeatStore_storeArg h (Nat.le_refl 64) (by omega)
    obtain ⟨hcaches₂, hroom, hcurrent, hcap⟩ := reserve_caches hcaches₁ hgt
    obtain ⟨c', hc', hcaches, hshape⟩ :=
      repeatStore_storeExtra hcaches₂ (Nat.le_max_right n 64) hroom hle hbound
    rw [show max (max n 64) index.toNat = max n index.toNat by omega] at hcaches
    have hindex : (index - 64 - 1).toNat = index.toNat - 64 - 1 := by
      have hsub := toNat_sub_64 (x := index) rfl (Nat.le_of_lt hgt)
      rw [UInt32.toNat_sub_of_le _ _ (UInt32.le_iff_toNat_le.mpr (by show 1 ≤ _; omega)), hsub]
      rfl
    have hload : c'.loadExtra (index - 64 - 1) = some a := by
      rw [loadExtra_caches hcaches (by omega), hindex,
        show 64 + (index.toNat - 64 - 1) = index.toNat - 1 by omega, ha]
    refine ⟨c', a, ?_, ha, hcaches,
      hshape.currentIndex.trans (hcurrent.trans hshape₁.currentIndex), fun hlt => ?_⟩
    · rw [if_neg (fun e => hargs (h64.mp e)), h.readCount, hc₁]
      simp only [Option.bind_eq_bind, Option.bind_some, hcaches₂.readCount, hc', hload]
    · rw [← hshape₁.extraCapacity] at hlt
      rw [hshape.extraCapacity, hcap hlt]

/-! ## Refinement -/

theorem VariadicArgs.read_args (k : Nat) (a : VariadicArgs)
    (h : a.args = (List.range a.args.length).map a.list) :
    (a.read k).args = (List.range (a.args.length + k)).map a.list ∧
      (a.read k).list = a.list ∧ (a.read k).currentIndex = a.currentIndex := by
  induction k generalizing a with
  | zero => exact ⟨h, rfl, rfl⟩
  | succ k ih =>
    have hargs : a.args ++ [a.list a.args.length] =
        (List.range (a.args.length + 1)).map a.list := by
      rw [List.range_succ, List.map_append, ← h]
      rfl
    have hlength : (a.args ++ [a.list a.args.length]).length = a.args.length + 1 := by simp
    have hread := ih { a with args := a.args ++ [a.list a.args.length] } (by rw [hlength]; exact hargs)
    simp only [hlength] at hread
    rw [VariadicArgs.read, show a.args.length + (k + 1) = a.args.length + 1 + k by omega]
    exact hread

/-- The `n` first arguments have been read, the next sequential one is `m`. -/
structure ArgsRead (n m : Nat) (a : VariadicArgs) : Prop where
  args : a.args = (List.range n).map a.list
  currentIndex : a.currentIndex = m
  le : m ≤ n

theorem ArgsRead.length {n m : Nat} {a : VariadicArgs} (h : ArgsRead n m a) : a.args.length = n := by
  rw [h.args, List.length_map, List.length_range]

theorem ArgsRead.read {n m : Nat} {a : VariadicArgs} (h : ArgsRead n m a) (k : Nat) :
    ArgsRead (n + k) m (a.read k) ∧ (a.read k).list = a.list := by
  obtain ⟨hargs, hlist, hcurrent⟩ := a.read_args k (by rw [h.length]; exact h.args)
  rw [h.length, ← hlist] at hargs
  exact ⟨⟨hargs, hcurrent.trans h.currentIndex, Nat.le_add_right_of_le h.le⟩, hlist⟩

theorem ArgsRead.getD {n m i : Nat} {a : VariadicArgs} (h : ArgsRead n m a) (hi : i < n) :
    a.args.getD i 0 = a.list i := by
  rw [h.args, List.getD_eq_getElem?_getD, List.getElem?_map, List.getElem?_range hi]
  rfl

theorem get_next {n m : Nat} {a : VariadicArgs} (h : ArgsRead n m a) :
    (a.get 0).1 = a.list m ∧ ArgsRead (max n (m + 1)) (m + 1) (a.get 0).2 ∧
      (a.get 0).2.list = a.list := by
  have hle := h.le
  rw [VariadicArgs.get, if_pos rfl]
  split
  · next heq =>
    rw [h.length, h.currentIndex] at heq
    obtain ⟨hread, hlist⟩ := h.read 1
    refine ⟨?_, ⟨?_, ?_, Nat.le_max_right _ _⟩, hlist⟩
    · show (a.read 1).args.getD (a.read 1).currentIndex 0 = a.list m
      rw [hread.currentIndex, hread.getD (by omega), hlist]
    · rw [Nat.max_eq_right (by omega), ← heq]
      exact hread.args
    · exact congrArg (· + 1) hread.currentIndex
  · next hne =>
    rw [h.length, h.currentIndex] at hne
    refine ⟨?_, ⟨?_, ?_, Nat.le_max_right _ _⟩, rfl⟩
    · show a.args.getD a.currentIndex 0 = a.list m
      rw [h.currentIndex, h.getD (by omega)]
    · rw [Nat.max_eq_left (by omega)]
      exact h.args
    · exact congrArg (· + 1) h.currentIndex

theorem get_at {n m : Nat} {a : VariadicArgs} (h : ArgsRead n m a) {index : UInt32}
    (hindex : index ≠ 0) :
    (a.get index).1 = a.list (index.toNat - 1) ∧
      ArgsRead (max n index.toNat) m (a.get index).2 ∧ (a.get index).2.list = a.list := by
  have hpos : index.toNat ≠ 0 := fun e => hindex (UInt32.toNat_inj.mp e)
  obtain ⟨hread, hlist⟩ := h.read (index.toNat - n)
  rw [show n + (index.toNat - n) = max n index.toNat by omega] at hread
  rw [VariadicArgs.get, if_neg hindex, h.length]
  refine ⟨?_, hread, hlist⟩
  show (a.read (index.toNat - n)).args.getD (index.toNat - 1) 0 = _
  rw [hread.getD (by omega), hlist]

/-- The cache `c` stands for `a`, as far as there are arguments. -/
structure Refines (as : List UInt64) (n m : Nat) (c : Cache) (a : VariadicArgs) : Prop where
  caches : Caches as n c
  currentIndex : c.currentIndex.toNat = m
  read : ArgsRead n m a
  list : ∀ i < as.length, as[i]? = some (a.list i)

/-- A call that asks for an argument that has been supplied and, if it is sequential, can grow the
block. -/
structure Asks (as : List UInt64) (c : Cache) (index : UInt32) : Prop where
  supplied : index.toNat ≤ as.length
  next : index = 0 → c.currentIndex.toNat < as.length
  grows : index = 0 → c.currentIndex = c.readCount → CanGrow c.readCount.toNat c

/-- The sequential calls made after this one. -/
def afterCall (m : Nat) (index : UInt32) : Nat := if index = 0 then m + 1 else m

/-- The arguments read after a call. -/
def readAfter (n m : Nat) (index : UInt32) : Nat :=
  if index = 0 then max n (m + 1) else max n index.toNat

/-- The cache and its abstraction return the same argument. -/
theorem get_sim {a : VariadicArgs} (h : Refines as n m c a) {index : UInt32}
    (hasks : Asks as c index) :
    ∃ c' v, variadicArgsGet c index = some (c', v) ∧ (a.get index).1 = v ∧
      Refines as (readAfter n m index) (afterCall m index) c' (a.get index).2 := by
  rw [variadicArgsGet, afterCall, readAfter]
  split
  · next hzero =>
    subst hzero
    have hlt := hasks.next rfl
    rw [h.currentIndex] at hlt
    have hgrows : m = n → CanGrow n c := by
      intro heq
      have hread := (readCount_eq_currentIndex h.caches h.currentIndex).mpr heq.symm
      rw [← h.caches.readCount]
      exact hasks.grows rfl hread.symm
    obtain ⟨c', v, hget, hv, hcaches, hcurrent, -⟩ :=
      getNext_caches h.caches h.currentIndex h.read.le hlt hgrows
    obtain ⟨hvalue, hread, hlist⟩ := get_next h.read
    refine ⟨c', v, hget, ?_, hcaches, hcurrent, hread, hlist ▸ h.list⟩
    rw [h.list m hlt, Option.some_inj] at hv
    rw [hvalue, hv]
  · next hne =>
    have hpos : 0 < index.toNat := Nat.pos_of_ne_zero fun e => hne (UInt32.toNat_inj.mp e)
    have hle := hasks.supplied
    obtain ⟨c', v, hget, hv, hcaches, hcurrent, -⟩ := getAt_caches h.caches hpos hle
    obtain ⟨hvalue, hread, hlist⟩ := get_at h.read hne
    refine ⟨c', v, hget, ?_, hcaches, hcurrent ▸ h.currentIndex, hread, hlist ▸ h.list⟩
    rw [h.list _ (by omega), Option.some_inj] at hv
    rw [hvalue, hv]

/-! ## Whole sequences of calls -/

/-- Calls of the abstraction, one after the other. -/
def argsMachine : Machine VariadicArgs UInt32 UInt64 where
  step a index := some ((a.get index).2, (a.get index).1)

/-- With at most 2^31 + 64 arguments a block that is full can be doubled. -/
theorem grows_of_le (c : Cache) (hlt : n < as.length) (hsmall : as.length ≤ 2 ^ 31 + 64) :
    CanGrow n c :=
  ⟨by omega, fun hfull => by omega⟩

/-- The arguments read after a list of calls. -/
theorem max_readAfter (n m : Nat) (index : UInt32) (calls : List UInt32) :
    max (readAfter n m index)
        (max (afterCall m index + calls.count 0) ((calls.map UInt32.toNat).foldr max 0)) =
      max n (max (m + (index :: calls).count 0)
        (((index :: calls).map UInt32.toNat).foldr max 0)) := by
  rw [List.count_cons, List.map_cons, List.foldr_cons, readAfter, afterCall]
  by_cases hzero : index = 0
  · subst hzero
    rw [if_pos rfl, if_pos rfl, if_pos (by rfl), UInt32.toNat_zero]
    omega
  · rw [if_neg hzero, if_neg hzero, if_neg (by simpa using hzero)]
    omega

/-- Up to 2^31 + 64 arguments, the cache answers whole sequences of calls as its abstraction does. -/
theorem run_refines {a : VariadicArgs} (h : Refines as n m c a)
    (hsmall : as.length ≤ 2 ^ 31 + 64) (calls : List UInt32)
    (hpermitted : max (m + calls.count 0) ((calls.map UInt32.toNat).foldr max 0) ≤ as.length) :
    ∃ c' a' os m', cacheMachine.run c calls = some (c', os) ∧
      argsMachine.run a calls = some (a', os) ∧ os.map some = answers as m calls ∧
      Refines as (max n (max (m + calls.count 0) ((calls.map UInt32.toNat).foldr max 0))) m' c' a' := by
  induction calls generalizing n m c a with
  | nil =>
    refine ⟨c, a, [], m, rfl, rfl, rfl, ?_⟩
    have hle := h.read.le
    rw [List.count_nil, List.map_nil, List.foldr_nil, show max n (max (m + 0) 0) = n by omega]
    exact h
  | cons index calls ih =>
    have hsplit := max_readAfter n m index calls
    have hasks : Asks as c index := by
      rw [List.count_cons, List.map_cons, List.foldr_cons] at hpermitted
      refine ⟨by omega, fun hzero => ?_, fun hzero hread => ?_⟩
      · rw [if_pos (by simpa using hzero)] at hpermitted
        rw [h.currentIndex]
        omega
      · rw [if_pos (by simpa using hzero)] at hpermitted
        have heq := h.currentIndex
        rw [hread] at heq
        rw [heq]
        have hnm := heq.symm.trans h.caches.readCount
        exact hnm ▸ grows_of_le c (by omega) hsmall
    obtain ⟨c₁, v, hget, hv, hrefines⟩ := get_sim h hasks
    have hle := hrefines.caches.le
    have hle₀ := h.caches.le
    obtain ⟨c', a', os, m', hrun, hargs, hanswers, hfinal⟩ := ih hrefines (by omega)
    rw [hsplit] at hfinal
    refine ⟨c', a', v :: os, m', ?_, ?_, ?_, hfinal⟩
    · rw [Machine.run_cons hget, hrun]
      rfl
    · rw [Machine.run_cons (M := argsMachine) (o := v) (by rw [← hv]; rfl), hargs]
      rfl
    · rw [answers, List.map_cons, hanswers, ← hv, afterCall]
      split
      · next hzero =>
        have hlt := hasks.next hzero
        rw [h.currentIndex] at hlt
        rw [h.list m hlt, hzero, (get_next h.read).1]
      · next hzero =>
        have hpos : 0 < index.toNat := Nat.pos_of_ne_zero fun e => hzero (UInt32.toNat_inj.mp e)
        have hsupplied := hasks.supplied
        rw [h.list _ (by omega), (get_at h.read hzero).1]

theorem refines_init (as : List UInt64) :
    Refines as 0 0 (.init as) (.init (fun i => as.getD i 0)) where
  caches := caches_init as
  currentIndex := rfl
  read := ⟨rfl, rfl, Nat.le_refl 0⟩
  list i hi := by
    show as[i]? = some (as.getD i 0)
    rw [List.getD_eq_getElem?_getD, List.getElem?_eq_getElem hi, Option.getD_some]

theorem serves_of_le (hsmall : as.length ≤ 2 ^ 31 + 64) {calls : List UInt32}
    (hpermitted : Permitted as calls) : Serves as calls := by
  rw [Permitted, needed] at hpermitted
  obtain ⟨c', a', os, m', hrun, -, hanswers, hfinal⟩ :=
    run_refines (refines_init as) hsmall calls (by rwa [Nat.zero_add])
  refine ⟨c', os, hrun, hanswers, ?_⟩
  rw [hfinal.caches.list, Nat.zero_add, Nat.zero_max]
  rfl

theorem foldr_max_zeros (n : Nat) :
    ((List.replicate n (0 : UInt32)).map UInt32.toNat).foldr max 0 = 0 := by
  induction n with
  | zero => rfl
  | succ n ih =>
    rw [List.replicate_succ, List.map_cons, List.foldr_cons, ih]
    rfl

/-- All arguments, one after the other. -/
theorem serves_in_turn (hsmall : as.length ≤ 2 ^ 31 + 64) :
    Serves as (List.replicate as.length 0) := by
  apply serves_of_le hsmall
  rw [Permitted, needed, List.count_replicate_self, foldr_max_zeros]
  exact Nat.le_of_eq (Nat.max_zero _)

/-! ## The capacity wraps around -/

/-- A capacity of 2^31 or more cannot be doubled: the block becomes smaller, and the argument is
stored behind its end. -/
theorem getNext_wraps (h : Caches as n c) (hcurrent : c.currentIndex.toNat = n)
    (hfull : n = 64 + c.extraCapacity.toNat) (hlarge : 2 ^ 31 ≤ c.extraCapacity.toNat) :
    c.getNext = none := by
  have hindex := toNat_sub_64 h.readCount (by omega)
  have hsame := (readCount_eq_currentIndex h hcurrent).mpr rfl
  have hcapacity : c.readCount - 64 = c.extraCapacity := UInt32.toNat_inj.mp (by omega)
  have hstatic : ¬ c.currentIndex < 64 := by
    rw [UInt32.lt_iff_toNat_lt, hcurrent]
    show ¬ n < 64
    omega
  have hnew : (Cache.maximum 4 (c.extraCapacity * 2)).toNat ≤ c.extraCapacity.toNat := by
    have hbound := c.extraCapacity.toNat_lt
    have hfour : (4 : UInt32).toNat = 4 := rfl
    have hmul : (c.extraCapacity * 2).toNat = c.extraCapacity.toNat * 2 % 2 ^ 32 :=
      UInt32.toNat_mul _ _
    rw [toNat_maximum]
    omega
  have hstore : (c.grow (Cache.maximum 4 (c.extraCapacity * 2))).storeExtra = none := by
    have hlength : (Cache.realloc c.extraArgs
        (Cache.maximum 4 (c.extraCapacity * 2)).toNat).length ≤ c.extraCapacity.toNat := by
      have hold := h.capacity
      rw [Cache.extra] at hold
      rw [Cache.realloc, List.length_append, List.length_take, List.length_replicate]
      omega
    rw [Cache.storeExtra]
    split
    · next a list extra hlist hextra =>
      obtain rfl := Option.some_inj.mp hextra
      apply if_neg
      show ¬ (c.readCount - 64).toNat < _
      rw [hcapacity]
      omega
    · rfl
  rw [Cache.getNext, if_neg hstatic, Cache.readExtra, if_pos hsame, if_pos (.inr hcapacity), hstore]
  rfl

/-- Sequential calls for arguments that have been read change nothing else. -/
theorem run_sequential (h : Caches as n c) (hcurrent : c.currentIndex.toNat = m) {k : Nat}
    (hk : m + k ≤ n) :
    ∃ c' os, cacheMachine.run c (List.replicate k 0) = some (c', os) ∧ Caches as n c' ∧
      c'.currentIndex.toNat = m + k ∧ c'.extraCapacity = c.extraCapacity := by
  induction k generalizing m c with
  | zero => exact ⟨c, [], rfl, h, hcurrent, rfl⟩
  | succ k ih =>
    have hle := h.le
    obtain ⟨c₁, v, hget, -, hcaches, hcurrent₁, hcapacity⟩ :=
      getNext_caches h hcurrent (by omega) (by omega) (fun e => absurd e (by omega))
    rw [Nat.max_eq_left (by omega)] at hcaches
    obtain ⟨c', os, hrun, hcaches', hcurrent', hcapacity'⟩ := ih hcaches hcurrent₁ (by omega)
    refine ⟨c', v :: os, ?_, hcaches', by omega, hcapacity'.trans (hcapacity (by omega))⟩
    have hstep : cacheMachine.step c 0 = some (c₁, v) := hget
    rw [List.replicate_succ, Machine.run_cons hstep, hrun]
    rfl

/-- An argument by number, and then all up to it, and one more, in turn. -/
def wrappingCalls (index : UInt32) : List UInt32 :=
  index :: (List.replicate index.toNat 0 ++ [0])

theorem not_serves_wrappingCalls {index : UInt32} (hindex : index.toNat = 2 ^ 31 + 64)
    (hle : index.toNat ≤ as.length) : ¬ Serves as (wrappingCalls index) := by
  rintro ⟨c, os, hrun, -⟩
  have hne : index ≠ 0 := by
    rintro rfl
    cases hindex
  -- the call by number gives the block 2^31 entries
  obtain ⟨c₁, v, hget, -, hcaches₁, hcurrent₁, hcapacity₁⟩ :=
    getAt_caches (caches_init as) (show 0 < index.toNat by omega) hle
  rw [Nat.zero_max] at hcaches₁
  have hstep : cacheMachine.step (.init as) index = some (c₁, v) := by
    show variadicArgsGet _ _ = _
    rw [variadicArgsGet, if_neg hne, hget]
  have hlarge : c₁.extraCapacity.toNat = 2 ^ 31 := by
    have hsub := toNat_sub_64 hindex (by omega)
    have hfour : (4 : UInt32).toNat = 4 := rfl
    have hnone : (Cache.init as).extraCapacity.toNat = 0 := rfl
    rw [hcapacity₁ (by omega), toNat_maximum, toNat_roundUp (by omega), hsub]
    omega
  -- the sequential calls find what it has read, up to the last one
  obtain ⟨c₂, os₂, hrun₂, hcaches₂, hcurrent₂, hcapacity₂⟩ :=
    run_sequential (m := 0) (k := index.toNat) hcaches₁ (congrArg UInt32.toNat hcurrent₁) (by omega)
  rw [← hcapacity₂] at hlarge
  have hfault : cacheMachine.step c₂ 0 = none :=
    getNext_wraps hcaches₂ (by omega) (by omega) (by omega)
  rw [wrappingCalls, Machine.run_cons hstep, Machine.run_append hrun₂] at hrun
  simp [Machine.run, hfault] at hrun

theorem permitted_wrappingCalls {index : UInt32} (hne : index ≠ 0) (hlt : index.toNat < as.length) :
    Permitted as (wrappingCalls index) := by
  have hmax : ∀ k, ((List.replicate k (0 : UInt32) ++ [0]).map UInt32.toNat).foldr max 0 = 0 := by
    intro k
    rw [← List.replicate_succ', foldr_max_zeros]
  rw [Permitted, needed, wrappingCalls, List.map_cons, List.foldr_cons, hmax, List.count_cons,
    List.count_append, List.count_replicate_self, List.count_singleton_self,
    if_neg (by simpa using hne)]
  omega

/-- **The argument cache.** Every sequence of calls for arguments that have been supplied is served
if and only if there are at most 2^31 + 64 of them. -/
theorem variadicArgsGet_serves_iff (as : List UInt64) :
    (∀ calls, Permitted as calls → Serves as calls) ↔ as.length ≤ 2 ^ 31 + 64 := by
  constructor
  · intro h
    by_contra hlarge
    rw [Nat.not_le] at hlarge
    have hindex : (2147483712 : UInt32).toNat = 2 ^ 31 + 64 := rfl
    have hlt : (2147483712 : UInt32).toNat < as.length := hindex ▸ hlarge
    have hne : (2147483712 : UInt32) ≠ 0 := by decide
    exact not_serves_wrappingCalls hindex (Nat.le_of_lt hlt)
      (h _ (permitted_wrappingCalls hne hlt))
  · intro hsmall calls hpermitted
    exact serves_of_le hsmall hpermitted

/-- With 2^31 + 65 arguments, argument 2^31 + 64 by number and then all of them in turn: the last call
makes the block four entries long and stores behind it. -/
theorem variadicArgsGet_wraps :
    ¬ ∀ as calls, Permitted as calls → Serves as calls := by
  intro h
  have hindex : (2147483712 : UInt32).toNat = 2 ^ 31 + 64 := rfl
  obtain ⟨as, has⟩ : ∃ as : List UInt64, as.length = 2 ^ 31 + 65 :=
    ⟨List.replicate _ 0, List.length_replicate⟩
  have hlt : (2147483712 : UInt32).toNat < as.length := by omega
  exact not_serves_wrappingCalls hindex (Nat.le_of_lt hlt)
    (h as _ (permitted_wrappingCalls (by decide) hlt))

end WindowsLibc.Printf
