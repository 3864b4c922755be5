import WindowsLibc.Lib.Machine
import WindowsLibc.Lib.WordSet

/-!
# Sets of processors (`sched/cpuset.c`)

A `cpu_set_t` has the number of its processors, the number of its groups of 64 and a mask for each group.
The last group has bits for processors that the set does not have.

* A load or a store outside of the allocated masks is a fault, `none`.
* The unary operations check the processor against `num_cpus`. The binary ones check that the sets have
  as many groups, and so may set bits that `cpu_isset` does not reach but `cpu_count` counts.
* `Clean` says that there are no such bits. `cpuMachine_lawful_iff`: the sets behave as sets along a run
  exactly if no binary operation brings processors that its destination does not have.
-/

namespace WindowsLibc.Sched

open WindowsLibc.Lib WindowsLibc.Lib.WordSet

/-- `cpu_set_t`; `groupMask` is all that has been allocated for the masks. -/
structure CpuSet where
  numGroups : Int
  numCpus : Int
  groupMask : List (BitVec 64)

/-- `wlibc_cpu_alloc_size`: two `int`s, and 8 bytes for each group. -/
def cpuAllocSize (numCpus : Int) : Nat :=
  if numCpus ≤ 0 then 0 else 16 + ((numCpus - 1) / 64 * 8).toNat

/-- `masks[i] = word`. -/
def storeGroup (masks : List (BitVec 64)) (i : Nat) (word : BitVec 64) : Option (List (BitVec 64)) :=
  if i < masks.length then some (masks.set i word) else none

/-- `for (i = 0; i < n; ++i) masks[i] = word(i)`. -/
def storeGroups (word : Nat → Option (BitVec 64)) (masks : List (BitVec 64)) :
    Nat → Option (List (BitVec 64))
  | 0 => some masks
  | n + 1 => do
    let masks ← storeGroups word masks n
    storeGroup masks n (← word n)

/-- `wlibc_cpu_alloc`. The memory that the heap gives is not cleared. -/
def cpuAlloc (heap : Nat → BitVec 64) (numCpus : Int) : Option CpuSet := do
  let numGroups := numCpus / 64 + (if numCpus % 64 = 0 then 0 else 1)
  let words := (cpuAllocSize numCpus - 8) / 8
  let masks ← storeGroups (fun _ => some 0) ((List.range words).map heap) numGroups.toNat
  return ⟨numGroups, numCpus, masks⟩

/-- `wlibc_cpu_zero`. -/
def cpuZero (set : CpuSet) : Option CpuSet := do
  let masks ← storeGroups (fun _ => some 0) set.groupMask set.numGroups.toNat
  return { set with groupMask := masks }

/-- The processor is one of the set's. -/
def CpuSet.Valid (set : CpuSet) (cpu : Int) : Prop := ¬ (cpu < 0 ∨ cpu ≥ set.numCpus)

instance (set : CpuSet) (cpu : Int) : Decidable (set.Valid cpu) := inferInstanceAs (Decidable (¬ _))

/-- `set->group_mask[cpu / 64]`, changed in place. -/
def cpuUpdate (f : BitVec 64 → BitVec 64) (cpu : Int) (set : CpuSet) : Option CpuSet := do
  let i := (cpu / 64).toNat
  let masks ← storeGroup set.groupMask i (f (← set.groupMask[i]?))
  return { set with groupMask := masks }

/-- `wlibc_cpu_set`, for a processor of the set. -/
def cpuSet (cpu : Int) (set : CpuSet) : Option CpuSet :=
  cpuUpdate (· ||| 1#64 <<< (cpu % 64).toNat) cpu set

/-- `wlibc_cpu_clr`, for a processor of the set. -/
def cpuClr (cpu : Int) (set : CpuSet) : Option CpuSet :=
  cpuUpdate (· &&& ~~~(1#64 <<< (cpu % 64).toNat)) cpu set

/-- `wlibc_cpu_isset`. -/
def cpuIsset (cpu : Int) (set : CpuSet) : Option Bool :=
  if set.Valid cpu then do
    let word ← set.groupMask[(cpu / 64).toNat]?
    return word &&& 1#64 <<< (cpu % 64).toNat ≠ 0
  else some false

/-- `wlibc_cpu_count`. -/
def cpuCount (set : CpuSet) : Option Nat :=
  (List.range set.numGroups.toNat).foldlM (fun count i =>
    (set.groupMask[i]?).map fun word => count + popcnt64 word) 0

/-- What `wlibc_cpu_and`, `wlibc_cpu_or` and `wlibc_cpu_xor` do to words. -/
inductive Binary where
  | and
  | or
  | xor

def Binary.words : Binary → BitVec 64 → BitVec 64 → BitVec 64
  | .and => (· &&& ·)
  | .or => (· ||| ·)
  | .xor => (· ^^^ ·)

/-- And to bits. -/
def Binary.bits : Binary → Bool → Bool → Bool
  | .and => (· && ·)
  | .or => (· || ·)
  | .xor => (· ^^ ·)

/-- The sets have as many groups; otherwise `EINVAL` is reported. -/
def SameGroups (destset srcset₁ srcset₂ : CpuSet) : Prop :=
  destset.numGroups = srcset₁.numGroups ∧ destset.numGroups = srcset₂.numGroups

instance (d a b : CpuSet) : Decidable (SameGroups d a b) := inferInstanceAs (Decidable (_ ∧ _))

/-- The loop of a binary operation. It reads a group before it writes it, so `destset` may be one of the
sources. -/
def cpuBinary (op : Binary) (destset srcset₁ srcset₂ : CpuSet) : Option CpuSet := do
  let word := fun i => do return op.words (← srcset₁.groupMask[i]?) (← srcset₂.groupMask[i]?)
  let masks ← storeGroups word destset.groupMask destset.numGroups.toNat
  return { destset with groupMask := masks }

/-- The groups `is` are the same. -/
def equalGroups (set₁ set₂ : CpuSet) : List Nat → Option Bool
  | [] => some true
  | i :: is => do
    if (← set₁.groupMask[i]?) ≠ (← set₂.groupMask[i]?) then return false
    else equalGroups set₁ set₂ is

/-- `wlibc_cpu_equal`. -/
def cpuEqual (set₁ set₂ : CpuSet) : Option Bool :=
  if set₁.numGroups ≠ set₂.numGroups then some false
  else if set₁.numCpus ≠ set₂.numCpus then some false
  else equalGroups set₁ set₂ (List.range set₁.numGroups.toNat)

/-! ## Runs -/

/-- An operation on a collection of sets, which are named by their place in it. A place outside of it is
NULL. -/
inductive Op where
  | alloc (heap : Option (Nat → BitVec 64)) (numCpus : Int)
  | zero (set : Nat)
  | set (cpu : Int) (set : Nat)
  | clr (cpu : Int) (set : Nat)
  | binary (op : Binary) (destset srcset₁ srcset₂ : Nat)

/-- Put a set back. -/
def update (sets : List CpuSet) (i : Nat) (set : Option CpuSet) : Option (List CpuSet × Bool) :=
  set.map fun set => (sets.set i set, false)

/-- One operation; the output says whether `EINVAL` is reported. -/
def cpuStep (sets : List CpuSet) : Op → Option (List CpuSet × Bool)
  | .alloc heap numCpus =>
    if numCpus ≤ 0 then some (sets, true)
    else match heap with
      | none => some (sets, false)
      | some heap => (cpuAlloc heap numCpus).map fun set => (sets ++ [set], false)
  | .zero i =>
    match sets[i]? with
    | none => some (sets, true)
    | some set => update sets i (cpuZero set)
  | .set cpu i =>
    match sets[i]? with
    | none => some (sets, true)
    | some set => if set.Valid cpu then update sets i (cpuSet cpu set) else some (sets, true)
  | .clr cpu i =>
    match sets[i]? with
    | none => some (sets, true)
    | some set => if set.Valid cpu then update sets i (cpuClr cpu set) else some (sets, true)
  | .binary op d a b =>
    match sets[d]?, sets[a]?, sets[b]? with
    | some destset, some srcset₁, some srcset₂ =>
      if SameGroups destset srcset₁ srcset₂ then
        update sets d (cpuBinary op destset srcset₁ srcset₂)
      else some (sets, true)
    | _, _, _ => some (sets, true)

def cpuMachine : Machine (List CpuSet) Op Bool := ⟨cpuStep⟩

/-! ## What the sets are for -/

/-- `cpu_count` and `cpu_equal` are the count and the equality of the processors that `cpu_isset` has. -/
structure Lawful (sets : List CpuSet) : Prop where
  count : ∀ s ∈ sets, cpuCount s =
    some ((List.range s.numCpus.toNat).countP fun c : Nat => cpuIsset (c : Int) s = some true)
  equal : ∀ s ∈ sets, ∀ t ∈ sets, ∃ equal, cpuEqual s t = some equal ∧
    (equal = true ↔ s.numCpus = t.numCpus ∧ ∀ c, cpuIsset c s = cpuIsset c t)

/-- A binary operation that goes through is one on every processor. -/
def Pointwise (sets sets' : List CpuSet) : Op → Prop
  | .binary op d a b => ∀ A B, sets[a]? = some A → sets[b]? = some B → ∃ D, sets'[d]? = some D ∧
    ∀ c, ∃ x y, cpuIsset c A = some x ∧ cpuIsset c B = some y ∧ cpuIsset c D = some (op.bits x y)
  | _ => True

/-- Behind the operation the sets are as they should be. -/
def LawfulStep (sets : List CpuSet) (op : Op) : Prop :=
  ∀ sets' einval, cpuStep sets op = some (sets', einval) →
    Lawful sets' ∧ (einval = false → Pointwise sets sets' op)

/-- A binary operation brings no processor that its destination does not have. -/
def Fits (sets : List CpuSet) : Op → Prop
  | .binary op d a b => ∀ D A B, sets[d]? = some D → sets[a]? = some A → sets[b]? = some B →
    SameGroups D A B → ∀ c, D.numCpus ≤ c → ∀ x y, cpuIsset c A = some x → cpuIsset c B = some y →
      op.bits x y = false
  | _ => True

/-! ## Masks -/

/-- The masks are those of as many groups as the processors take. -/
structure Sized (s : CpuSet) : Prop where
  groups : s.numGroups = s.groupMask.length
  lower : 64 * (s.groupMask.length - 1 : Int) < s.numCpus
  upper : s.numCpus ≤ 64 * s.groupMask.length
  pos : 0 < s.numCpus

/-- No processor has a bit that the set does not have. -/
def Clean (s : CpuSet) : Prop := ∀ i : Nat, s.numCpus ≤ i → mem s.groupMask i = false

theorem storeGroups_eq {word : Nat → Option (BitVec 64)} {g : Nat → BitVec 64}
    {masks : List (BitVec 64)} {n : Nat} (hword : ∀ i < n, word i = some (g i))
    (hn : n ≤ masks.length) :
    storeGroups word masks n = some ((List.range n).map g ++ masks.drop n) := by
  induction n with
  | zero => rfl
  | succ n ih =>
    have hlength : ((List.range n).map g ++ masks.drop n).length = masks.length := by
      simp
      omega
    have hdrop : masks.drop n = masks[n] :: masks.drop (n + 1) := List.drop_eq_getElem_cons hn
    rw [storeGroups, ih (fun i hi => hword i (by omega)) (by omega), hword n (by omega)]
    simp only [Option.bind_eq_bind, Option.bind_some, storeGroup]
    rw [if_pos (by omega), List.set_append_right _ _ (by simp), List.range_succ, List.map_append,
      List.append_assoc, List.length_map, List.length_range, Nat.sub_self, hdrop]
    rfl

/-- A loop over all the groups. -/
theorem storeGroups_all {word : Nat → Option (BitVec 64)} {g : Nat → BitVec 64} {s : CpuSet}
    (h : Sized s) (hword : ∀ i < s.groupMask.length, word i = some (g i)) :
    storeGroups word s.groupMask s.numGroups.toNat =
      some ((List.range s.groupMask.length).map g) := by
  have hn : s.numGroups.toNat = s.groupMask.length := by rw [h.groups, Int.toNat_natCast]
  rw [hn, storeGroups_eq hword (Nat.le_refl _), List.drop_length, List.append_nil]

theorem map_range_zero (n : Nat) : (List.range n).map (fun _ => (0 : BitVec 64)) = List.replicate n 0 := by
  rw [List.map_const', List.length_range]

theorem cpuAlloc_eq (heap : Nat → BitVec 64) {n : Int} (hn : 0 < n) :
    ∃ s, cpuAlloc heap n = some s ∧ Sized s ∧ Clean s := by
  obtain ⟨k, rfl⟩ := Int.eq_ofNat_of_zero_le (Int.le_of_lt hn)
  have hwords : (cpuAllocSize k - 8) / 8 = (k - 1) / 64 + 1 := by
    rw [cpuAllocSize, if_neg (by omega)]
    omega
  have hgroups : ((k : Int) / 64 + if (k : Int) % 64 = 0 then 0 else 1) = ((k - 1) / 64 + 1 : Nat) := by
    split <;> omega
  have hstore := @storeGroups_eq (fun _ => some 0) (fun _ => 0)
    ((List.range ((k - 1) / 64 + 1)).map heap) ((k - 1) / 64 + 1) (fun _ _ => rfl) (by simp)
  rw [List.drop_eq_nil_of_le (by simp), List.append_nil, map_range_zero] at hstore
  refine ⟨⟨((k - 1) / 64 + 1 : Nat), k, List.replicate ((k - 1) / 64 + 1) 0⟩, ?_, ?_, ?_⟩
  · rw [cpuAlloc, hwords, hgroups, Int.toNat_natCast, hstore]
    rfl
  · refine ⟨?_, ?_, ?_, hn⟩ <;> simp only [List.length_replicate] <;> omega
  · exact fun i _ => mem_replicate_zero _ i

/-! ### Looking at them -/

variable {s t : CpuSet}

theorem cpuIsset_eq (h : Sized s) (c : Int) :
    cpuIsset c s = some (decide (s.Valid c) && mem s.groupMask c.toNat) := by
  rw [cpuIsset]
  split
  · next hvalid =>
    have hlt : (c / 64).toNat < s.groupMask.length := by
      have hupper := h.upper
      simp only [CpuSet.Valid] at hvalid
      omega
    have hdiv : (c / 64).toNat = c.toNat / 64 := by
      simp only [CpuSet.Valid] at hvalid
      omega
    have hmod : (c % 64).toNat = c.toNat % 64 := by
      simp only [CpuSet.Valid] at hvalid
      omega
    have hbit := and_bit_ne_zero (s.groupMask[(c / 64).toNat]) c.toNat
    rw [bit, ← hmod] at hbit
    rw [List.getElem?_eq_getElem hlt]
    simp only [Option.bind_eq_bind, Option.bind_some, hvalid, decide_true, Bool.true_and, mem,
      ← hmod, ← hdiv, List.getD_eq_getElem?_getD, List.getElem?_eq_getElem hlt, Option.getD_some,
      Option.pure_def, Option.some.injEq]
    rw [Bool.eq_iff_iff, decide_eq_true_iff]
    exact hbit
  · next hvalid => simp [hvalid]

theorem cpuCount_eq (h : Sized s) : cpuCount s = some (s.groupMask.map popcnt64).sum := by
  have hn : s.numGroups.toNat = s.groupMask.length := by rw [h.groups, Int.toNat_natCast]
  have hloop : ∀ n ≤ s.groupMask.length, (List.range n).foldlM (fun count i =>
      (s.groupMask[i]?).map fun word => count + popcnt64 word) 0 =
        some ((s.groupMask.take n).map popcnt64).sum := by
    intro n hn
    induction n with
    | zero => rfl
    | succ n ih =>
      rw [List.range_succ, List.foldlM_append, ih (by omega), List.take_succ_eq_append_getElem hn,
        List.map_append, List.sum_append, Option.bind_eq_bind, Option.bind_some]
      simp only [List.foldlM_cons, List.foldlM_nil, List.getElem?_eq_getElem hn, Option.map_some,
        Option.bind_eq_bind, Option.bind_some, Option.pure_def, List.map_cons, List.map_nil,
        List.sum_cons, List.sum_nil, Nat.add_zero]
  rw [cpuCount, hn, hloop _ (Nat.le_refl _), List.take_length]

theorem cpuEqual_eq (hs : Sized s) (ht : Sized t) :
    cpuEqual s t = some (decide (s.numCpus = t.numCpus ∧ s.groupMask = t.groupMask)) := by
  have hn : s.numGroups.toNat = s.groupMask.length := by rw [hs.groups, Int.toNat_natCast]
  rw [cpuEqual]
  by_cases hgroups : s.numGroups = t.numGroups
  · rw [if_neg (not_not.mpr hgroups)]
    have hlen : s.groupMask.length = t.groupMask.length := by
      rw [hs.groups, ht.groups] at hgroups
      omega
    by_cases hcpus : s.numCpus = t.numCpus
    · rw [if_neg (not_not.mpr hcpus), hn]
      -- the loop over the groups that are left
      have hloop : ∀ k ≤ s.groupMask.length, equalGroups s t (List.range' k (s.groupMask.length - k)) =
          some (decide (s.groupMask.drop k = t.groupMask.drop k)) := by
        intro k hk
        induction hm : s.groupMask.length - k generalizing k with
        | zero =>
          have hk' : k = s.groupMask.length := by omega
          rw [hk', List.drop_length, hlen, List.drop_length]
          rfl
        | succ m ih =>
          have hlt : k < s.groupMask.length := by omega
          have hlt' : k < t.groupMask.length := hlen ▸ hlt
          rw [List.range'_succ, equalGroups, List.getElem?_eq_getElem hlt,
            List.getElem?_eq_getElem hlt', List.drop_eq_getElem_cons hlt,
            List.drop_eq_getElem_cons hlt']
          have hrest := ih (k + 1) hlt (by omega)
          simp only [Option.bind_eq_bind, Option.bind_some, List.cons.injEq]
          by_cases hword : s.groupMask[k] = t.groupMask[k]
          · rw [if_neg (not_not.mpr hword), hrest]
            simp [hword]
          · rw [if_pos hword]
            simp [hword]
      have hall := hloop 0 (Nat.zero_le _)
      rw [Nat.sub_zero, List.drop_zero, List.drop_zero, ← List.range_eq_range'] at hall
      rw [hall]
      simp [hcpus]
    · rw [if_pos hcpus]
      simp [hcpus]
  · rw [if_pos hgroups]
    have hmasks : s.groupMask ≠ t.groupMask := by
      intro h
      apply hgroups
      rw [hs.groups, ht.groups, h]
    simp [hmasks]

/-! ### Clean sets -/

/-- The masks behind an update of one bit. -/
theorem cpuUpdate_eq {f : BitVec 64 → BitVec 64} (h : Sized s) {c : Int} (hvalid : s.Valid c) :
    cpuUpdate f c s = some { s with groupMask := s.groupMask.modify (c.toNat / 64) f } ∧
      c.toNat < 64 * s.groupMask.length ∧ (c % 64).toNat = c.toNat % 64 ∧ (c.toNat : Int) < s.numCpus := by
  have hupper := h.upper
  simp only [CpuSet.Valid] at hvalid
  have hlt : c.toNat / 64 < s.groupMask.length := by omega
  have hdiv : (c / 64).toNat = c.toNat / 64 := by omega
  refine ⟨?_, by omega, by omega, by omega⟩
  rw [cpuUpdate, hdiv, List.getElem?_eq_getElem hlt]
  simp only [Option.bind_eq_bind, Option.bind_some, storeGroup, if_pos hlt]
  rw [List.modify_eq_take_cons_drop hlt, List.set_eq_take_append_cons_drop, if_pos hlt]
  rfl

theorem Sized.of_length (h : Sized s) {masks : List (BitVec 64)} (hlen : masks.length = s.groupMask.length) :
    Sized { s with groupMask := masks } := by
  obtain ⟨hgroups, hlower, hupper, hpos⟩ := h
  constructor <;> simp only [hlen] <;> assumption

theorem cpuSet_spec (h : Sized s) {c : Int} (hvalid : s.Valid c) :
    ∃ s', cpuSet c s = some s' ∧ Sized s' ∧ (Clean s → Clean s') := by
  obtain ⟨heq, hlt, hmod, hcpus⟩ := cpuUpdate_eq (f := (· ||| 1#64 <<< (c % 64).toNat)) h hvalid
  refine ⟨_, heq, h.of_length (List.length_modify _ _ _), ?_⟩
  intro hclean i hi
  change s.numCpus ≤ i at hi
  have hmem := @mem_insert s.groupMask c.toNat i hlt
  rw [WordSet.insert, bit, ← hmod] at hmem
  rw [hmem, hclean i hi, Bool.or_false, decide_eq_false_iff_not]
  rintro rfl
  exact absurd hi (by omega)

theorem cpuClr_spec (h : Sized s) {c : Int} (hvalid : s.Valid c) :
    ∃ s', cpuClr c s = some s' ∧ Sized s' ∧ (Clean s → Clean s') := by
  obtain ⟨heq, hlt, hmod, -⟩ := cpuUpdate_eq (f := (· &&& ~~~(1#64 <<< (c % 64).toNat))) h hvalid
  refine ⟨_, heq, h.of_length (List.length_modify _ _ _), ?_⟩
  intro hclean i hi
  have hmem := @mem_erase s.groupMask c.toNat i hlt
  rw [WordSet.erase, bit, ← hmod] at hmem
  rw [hmem, hclean i hi, Bool.and_false]

theorem cpuZero_spec (h : Sized s) : ∃ s', cpuZero s = some s' ∧ Sized s' ∧ Clean s' := by
  refine ⟨{ s with groupMask := List.replicate s.groupMask.length 0 }, ?_,
    h.of_length (List.length_replicate ..), fun i _ => mem_replicate_zero _ i⟩
  rw [cpuZero, storeGroups_all h (fun _ _ => rfl), map_range_zero]
  rfl

theorem Binary.getLsbD_words (op : Binary) (a b : BitVec 64) {j : Nat} :
    (op.words a b).getLsbD j = op.bits (a.getLsbD j) (b.getLsbD j) := by
  cases op with
  | and => exact BitVec.getLsbD_and
  | or => exact BitVec.getLsbD_or
  | xor => exact BitVec.getLsbD_xor

/-- A binary operation is one on the members of the masks. -/
theorem cpuBinary_spec (op : Binary) {d a b : CpuSet} (hd : Sized d) (ha : Sized a) (hb : Sized b)
    (hsame : SameGroups d a b) :
    ∃ d', cpuBinary op d a b = some d' ∧ Sized d' ∧ d'.numCpus = d.numCpus ∧
      ∀ i, mem d'.groupMask i = op.bits (mem a.groupMask i) (mem b.groupMask i) := by
  have hlena : a.groupMask.length = d.groupMask.length := by
    have heq := hsame.1
    rw [hd.groups, ha.groups] at heq
    omega
  have hlenb : b.groupMask.length = d.groupMask.length := by
    have heq := hsame.2
    rw [hd.groups, hb.groups] at heq
    omega
  have hword : ∀ i < d.groupMask.length, (do
      return op.words (← a.groupMask[i]?) (← b.groupMask[i]?) : Option (BitVec 64)) =
        some (op.words (a.groupMask.getD i 0) (b.groupMask.getD i 0)) := by
    intro i hi
    rw [List.getD_eq_getElem?_getD, List.getD_eq_getElem?_getD,
      List.getElem?_eq_getElem (hlena ▸ hi), List.getElem?_eq_getElem (hlenb ▸ hi)]
    rfl
  have hzip : (List.range d.groupMask.length).map
      (fun i => op.words (a.groupMask.getD i 0) (b.groupMask.getD i 0)) =
        List.zipWith op.words a.groupMask b.groupMask := by
    apply List.ext_getElem
    · simp [hlena, hlenb]
    · intro i hi hi'
      rw [List.length_map, List.length_range] at hi
      have hia : i < a.groupMask.length := hlena ▸ hi
      have hib : i < b.groupMask.length := hlenb ▸ hi
      simp [List.getElem?_eq_getElem hia, List.getElem?_eq_getElem hib]
  refine ⟨{ d with groupMask := List.zipWith op.words a.groupMask b.groupMask }, ?_, ?_, rfl, ?_⟩
  · rw [cpuBinary, storeGroups_all hd hword, hzip]
    rfl
  · exact hd.of_length (by rw [List.length_zipWith, hlena, hlenb, Nat.min_self])
  · exact mem_zipWith (fun a b j _ => op.getLsbD_words a b) (by cases op <;> rfl)
      (hlena.trans hlenb.symm)

/-! ## Laws -/

/-- The processors of a clean set are the members of its masks. -/
theorem cpuIsset_natCast (h : Sized s) (hclean : Clean s) (i : Nat) :
    cpuIsset i s = some (mem s.groupMask i) := by
  rw [cpuIsset_eq h, Int.toNat_natCast]
  by_cases hvalid : s.Valid i
  · simp [hvalid]
  · have hge : s.numCpus ≤ i := by
      simp only [CpuSet.Valid] at hvalid
      omega
    simp [hclean i hge]

theorem cpuIsset_neg (h : Sized s) {c : Int} (hc : c < 0) : cpuIsset c s = some false := by
  have hvalid : ¬ s.Valid c := not_not.mpr (.inl hc)
  rw [cpuIsset_eq h, decide_eq_false hvalid, Bool.false_and]

/-- **Clean sets are lawful.** -/
theorem lawful_of_clean {sets : List CpuSet} (h : ∀ s ∈ sets, Sized s ∧ Clean s) : Lawful sets := by
  constructor
  · intro s hs
    obtain ⟨hsized, hclean⟩ := h s hs
    have hle : s.numCpus.toNat ≤ 64 * s.groupMask.length := by
      have hupper := hsized.upper
      omega
    rw [cpuCount_eq hsized, sum_popcnt64, countP_range_of_le hle]
    · congr 1
      apply List.countP_congr
      intro i hi
      rw [cpuIsset_natCast hsized hclean, decide_eq_true_iff, Option.some.injEq]
    · intro i hi
      exact hclean i (by omega)
  · intro s hs t ht
    obtain ⟨hsized, hclean⟩ := h s hs
    obtain ⟨hsized', hclean'⟩ := h t ht
    refine ⟨_, cpuEqual_eq hsized hsized', ?_⟩
    rw [decide_eq_true_iff]
    constructor
    · rintro ⟨hcpus, hmasks⟩
      refine ⟨hcpus, fun c => ?_⟩
      have hvalid : s.Valid c ↔ t.Valid c := by simp only [CpuSet.Valid, hcpus]
      rw [cpuIsset_eq hsized, cpuIsset_eq hsized', decide_eq_decide.mpr hvalid, hmasks]
    · rintro ⟨hcpus, hisset⟩
      refine ⟨hcpus, ext_mem ?_ ?_⟩
      · have hlower := hsized.lower
        have hupper := hsized.upper
        have hlower' := hsized'.lower
        have hupper' := hsized'.upper
        omega
      · intro i _
        have hi := hisset i
        rw [cpuIsset_natCast hsized hclean, cpuIsset_natCast hsized' hclean'] at hi
        exact Option.some.inj hi

/-! ## Steps -/

variable {sets : List CpuSet}

/-- Putting a set back. -/
theorem update_spec {set : Option CpuSet} (h : ∀ s ∈ sets, Sized s) (i : Nat) {s' : CpuSet}
    (hset : set = some s') (hsized : Sized s') :
    update sets i set = some (sets.set i s', false) ∧ (∀ s ∈ sets.set i s', Sized s) ∧
      ((∀ s ∈ sets, Clean s) → Clean s' → ∀ s ∈ sets.set i s', Clean s) := by
  refine ⟨by rw [hset]; rfl, ?_, ?_⟩
  · intro t ht
    rcases List.mem_or_eq_of_mem_set ht with ht | rfl
    · exact h t ht
    · exact hsized
  · intro hclean hclean' t ht
    rcases List.mem_or_eq_of_mem_set ht with ht | rfl
    · exact hclean t ht
    · exact hclean'

/-- A binary operation that fits leaves its destination clean. -/
theorem clean_of_fits {op : Binary} {d a b : Nat} {D A B D' : CpuSet} (hclean : ∀ s ∈ sets, Clean s)
    (hsized : ∀ s ∈ sets, Sized s) (hD : sets[d]? = some D) (hA : sets[a]? = some A)
    (hB : sets[b]? = some B) (hsame : SameGroups D A B) (hcpus : D'.numCpus = D.numCpus)
    (hmem : ∀ i, mem D'.groupMask i = op.bits (mem A.groupMask i) (mem B.groupMask i))
    (hfits : Fits sets (.binary op d a b)) : Clean D' := by
  intro i hi
  have hA' := List.mem_of_getElem? hA
  have hB' := List.mem_of_getElem? hB
  rw [hmem]
  exact hfits D A B hD hA hB hsame i (hcpus ▸ hi) _ _ (cpuIsset_natCast (hsized A hA') (hclean A hA') i)
    (cpuIsset_natCast (hsized B hB') (hclean B hB') i)

/-- **One step.** It does not fault, and if it fits, clean sets stay clean. -/
theorem cpuStep_spec (h : ∀ s ∈ sets, Sized s) (op : Op) :
    ∃ sets' einval, cpuStep sets op = some (sets', einval) ∧ (∀ s ∈ sets', Sized s) ∧
      ((∀ s ∈ sets, Clean s) → Fits sets op → ∀ s ∈ sets', Clean s) := by
  -- where `EINVAL` is reported, or the heap is full, nothing changes
  have hsame : ∀ einval, cpuStep sets op = some (sets, einval) → ∃ sets' einval,
      cpuStep sets op = some (sets', einval) ∧ (∀ s ∈ sets', Sized s) ∧
        ((∀ s ∈ sets, Clean s) → Fits sets op → ∀ s ∈ sets', Clean s) :=
    fun einval hstep => ⟨sets, einval, hstep, h, fun hclean _ => hclean⟩
  cases op with
  | alloc heap n =>
    by_cases hn : n ≤ 0
    · exact hsame true (by simp only [cpuStep, if_pos hn])
    · cases heap with
      | none => exact hsame false (by simp only [cpuStep, if_neg hn])
      | some heap =>
        obtain ⟨s, hs, hsized, hclean⟩ := cpuAlloc_eq heap (Int.not_le.mp hn)
        refine ⟨sets ++ [s], false, by simp only [cpuStep, if_neg hn, hs, Option.map_some], ?_, ?_⟩
        · intro t ht
          rcases List.mem_append.mp ht with ht | ht
          · exact h t ht
          · rwa [List.mem_singleton.mp ht]
        · intro hall _ t ht
          rcases List.mem_append.mp ht with ht | ht
          · exact hall t ht
          · rwa [List.mem_singleton.mp ht]
  | zero i =>
    cases hi : sets[i]? with
    | none => exact hsame true (by simp only [cpuStep, hi])
    | some s =>
      obtain ⟨s', hs', hsized, hclean⟩ := cpuZero_spec (h s (List.mem_of_getElem? hi))
      obtain ⟨hupdate, hall, hall'⟩ := update_spec h i hs' hsized
      exact ⟨_, false, by simp only [cpuStep, hi, hupdate], hall, fun hc _ => hall' hc hclean⟩
  | set c i =>
    cases hi : sets[i]? with
    | none => exact hsame true (by simp only [cpuStep, hi])
    | some s =>
      by_cases hvalid : s.Valid c
      · have hmem := List.mem_of_getElem? hi
        obtain ⟨s', hs', hsized, hclean⟩ := cpuSet_spec (h s hmem) hvalid
        obtain ⟨hupdate, hall, hall'⟩ := update_spec h i hs' hsized
        exact ⟨_, false, by simp only [cpuStep, hi, if_pos hvalid, hupdate], hall,
          fun hc _ => hall' hc (hclean (hc s hmem))⟩
      · exact hsame true (by simp only [cpuStep, hi, if_neg hvalid])
  | clr c i =>
    cases hi : sets[i]? with
    | none => exact hsame true (by simp only [cpuStep, hi])
    | some s =>
      by_cases hvalid : s.Valid c
      · have hmem := List.mem_of_getElem? hi
        obtain ⟨s', hs', hsized, hclean⟩ := cpuClr_spec (h s hmem) hvalid
        obtain ⟨hupdate, hall, hall'⟩ := update_spec h i hs' hsized
        exact ⟨_, false, by simp only [cpuStep, hi, if_pos hvalid, hupdate], hall,
          fun hc _ => hall' hc (hclean (hc s hmem))⟩
      · exact hsame true (by simp only [cpuStep, hi, if_neg hvalid])
  | binary op d a b =>
    cases hD : sets[d]? with
    | none => exact hsame true (by simp only [cpuStep, hD])
    | some D =>
      cases hA : sets[a]? with
      | none => exact hsame true (by simp only [cpuStep, hD, hA])
      | some A =>
        cases hB : sets[b]? with
        | none => exact hsame true (by simp only [cpuStep, hD, hA, hB])
        | some B =>
          by_cases hgroups : SameGroups D A B
          · obtain ⟨D', hD', hsized, hcpus, hmem⟩ := cpuBinary_spec op (h D (List.mem_of_getElem? hD))
              (h A (List.mem_of_getElem? hA)) (h B (List.mem_of_getElem? hB)) hgroups
            obtain ⟨hupdate, hall, hall'⟩ := update_spec h d hD' hsized
            exact ⟨_, false, by simp only [cpuStep, hD, hA, hB, if_pos hgroups, hupdate], hall,
              fun hc hfits => hall' hc (clean_of_fits hc h hD hA hB hgroups hcpus hmem hfits)⟩
          · exact hsame true (by simp only [cpuStep, hD, hA, hB, if_neg hgroups])

/-- A binary operation that goes through. -/
theorem cpuStep_binary {op : Binary} {d a b : Nat} {sets' : List CpuSet} (h : ∀ s ∈ sets, Sized s)
    (hstep : cpuStep sets (.binary op d a b) = some (sets', false)) :
    ∃ D A B D', sets[d]? = some D ∧ sets[a]? = some A ∧ sets[b]? = some B ∧ SameGroups D A B ∧
      sets'[d]? = some D' ∧ Sized D' ∧ D'.numCpus = D.numCpus ∧
      ∀ i, mem D'.groupMask i = op.bits (mem A.groupMask i) (mem B.groupMask i) := by
  rw [cpuStep] at hstep
  split at hstep
  · next D A B hD hA hB =>
    split at hstep
    · next hgroups =>
      obtain ⟨D', hD', hsized, hcpus, hmem⟩ := cpuBinary_spec op (h D (List.mem_of_getElem? hD))
        (h A (List.mem_of_getElem? hA)) (h B (List.mem_of_getElem? hB)) hgroups
      rw [(update_spec h d hD' hsized).1] at hstep
      have hsets' : sets' = sets.set d D' := (Prod.mk.inj (Option.some.inj hstep)).1.symm
      have hlt : d < sets.length := (List.getElem?_eq_some_iff.mp hD).1
      exact ⟨D, A, B, D', hD, hA, hB, hgroups, by rw [hsets', List.getElem?_set_self hlt], hsized,
        hcpus, hmem⟩
    · cases hstep
  · cases hstep

theorem lawfulStep_of_fits {op : Op} (h : ∀ s ∈ sets, Sized s) (hclean : ∀ s ∈ sets, Clean s)
    (hfits : Fits sets op) : LawfulStep sets op := by
  intro sets' einval hstep
  obtain ⟨_, _, hstep', hsized', hclean'⟩ := cpuStep_spec h op
  rw [hstep'] at hstep
  cases hstep
  refine ⟨lawful_of_clean fun s hs => ⟨hsized' s hs, hclean' hclean hfits s hs⟩, ?_⟩
  rintro rfl
  cases op with
  | binary op d a b =>
    intro A B hA hB
    obtain ⟨D, A', B', D', hD, hA', hB', hgroups, hD', hsized, hcpus, hmem⟩ := cpuStep_binary h hstep'
    cases hA.symm.trans hA'
    cases hB.symm.trans hB'
    have hA'' := List.mem_of_getElem? hA
    have hB'' := List.mem_of_getElem? hB
    have hcleanD := clean_of_fits hclean h hD hA hB hgroups hcpus hmem hfits
    refine ⟨D', hD', fun c => ?_⟩
    rcases Int.lt_or_le c 0 with hc | hc
    · exact ⟨false, false, cpuIsset_neg (h A hA'') hc, cpuIsset_neg (h B hB'') hc,
        (cpuIsset_neg hsized hc).trans (by cases op <;> rfl)⟩
    · obtain ⟨i, rfl⟩ := Int.eq_ofNat_of_zero_le hc
      exact ⟨_, _, cpuIsset_natCast (h A hA'') (hclean A hA'') i,
        cpuIsset_natCast (h B hB'') (hclean B hB'') i,
        (cpuIsset_natCast hsized hcleanD i).trans (by rw [hmem])⟩
  | _ => trivial

theorem fits_of_lawfulStep {op : Op} (h : ∀ s ∈ sets, Sized s) (hlawful : LawfulStep sets op) :
    Fits sets op := by
  cases op with
  | binary op d a b =>
    intro D A B hD hA hB hgroups c hc x y hx hy
    obtain ⟨sets', einval, hstep, -, -⟩ := cpuStep_spec h (.binary op d a b)
    have heinval : einval = false := by
      obtain ⟨D', hD', hsized, -, -⟩ := cpuBinary_spec op (h D (List.mem_of_getElem? hD))
        (h A (List.mem_of_getElem? hA)) (h B (List.mem_of_getElem? hB)) hgroups
      have hstep' := hstep
      simp only [cpuStep, hD, hA, hB, if_pos hgroups, (update_spec h d hD' hsized).1] at hstep'
      exact (Prod.mk.inj (Option.some.inj hstep')).2.symm
    subst heinval
    obtain ⟨D₁, A₁, B₁, D', hD₁, -, -, -, hD', hsized, hcpus, -⟩ := cpuStep_binary h hstep
    cases hD.symm.trans hD₁
    obtain ⟨D'', hD'', hpoint⟩ := (hlawful sets' false hstep).2 rfl A B hA hB
    cases hD'.symm.trans hD''
    obtain ⟨x', y', hx', hy', hxy⟩ := hpoint c
    cases hx.symm.trans hx'
    cases hy.symm.trans hy'
    -- the destination does not have the processor
    have hvalid : ¬ D'.Valid c := not_not.mpr (.inr (hcpus ▸ hc))
    rw [cpuIsset_eq hsized, decide_eq_false hvalid, Bool.false_and] at hxy
    exact (Option.some.inj hxy).symm
  | _ => trivial

/-- **The sets behave as sets exactly if all binary operations fit.** And no operation reads or writes a
group that has not been allocated. -/
theorem cpuMachine_lawful_iff (ops : List Op) :
    (cpuMachine.run [] ops).isSome = true ∧
      (cpuMachine.Along LawfulStep [] ops ↔ cpuMachine.Along Fits [] ops) := by
  constructor
  · obtain ⟨sets', os, hrun, -⟩ := Machine.run_invariant (M := cpuMachine)
      (I := fun sets => ∀ s ∈ sets, Sized s) (P := fun _ _ => True)
      (fun sets op h _ => by
        obtain ⟨sets', einval, hstep, hsized, -⟩ := cpuStep_spec h op
        exact ⟨sets', einval, hstep, hsized⟩)
      ops (s := []) (by simp) (Machine.along_of_forall (fun _ _ => trivial) ops [])
    rw [hrun]
    rfl
  · apply Machine.along_iff (I := fun sets => ∀ s ∈ sets, Sized s ∧ Clean s)
    · intro sets op h
      exact ⟨fits_of_lawfulStep fun s hs => (h s hs).1,
        lawfulStep_of_fits (fun s hs => (h s hs).1) fun s hs => (h s hs).2⟩
    · intro sets op sets' einval h hfits hstep
      obtain ⟨_, _, hstep', hsized, hclean⟩ := cpuStep_spec (fun s hs => (h s hs).1) op
      cases hstep.symm.trans hstep'
      exact fun s hs => ⟨hsized s hs, hclean (fun s hs => (h s hs).2) hfits s hs⟩
    · simp

/-- 64 processors with the sixth set, and a set of one processor that takes their union. -/
theorem not_cpuMachine_lawful : ¬ cpuMachine.Along LawfulStep []
    [.alloc (some fun _ => 0) 1, .alloc (some fun _ => 0) 64, .set 5 1, .binary .or 0 1 1] := by
  intro h
  have hlawful := (h.2 _ _ rfl).2 _ _ rfl |>.2 _ _ rfl |>.1
  obtain ⟨D, hD, hpoint⟩ := (hlawful _ _ rfl).2 rfl _ _ rfl rfl
  cases hD
  obtain ⟨x, y, hx, hy, hxy⟩ := hpoint 5
  cases hx
  cases hy
  cases hxy

end WindowsLibc.Sched
