import Mathlib.Data.List.Basic
import Mathlib.Data.BitVec

/-!
# Sets in words

A set of numbers as the bits of some words of 64 bits: `i` is in it if bit `i % 64` of word `i / 64` is
set.

* `mem` is membership, `insert` and `erase` change one word, `zipWith` of an operation on words is one on
  sets (`mem_zipWith`).
* Two sets of the same length are the same if they have the same members (`ext_mem`), and the bits that are
  set in the words are as many as there are members (`sum_popcnt64`).
-/

namespace WindowsLibc.Lib.WordSet

/-- The bit for a number in its word. -/
def bit (i : Nat) : BitVec 64 := 1#64 <<< (i % 64)

/-- `__popcnt64`. -/
def popcnt64 (w : BitVec 64) : Nat := w.cpopNatRec 64 0

/-- `i` is in the set. -/
def mem (ws : List (BitVec 64)) (i : Nat) : Bool := (ws.getD (i / 64) 0).getLsbD (i % 64)

def insert (ws : List (BitVec 64)) (i : Nat) : List (BitVec 64) :=
  ws.modify (i / 64) (· ||| bit i)

def erase (ws : List (BitVec 64)) (i : Nat) : List (BitVec 64) :=
  ws.modify (i / 64) (· &&& ~~~bit i)

variable {ws vs : List (BitVec 64)} {i j : Nat}

theorem getLsbD_bit (hj : j < 64) : (bit i).getLsbD j = decide (j = i % 64) := by
  rw [bit, BitVec.getLsbD_shiftLeft, BitVec.getLsbD_one]
  simp only [hj, decide_true, Bool.true_and]
  by_cases h : j = i % 64
  · simp [h]
  · simp only [h, decide_false]
    by_cases hlt : j < i % 64
    · simp [hlt]
    · have hne : j - i % 64 ≠ 0 := by omega
      simp [hne]

/-- A word has a bit if masking it leaves something. -/
theorem and_bit_ne_zero (w : BitVec 64) (i : Nat) : w &&& bit i ≠ 0 ↔ w.getLsbD (i % 64) = true := by
  have hlt : i % 64 < 64 := Nat.mod_lt i (by decide)
  constructor
  · intro h
    by_contra hnot
    apply h
    apply BitVec.eq_of_getLsbD_eq
    intro j hj
    rw [BitVec.getLsbD_and, getLsbD_bit hj]
    refine Eq.trans ?_ BitVec.getLsbD_zero.symm
    by_cases heq : j = i % 64
    · rw [heq, Bool.eq_false_iff.mpr hnot, Bool.false_and]
    · simp [heq]
  · intro h hzero
    have hbit := congrArg (fun w => BitVec.getLsbD w (i % 64)) hzero
    simp only [BitVec.getLsbD_and, getLsbD_bit hlt, h] at hbit
    simp at hbit

theorem div_lt_length (h : i < 64 * ws.length) : i / 64 < ws.length := by omega

theorem mem_of_ge (h : 64 * ws.length ≤ i) : mem ws i = false := by
  have hle : ws.length ≤ i / 64 := by omega
  rw [mem, List.getD_eq_getElem?_getD, List.getElem?_eq_none hle, Option.getD_none]
  exact BitVec.getLsbD_zero

/-- Changing one word changes the numbers of that word. -/
theorem mem_modify (f : BitVec 64 → BitVec 64) (h : i < 64 * ws.length) :
    mem (ws.modify (i / 64) f) j =
      if j / 64 = i / 64 then (f (ws.getD (j / 64) 0)).getLsbD (j % 64) else mem ws j := by
  have hlt := div_lt_length h
  rw [mem, List.getD_eq_getElem?_getD, List.getElem?_modify]
  by_cases heq : j / 64 = i / 64
  · rw [if_pos heq, heq, List.getElem?_eq_getElem hlt]
    simp [List.getD_eq_getElem?_getD, List.getElem?_eq_getElem hlt]
  · rw [if_neg heq, mem, List.getD_eq_getElem?_getD]
    simp [Ne.symm heq]

theorem mem_insert (h : i < 64 * ws.length) : mem (insert ws i) j = (decide (j = i) || mem ws j) := by
  have hlt : j % 64 < 64 := Nat.mod_lt j (by decide)
  rw [insert, mem_modify _ h]
  split
  · next heq =>
    rw [BitVec.getLsbD_or, getLsbD_bit hlt, Bool.or_comm, mem]
    congr 1
    rw [decide_eq_decide]
    omega
  · next hne =>
    have hji : j ≠ i := fun h => hne (by rw [h])
    simp [hji]

theorem mem_erase (h : i < 64 * ws.length) : mem (erase ws i) j = (!decide (j = i) && mem ws j) := by
  have hlt : j % 64 < 64 := Nat.mod_lt j (by decide)
  rw [erase, mem_modify _ h]
  split
  · next heq =>
    rw [BitVec.getLsbD_and, BitVec.getLsbD_not, getLsbD_bit hlt, Bool.and_comm, mem]
    have hiff : j % 64 = i % 64 ↔ j = i := by omega
    simp only [hlt, decide_true, Bool.true_and, hiff]
  · next hne =>
    have hji : j ≠ i := fun h => hne (by rw [h])
    simp [hji]

theorem mem_replicate_zero (n i : Nat) : mem (List.replicate n 0) i = false := by
  rw [mem, List.getD_eq_getElem?_getD, List.getElem?_replicate]
  split <;> exact BitVec.getLsbD_zero

/-- An operation on words that is one on bits is one on sets. -/
theorem mem_zipWith {f : BitVec 64 → BitVec 64 → BitVec 64} {g : Bool → Bool → Bool}
    (hf : ∀ a b j, j < 64 → (f a b).getLsbD j = g (a.getLsbD j) (b.getLsbD j))
    (hzero : g false false = false) (hlen : ws.length = vs.length) (i : Nat) :
    mem (List.zipWith f ws vs) i = g (mem ws i) (mem vs i) := by
  by_cases hlt : i < 64 * ws.length
  · have hi := div_lt_length hlt
    have hi' : i / 64 < vs.length := hlen ▸ hi
    have hzip : i / 64 < (List.zipWith f ws vs).length := by
      rw [List.length_zipWith, ← hlen, Nat.min_self]
      exact hi
    simp only [mem, List.getD_eq_getElem?_getD, List.getElem?_eq_getElem hi,
      List.getElem?_eq_getElem hi', List.getElem?_eq_getElem hzip, Option.getD_some,
      List.getElem_zipWith]
    exact hf _ _ _ (Nat.mod_lt i (by decide))
  · have hge : 64 * ws.length ≤ i := Nat.le_of_not_lt hlt
    have hzip : 64 * (List.zipWith f ws vs).length ≤ i := by
      rw [List.length_zipWith, ← hlen, Nat.min_self]
      exact hge
    rw [mem_of_ge hzip, mem_of_ge hge, mem_of_ge (hlen ▸ hge), hzero]

/-- Sets with the same members. -/
theorem ext_mem (hlen : ws.length = vs.length) (h : ∀ i < 64 * ws.length, mem ws i = mem vs i) :
    ws = vs := by
  apply List.ext_getElem hlen
  intro k hk hk'
  apply BitVec.eq_of_getLsbD_eq
  intro j hj
  have hmem := h (64 * k + j) (by omega)
  have hdiv : (64 * k + j) / 64 = k := by omega
  have hmod : (64 * k + j) % 64 = j := by omega
  simpa only [mem, hdiv, hmod, List.getD_eq_getElem?_getD, List.getElem?_eq_getElem hk,
    List.getElem?_eq_getElem hk', Option.getD_some] using hmem

/-! ## Counting -/

theorem cpopNatRec_eq_countP (w : BitVec 64) (k : Nat) :
    w.cpopNatRec k 0 = (List.range k).countP fun j => w.getLsbD j := by
  induction k with
  | zero => rfl
  | succ k ih =>
    rw [BitVec.cpopNatRec_succ, BitVec.cpopNatRec_add, ih, List.range_succ, List.countP_append,
      List.countP_singleton]
    cases w.getLsbD k <;> simp

theorem mem_append_left (ws : List (BitVec 64)) (w : BitVec 64) (h : i < 64 * ws.length) :
    mem (ws ++ [w]) i = mem ws i := by
  rw [mem, mem, List.getD_eq_getElem?_getD, List.getElem?_append_left (div_lt_length h),
    List.getD_eq_getElem?_getD]

theorem mem_append_last (ws : List (BitVec 64)) (w : BitVec 64) (hj : j < 64) :
    mem (ws ++ [w]) (64 * ws.length + j) = w.getLsbD j := by
  have hdiv : (64 * ws.length + j) / 64 = ws.length := by omega
  have hmod : (64 * ws.length + j) % 64 = j := by omega
  rw [mem, hdiv, hmod, List.getD_eq_getElem?_getD, List.getElem?_append_right (Nat.le_refl _),
    Nat.sub_self]
  rfl

/-- The bits that are set are as many as the members. -/
theorem sum_popcnt64 (ws : List (BitVec 64)) :
    (ws.map popcnt64).sum = (List.range (64 * ws.length)).countP (mem ws) := by
  induction ws using List.reverseRecOn with
  | nil => rfl
  | append_singleton ws w ih =>
    have hleft : (List.range (64 * ws.length)).countP (mem (ws ++ [w])) =
        (List.range (64 * ws.length)).countP (mem ws) := by
      apply List.countP_congr
      intro i hi
      rw [mem_append_left ws w (List.mem_range.mp hi)]
    have hright : ((List.range 64).map (64 * ws.length + ·)).countP (mem (ws ++ [w])) =
        (List.range 64).countP fun j => w.getLsbD j := by
      rw [List.countP_map]
      apply List.countP_congr
      intro j hj
      rw [Function.comp_apply, mem_append_last ws w (List.mem_range.mp hj)]
    rw [List.map_append, List.sum_append, ih, List.length_append, List.length_singleton, Nat.mul_add,
      List.range_add, List.countP_append, hleft, hright, ← cpopNatRec_eq_countP]
    rfl

/-- Members above a bound do not count if there are none. -/
theorem countP_range_of_le {p : Nat → Bool} {m n : Nat} (hmn : m ≤ n) (h : ∀ i, m ≤ i → p i = false) :
    (List.range n).countP p = (List.range m).countP p := by
  obtain ⟨k, rfl⟩ := Nat.exists_eq_add_of_le hmn
  rw [List.range_add, List.countP_append, Nat.add_eq_left, List.countP_eq_zero]
  intro i hi
  obtain ⟨j, -, rfl⟩ := List.mem_map.mp hi
  rw [h _ (Nat.le_add_right m j)]
  exact Bool.false_ne_true

end WindowsLibc.Lib.WordSet
