import Mathlib.Data.List.TakeDrop
import WindowsLibc.Lib.Overwrite

/-!
# Blocks of memory

A block has a size; a load or a store outside of it is a fault (`none`). A number is stored with its
lowest byte first (`leBytes`).

What is loaded behind a store is what was stored, or what was there before if the two do not meet
(`peek_poke`, `peek_poke_disjoint`).
-/

namespace WindowsLibc.Lib

/-- The lowest `n` bytes of a number, the lowest first. -/
def leBytes : Nat → Nat → List UInt8
  | 0, _ => []
  | n + 1, x => UInt8.ofNat x :: leBytes n (x / 256)

/-- The number that bytes stand for. -/
def leNat : List UInt8 → Nat
  | [] => 0
  | byte :: bytes => byte.toNat + 256 * leNat bytes

@[simp] theorem length_leBytes (n x : Nat) : (leBytes n x).length = n := by
  induction n generalizing x with
  | zero => rfl
  | succ n ih => rw [leBytes, List.length_cons, ih]

theorem leNat_leBytes (n x : Nat) : leNat (leBytes n x) = x % 256 ^ n := by
  induction n generalizing x with
  | zero => rw [Nat.pow_zero, Nat.mod_one]; rfl
  | succ n ih =>
    have hbyte : (UInt8.ofNat x).toNat = x % 256 := UInt8.toNat_ofNat'
    rw [leBytes, leNat, ih, hbyte, Nat.pow_succ', Nat.mod_mul]

theorem leNat_lt (bytes : List UInt8) : leNat bytes < 256 ^ bytes.length := by
  induction bytes with
  | nil => exact Nat.one_pos
  | cons byte bytes ih =>
    have hbyte := byte.toNat_lt
    rw [leNat, List.length_cons, Nat.pow_succ]
    omega

theorem leBytes_leNat (bytes : List UInt8) : leBytes bytes.length (leNat bytes) = bytes := by
  induction bytes with
  | nil => rfl
  | cons byte bytes ih =>
    have hbyte := byte.toNat_lt
    have hlow : UInt8.ofNat (byte.toNat + 256 * leNat bytes) = byte := by
      rw [← UInt8.toNat_inj, UInt8.toNat_ofNat']
      omega
    have hhigh : (byte.toNat + 256 * leNat bytes) / 256 = leNat bytes := by omega
    rw [leNat, List.length_cons, leBytes, hlow, hhigh, ih]

/-- A load of `n` bytes. -/
def peek (block : List UInt8) (off n : Nat) : Option (List UInt8) :=
  if off + n ≤ block.length then some ((block.drop off).take n) else none

/-- A store. -/
def poke (block : List UInt8) (off : Nat) (bytes : List UInt8) : Option (List UInt8) :=
  if off + bytes.length ≤ block.length then some (overwrite block off bytes) else none

variable {block block' bytes : List UInt8} {off off' n : Nat}

theorem peek_le (h : peek block off n = some bytes) :
    off + n ≤ block.length ∧ bytes = (block.drop off).take n := by
  unfold peek at h
  split at h
  · next hle => exact ⟨hle, (Option.some.inj h).symm⟩
  · cases h

theorem poke_le (h : poke block off bytes = some block') :
    off + bytes.length ≤ block.length ∧ block' = overwrite block off bytes := by
  unfold poke at h
  split at h
  · next hle => exact ⟨hle, (Option.some.inj h).symm⟩
  · cases h

/-- A store does not change the size. -/
theorem length_poke (h : poke block off bytes = some block') : block'.length = block.length := by
  obtain ⟨hle, rfl⟩ := poke_le h
  rw [length_overwrite]
  exact Nat.max_eq_left hle

theorem exists_poke (h : off + bytes.length ≤ block.length) :
    ∃ block', poke block off bytes = some block' := ⟨_, if_pos h⟩

/-- What has been stored is there. -/
theorem peek_poke (h : poke block off bytes = some block') :
    peek block' off bytes.length = some bytes := by
  have hlength := length_poke h
  obtain ⟨hle, rfl⟩ := poke_le h
  have hoff : off ≤ block.length := Nat.le_of_add_right_le hle
  have hcut : (block.take off).length = off := List.length_take_of_le hoff
  rw [peek, hlength, if_pos hle, overwrite_of_le hoff, List.append_assoc]
  nth_rewrite 1 [← hcut]
  rw [List.drop_left, List.take_left]

/-- What lies elsewhere is not changed. -/
theorem peek_poke_disjoint (h : poke block off bytes = some block')
    (hdisjoint : off' + n ≤ off ∨ off + bytes.length ≤ off') : peek block' off' n = peek block off' n := by
  have hlength := length_poke h
  obtain ⟨hle, rfl⟩ := poke_le h
  have hoff : off ≤ block.length := Nat.le_of_add_right_le hle
  unfold peek
  rw [hlength]
  congr 2
  rcases hdisjoint with hbefore | hbehind
  · refine take_drop_of_take_eq (w := off) ?_ hbefore
    rw [overwrite_of_le hoff, List.append_assoc]
    have hcut : (block.take off).length = off := List.length_take_of_le hoff
    nth_rewrite 1 [← hcut]
    exact List.take_left
  · obtain ⟨k, rfl⟩ := Nat.exists_eq_add_of_le hbehind
    rw [← List.drop_drop, drop_overwrite hoff, List.drop_drop]

/-- Two stores one behind the other. -/
theorem poke_poke (block : List UInt8) (off : Nat) (bytes bytes' : List UInt8) :
    (poke block off bytes).bind (fun block' => poke block' (off + bytes.length) bytes') =
      poke block off (bytes ++ bytes') := by
  have hsum : off + (bytes ++ bytes').length = off + bytes.length + bytes'.length := by
    rw [List.length_append, Nat.add_assoc]
  by_cases hle : off + bytes.length + bytes'.length ≤ block.length
  · obtain ⟨block', hstore⟩ := exists_poke (Nat.le_of_add_right_le hle)
    obtain ⟨-, rfl⟩ := poke_le hstore
    rw [hstore, Option.bind_some, poke, poke, length_poke hstore, hsum, if_pos hle, if_pos hle,
      overwrite_append]
  · rw [poke, poke, hsum, if_neg hle]
    split
    · next hfirst =>
      rw [Option.bind_some, poke, length_overwrite, Nat.max_eq_left hfirst, if_neg hle]
    · rfl

/-! ## Blocks in parts -/

theorem peek_append (front middle back : List UInt8) :
    peek (front ++ middle ++ back) front.length middle.length = some middle := by
  have hle : front.length + middle.length ≤ (front ++ middle ++ back).length := by
    simp only [List.length_append]
    omega
  rw [peek, if_pos hle, List.append_assoc, List.drop_left, List.take_left]

/-- What is stored over a part takes its place. -/
theorem poke_append (front : List UInt8) {middle bytes : List UInt8} (back : List UInt8)
    (h : bytes.length = middle.length) :
    poke (front ++ middle ++ back) front.length bytes = some (front ++ bytes ++ back) := by
  have hle : front.length + bytes.length ≤ (front ++ middle ++ back).length := by
    simp only [List.length_append]
    omega
  have hfront : front.length ≤ (front ++ middle ++ back).length := by omega
  rw [poke, if_pos hle, overwrite_of_le hfront, List.append_assoc front middle back, List.take_left,
    h, ← List.append_assoc front middle back, ← List.length_append, List.drop_left]

/-- What is stored over the beginning of a part. -/
theorem poke_over (front : List UInt8) {part bytes : List UInt8} (back : List UInt8)
    (h : bytes.length ≤ part.length) : poke (front ++ part ++ back) front.length bytes =
      some (front ++ (bytes ++ part.drop bytes.length) ++ back) := by
  have hstore := poke_append front (part.drop bytes.length ++ back) (List.length_take_of_le h).symm
  rw [← List.append_assoc, List.append_assoc front, List.take_append_drop] at hstore
  rw [hstore]
  simp only [List.append_assoc]

/-- A block that reaches far enough has a part of so many bytes at an offset. -/
theorem exists_parts {block : List UInt8} {off n : Nat} (h : off + n ≤ block.length) :
    ∃ front middle back, block = front ++ middle ++ back ∧ front.length = off ∧ middle.length = n := by
  refine ⟨block.take off, (block.drop off).take n, (block.drop off).drop n, ?_, ?_, ?_⟩
  · rw [List.append_assoc, List.take_append_drop, List.take_append_drop]
  · exact List.length_take_of_le (by omega)
  · rw [List.length_take, List.length_drop]
    omega

/-- A store behind the front part. -/
theorem poke_front (front block : List UInt8) (off : Nat) (bytes : List UInt8) :
    poke (front ++ block) (front.length + off) bytes = (poke block off bytes).map (front ++ ·) := by
  by_cases hle : off + bytes.length ≤ block.length
  · obtain ⟨left, middle, right, rfl, rfl, hmiddle⟩ := exists_parts hle
    have hin : front ++ (left ++ middle ++ right) = front ++ left ++ middle ++ right := by
      simp only [List.append_assoc]
    rw [hin, ← List.length_append, poke_append _ right hmiddle.symm, poke_append _ right hmiddle.symm,
      Option.map_some]
    simp only [List.append_assoc]
  · have hout : ¬ front.length + off + bytes.length ≤ (front ++ block).length := by
      rw [List.length_append]
      omega
    rw [poke, poke, if_neg hle, if_neg hout, Option.map_none]

/-- A load behind the front part. -/
theorem peek_front (front block : List UInt8) (off n : Nat) :
    peek (front ++ block) (front.length + off) n = peek block off n := by
  have hiff : front.length + off + n ≤ (front ++ block).length ↔ off + n ≤ block.length := by
    rw [List.length_append]
    omega
  rw [peek, peek, List.drop_append, List.drop_of_length_le (Nat.le_add_right _ _), List.nil_append,
    Nat.add_sub_cancel_left]
  simp only [hiff]

end WindowsLibc.Lib
