import Mathlib.Algebra.Order.Ring.Nat
import Mathlib.Data.List.TakeDrop

/-!
# Overwriting part of a list

`overwrite xs off ys` puts `ys` into `xs` at offset `off`, as `memcpy` does into an array and
`write(2)` into a file: what lies before and after is untouched, the list grows if `ys` reaches
past its end, and a gap before `off` is filled with `default`.

The two rules the rest of the development lives on: adjacent overwrites merge
(`overwrite_overwrite`), and the prefix up to the end of what was written is known
(`take_overwrite`).
-/

namespace WindowsLibc.Lib

variable {α : Type*} [Inhabited α]

/-- `xs` with `ys` written over it at offset `off`. -/
def overwrite (xs : List α) (off : Nat) (ys : List α) : List α :=
  xs.take off ++ List.replicate (off - xs.length) default ++ ys ++ xs.drop (off + ys.length)

theorem overwrite_of_le {xs : List α} {off : Nat} (h : off ≤ xs.length) (ys : List α) :
    overwrite xs off ys = xs.take off ++ ys ++ xs.drop (off + ys.length) := by
  have hgap : off - xs.length = 0 := by omega
  simp [overwrite, hgap]

@[simp] theorem length_overwrite (xs : List α) (off : Nat) (ys : List α) :
    (overwrite xs off ys).length = max xs.length (off + ys.length) := by
  simp only [overwrite, List.length_append, List.length_take, List.length_replicate,
    List.length_drop]
  omega

theorem overwrite_nil {xs : List α} {off : Nat} (h : off ≤ xs.length) :
    overwrite xs off [] = xs := by
  simp [overwrite_of_le h]

/-- Writing at the end appends. -/
theorem overwrite_length (xs ys : List α) : overwrite xs xs.length ys = xs ++ ys := by
  simp [overwrite_of_le (Nat.le_refl _)]

/-- Up to the end of what was written: the old prefix, then the new bytes. -/
theorem take_overwrite {xs : List α} {off : Nat} (h : off ≤ xs.length) (ys : List α) :
    (overwrite xs off ys).take (off + ys.length) = xs.take off ++ ys := by
  have hlen : (xs.take off ++ ys).length = off + ys.length := by
    simp [Nat.min_eq_left h]
  rw [overwrite_of_le h, ← hlen, List.take_left]

theorem drop_overwrite {xs : List α} {off : Nat} (h : off ≤ xs.length) (ys : List α) :
    (overwrite xs off ys).drop (off + ys.length) = xs.drop (off + ys.length) := by
  have hlen : (xs.take off ++ ys).length = off + ys.length := by
    simp [Nat.min_eq_left h]
  rw [overwrite_of_le h]
  nth_rewrite 1 [← hlen]
  rw [List.drop_left]

/-- **Adjacent overwrites merge.** -/
theorem overwrite_overwrite {xs : List α} {off : Nat} (h : off ≤ xs.length) (ys zs : List α) :
    overwrite (overwrite xs off ys) (off + ys.length) zs = overwrite xs off (ys ++ zs) := by
  have hle : off + ys.length ≤ (overwrite xs off ys).length := by
    rw [length_overwrite]; omega
  have hdrop : (overwrite xs off ys).drop (off + ys.length + zs.length) =
      xs.drop (off + (ys ++ zs).length) := by
    rw [← List.drop_drop, drop_overwrite h, List.drop_drop, List.length_append, Nat.add_assoc]
  rw [overwrite_of_le hle, take_overwrite h, hdrop, overwrite_of_le h]
  simp only [List.append_assoc]

/-- A gap may be filled before. -/
theorem overwrite_pad (xs : List α) (off : Nat) (ys : List α) :
    overwrite (xs ++ List.replicate (off - xs.length) default) off ys = overwrite xs off ys := by
  rcases Nat.le_total off xs.length with hle | hge
  · rw [Nat.sub_eq_zero_of_le hle, List.replicate_zero, List.append_nil]
  · have hlen : (xs ++ List.replicate (off - xs.length) default).length = off := by
      rw [List.length_append, List.length_replicate]
      omega
    have hpad := overwrite_length (xs ++ List.replicate (off - xs.length) default) ys
    rw [hlen] at hpad
    rw [hpad, overwrite, List.take_of_length_le hge, List.drop_eq_nil_of_le (by omega), List.append_nil]

/-- Adjacent overwrites merge wherever they are. -/
theorem overwrite_append (xs : List α) (off : Nat) (ys zs : List α) :
    overwrite (overwrite xs off ys) (off + ys.length) zs = overwrite xs off (ys ++ zs) := by
  rw [← overwrite_pad xs off ys, ← overwrite_pad xs off (ys ++ zs)]
  refine overwrite_overwrite ?_ ys zs
  rw [List.length_append, List.length_replicate]
  omega

omit [Inhabited α] in
/-- Lists that agree up to `w` agree on every segment that ends before it. -/
theorem take_drop_of_take_eq {xs ys : List α} {w off n : Nat} (h : xs.take w = ys.take w)
    (hle : off + n ≤ w) : (xs.drop off).take n = (ys.drop off).take n := by
  have hcut : ∀ zs : List α, (zs.drop off).take n = (((zs.take w).drop off).take n) := by
    intro zs
    rw [List.drop_take, List.take_take, Nat.min_eq_left (by omega)]
  rw [hcut xs, hcut ys, h]

/-- Before the place, where there may be a gap. -/
theorem getElem?_overwrite_lt (xs : List α) {off i : Nat} (h : i < off) (ys : List α) :
    (overwrite xs off ys)[i]? = some (xs.getD i default) := by
  rw [← overwrite_pad, overwrite_of_le (by rw [List.length_append, List.length_replicate]; omega),
    List.append_assoc, List.getElem?_append_left (by simp; omega), List.getElem?_take_of_lt h]
  by_cases hin : i < xs.length
  · rw [List.getElem?_append_left hin, List.getD_eq_getElem?_getD, List.getElem?_eq_getElem hin,
      Option.getD_some]
  · rw [List.getElem?_append_right (by omega), List.getElem?_replicate_of_lt (by omega),
      List.getD_eq_getElem?_getD, List.getElem?_eq_none (by omega), Option.getD_none]

/-- What was written. -/
theorem getElem?_overwrite_mid (xs : List α) (off : Nat) {ys : List α} {i : Nat} (h : i < ys.length) :
    (overwrite xs off ys)[off + i]? = ys[i]? := by
  rw [← overwrite_pad, overwrite_of_le (by rw [List.length_append, List.length_replicate]; omega),
    List.getElem?_append_left (by simp; omega), List.getElem?_append_right (by simp)]
  congr 1
  rw [List.length_take, List.length_append, List.length_replicate]
  omega

/-- The place shows, if two different elements are put there in turn. -/
theorem eq_of_overwrite {xs : List α} {p q : Nat} {x y : α} (hne : x ≠ y)
    (hx : overwrite xs p [x] = overwrite xs q [x]) (hy : overwrite xs p [y] = overwrite xs q [y]) :
    p = q := by
  -- the other write leaves alone what stands at the lower place
  have hlow : ∀ {low high : Nat}, low < high → overwrite xs low [x] = overwrite xs high [x] →
      overwrite xs low [y] = overwrite xs high [y] → False := by
    intro low high hlt hx hy
    have hat : ∀ z : α, overwrite xs low [z] = overwrite xs high [z] →
        some z = some (xs.getD low default) := by
      intro z hz
      have hmid := @getElem?_overwrite_mid _ _ xs low [z] 0 Nat.one_pos
      rw [Nat.add_zero, hz, getElem?_overwrite_lt xs hlt] at hmid
      exact hmid.symm
    exact hne (Option.some.inj ((hat x hx).trans (hat y hy).symm))
  rcases Nat.lt_trichotomy p q with hlt | heq | hgt
  · exact absurd (hlow hlt hx hy) id
  · exact heq
  · exact absurd (hlow hgt hx.symm hy.symm) id

end WindowsLibc.Lib
