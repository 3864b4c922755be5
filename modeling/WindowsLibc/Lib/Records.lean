import WindowsLibc.Lib.Block

/-!
# Records of one width

Records of `w` bytes each that lie one behind the other in a block. `records` loads them, and a
block that is laid out as `front`, the records and `back` is read back to these records
(`records_flatten`).
-/

namespace WindowsLibc.Lib

/-- `n` records of `w` bytes, from an offset on. -/
def records (block : List UInt8) (w : Nat) : Nat → Nat → Option (List (List UInt8))
  | 0, _ => some []
  | n + 1, off => do
    let record ← peek block off w
    let rest ← records block w n (off + w)
    return record :: rest

variable {w : Nat} {rs : List (List UInt8)}

theorem length_flatten_records (h : ∀ r ∈ rs, r.length = w) : rs.flatten.length = w * rs.length := by
  induction rs with
  | nil => rfl
  | cons r rs ih =>
    have hr : r.length = w := h r List.mem_cons_self
    have hrs := ih (fun q hq => h q (List.mem_cons_of_mem _ hq))
    rw [List.flatten_cons, List.length_append, hr, hrs, List.length_cons, Nat.mul_succ, Nat.add_comm]

theorem records_flatten (h : ∀ r ∈ rs, r.length = w) (front back : List UInt8) :
    records (front ++ rs.flatten ++ back) w rs.length front.length = some rs := by
  induction rs generalizing front with
  | nil => rfl
  | cons r rs ih =>
    have hr : r.length = w := h r List.mem_cons_self
    have hrs := ih (fun q hq => h q (List.mem_cons_of_mem _ hq)) (front ++ r)
    have hsplit : front ++ (r :: rs).flatten ++ back = front ++ r ++ (rs.flatten ++ back) := by
      simp only [List.flatten_cons, List.append_assoc]
    have hpeek : peek (front ++ (r :: rs).flatten ++ back) front.length w = some r := by
      rw [hsplit, ← hr]
      exact peek_append front r _
    rw [List.append_assoc (front ++ r), ← hsplit, List.length_append, hr] at hrs
    rw [List.length_cons, records, hpeek]
    change (records _ w rs.length (front.length + w)).bind _ = _
    rw [hrs]
    rfl

/-- What records are loaded from. -/
theorem records_parts {block : List UInt8} {n off : Nat} (h : records block w n off = some rs) :
    ∃ back, block = block.take off ++ rs.flatten ++ back ∧ rs.length = n ∧ ∀ r ∈ rs, r.length = w := by
  induction n generalizing off rs with
  | zero =>
    cases h
    exact ⟨block.drop off, by simp, rfl, fun r hr => (by cases hr)⟩
  | succ n ih =>
    obtain ⟨record, hpeek, h⟩ := Option.bind_eq_some_iff.mp h
    obtain ⟨rest, hrest, h⟩ := Option.bind_eq_some_iff.mp h
    cases h
    obtain ⟨back, hblock, hlength, hwidth⟩ := ih hrest
    obtain ⟨hle, rfl⟩ := peek_le hpeek
    refine ⟨back, ?_, by rw [List.length_cons, hlength], ?_⟩
    · rw [List.take_add] at hblock
      rw [List.flatten_cons, ← List.append_assoc]
      exact hblock
    · intro r hr
      rcases List.mem_cons.mp hr with rfl | hr
      · rw [List.length_take, List.length_drop]
        omega
      · exact hwidth r hr

/-- Where there is a record, the block reaches behind what is in front of it. -/
theorem length_take_records {block : List UInt8} {n off : Nat} (h : records block w n off = some rs)
    (hrs : rs ≠ []) : (block.take off).length = off := by
  cases n with
  | zero =>
    cases h
    exact absurd rfl hrs
  | succ n =>
    obtain ⟨record, hpeek, _⟩ := Option.bind_eq_some_iff.mp h
    have hle := (peek_le hpeek).1
    exact List.length_take_of_le (by omega)

/-- The records in front of one, it, and those behind it. -/
theorem flatten_split {i : Nat} (hi : i < rs.length) :
    rs.flatten = (rs.take i).flatten ++ rs[i] ++ (rs.drop (i + 1)).flatten := by
  conv_lhs => rw [← List.take_append_drop i rs, ← List.cons_getElem_drop_succ (h := hi)]
  rw [List.flatten_append, List.flatten_cons, List.append_assoc]

end WindowsLibc.Lib
