import Mathlib.Data.Vector.Basic
import WindowsLibc.Acl.Entry

/-!
# Access control lists that hold the entries they count

`Counted` is a header, the entries that it counts and whatever lies behind them; `Counted.bytes` is the
allocation. Every allocation from which an entry can be loaded is laid out in this way (`exists_counted`).
To delete an entry is `List.eraseIdx` on the entries, whatever the header says of the size
(`Counted.deleteEntry_eq`).
-/

namespace WindowsLibc.Acl

open WindowsLibc.Lib

theorem load16_append (front : List UInt8) (word : UInt16) (back : List UInt8) :
    load16 (front ++ leBytes 2 word.toNat ++ back) front.length = some word := by
  have hpeek := peek_append front (leBytes 2 word.toNat) back
  rw [length_leBytes] at hpeek
  rw [load16, hpeek, Option.map_some, leNat_leBytes, show 256 ^ 2 = 2 ^ 16 from rfl,
    Nat.mod_eq_of_lt word.toNat_lt, UInt16.ofNat_toNat]

theorem store16_append (front : List UInt8) (word word' : UInt16) (back : List UInt8) :
    store16 (front ++ leBytes 2 word.toNat ++ back) front.length word' =
      some (front ++ leBytes 2 word'.toNat ++ back) :=
  poke_append front back (by rw [length_leBytes, length_leBytes])

/-! ## Headers -/

structure Header where
  revision : UInt8
  zero1 : UInt8
  size : UInt16
  count : UInt16
  zero2 : UInt16

namespace Header

/-- The allocation with this header and what lies behind it. -/
def bytes (header : Header) : List UInt8 :=
  [header.revision, header.zero1] ++ leBytes 2 header.size.toNat ++ leBytes 2 header.count.toNat ++
    leBytes 2 header.zero2.toNat

variable (header : Header) (rest : List UInt8)

@[simp] theorem length_bytes : header.bytes.length = 8 := by
  simp only [bytes, List.length_append, length_leBytes]
  rfl

theorem bytes_size : header.bytes ++ rest = [header.revision, header.zero1] ++
    leBytes 2 header.size.toNat ++ (leBytes 2 header.count.toNat ++ leBytes 2 header.zero2.toNat ++ rest) := by
  simp only [bytes, List.append_assoc]

theorem bytes_count : header.bytes ++ rest = ([header.revision, header.zero1] ++
    leBytes 2 header.size.toNat) ++ leBytes 2 header.count.toNat ++
      (leBytes 2 header.zero2.toNat ++ rest) := by
  simp only [bytes, List.append_assoc]

theorem aclSize_eq : aclSize (header.bytes ++ rest) = some header.size := by
  rw [bytes_size]
  exact load16_append [header.revision, header.zero1] header.size _

theorem aclCount_eq : aclCount (header.bytes ++ rest) = some header.count := by
  rw [bytes_count]
  exact load16_append ([header.revision, header.zero1] ++ leBytes 2 header.size.toNat) header.count _

theorem store_size (size : UInt16) :
    store16 (header.bytes ++ rest) 2 size = some ({ header with size := size }.bytes ++ rest) := by
  rw [bytes_size, bytes_size]
  exact store16_append [header.revision, header.zero1] header.size size _

theorem store_count (count : UInt16) :
    store16 (header.bytes ++ rest) 4 count = some ({ header with count := count }.bytes ++ rest) := by
  rw [bytes_count, bytes_count]
  exact store16_append ([header.revision, header.zero1] ++ leBytes 2 header.size.toNat) header.count count _

theorem exists_bytes {bytes : List UInt8} (h : bytes.length = 8) : ∃ header : Header, header.bytes = bytes := by
  have hword (b b' : UInt8) : leBytes 2 (UInt16.ofNat (leNat [b, b'])).toNat = [b, b'] := by
    have hlt : leNat [b, b'] < 256 ^ 2 := leNat_lt [b, b']
    rw [UInt16.toNat_ofNat', show 2 ^ 16 = 256 ^ 2 from rfl, Nat.mod_eq_of_lt hlt]
    exact leBytes_leNat [b, b']
  match bytes, h with
  | [b₀, b₁, b₂, b₃, b₄, b₅, b₆, b₇], _ =>
    refine ⟨⟨b₀, b₁, .ofNat (leNat [b₂, b₃]), .ofNat (leNat [b₄, b₅]), .ofNat (leNat [b₆, b₇])⟩, ?_⟩
    rw [Header.bytes, hword, hword, hword]
    rfl

/-- A store behind the header. -/
theorem poke_behind (off : Nat) (bytes' : List UInt8) :
    poke (header.bytes ++ rest) (8 + off) bytes' = (poke rest off bytes').map (header.bytes ++ ·) := by
  rw [← header.length_bytes]
  exact poke_front header.bytes rest off bytes'

theorem peek_behind (off n : Nat) : peek (header.bytes ++ rest) (8 + off) n = peek rest off n := by
  rw [← header.length_bytes]
  exact peek_front header.bytes rest off n

end Header

/-! ## Counted entries -/

theorem findEntry_eq_some {count : UInt16} {entry k : Nat} :
    findEntry count entry = some k ↔ k < count.toNat ∧ entry = slot k := by
  have hslot {i j : Nat} (h : slot i = slot j) : i = j := by
    simp only [slot] at h
    omega
  constructor
  · intro h
    exact ⟨List.mem_range.mp (List.mem_of_find?_eq_some h), by simpa using List.find?_some h⟩
  · rintro ⟨hk, rfl⟩
    cases hfound : findEntry count (slot k) with
    | none =>
      have hnone := List.find?_eq_none.mp hfound k (List.mem_range.mpr hk)
      simp at hnone
    | some j =>
      have hj : slot k = slot j := by simpa using List.find?_some hfound
      rw [hslot hj]

/-- Entries under a header that counts them, and what lies behind them. -/
structure Counted where
  header : Header
  entries : List (List UInt8)
  free : List UInt8
  width : ∀ e ∈ entries, e.length = 76
  count_eq : header.count.toNat = entries.length

namespace Counted

variable (c : Counted)

def bytes : List UInt8 := c.header.bytes ++ (c.entries.flatten ++ c.free)

theorem length_flatten : c.entries.flatten.length = 76 * c.entries.length :=
  length_flatten_records c.width

theorem aclCount_eq : aclCount c.bytes = some c.header.count := c.header.aclCount_eq _

theorem entriesOf_eq : entriesOf c.bytes = some c.entries := by
  have hrecords := records_flatten c.width c.header.bytes c.free
  rw [Header.length_bytes] at hrecords
  rw [entriesOf, c.aclCount_eq, Option.bind_eq_bind, Option.bind_some, c.count_eq, bytes,
    ← List.append_assoc]
  exact hrecords

/-- The offset of an entry in the part behind the header. -/
theorem flatten_take (k : Nat) (hk : k ≤ c.entries.length) :
    (c.entries.take k).flatten.length = 76 * k := by
  rw [length_flatten_records (fun e he => c.width e (List.mem_of_mem_take he)),
    List.length_take_of_le hk]

/-- An entry is erased, and its space is cleared. -/
def erase (k : Nat) (hk : k < c.entries.length) : Counted where
  header := { c.header with count := c.header.count - 1 }
  entries := c.entries.eraseIdx k
  free := List.replicate 76 0 ++ c.free
  width := fun e he => c.width e (List.mem_of_mem_eraseIdx he)
  count_eq := by
    have hcount := c.count_eq
    have hone : (1 : UInt16) ≤ c.header.count := by
      rw [UInt16.le_iff_toNat_le, hcount]
      exact Nat.one_le_of_lt hk
    rw [UInt16.toNat_sub_of_le _ _ hone, hcount, List.length_eraseIdx_of_lt hk]
    rfl

variable {c}

/-- The allocation around an entry. -/
theorem bytes_around {k : Nat} (hk : k < c.entries.length) : c.bytes =
    c.header.bytes ++ ((c.entries.take k).flatten ++
      (c.entries[k] ++ (c.entries.drop (k + 1)).flatten) ++ c.free) := by
  rw [bytes, flatten_split hk]
  simp only [List.append_assoc]

theorem length_behind (k : Nat) :
    (c.entries.drop (k + 1)).flatten.length = 76 * (c.entries.length - 1 - k) := by
  rw [length_flatten_records (fun e he => c.width e (List.mem_of_mem_drop he)), List.length_drop]
  congr 1
  omega

/-- The entries behind an entry are moved over it; 76 bytes behind them are to be cleared. -/
theorem moveBehind_eq {k : Nat} (hk : k < c.entries.length) :
    ∃ rest : List UInt8, rest.length = 76 ∧ moveBehind c.bytes k (c.entries.length - 1) =
      some (c.header.bytes ++ ((c.entries.take k).flatten ++
        ((c.entries.drop (k + 1)).flatten ++ rest) ++ c.free)) := by
  have hfront := c.flatten_take k (Nat.le_of_lt hk)
  have hwidth : c.entries[k].length = 76 := c.width _ (List.getElem_mem hk)
  have hbehind := c.length_behind k
  have hlong : (c.entries.drop (k + 1)).flatten.length ≤
      (c.entries[k] ++ (c.entries.drop (k + 1)).flatten).length := by
    rw [List.length_append]
    omega
  by_cases hlast : k = c.entries.length - 1
  · have hnil : (c.entries.drop (k + 1)).flatten = [] := by
      rw [← List.length_eq_zero_iff, hbehind]
      omega
    refine ⟨c.entries[k], hwidth, ?_⟩
    rw [moveBehind, if_pos hlast, bytes_around hk, hnil, List.append_nil, List.nil_append]
  · refine ⟨(c.entries[k] ++ (c.entries.drop (k + 1)).flatten).drop
      (c.entries.drop (k + 1)).flatten.length, ?_, ?_⟩
    · rw [List.length_drop, List.length_append]
      omega
    · have hnext : slot (k + 1) = 8 + ((c.entries.take k).flatten ++ c.entries[k]).length := by
        rw [List.length_append, hfront, hwidth, slot]
        omega
      have hpeek : peek c.bytes (slot (k + 1)) (76 * (c.entries.length - 1 - k)) =
          some (c.entries.drop (k + 1)).flatten := by
        rw [hnext, bytes_around hk, Header.peek_behind, ← hbehind, ← List.append_assoc]
        exact peek_append _ _ _
      rw [moveBehind, if_neg hlast, hpeek, Option.bind_eq_bind, Option.bind_some, bytes_around hk, slot,
        ← hfront, Header.poke_behind, poke_over _ _ hlong]
      rfl

theorem erase_bytes {k : Nat} (hk : k < c.entries.length) : (c.erase k hk).bytes =
    { c.header with count := c.header.count - 1 }.bytes ++ ((c.entries.take k).flatten ++
      (c.entries.drop (k + 1)).flatten ++ List.replicate 76 0 ++ c.free) := by
  simp only [bytes, erase, List.eraseIdx_eq_take_drop_succ, List.flatten_append, List.append_assoc]

theorem deleteEntry_eq {k : Nat} (hk : k < c.entries.length) :
    deleteEntry c.bytes (some (slot k)) = some ((c.erase k hk).bytes, .ok ()) := by
  have hcount : c.header.count ≠ 0 := by
    intro hzero
    have heq := c.count_eq
    rw [hzero, UInt16.toNat_zero] at heq
    omega
  have hfound : findEntry c.header.count (slot k) = some k :=
    findEntry_eq_some.mpr ⟨by rw [c.count_eq]; exact hk, rfl⟩
  obtain ⟨rest, hrest, hmoved⟩ := moveBehind_eq hk
  have hlast : slot (c.entries.length - 1) =
      8 + ((c.entries.take k).flatten ++ (c.entries.drop (k + 1)).flatten).length := by
    rw [List.length_append, c.flatten_take k (Nat.le_of_lt hk), c.length_behind, slot]
    omega
  have hcleared : poke (c.header.bytes ++ ((c.entries.take k).flatten ++
      ((c.entries.drop (k + 1)).flatten ++ rest) ++ c.free)) (slot (c.entries.length - 1))
        (List.replicate 76 0) = some (c.header.bytes ++ ((c.entries.take k).flatten ++
          (c.entries.drop (k + 1)).flatten ++ List.replicate 76 0 ++ c.free)) := by
    rw [hlast, Header.poke_behind, ← List.append_assoc (c.entries.take k).flatten,
      poke_append _ c.free (by rw [List.length_replicate, hrest])]
    rfl
  rw [deleteEntry, c.aclCount_eq, Option.bind_eq_bind, Option.bind_some, if_neg hcount, hfound]
  simp only [c.count_eq, hmoved, Option.bind_eq_bind, Option.bind_some, hcleared, Header.store_count,
    erase_bytes hk]

theorem deleteEntry_of_none {entry : Nat} (h : findEntry c.header.count entry = none) :
    deleteEntry c.bytes (some entry) = some (c.bytes, .error .ESRCH) := by
  rw [deleteEntry, c.aclCount_eq, Option.bind_eq_bind, Option.bind_some, h]
  exact ite_self _

end Counted

/-- An allocation from which an entry can be loaded. -/
theorem exists_counted {acl : List UInt8} {es : List (List UInt8)} (h : entriesOf acl = some es)
    (hes : es ≠ []) : ∃ c : Counted, acl = c.bytes ∧ c.entries = es := by
  obtain ⟨count, hcount, hrecords⟩ := Option.bind_eq_some_iff.mp h
  obtain ⟨back, hacl, hlength, hwidth⟩ := records_parts hrecords
  have hheader : (acl.take 8).length = 8 := length_take_records hrecords hes
  obtain ⟨header, hbytes⟩ := Header.exists_bytes hheader
  have heq : acl = header.bytes ++ (es.flatten ++ back) := by
    rw [hbytes, ← List.append_assoc]
    exact hacl
  rw [heq, Header.aclCount_eq] at hcount
  cases hcount
  exact ⟨⟨header, es, back, hwidth, hlength.symm⟩, heq, rfl⟩

end WindowsLibc.Acl
