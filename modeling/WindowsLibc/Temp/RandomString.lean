import WindowsLibc.Lib.Digits

/-!
# Random strings (`stdlib/mkstemp.c`, `stdio/temp.c`)

The names of temporary files are made of random numbers, which `_ultoa_s(rn, buffer, 8, 36)` writes with the
digits `0` to `9` and `a` to `z`. A number of 32 bits has at most seven of them.
-/

namespace WindowsLibc.Temp

open WindowsLibc.Lib

def digitChar (d : Nat) : UInt8 := if d < 10 then UInt8.ofNat (0x30 + d) else UInt8.ofNat (0x57 + d)

/-- `_ultoa_s(rn, buffer, 8, 36)`, without the terminator -/
def ultoa (rn : UInt32) : List UInt8 := (digitsOf 36 rn.toNat).map digitChar

theorem length_ultoa_le (rn : UInt32) : (ultoa rn).length ≤ 7 := by
  have hlt : rn.toNat < 36 ^ 7 := Nat.lt_trans rn.toNat_lt (by decide)
  rw [ultoa, List.length_map]
  exact length_digitsOf_le (by decide) (by decide) hlt

theorem length_ultoa_pos (rn : UInt32) : 0 < (ultoa rn).length := by
  rw [ultoa, List.length_map]
  exact length_digitsOf_pos (by decide) rn.toNat

theorem ultoa_of_lt {rn : UInt32} (h : rn.toNat < 36) : ultoa rn = [digitChar rn.toNat] := by
  rw [ultoa, digitsOf_of_lt h]
  rfl

/-- A property of all digits. -/
theorem ultoa_forall {P : UInt8 → Prop} (h : ∀ d < 36, P (digitChar d)) (rn : UInt32) :
    ∀ c ∈ ultoa rn, P c := by
  intro c hc
  obtain ⟨d, hd, rfl⟩ := List.mem_map.mp hc
  exact h d ((numeral_digitsOf (by decide) rn.toNat).digit d hd)

end WindowsLibc.Temp
