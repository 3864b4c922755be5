import WindowsLibc.Printf.Integer
import WindowsLibc.Scanf.Grouped

/-!
# Where the commas go

With the flag `'` the digits come in groups of three. `print_int_formatted` finds the number of the commas again
from the length of the text.

* `emits_decimal` is what a decimal conversion prints, with or without commas.
* `miscounted` says how many commas too many the division finds, so many zeros too many may be printed. The least
  value has no commas at all.
* `print_grouped_iff` says when the text is as it should be.
-/

namespace WindowsLibc.Printf

open WindowsLibc.Lib
open WindowsLibc.Scanf (isDigit isDigit_digitChar filter_grouped)

variable {r : Request} {ds : List Nat}

/-! ## The text -/

theorem comma_mem_grouped (h : 3 < ds.length) : 44 ∈ grouped 0 ds := by
  induction ds with
  | nil => exact absurd h (by decide)
  | cons d ds ih =>
    rw [grouped, List.length_cons] at *
    split
    · simp
    · next hnot => exact List.mem_cons_of_mem _ (ih (by omega))

/-- How many commas too many are found behind `n` digits. -/
def miscounted (n : Nat) : Nat := ((n - 1) / 3 + (n - 1) % 3) / 3

/-- The zeros go up to the width, not up to the precision. -/
def Request.zeroFilled (r : Request) : Prop :=
  r.flags.zeroPadded = true ∧ r.flags.leftJustify = false ∧ r.precision = none

/-- The division takes more than the commas for separators. -/
theorem separators_eq {n : Nat} (hgroup : r.flags.groupDigits = true) (hn : 0 < n) (hmax : n ≤ 20) :
    (separators r.config (UInt32.ofNat (n + (n - 1) / 3))).toNat = (n - 1) / 3 + miscounted n := by
  have hsize := toNat_ofNat_small (show n + (n - 1) / 3 < 2 ^ 32 by omega)
  have hone : (1 : UInt32) ≤ UInt32.ofNat (n + (n - 1) / 3) := by
    rw [UInt32.le_iff_toNat_le, hsize, UInt32.toNat_one]
    omega
  rw [separators, if_pos (show r.config.flags.groupDigits = true from hgroup), UInt32.toNat_div,
    UInt32.toNat_sub_of_le _ _ hone, hsize, UInt32.toNat_one, miscounted]
  show (n + (n - 1) / 3 - 1) / 3 = _
  omega

/-- When the zeros are as many as they should be. -/
theorem layout_zeros_iff {n e : Nat} (hgroup : r.flags.groupDigits = true) (hn : 0 < n) (hmax : n ≤ 20)
    (he : e ≤ 1) :
    (layout r.config (UInt32.ofNat e) (UInt32.ofNat (n + (n - 1) / 3))
        (separators r.config (UInt32.ofNat (n + (n - 1) / 3)))).zeros + n = max r.least n ↔
      (miscounted n = 0 ∨ r.least + miscounted n ≤ n) ∧ (r.zeroFilled → r.width.toNat ≤ e + (n + (n - 1) / 3)) := by
  have hsize := toNat_ofNat_small (show n + (n - 1) / 3 < 2 ^ 32 by omega)
  have hextra := toNat_ofNat_small (show e < 2 ^ 32 by omega)
  have hperiod := separators_eq hgroup hn hmax
  have hle : miscounted n < n := by
    rw [miscounted]
    omega
  have hdigits : (UInt32.ofNat (n + (n - 1) / 3) - separators r.config (UInt32.ofNat (n + (n - 1) / 3))).toNat =
      n - miscounted n := by
    rw [UInt32.toNat_sub_of_le _ _ (by rw [UInt32.le_iff_toNat_le, hsize, hperiod]; omega), hsize, hperiod]
    omega
  have hall : (UInt32.ofNat e + UInt32.ofNat (n + (n - 1) / 3)).toNat = e + (n + (n - 1) / 3) := by
    rw [toNat_add_small (by omega), hextra, hsize]
  have hwide : (r.config.width > max r.config.precision (UInt32.ofNat (n + (n - 1) / 3))) ↔
      max r.least (n + (n - 1) / 3) < r.width.toNat := by
    rw [gt_iff_lt, UInt32.lt_iff_toNat_lt, toNat_max, hsize]
    rfl
  have hprecision : r.config.precision.toNat = r.least := rfl
  have hwidth : r.config.width.toNat = r.width.toNat := rfl
  by_cases hfilled : r.zeroFilled
  · have hleast : r.least = 0 := by rw [Request.least, hfilled.2.2]; rfl
    have hpadded : r.config.flags.zeroPadded = true := by
      simp [Request.config, Flags.settle, hfilled.1, hfilled.2.1, hfilled.2.2]
    have hleft : ¬ r.config.flags.leftJustify = true := by
      rw [show r.config.flags.leftJustify = r.flags.leftJustify from rfl, hfilled.2.1]
      exact Bool.false_ne_true
    have hzeros : (layout r.config (UInt32.ofNat e) (UInt32.ofNat (n + (n - 1) / 3))
        (separators r.config (UInt32.ofNat (n + (n - 1) / 3)))).zeros =
          r.width.toNat - (e + (n + (n - 1) / 3)) := by
      simp only [layout, if_neg hleft, hwide, if_pos hpadded, hall, hdigits, hprecision, hwidth, hleast]
      split
      · rfl
      · dsimp only
        omega
    rw [hzeros, forall_prop_of_true hfilled, hleast]
    omega
  · have hpadded : ¬ r.config.flags.zeroPadded = true := by
      intro hpadded
      apply hfilled
      simpa [Request.zeroFilled, Request.config, Flags.settle, and_assoc] using hpadded
    have hzeros : (layout r.config (UInt32.ofNat e) (UInt32.ofNat (n + (n - 1) / 3))
        (separators r.config (UInt32.ofNat (n + (n - 1) / 3)))).zeros = r.least - (n - miscounted n) := by
      simp only [layout, hdigits, hprecision]
      split
      · rfl
      · split <;> rfl
    have htrue : (r.zeroFilled → r.width.toNat ≤ e + (n + (n - 1) / 3)) ↔ True :=
      iff_true_intro fun h => absurd h hfilled
    rw [hzeros, htrue, and_true]
    omega

/-! ## What is printed -/

/-- The digits of the value. -/
def Request.decimals (r : Request) : List Nat := digitsOf 10 r.value.natAbs

/-- The text is as it should be. -/
structure GroupedText (r : Request) (text : List UInt8) : Prop where
  groups : ∃ left sign zeros right,
    text = List.replicate left 32 ++
      (sign ++ (List.replicate zeros 48 ++ grouped 0 r.decimals) ++ List.replicate right 32) ∧
    (r.value < 0 ∧ sign = [45] ∨ 0 ≤ r.value ∧ (sign = [] ∨ sign = [43] ∨ sign = [32]))
  count : (text.filter isDigit).length = max r.least r.decimals.length
  value : numeral 10 0 ((text.filter isDigit).map fun c => c.toNat - 48) = r.value.natAbs

theorem decimals_numeral (r : Request) : Numeral 10 r.value.natAbs r.decimals :=
  numeral_digitsOf (by decide) _

theorem lead_decimal (htype : r.type = .intNumber ∨ r.type = .uintNumber) :
    r.value < 0 ∧ r.lead = [45] ∨ 0 ≤ r.value ∧ (r.lead = [] ∨ r.lead = [43] ∨ r.lead = [32]) := by
  rcases htype with htype | htype
  · simp only [Request.lead, htype]
    split
    · next hneg => exact .inl ⟨hneg, rfl⟩
    · next hneg =>
      refine .inr ⟨Int.not_lt.mp hneg, ?_⟩
      split
      · exact .inr (.inl rfl)
      · split
        · exact .inr (.inr rfl)
        · exact .inl rfl
  · have hvalue : r.value = r.config.uint := if_neg (by rw [htype]; decide)
    refine .inr ⟨hvalue ▸ Int.natCast_nonneg _, .inl ?_⟩
    simp only [Request.lead, htype]

/-- Signs and spaces are no digits. -/
theorem filter_layout (htype : r.type = .intNumber ∨ r.type = .uintNumber) (l : Layout) (digits : List UInt8) :
    (l.text r.lead digits).filter isDigit = List.replicate l.zeros 48 ++ digits.filter isDigit := by
  have hlead : r.lead.filter isDigit = [] := by
    rcases lead_decimal htype with ⟨-, h⟩ | ⟨-, h | h | h⟩ <;> rw [h] <;> rfl
  have hspaces : ∀ n, (List.replicate n (32 : UInt8)).filter isDigit = [] := fun n =>
    List.filter_replicate_of_neg (by decide)
  have hzeros : (List.replicate l.zeros (48 : UInt8)).filter isDigit = List.replicate l.zeros 48 :=
    List.filter_replicate_of_pos (by decide)
  simp only [Layout.text, List.filter_append, hlead, hspaces, hzeros, List.nil_append, List.append_nil]

/-- Zeros in front do not change the value. -/
theorem numeral_filter (zeros : Nat) (hds : ∀ d ∈ ds, d < 10) :
    numeral 10 0 ((List.replicate zeros 48 ++ ds.map digitChar).map fun c : UInt8 => c.toNat - 48) = numeral 10 0 ds := by
  have hdigits : (ds.map digitChar).map (fun c => c.toNat - 48) = ds := by
    rw [List.map_map]
    refine (List.map_congr_left fun d hd => ?_).trans (List.map_id ds)
    show (digitChar d).toNat - 48 = d
    rw [digitChar_toNat (hds d hd), Nat.add_sub_cancel]
  rw [List.map_append, List.map_replicate, hdigits]
  exact numeral_zeros zeros ds

/-- With its commas the text is right when it has as many zeros as it should. -/
theorem groupedText_iff (htype : r.type = .intNumber ∨ r.type = .uintNumber) (l : Layout) :
    GroupedText r (l.text r.lead (grouped 0 r.decimals)) ↔
      l.zeros + r.decimals.length = max r.least r.decimals.length := by
  have hds := decimals_numeral r
  have hfilter := filter_layout htype l (grouped 0 r.decimals)
  rw [filter_grouped hds.digit] at hfilter
  have hlength : ((l.text r.lead (grouped 0 r.decimals)).filter isDigit).length = l.zeros + r.decimals.length := by
    rw [hfilter, List.length_append, List.length_replicate, List.length_map]
  refine ⟨fun h => hlength.symm.trans h.count, fun h => ⟨?_, hlength.trans h, ?_⟩⟩
  · exact ⟨l.left, r.lead, l.zeros, l.right, rfl, lead_decimal htype⟩
  · rw [hfilter, numeral_filter l.zeros hds.digit]
    exact hds.value

/-- Without commas it is not, if there should be some. -/
theorem not_groupedText (htype : r.type = .intNumber ∨ r.type = .uintNumber) (l : Layout)
    (hlong : 3 < r.decimals.length) : ¬ GroupedText r (l.text r.lead (r.decimals.map digitChar)) := by
  intro h
  obtain ⟨left, sign, zeros, right, htext, -⟩ := h.groups
  have hcomma : 44 ∈ l.text r.lead (r.decimals.map digitChar) := by
    rw [htext]
    simp [comma_mem_grouped hlong]
  have hlead : 44 ∉ r.lead := by
    rcases lead_decimal htype with ⟨-, h⟩ | ⟨-, h | h | h⟩ <;> rw [h] <;> decide
  have hdigits : 44 ∉ r.decimals.map digitChar := by
    intro hmem
    obtain ⟨d, hd, heq⟩ := List.mem_map.mp hmem
    have hdigit := isDigit_digitChar ((decimals_numeral r).digit d hd)
    rw [heq] at hdigit
    exact absurd hdigit (by decide)
  simp only [Layout.text, List.mem_append, List.mem_replicate] at hcomma
  rcases hcomma with ⟨-, h⟩ | (h | ⟨-, h⟩ | h) | ⟨-, h⟩
  · exact absurd h (by decide)
  · exact hlead h
  · exact absurd h (by decide)
  · exact hdigits h
  · exact absurd h (by decide)

/-- The text of a decimal: that of the least value has no commas. -/
theorem emits_decimal (mem : Memory) (htype : r.type = .intNumber ∨ r.type = .uintNumber)
    (hgroup : r.flags.groupDigits = true) :
    ∃ ws digits, sink.Emits (printArg mem r.config) ws (count ws, mem) ∧
      (r.value = -2 ^ 63 ∧ digits = r.decimals.map digitChar ∨
        r.value ≠ -2 ^ 63 ∧ digits = grouped 0 r.decimals) ∧
      ws.flatten = (layout r.config (UInt32.ofNat r.lead.length) (UInt32.ofNat digits.length)
        (separators r.config (UInt32.ofNat digits.length))).text r.lead digits := by
  have htype' : r.config.type = r.type := rfl
  have hgroup' : r.config.flags.groupDigits = true := hgroup
  rcases htype with hconfig | hconfig
  · have hvalue : r.value = r.config.int := if_pos hconfig
    obtain ⟨hlo, hhi⟩ := int_bounds r.config
    simp only [printArg, htype', hconfig]
    obtain ⟨temp, htemp⟩ := Option.isSome_iff_exists.mp (intToDecCommon_isSome hlo hhi
      (r.config.flags.forceSign || r.config.flags.emptySpace) r.config.flags.groupDigits)
    obtain ⟨hsign, hmagnitude⟩ := takeSign_int r.config htemp
    obtain ⟨ws, hws, htext⟩ := emits_staged_text (· = _) htemp
      (emits_layout (hsign.trans (signOf_config hconfig)) rfl) mem
    rw [hgroup'] at hmagnitude
    refine ⟨ws, _, hws, ?_, htext⟩
    rw [Request.decimals, hvalue]
    exact hmagnitude.imp_right fun h => ⟨h.1, uintToDecCommon_grouped h.2⟩
  · have hvalue : r.value = r.config.uint := if_neg (by rw [hconfig]; decide)
    simp only [printArg, htype', hconfig]
    obtain ⟨temp, htemp⟩ := Option.isSome_iff_exists.mp
      (uintToDecCommon_isSome (uint_lt r.config) r.config.flags.groupDigits)
    obtain ⟨d, rest, hcons⟩ := decFrom_cons htemp
    have htake : takeSign r.config temp = (0, 0, temp) := by
      rw [hcons]
      exact takeSign_digit r.config d.isLt rest
    have hlead : r.lead = [] := by simp only [Request.lead, hconfig]
    obtain ⟨ws, hws, htext⟩ := emits_staged_text (· = _) htemp
      (emits_layout (show signText (takeSign r.config temp).1 = r.lead by rw [htake, hlead]; rfl)
        (show (takeSign r.config temp).2.2 = temp by rw [htake])) mem
    refine ⟨ws, temp, hws, .inr ⟨by rw [hvalue]; omega, ?_⟩, htext⟩
    rw [Request.decimals, hvalue, Int.natAbs_natCast]
    exact uintToDecCommon_grouped (hgroup' ▸ htemp)

/-- The argument is printed with its digits in groups. -/
def PrintsGrouped (mem : Memory) (r : Request) : Prop :=
  ∃ ws, sink.Emits (printArg mem r.config) ws (count ws, mem) ∧ GroupedText r ws.flatten

theorem natAbs_value_lt (r : Request) : r.value.natAbs < 10 ^ 20 := by
  obtain ⟨hlo, hhi⟩ := int_bounds r.config
  have huint := uint_lt r.config
  rw [Request.value]
  split <;> omega

theorem length_decimals (r : Request) : 0 < r.decimals.length ∧ r.decimals.length ≤ 20 :=
  ⟨length_digitsOf_pos (by decide) _, length_digitsOf_le (by decide) (by decide) (natAbs_value_lt r)⟩

/-- Any other value than the least is printed right when the zeros are. -/
theorem printsGrouped_iff_zeros (mem : Memory) (htype : r.type = .intNumber ∨ r.type = .uintNumber)
    (hgroup : r.flags.groupDigits = true) (hvalue : r.value ≠ -2 ^ 63) :
    PrintsGrouped mem r ↔
      (layout r.config (UInt32.ofNat r.lead.length)
        (UInt32.ofNat (r.decimals.length + (r.decimals.length - 1) / 3))
        (separators r.config (UInt32.ofNat (r.decimals.length + (r.decimals.length - 1) / 3)))).zeros +
          r.decimals.length = max r.least r.decimals.length := by
  obtain ⟨ws, digits, hws, hdigits, htext⟩ := emits_decimal mem htype hgroup
  obtain ⟨-, rfl⟩ := hdigits.resolve_left fun h => hvalue h.1
  rw [length_grouped] at htext
  rw [← groupedText_iff htype, ← htext]
  constructor
  · rintro ⟨vs, hvs, hgrouped⟩
    rw [(emits_unique hws hvs).2]
    exact hgrouped
  · exact fun hgrouped => ⟨ws, hws, hgrouped⟩

/-- The least value is never printed right. -/
theorem not_printsGrouped (mem : Memory) (htype : r.type = .intNumber ∨ r.type = .uintNumber)
    (hgroup : r.flags.groupDigits = true) (hvalue : r.value = -2 ^ 63) : ¬ PrintsGrouped mem r := by
  obtain ⟨ws, digits, hws, hdigits, htext⟩ := emits_decimal mem htype hgroup
  obtain ⟨-, rfl⟩ := hdigits.resolve_right fun h => h.1 hvalue
  have hlong : 3 < r.decimals.length := by
    have hlt : r.value.natAbs < 10 ^ r.decimals.length := lt_pow_digitsOf (by decide) _
    have hpow : 10 ^ 3 ≤ r.value.natAbs := by
      rw [hvalue]
      decide
    exact (Nat.pow_lt_pow_iff_right (by decide)).mp (Nat.lt_of_le_of_lt hpow hlt)
  rintro ⟨vs, hvs, hgrouped⟩
  rw [← (emits_unique hws hvs).2, htext] at hgrouped
  exact not_groupedText htype _ hlong hgrouped

/-- **When the digits are printed in groups.** -/
theorem print_grouped_iff (mem : Memory) (r : Request) (htype : r.type = .intNumber ∨ r.type = .uintNumber)
    (hgroup : r.flags.groupDigits = true) :
    PrintsGrouped mem r ↔
      r.value ≠ -2 ^ 63 ∧
      (miscounted r.decimals.length = 0 ∨ r.least + miscounted r.decimals.length ≤ r.decimals.length) ∧
      (r.zeroFilled → r.width.toNat ≤ r.lead.length + (r.decimals.length + (r.decimals.length - 1) / 3)) := by
  have hlead : r.lead.length ≤ 1 := by
    rcases lead_decimal htype with ⟨-, h⟩ | ⟨-, h | h | h⟩ <;> rw [h] <;> decide
  by_cases hvalue : r.value = -2 ^ 63
  · exact iff_of_false (not_printsGrouped mem htype hgroup hvalue) (fun h => h.1 hvalue)
  · rw [printsGrouped_iff_zeros mem htype hgroup hvalue,
      layout_zeros_iff hgroup (length_decimals r).1 (length_decimals r).2 hlead]
    exact (and_iff_right hvalue).symm

/-- `%'d` of 1234567. -/
def groupedMillion : Request := ⟨.intNumber, .none, { groupDigits := true }, 0, none, 0, 1234567⟩

theorem print_grouped_million : groupedMillion.decimals.length = 7 ∧ PrintsGrouped (fun _ => 0) groupedMillion := by
  have hvalue : groupedMillion.value = 1234567 := by decide
  have hlength : groupedMillion.decimals.length = 7 := by
    rw [Request.decimals, hvalue]
    simp [digitsOf]
  refine ⟨hlength, (print_grouped_iff (fun _ => 0) groupedMillion (.inl rfl) rfl).mpr ⟨?_, ?_, ?_⟩⟩
  · rw [hvalue]
    decide
  · rw [hlength]
    exact .inl rfl
  · rintro ⟨hzeros, -⟩
    cases hzeros

/-- `%'.6d` of 123456 is `0123,456`. -/
theorem not_print_grouped :
    ¬ ∀ (mem : Memory) (r : Request), r.type = .intNumber ∨ r.type = .uintNumber →
      r.flags.groupDigits = true → PrintsGrouped mem r := by
  intro h
  have hprints := h (fun _ => 0) ⟨.intNumber, .none, { groupDigits := true }, 0, some 6, 0, 123456⟩ (.inl rfl) rfl
  have hvalue : Request.value ⟨.intNumber, .none, { groupDigits := true }, 0, some 6, 0, 123456⟩ = 123456 := by decide
  have hlength : (Request.decimals ⟨.intNumber, .none, { groupDigits := true }, 0, some 6, 0, 123456⟩).length = 6 := by
    rw [Request.decimals, hvalue]
    simp [digitsOf]
  have hzeros := (printsGrouped_iff_zeros _ (.inl rfl) rfl (by rw [hvalue]; decide)).mp hprints
  rw [hlength] at hzeros
  exact absurd hzeros (by decide)

end WindowsLibc.Printf
