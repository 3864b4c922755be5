import WindowsLibc.Printf.Grouped
import WindowsLibc.Scanf.Convert

/-!
# Reading digits in groups (`parse_digits` of `internal/convert.c`)

With `CONVERT_GROUP_DIGITS` a comma may stand before three digits. `parse_digits` decides byte by byte, with a
count of digits in 8 bits and a look at the three bytes behind a comma.

* `parseDigits_group` and `parseDigits_end` are its turns, beside `parseDigits_digit`.
* `accepted` is what it takes from a text, without any state but the count, and `readDigits_accepted` that all of
  it is read.
-/

namespace WindowsLibc.Scanf

open WindowsLibc.Lib WindowsLibc.Printf

/-! ## What is taken -/

/-- The groups at the front of a text: a comma and three digits each. -/
def groups : List UInt8 → List UInt8
  | comma :: a :: b :: c :: text =>
    if comma = 44 ∧ isDigit a ∧ isDigit b ∧ isDigit c then comma :: a :: b :: c :: groups text else []
  | _ => []

/-- The comma that is taken though no group begins with it. To `parse_digits` a text ends before a NUL. -/
def lastComma (text : List UInt8) : List UInt8 :=
  if text.headD 0 = 44 ∧ text.getD 1 0 = 0 then [44] else []

/-- What is taken behind the first digits. -/
def behindDigits (text : List UInt8) : List UInt8 :=
  groups text ++ lastComma (text.drop (groups text).length)

/-- What is taken of a text behind `period` digits. -/
def accepted : UInt8 → List UInt8 → List UInt8
  | _, [] => []
  | period, c :: text =>
    if isDigit c then c :: accepted (period + 1) text
    else if period ≤ 3 then behindDigits (c :: text)
    else lastComma (c :: text)

variable {b : Buffer} {text : List UInt8} {state : DigitParseState} {count : UInt32}

/-! ## One digit -/

/-- A group may begin here. -/
def Opens (state : DigitParseState) : Prop :=
  (state.grouping = true → state.period = 3) ∧ (state.grouping = false → state.period ≤ 3)

theorem parseDigits_group {a d e : UInt8} (h : Reads b (44 :: a :: d :: e :: text)) (ha : isDigit a)
    (hd : isDigit d) (he : isDigit e) (hflag : state.groupDigits = true) (hwhole : state.fraction = false)
    (hopens : Opens state) :
    parseDigits state count b =
      (a, { state with grouping := true, period := 1 }, count + 1 + 1, b.next.next) := by
  obtain ⟨hgrouping, hfirst⟩ := hopens
  have hcomma : b.peekbyte 0 = 44 := h.peek
  have h₁ : b.peekbyte 1 = a := h.peekbyte 1
  have h₂ : b.peekbyte 2 = d := h.peekbyte 2
  have h₃ : b.peekbyte 3 = e := h.peekbyte 3
  have hnext : b.next.peekbyte 0 = a := h.next.peek
  have hlength := h.length
  obtain ⟨fuel, hfuel⟩ : ∃ fuel, b.size - b.pos + 1 = fuel + 1 + 1 :=
    ⟨b.size - b.pos - 1, by rw [List.length_cons] at hlength; omega⟩
  rw [parseDigits, hfuel, parseDigitsFrom, hcomma, h₁, h₂, h₃]
  rw [if_neg (by decide), if_neg (by decide), if_pos ⟨rfl, hflag⟩, if_neg (isDigit_ne_zero ha), hwhole,
    if_neg Bool.false_ne_true, if_neg (fun hfull => hfull.2 (hgrouping hfull.1)),
    if_neg (fun hfull => absurd (hfirst (Bool.eq_false_iff.mpr hfull.1)) (UInt8.not_le.mpr hfull.2)),
    if_pos ⟨ha, hd, he⟩, parseDigitsFrom, hnext, if_neg (isDigit_ne_zero ha), if_pos ha,
    if_neg (fun hfull => absurd hfull.2 (show ¬ (0 : UInt8) = 3 by decide))]
  rfl

theorem groups_eq_nil_iff {a d e : UInt8} :
    groups (44 :: a :: d :: e :: text) = [] ↔ ¬ (isDigit a ∧ isDigit d ∧ isDigit e) := by
  rw [groups]
  split
  · next h => exact ⟨nofun, fun hnot => absurd h.2 hnot⟩
  · next h => exact ⟨fun _ hall => h ⟨rfl, hall⟩, fun _ => rfl⟩

/-- A text with a digit in the fourth place has four places. -/
theorem exists_of_digits (hcomma : text.headD 0 = 44) (h : isDigit (text.getD 3 0)) :
    ∃ a d e rest, text = 44 :: a :: d :: e :: rest := by
  match text with
  | [] => exact absurd hcomma (by decide)
  | [_] => exact absurd h (by simp [isDigit])
  | [_, _] => exact absurd h (by simp [isDigit])
  | [_, _, _] => exact absurd h (by simp [isDigit])
  | c :: a :: d :: e :: rest =>
    obtain rfl : c = 44 := hcomma
    exact ⟨a, d, e, rest, rfl⟩

/-- Where neither a digit nor a group begins, nothing is taken but a comma at the end. -/
theorem parseDigits_end (h : Reads b text) (hflag : state.groupDigits = true)
    (hwhole : state.fraction = false)
    (hdigit : isDigit (text.headD 0) → state.grouping = true ∧ state.period = 3)
    (hgroup : Opens state → groups text = []) :
    ∃ state', parseDigits state count b =
      (0, state', count + UInt32.ofNat (lastComma text).length, b.advance (lastComma text).length) := by
  have hpeek : b.peekbyte 0 = text.headD 0 := h.peek
  have hpeek₁ : b.peekbyte 1 = text.getD 1 0 := h.peekbyte 1
  have hnone : count + UInt32.ofNat ([] : List UInt8).length = count := UInt32.add_zero count
  have hstay : b.advance ([] : List UInt8).length = b := h.advance_zero
  rw [parseDigits, parseDigitsFrom, hpeek, hpeek₁]
  by_cases hlast : text.headD 0 = 44 ∧ text.getD 1 0 = 0
  · obtain ⟨hcomma, hend⟩ := hlast
    cases text with
    | nil => exact absurd hcomma (by decide)
    | cons c text =>
      obtain rfl : c = 44 := hcomma
      refine ⟨state, ?_⟩
      rw [if_neg (by simp), if_neg (by simp [isDigit]), if_pos ⟨rfl, hflag⟩, if_pos hend, lastComma,
        if_pos ⟨rfl, hend⟩, h.next_eq]
      rfl
  · rw [lastComma, if_neg hlast, hnone, hstay]
    split
    · exact ⟨state, rfl⟩
    · split
      · next hc =>
        rw [if_pos (hdigit hc)]
        exact ⟨state, rfl⟩
      · split
        · next hcomma =>
          rw [if_neg (fun hend => hlast ⟨hcomma.1, hend⟩), hwhole, if_neg Bool.false_ne_true]
          split
          · exact ⟨state, rfl⟩
          · next hgrouping =>
            split
            · exact ⟨state, rfl⟩
            · next hfirst =>
              have hopens : Opens state :=
                ⟨fun hg => by_contra fun hne => hgrouping ⟨hg, hne⟩, fun hg => UInt8.not_lt.mp fun hlt =>
                  hfirst ⟨by rw [hg]; exact Bool.false_ne_true, hlt⟩⟩
              rw [if_neg]
              · exact ⟨_, rfl⟩
              · have hnil := hgroup hopens
                rw [h.peekbyte 2, h.peekbyte 3]
                rintro ⟨ha, hd, he⟩
                obtain ⟨a, d, e, rest, rfl⟩ := exists_of_digits hcomma.1 he
                exact groups_eq_nil_iff.mp hnil ⟨ha, hd, he⟩
        · exact ⟨state, rfl⟩

/-! ## All digits -/

variable {α : Type} {add : α → UInt8 → α} {v : α}

/-- The loop takes the next bytes, which are `used`. -/
def Takes (add : α → UInt8 → α) (fuel : Nat) (state : DigitParseState) (v : α) (count : UInt32) (b : Buffer)
    (used : List UInt8) : Prop :=
  digitsLoop add fuel state v count b =
    ⟨(used.filter isDigit).foldl add v, count + UInt32.ofNat used.length, b.advance used.length⟩

/-- The loop ends. -/
theorem takes_end (h : Reads b text) (hflag : state.groupDigits = true) (hwhole : state.fraction = false)
    (hdigit : isDigit (text.headD 0) → state.grouping = true ∧ state.period = 3)
    (hgroup : Opens state → groups text = []) {fuel : Nat} (hfuel : text.length < fuel) :
    Takes add fuel state v count b (lastComma text) := by
  obtain ⟨fuel, rfl⟩ : ∃ n, fuel = n + 1 := ⟨fuel - 1, by omega⟩
  obtain ⟨state', hparse⟩ := @parseDigits_end b text state count h hflag hwhole hdigit hgroup
  have hnone : (lastComma text).filter isDigit = [] := by
    rw [lastComma]
    split <;> rfl
  rw [Takes, digitsLoop, hparse, hnone]
  rfl

/-- A digit is taken. -/
theorem takes_digit {c : UInt8} {used : List UInt8} {fuel : Nat} (h : Reads b (c :: text)) (hc : isDigit c)
    (hfull : ¬ (state.grouping = true ∧ state.period = 3))
    (hrest : Takes add fuel { state with period := state.period + 1 } (add v c) (count + 1) b.next used) :
    Takes add (fuel + 1) state v count b (c :: used) := by
  rw [Takes, digitsLoop, parseDigits_digit h hc hfull]
  simp only [isDigit_ne_zero hc, if_false]
  rw [hrest, h.next_advance, List.filter_cons_of_pos hc, List.length_cons, Nat.add_comm, UInt32.ofNat_add,
    ← UInt32.add_assoc]
  rfl

/-- A group is taken. -/
theorem takes_group {a d e : UInt8} {used : List UInt8} {fuel : Nat}
    (h : Reads b (44 :: a :: d :: e :: text)) (ha : isDigit a) (hd : isDigit d) (he : isDigit e)
    (hflag : state.groupDigits = true) (hwhole : state.fraction = false) (hopens : Opens state)
    (hrest : ∀ count' b', Reads b' text → Takes add fuel { state with grouping := true, period := 3 }
      (add (add (add v a) d) e) count' b' used) :
    Takes add (fuel + 3) state v count b (44 :: a :: d :: e :: used) := by
  have hthird : Takes add (fuel + 1) { state with grouping := true, period := 2 } (add (add v a) d)
      (count + 1 + 1 + 1) b.next.next.next (e :: used) :=
    takes_digit h.next.next.next he (fun hfull => absurd hfull.2 (show ¬ (2 : UInt8) = 3 by decide))
      (hrest _ _ h.next.next.next.next)
  have hsecond : Takes add (fuel + 2) { state with grouping := true, period := 1 } (add v a)
      (count + 1 + 1) b.next.next (d :: e :: used) :=
    takes_digit h.next.next hd (fun hfull => absurd hfull.2 (show ¬ (1 : UInt8) = 3 by decide)) hthird
  rw [Takes, digitsLoop, parseDigits_group h ha hd he hflag hwhole hopens]
  simp only [isDigit_ne_zero ha, if_false]
  have hfilter : (44 :: a :: d :: e :: used).filter isDigit = a :: (d :: e :: used).filter isDigit := by
    rw [List.filter_cons_of_neg (show ¬ isDigit 44 = true by decide), List.filter_cons_of_pos ha]
  have hcount : UInt32.ofNat (44 :: a :: d :: e :: used).length =
      UInt32.ofNat (d :: e :: used).length + 1 + 1 := by
    rw [List.length_cons, List.length_cons, UInt32.ofNat_add, UInt32.ofNat_add]
    rfl
  rw [hsecond, hfilter, hcount, List.foldl_cons, h.next.next_advance, h.next_advance]
  congr 1
  ac_rfl

theorem behindDigits_group {a d e : UInt8} (h : isDigit a ∧ isDigit d ∧ isDigit e) :
    behindDigits (44 :: a :: d :: e :: text) = 44 :: a :: d :: e :: behindDigits text := by
  have hgroups : groups (44 :: a :: d :: e :: text) = 44 :: a :: d :: e :: groups text := if_pos ⟨rfl, h⟩
  rw [behindDigits, hgroups]
  rfl

theorem behindDigits_eq (h : groups text = []) : behindDigits text = lastComma text := by
  rw [behindDigits, h]
  rfl

/-- Where a group may begin, all groups are taken, and a comma at the end. -/
theorem takes_behind (h : Reads b text) (hflag : state.groupDigits = true) (hwhole : state.fraction = false)
    (hdigit : isDigit (text.headD 0) → state.grouping = true ∧ state.period = 3) (hopens : Opens state)
    {fuel : Nat} (hfuel : text.length < fuel) :
    Takes add fuel state v count b (behindDigits text) := by
  induction text using groups.induct generalizing b state v count fuel with
  | case1 comma a d e text hall ih =>
    obtain ⟨rfl, hdigits⟩ := hall
    simp only [List.length_cons] at hfuel
    obtain ⟨fuel, rfl⟩ : ∃ n, fuel = n + 3 := ⟨fuel - 3, by omega⟩
    rw [behindDigits_group hdigits]
    refine takes_group h hdigits.1 hdigits.2.1 hdigits.2.2 hflag hwhole hopens fun count' b' hb' => ?_
    exact @ih b' { state with grouping := true, period := 3 } count' _ hb' hflag hwhole (fun _ => ⟨rfl, rfl⟩)
      ⟨fun _ => rfl, fun hg => by cases hg⟩ fuel (by omega)
  | case2 comma a d e text hnot =>
    have hnil : groups (comma :: a :: d :: e :: text) = [] := if_neg hnot
    rw [behindDigits_eq hnil]
    exact takes_end h hflag hwhole hdigit (fun _ => hnil) hfuel
  | case3 text hshort =>
    have hnil : groups text = [] := by
      rw [groups]
      exact hshort
    rw [behindDigits_eq hnil]
    exact takes_end h hflag hwhole hdigit (fun _ => hnil) hfuel

/-- **What is taken** of a text, digit by digit. -/
theorem takes_accepted (h : Reads b text) (hflag : state.groupDigits = true) (hwhole : state.fraction = false)
    (hgrouping : state.grouping = false) {fuel : Nat} (hfuel : text.length < fuel) :
    Takes add fuel state v count b (accepted state.period text) := by
  induction text generalizing b state v count fuel with
  | nil => exact takes_end h hflag hwhole (fun hc => absurd hc (by decide)) (fun _ => rfl) hfuel
  | cons c text ih =>
    rw [accepted]
    split
    · next hc =>
      obtain ⟨fuel, rfl⟩ : ∃ n, fuel = n + 1 := ⟨fuel - 1, by omega⟩
      refine takes_digit h hc (fun hfull => by rw [hgrouping] at hfull; cases hfull.1) ?_
      exact @ih b.next { state with period := state.period + 1 } (count + 1) (add v c) h.next hflag hwhole
        hgrouping fuel (Nat.lt_of_succ_lt_succ hfuel)
    · next hc =>
      have hdigit : isDigit ((c :: text).headD 0) → state.grouping = true ∧ state.period = 3 :=
        fun hd => absurd hd hc
      split
      · next hle =>
        have hopens : Opens state := ⟨fun hg => Bool.noConfusion (hgrouping.symm.trans hg), fun _ => hle⟩
        exact takes_behind h hflag hwhole hdigit hopens hfuel
      · next hnot => exact takes_end h hflag hwhole hdigit (fun hopens => absurd (hopens.2 hgrouping) hnot) hfuel

/-- All that is taken of a text. -/
theorem readDigits_accepted (add : α → UInt8 → α) (v : α) (count : UInt32) (h : Reads b text) :
    readDigits add { groupDigits := true } v count b =
      ⟨((accepted 0 text).filter isDigit).foldl add v, count + UInt32.ofNat (accepted 0 text).length,
        b.advance (accepted 0 text).length⟩ :=
  takes_accepted h rfl rfl rfl (by rw [h.length]; omega)

/-- The digits of a text in groups. -/
theorem filter_grouped {ds : List Nat} (hds : ∀ d ∈ ds, d < 10) : (grouped 0 ds).filter isDigit = ds.map digitChar := by
  induction ds with
  | nil => rfl
  | cons d ds ih =>
    have hrest := ih fun x hx => hds x (List.mem_cons_of_mem _ hx)
    rw [grouped, List.filter_cons_of_pos (isDigit_digitChar (hds d List.mem_cons_self)), List.map_cons, ← hrest]
    split
    · rw [List.filter_cons_of_neg (by decide)]
    · rfl

end WindowsLibc.Scanf
