import Mathlib.Data.List.TakeWhile
import WindowsLibc.Scanf.Grouped

/-!
# The grammar of grouped numbers

What a number with groups should look like, and what `uint_from_dec_common` takes for one.

* `NumberForm` is the grammar: a plus, and digits without commas or one to three of them and groups.
* `longestNumber` is the longest prefix of a text of that form (`longest_longestNumber`).
* `Conforms` says that this prefix is what has been read, and `uintFromDecCommon_conforms_iff` for which texts
  that is so: the count of the first digits has 8 bits, no digit is needed in front of the first comma, and a NUL
  passes for the end.
-/

namespace WindowsLibc.Scanf

open WindowsLibc.Lib WindowsLibc.Printf

/-! ## The grammar -/

/-- A comma and three digits, any number of times. -/
inductive Groups : List UInt8 → Prop
  | nil : Groups []
  | cons {a d e : UInt8} {text : List UInt8} :
      isDigit a ∧ isDigit d ∧ isDigit e → Groups text → Groups (44 :: a :: d :: e :: text)

/-- An optional plus and digits, of which there are one to three when groups follow. -/
def NumberForm (text : List UInt8) : Prop :=
  ∃ sign run more, text = sign ++ (run ++ more) ∧ (sign = [] ∨ sign = [43]) ∧ (∀ c ∈ run, isDigit c) ∧
    Groups more ∧ (more ≠ [] → 1 ≤ run.length ∧ run.length ≤ 3)

/-- `p` is the longest number at the front of `text`. -/
structure Longest (text p : List UInt8) : Prop where
  form : NumberForm p
  isPrefix : p <+: text
  le : ∀ q, NumberForm q → q <+: text → q.length ≤ p.length

/-- The plus at the front. -/
def plusSign (text : List UInt8) : List UInt8 := if text.headD 0 = 43 then [43] else []

/-- The digits at the front, behind the plus. -/
def firstDigits (text : List UInt8) : List UInt8 := (text.drop (plusSign text).length).takeWhile isDigit

/-- What comes behind these digits. -/
def behindFirst (text : List UInt8) : List UInt8 := (text.drop (plusSign text).length).dropWhile isDigit

/-- The groups that a number takes. -/
def numberGroups (text : List UInt8) : List UInt8 :=
  if 1 ≤ (firstDigits text).length ∧ (firstDigits text).length ≤ 3 then groups (behindFirst text) else []

/-- The longest number at the front. -/
def longestNumber (text : List UInt8) : List UInt8 := plusSign text ++ (firstDigits text ++ numberGroups text)

variable {b : Buffer} {text : List UInt8}

theorem Longest.unique {p q : List UInt8} (hp : Longest text p) (hq : Longest text q) : p = q :=
  have hlength := Nat.le_antisymm (hq.le p hp.form hp.isPrefix) (hp.le q hq.form hq.isPrefix)
  (List.prefix_of_prefix_length_le hp.isPrefix hq.isPrefix (Nat.le_of_eq hlength)).eq_of_length hlength

theorem groups_spec (text : List UInt8) :
    Groups (groups text) ∧ groups text <+: text ∧ ∀ q, Groups q → q <+: text → q.length ≤ (groups text).length := by
  induction text using groups.induct with
  | case1 comma a d e text hall ih =>
    obtain ⟨rfl, hdigits⟩ := hall
    have hgroups : groups (44 :: a :: d :: e :: text) = 44 :: a :: d :: e :: groups text := if_pos ⟨rfl, hdigits⟩
    obtain ⟨hform, ⟨rest, hrest⟩, hle⟩ := ih
    rw [hgroups]
    refine ⟨.cons hdigits hform, ⟨rest, congrArg ([44, a, d, e] ++ ·) hrest⟩, fun q hq hprefix => ?_⟩
    cases hq with
    | nil => exact Nat.zero_le _
    | cons _ hmore =>
      obtain ⟨rest', hrest'⟩ := hprefix
      simp only [List.cons_append, List.cons.injEq] at hrest'
      have hlength := hle _ hmore ⟨rest', hrest'.2.2.2.2⟩
      simp only [List.length_cons]
      omega
  | case2 comma a d e text hnot =>
    have hgroups : groups (comma :: a :: d :: e :: text) = [] := if_neg hnot
    rw [hgroups]
    refine ⟨.nil, List.nil_prefix, fun q hq hprefix => ?_⟩
    cases hq with
    | nil => exact Nat.le_refl _
    | cons hdigits _ =>
      obtain ⟨rest', hrest'⟩ := hprefix
      simp only [List.cons_append, List.cons.injEq] at hrest'
      obtain ⟨rfl, rfl, rfl, rfl, -⟩ := hrest'
      exact absurd ⟨rfl, hdigits⟩ hnot
  | case3 text hshort =>
    have hgroups : groups text = [] := by
      rw [groups]
      exact hshort
    rw [hgroups]
    refine ⟨.nil, List.nil_prefix, fun q hq hprefix => ?_⟩
    cases hq with
    | nil => exact Nat.le_refl _
    | cons _ _ =>
      obtain ⟨rest', rfl⟩ := hprefix
      exact absurd rfl (hshort _ _ _ _ _)

theorem plusSign_leads (text : List UInt8) : plusSign text <+: text := by
  rw [plusSign]
  split
  · next hplus =>
    cases text with
    | nil => exact absurd hplus (by decide)
    | cons c text =>
      obtain rfl : c = 43 := hplus
      exact ⟨text, rfl⟩
  · exact List.nil_prefix

/-- The parts of a text. -/
theorem text_eq (text : List UInt8) : text = plusSign text ++ (firstDigits text ++ behindFirst text) := by
  rw [firstDigits, behindFirst, List.takeWhile_append_dropWhile]
  exact (List.prefix_iff_eq_append.mp (plusSign_leads text)).symm

theorem mem_firstDigits {c : UInt8} (h : c ∈ firstDigits text) : isDigit c := List.mem_takeWhile_imp h

/-- The first digits of a number that is a prefix are among the first digits, and where groups follow them, all. -/
theorem length_le_of_prefix {t run more : List UInt8} (hrun : ∀ c ∈ run, isDigit c) (hmore : Groups more)
    (hleads : run ++ more <+: t) :
    more = [] ∧ run.length ≤ (t.takeWhile isDigit).length ∨
      run = t.takeWhile isDigit ∧ more <+: t.dropWhile isDigit := by
  obtain ⟨rest, rfl⟩ := hleads
  rw [List.append_assoc, List.takeWhile_append_of_pos hrun, List.dropWhile_append_of_pos hrun]
  cases hmore with
  | nil => exact .inl ⟨rfl, by rw [List.length_append]; exact Nat.le_add_right _ _⟩
  | cons _ _ => exact .inr ⟨(List.append_nil run).symm, rest, rfl⟩

/-- Behind the plus, a number that is a prefix goes on with a prefix, or ends. -/
theorem behind_sign {sign run more : List UInt8} (hsign : sign = [] ∨ sign = [43]) (hrun : ∀ c ∈ run, isDigit c)
    (hlength : more ≠ [] → 1 ≤ run.length ∧ run.length ≤ 3) (hleads : sign ++ (run ++ more) <+: text) :
    sign.length ≤ (plusSign text).length ∧
      (run ++ more = [] ∨ run ++ more <+: text.drop (plusSign text).length) := by
  obtain ⟨rest, rfl⟩ := hleads
  rcases hsign with rfl | rfl
  · refine ⟨Nat.zero_le _, ?_⟩
    cases run with
    | nil =>
      refine .inl (by_contra fun hne => ?_)
      exact absurd (hlength hne).1 (Nat.not_succ_le_zero 0)
    | cons c run =>
      have hc : c ≠ 43 := by
        rintro rfl
        exact absurd (hrun 43 List.mem_cons_self) (by decide)
      have hnone : plusSign ([] ++ (c :: run ++ more) ++ rest) = [] := if_neg hc
      rw [hnone]
      exact .inr ⟨rest, rfl⟩
  · exact ⟨Nat.le_refl _, .inr ⟨rest, rfl⟩⟩

theorem longest_longestNumber (text : List UInt8) : Longest text (longestNumber text) := by
  obtain ⟨hform, hprefix, hle⟩ := groups_spec (behindFirst text)
  have hnumber : numberGroups text = [] ∨ (1 ≤ (firstDigits text).length ∧ (firstDigits text).length ≤ 3) ∧
      numberGroups text = groups (behindFirst text) := by
    rw [numberGroups]
    split
    · next hlength => exact .inr ⟨hlength, rfl⟩
    · exact .inl rfl
  have hsign : plusSign text = [] ∨ plusSign text = [43] := by
    rw [plusSign]
    split
    · exact .inr rfl
    · exact .inl rfl
  refine ⟨⟨_, _, _, rfl, hsign, fun c => mem_firstDigits, ?_, ?_⟩, ?_, ?_⟩
  · rcases hnumber with hnil | ⟨-, hgroups⟩
    · rw [hnil]
      exact .nil
    · rw [hgroups]
      exact hform
  · rcases hnumber with hnil | ⟨hlength, -⟩
    · exact fun hne => absurd hnil hne
    · exact fun _ => hlength
  · have hbehind : numberGroups text <+: behindFirst text := by
      rcases hnumber with hnil | ⟨-, hgroups⟩
      · rw [hnil]
        exact List.nil_prefix
      · rw [hgroups]
        exact hprefix
    obtain ⟨rest, hrest⟩ := hbehind
    refine ⟨rest, ?_⟩
    rw [longestNumber, List.append_assoc, List.append_assoc, hrest, ← text_eq]
  · rintro q ⟨sign, run, more, rfl, hplus, hrun, hmore, hlength⟩ hq
    obtain ⟨hshort, hbehind⟩ := behind_sign hplus hrun hlength hq
    have hall : (run ++ more).length ≤ (firstDigits text ++ numberGroups text).length := by
      rcases hbehind with hnil | hbehind
      · rw [hnil]
        exact Nat.zero_le _
      · rw [List.length_append, List.length_append]
        rcases length_le_of_prefix hrun hmore hbehind with ⟨rfl, hrunle⟩ | ⟨hfirst, hmorele⟩
        · exact Nat.add_le_add hrunle (Nat.zero_le _)
        · by_cases hne : more = []
          · rw [hne, hfirst]
            exact Nat.add_le_add_left (Nat.zero_le _) _
          · have hthree := hlength hne
            rw [hfirst] at hthree ⊢
            rw [numberGroups]
            refine Nat.add_le_add_left ?_ _
            exact (hle more hmore hmorele).trans_eq (congrArg List.length (if_pos hthree).symm)
    rw [longestNumber, List.length_append, @List.length_append _ (plusSign text)]
    exact Nat.add_le_add hshort hall

/-! ## What is taken -/

theorem accepted_eq (period : UInt8) (t : List UInt8) :
    accepted period t = t.takeWhile isDigit ++
      if period + UInt8.ofNat (t.takeWhile isDigit).length ≤ 3 then behindDigits (t.dropWhile isDigit)
      else lastComma (t.dropWhile isDigit) := by
  induction t generalizing period with
  | nil => exact (ite_self _).symm
  | cons c t ih =>
    rw [accepted, List.takeWhile_cons, List.dropWhile_cons]
    by_cases hc : isDigit c
    · have hperiod : period + 1 + UInt8.ofNat (t.takeWhile isDigit).length =
          period + UInt8.ofNat ((t.takeWhile isDigit).length + 1) := by
        rw [UInt8.ofNat_add, UInt8.add_assoc, UInt8.add_comm 1]
        rfl
      rw [if_pos hc, if_pos hc, if_pos hc, ih, hperiod]
      rfl
    · have hzero : period + UInt8.ofNat ([] : List UInt8).length = period := UInt8.add_zero period
      rw [if_neg hc, if_neg hc, if_neg hc, hzero]
      rfl

theorem lastComma_prefix (text : List UInt8) : lastComma text <+: text := by
  rw [lastComma]
  split
  · next hlast =>
    cases text with
    | nil => exact absurd hlast.1 (by decide)
    | cons c text =>
      obtain rfl : c = 44 := hlast.1
      exact ⟨text, rfl⟩
  · exact List.nil_prefix

theorem filter_lastComma (text : List UInt8) : (lastComma text).filter isDigit = [] := by
  rw [lastComma]
  split <;> rfl

theorem behindDigits_prefix (text : List UInt8) : behindDigits text <+: text := by
  have hparts := List.prefix_iff_eq_append.mp (groups_spec text).2.1
  obtain ⟨rest, hrest⟩ := lastComma_prefix (text.drop (groups text).length)
  refine ⟨rest, ?_⟩
  rw [behindDigits, List.append_assoc, hrest, hparts]

theorem accepted_prefix (period : UInt8) (t : List UInt8) : accepted period t <+: t := by
  have hparts := @List.takeWhile_append_dropWhile _ isDigit t
  rw [accepted_eq]
  split
  · obtain ⟨rest, hrest⟩ := behindDigits_prefix (t.dropWhile isDigit)
    exact ⟨rest, by rw [List.append_assoc, hrest, hparts]⟩
  · obtain ⟨rest, hrest⟩ := lastComma_prefix (t.dropWhile isDigit)
    exact ⟨rest, by rw [List.append_assoc, hrest, hparts]⟩

/-- What `uint_from_dec_common` takes. -/
def takenNumber (text : List UInt8) : List UInt8 :=
  plusSign text ++ accepted 0 (text.drop (plusSign text).length)

theorem takenNumber_leads (text : List UInt8) : takenNumber text <+: text := by
  have hparts := List.prefix_iff_eq_append.mp (plusSign_leads text)
  obtain ⟨rest, hrest⟩ := accepted_prefix 0 (text.drop (plusSign text).length)
  refine ⟨rest, ?_⟩
  rw [takenNumber, List.append_assoc, hrest, hparts]

/-- The number that the digits of a text denote. -/
def denoted (text : List UInt8) : Nat := numeral 10 0 ((text.filter isDigit).map fun c => c.toNat - 48)

theorem foldl_denoted (text : List UInt8) :
    (text.filter isDigit).foldl (fun v c => v * 10 + (c - 48).toUInt64) 0 = UInt64.ofNat (denoted text) := by
  have hfold := @foldl_numeral 10 UInt64 UInt64.ofNat (fun v d => v * 10 + UInt64.ofNat d)
    ofNat_numeral 0 ((text.filter isDigit).map fun c => c.toNat - 48)
  rw [List.foldl_map] at hfold
  rw [denoted, ← hfold]
  apply List.foldl_ext
  intro v c hc
  obtain ⟨d, hd, rfl⟩ := exists_digitChar (List.of_mem_filter hc)
  rw [(digitChar_sub hd).1, digitChar_toNat hd, Nat.add_sub_cancel]

/-- All that happens to a text. -/
theorem uintFromDecCommon_taken (h : Reads b text) :
    uintFromDecCommon true b = ⟨UInt64.ofNat (denoted (takenNumber text)),
      UInt32.ofNat (takenNumber text).length, b.advance (takenNumber text).length⟩ := by
  have hpeek : b.peekbyte 0 = text.headD 0 := h.peek
  simp only [uintFromDecCommon]
  rw [← foldl_denoted, hpeek, takenNumber, plusSign]
  split
  · next hplus =>
    cases text with
    | nil => exact absurd hplus (by decide)
    | cons c text =>
      rw [readDigits_accepted _ 0 1 h.next, h.next_advance, count_front 43]
      rfl
  · rw [readDigits_accepted _ 0 0 h, UInt32.zero_add]
    rfl

/-! ## Where the grammar holds -/

/-- What has been read of `text` is its longest number, and a comma that is the last byte. -/
def Conforms (text : List UInt8) (b : Buffer) (taken : Taken UInt64) : Prop :=
  ∃ p, Longest text p ∧
    taken = ⟨UInt64.ofNat (denoted p), UInt32.ofNat (p.length + if text.drop p.length = [44] then 1 else 0),
      b.advance (p.length + if text.drop p.length = [44] then 1 else 0)⟩

/-- Groups follow one to three digits, or more by the count in 8 bits, or there are none. -/
def CountsGroups (text : List UInt8) : Prop :=
  groups (behindFirst text) = [] ∨ (1 ≤ (firstDigits text).length ∧ (firstDigits text).length ≤ 3) ∨
    3 < UInt8.ofNat (firstDigits text).length

/-- The grammar and the parser agree: no group follows a count that is wrong, and no comma and NUL stand behind the
number. -/
def Regular (text : List UInt8) : Prop :=
  CountsGroups text ∧ ¬ [44, 0] <+: text.drop (longestNumber text).length

theorem drop_longestNumber (text : List UInt8) :
    text.drop (longestNumber text).length = (behindFirst text).drop (numberGroups text).length :=
  calc text.drop (longestNumber text).length
    _ = (plusSign text ++ (firstDigits text ++ behindFirst text)).drop
          ((plusSign text).length + ((firstDigits text).length + (numberGroups text).length)) := by
      rw [← text_eq, longestNumber, List.length_append, List.length_append]
    _ = (behindFirst text).drop (numberGroups text).length := by
      rw [List.drop_length_add_append, List.drop_length_add_append]

theorem ofNat_le_three {n : Nat} (h : n ≤ 3) : UInt8.ofNat n ≤ 3 := by
  rw [UInt8.le_iff_toNat_le, UInt8.toNat_ofNat']
  exact Nat.le_trans (Nat.mod_le n _) h

theorem takenNumber_digits (text : List UInt8) :
    takenNumber text = plusSign text ++ (firstDigits text ++
      if UInt8.ofNat (firstDigits text).length ≤ 3 then behindDigits (behindFirst text)
      else lastComma (behindFirst text)) := by
  rw [takenNumber, accepted_eq, UInt8.zero_add]
  rfl

/-- Where the count is right, the longest number is taken, and a comma that seems to be the last byte. -/
theorem takenNumber_eq (h : CountsGroups text) :
    takenNumber text = longestNumber text ++ lastComma (text.drop (longestNumber text).length) := by
  rw [takenNumber_digits, drop_longestNumber, longestNumber, List.append_assoc, List.append_assoc, numberGroups]
  congr 2
  rcases h with hnil | hthree | hmany
  · rw [behindDigits_eq hnil, hnil, ite_self, ite_self]
    rfl
  · rw [if_pos (ofNat_le_three hthree.2), if_pos hthree]
    rfl
  · have hlong : ¬ (firstDigits text).length ≤ 3 := fun hle => UInt8.not_lt.mpr (ofNat_le_three hle) hmany
    rw [if_neg (UInt8.not_le.mpr hmany), if_neg (fun hthree => hlong hthree.2)]
    rfl

/-- Where it is wrong, a group more. -/
theorem length_takenNumber (h : ¬ CountsGroups text) :
    (longestNumber text).length + 4 ≤ (takenNumber text).length ∧
      text.drop (longestNumber text).length ≠ [44] := by
  obtain ⟨hgroups, hnot⟩ := not_or.mp h
  obtain ⟨hthree, hfew⟩ := not_or.mp hnot
  obtain ⟨hform, ⟨rest, hrest⟩, -⟩ := groups_spec (behindFirst text)
  have hlength : 4 ≤ (groups (behindFirst text)).length := by
    cases hcases : groups (behindFirst text) with
    | nil => exact absurd hcases hgroups
    | cons c more =>
      rw [hcases] at hform
      cases hform
      simp only [List.length_cons]
      omega
  constructor
  · rw [takenNumber_digits, longestNumber, numberGroups, if_neg hthree, if_pos (UInt8.not_lt.mp hfew), behindDigits]
    simp only [List.length_append, List.length_nil]
    omega
  · rw [drop_longestNumber, numberGroups, if_neg hthree, ← hrest]
    intro hone
    have hle := congrArg List.length hone
    simp only [List.length_nil, List.drop_zero, List.length_append, List.length_singleton] at hle
    omega

/-- A comma that is taken is the last byte, unless a NUL follows. -/
theorem length_lastComma (text : List UInt8) :
    (lastComma text).length = (if text = [44] then 1 else 0) ↔ ¬ [44, 0] <+: text := by
  match text with
  | [] => exact ⟨fun _ h => absurd h (by simp), fun _ => rfl⟩
  | [c] => by_cases hc : c = 44 <;> simp [lastComma, hc]
  | c :: d :: text =>
    have hfront : [44, 0] <+: c :: d :: text ↔ c = 44 ∧ d = 0 := by
      rw [List.cons_prefix_cons, List.cons_prefix_cons]
      exact ⟨fun h => ⟨h.1.symm, h.2.1.symm⟩, fun h => ⟨h.1.symm, h.2.symm, List.nil_prefix⟩⟩
    rw [hfront, if_neg (by simp)]
    by_cases hlast : c = 44 ∧ d = 0
    · have hcomma : lastComma (c :: d :: text) = [44] := if_pos hlast
      rw [hcomma]
      exact ⟨fun h => absurd h (by decide), fun h => absurd hlast h⟩
    · have hnone : lastComma (c :: d :: text) = [] := if_neg hlast
      rw [hnone]
      exact ⟨fun _ => hlast, fun _ => rfl⟩

theorem advance_injective (h : Reads b text) {m n : Nat} (hm : m ≤ text.length) (hn : n ≤ text.length)
    (heq : b.advance m = b.advance n) : m = n := by
  have hpos : min (b.pos + m) b.size = min (b.pos + n) b.size := congrArg Buffer.pos heq
  have hlength := h.length
  have hle := h.pos_le
  omega

theorem length_conforms {p : List UInt8} (h : p <+: text) :
    p.length + (if text.drop p.length = [44] then 1 else 0) ≤ text.length := by
  have hle := h.length_le
  split
  · next hlast =>
    have hlength := congrArg List.length hlast
    rw [List.length_drop, List.length_singleton] at hlength
    omega
  · exact hle

/-- What conforms has the right length. -/
theorem Conforms.length_eq (h : Reads b text) (hconforms : Conforms text b (uintFromDecCommon true b)) :
    (takenNumber text).length =
      (longestNumber text).length + if text.drop (longestNumber text).length = [44] then 1 else 0 := by
  obtain ⟨p, hp, htaken⟩ := hconforms
  obtain rfl := hp.unique (longest_longestNumber text)
  rw [uintFromDecCommon_taken h, Taken.mk.injEq] at htaken
  exact advance_injective h (takenNumber_leads text).length_le (length_conforms hp.isPrefix) htaken.2.2

theorem Conforms.countsGroups (h : Reads b text) (hconforms : Conforms text b (uintFromDecCommon true b)) :
    CountsGroups text := by
  by_contra hcounts
  obtain ⟨hlonger, hcomma⟩ := length_takenNumber hcounts
  have hlength := hconforms.length_eq h
  rw [if_neg hcomma] at hlength
  omega

/-- **For which texts the grammar is right.** -/
theorem uintFromDecCommon_conforms_iff (h : Reads b text) :
    Conforms text b (uintFromDecCommon true b) ↔ Regular text := by
  constructor
  · intro hconforms
    have hcounts := hconforms.countsGroups h
    have hlength := hconforms.length_eq h
    rw [takenNumber_eq hcounts, List.length_append] at hlength
    exact ⟨hcounts, (length_lastComma _).mp (Nat.add_left_cancel hlength)⟩
  · rintro ⟨hcounts, hend⟩
    refine ⟨_, longest_longestNumber text, ?_⟩
    have hdenoted : denoted (takenNumber text) = denoted (longestNumber text) := by
      rw [takenNumber_eq hcounts, denoted, List.filter_append, filter_lastComma, List.append_nil, denoted]
    rw [uintFromDecCommon_taken h, hdenoted, takenNumber_eq hcounts, List.length_append, (length_lastComma _).mpr hend]

/-- `1,000,000` -/
theorem uintFromDecCommon_conforms_million :
    Reads (.fixed [49, 44, 48, 48, 48, 44, 48, 48, 48] 9) [49, 44, 48, 48, 48, 44, 48, 48, 48] ∧
      Conforms [49, 44, 48, 48, 48, 44, 48, 48, 48] (.fixed [49, 44, 48, 48, 48, 44, 48, 48, 48] 9)
        (uintFromDecCommon true (.fixed [49, 44, 48, 48, 48, 44, 48, 48, 48] 9)) := by
  have hreads : Reads (.fixed [49, 44, 48, 48, 48, 44, 48, 48, 48] 9) [49, 44, 48, 48, 48, 44, 48, 48, 48] :=
    reads_fixed _ (by decide)
  have hregular : Regular [49, 44, 48, 48, 48, 44, 48, 48, 48] := ⟨.inr (.inl (by decide)), by decide⟩
  exact ⟨hreads, (uintFromDecCommon_conforms_iff hreads).mpr hregular⟩

/-- 256 digits count as none, and a group follows. -/
def manyDigits : List UInt8 := List.replicate 256 49 ++ [44, 50, 51, 52]

theorem not_uintFromDecCommon_conforms :
    ¬ Conforms manyDigits (.fixed manyDigits 260) (uintFromDecCommon true (.fixed manyDigits 260)) := by
  have hlength : manyDigits.length = 260 := by
    rw [manyDigits, List.length_append, List.length_replicate]
    rfl
  have hreads : Reads (.fixed manyDigits 260) manyDigits := by
    have hfixed := reads_fixed manyDigits (Nat.le_of_eq hlength.symm)
    rwa [List.take_of_length_le (Nat.le_of_eq hlength)] at hfixed
  have hrun : ∀ c ∈ List.replicate 256 (49 : UInt8), isDigit c := by
    intro c hc
    rw [List.eq_of_mem_replicate hc]
    decide
  have hsign : plusSign manyDigits = [] := if_neg (by decide)
  have hfirst : firstDigits manyDigits = List.replicate 256 49 := by
    rw [firstDigits, hsign, List.length_nil, List.drop_zero, manyDigits, List.takeWhile_append_of_pos hrun]
    exact List.append_nil _
  have hbehind : behindFirst manyDigits = [44, 50, 51, 52] := by
    rw [behindFirst, hsign, List.length_nil, List.drop_zero, manyDigits, List.dropWhile_append_of_pos hrun]
    rfl
  intro hconforms
  have hcounts := hconforms.countsGroups hreads
  rw [CountsGroups, hfirst, hbehind, List.length_replicate] at hcounts
  exact absurd hcounts (by decide)

end WindowsLibc.Scanf
