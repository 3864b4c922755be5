import Mathlib.Data.BitVec
import WindowsLibc.Scanf.Format

/-!
# Scan sets

What a scan set says, and what `parse_scan_specifier` makes of it.

* `Items` is the grammar behind the `[`, up to the `]` that closes the set: single bytes and ranges.
* A `^` in front complements the set, and a `]` that follows is a member (`negated`, `leading`, `itemText`).
* `Member` is what the set contains. `scan_set` says that these are the bits that are set, and that a set that is
  not closed is no conversion.
-/

namespace WindowsLibc.Scanf

open WindowsLibc.Printf

/-! ## The grammar -/

/-- A byte, or all from the first to the last. -/
inductive SetItem where
  | byte (c : UInt8)
  | range (first last : UInt8)

/-- `c` is one of the bytes. -/
def SetItem.Has : SetItem → UInt8 → Prop
  | byte b, c => c = b
  | range first last, c => first ≤ c ∧ c ≤ last

/-- `text` begins with these items and the `]` behind them, and goes on with `rest`. -/
inductive Items : List UInt8 → List SetItem → List UInt8 → Prop
  | close {rest : List UInt8} : Items (93 :: rest) [] rest
  | range {first last : UInt8} {text rest : List UInt8} {items : List SetItem} (hfirst : first ≠ 93)
      (hlast : last ≠ 93) (htext : Items text items rest) :
      Items (first :: 45 :: last :: text) (.range first last :: items) rest
  | byte {c : UInt8} {text rest : List UInt8} {items : List SetItem} (hc : c ≠ 93)
      (hdash : ∀ last text', text = 45 :: last :: text' → last = 93) (htext : Items text items rest) :
      Items (c :: text) (.byte c :: items) rest

/-- The set is complemented. -/
def negated (body : List UInt8) : Bool := body.headD 0 = 94

/-- What stands behind the `^`. -/
def behindCaret (body : List UInt8) : List UInt8 := if negated body then body.tail else body

/-- The set begins with a `]`. -/
def leading (body : List UInt8) : Bool := (behindCaret body).headD 0 = 93

/-- What stands behind that. -/
def itemText (body : List UInt8) : List UInt8 :=
  if leading body then (behindCaret body).tail else behindCaret body

/-- The byte `c` is in the set. -/
def Member (body : List UInt8) (items : List SetItem) (c : UInt8) : Prop :=
  if negated body then ¬ (leading body ∧ c = 93 ∨ ∃ item ∈ items, item.Has c)
  else leading body ∧ c = 93 ∨ ∃ item ∈ items, item.Has c

variable {text rest : List UInt8} {items : List SetItem}

/-- There is one way to read a set. -/
theorem Items.unique (h : Items text items rest) {items' : List SetItem} {rest' : List UInt8}
    (h' : Items text items' rest') : items = items' ∧ rest = rest' := by
  induction h generalizing items' rest' with
  | close =>
    cases h' with
    | close => exact ⟨rfl, rfl⟩
    | range hfirst => exact absurd rfl hfirst
    | byte hc => exact absurd rfl hc
  | range hfirst hlast _ ih =>
    cases h' with
    | close => exact absurd rfl hfirst
    | range _ _ htext =>
      obtain ⟨rfl, rfl⟩ := ih htext
      exact ⟨rfl, rfl⟩
    | byte _ hdash => exact absurd (hdash _ _ rfl) hlast
  | byte hc hdash _ ih =>
    cases h' with
    | close => exact absurd rfl hc
    | range _ hlast => exact absurd (hdash _ _ rfl) hlast
    | byte _ _ htext =>
      obtain ⟨rfl, rfl⟩ := ih htext
      exact ⟨rfl, rfl⟩

/-- A set is closed by the first `]`. -/
theorem exists_items_iff (text : List UInt8) : (∃ items rest, Items text items rest) ↔ 93 ∈ text := by
  constructor
  · rintro ⟨items, rest, h⟩
    induction h with
    | close => exact List.mem_cons_self
    | range _ _ _ ih => simp [ih]
    | byte _ _ _ ih => simp [ih]
  · intro h
    induction hn : text.length using Nat.strong_induction_on generalizing text with
    | _ n ih =>
      subst hn
      match text, h with
      | c :: text, h =>
        by_cases hc : c = 93
        · rw [hc]
          exact ⟨_, _, .close⟩
        · have hmem : 93 ∈ text := (List.mem_cons.mp h).resolve_left (Ne.symm hc)
          by_cases hdash : ∃ last text', text = 45 :: last :: text' ∧ last ≠ 93
          · obtain ⟨last, text', rfl, hlast⟩ := hdash
            have hmem' : 93 ∈ text' := by
              simpa [Ne.symm hlast] using hmem
            obtain ⟨items, rest, hitems⟩ := ih text'.length (by simp only [List.length_cons]; omega) text' hmem' rfl
            exact ⟨_, _, .range hc hlast hitems⟩
          · obtain ⟨items, rest, hitems⟩ := ih text.length (Nat.lt_succ_self _) text hmem rfl
            refine ⟨_, _, .byte hc (fun last text' heq => ?_) hitems⟩
            by_contra hlast
            exact hdash ⟨last, text', heq, hlast⟩

/-! ## Bits -/

variable {exclude : Bool} {set set' : BitVec 128}

/-- One bit is set or cleared. -/
theorem putBit_spec {byte : UInt8} (hbyte : byte < 128) (exclude : Bool) (set : BitVec 128) :
    ∃ set', putBit exclude set byte = some set' ∧
      ∀ c < 128, getBit set' c = if c = byte then !exclude else getBit set c := by
  have hbit : ∀ c : UInt8, (1#128 <<< byte.toNat).getLsbD c.toNat = decide (c = byte) := by
    intro c
    have hlt : byte.toNat < 128 := hbyte
    refine (BitVec.getLsbD_twoPow _ _).trans ?_
    simp only [hlt, decide_true, Bool.true_and, UInt8.toNat_inj, @eq_comm _ byte]
  rw [putBit, if_pos hbyte]
  cases exclude with
  | false =>
    refine ⟨_, rfl, fun c hc => ?_⟩
    rw [getBit, BitVec.getLsbD_or, hbit]
    by_cases h : c = byte
    · simp [h]
    · simp [h, getBit]
  | true =>
    refine ⟨_, rfl, fun c hc => ?_⟩
    have hc' : c.toNat < 128 := hc
    rw [getBit, BitVec.getLsbD_and, BitVec.getLsbD_not, hbit]
    simp only [hc', decide_true, Bool.true_and]
    by_cases h : c = byte
    · simp [h]
    · simp [h, getBit]

/-- What an item makes of the bits. -/
def Puts (exclude : Bool) (has : UInt8 → Prop) (set set' : BitVec 128) : Prop :=
  ∀ c < 128, (has c → getBit set' c = !exclude) ∧ (¬ has c → getBit set' c = getBit set c)

theorem Puts.refl {has : UInt8 → Prop} (h : ∀ c, ¬ has c) (set : BitVec 128) : Puts exclude has set set :=
  fun c _ => ⟨fun hc => absurd hc (h c), fun _ => rfl⟩

/-- One after the other. -/
theorem Puts.trans {has has' : UInt8 → Prop} {set'' : BitVec 128} (h : Puts exclude has set set')
    (h' : Puts exclude has' set' set'') : Puts exclude (fun c => has c ∨ has' c) set set'' := by
  intro c hc
  constructor
  · intro heither
    by_cases hlate : has' c
    · exact (h' c hc).1 hlate
    · rw [(h' c hc).2 hlate]
      exact (h c hc).1 (heither.resolve_right hlate)
  · intro hnone
    obtain ⟨hfirst, hlate⟩ := not_or.mp hnone
    rw [(h' c hc).2 hlate, (h c hc).2 hfirst]

theorem Puts.congr {has has' : UInt8 → Prop} (h : Puts exclude has set set') (hiff : ∀ c, has c ↔ has' c) :
    Puts exclude has' set set' := by
  have heq : has = has' := funext fun c => propext (hiff c)
  exact heq ▸ h

theorem putBit_puts {byte : UInt8} (hbyte : byte < 128) (exclude : Bool) (set : BitVec 128) :
    ∃ set', putBit exclude set byte = some set' ∧ Puts exclude (· = byte) set set' := by
  obtain ⟨set', hput, hbits⟩ := putBit_spec hbyte exclude set
  refine ⟨set', hput, fun c hc => ?_⟩
  rw [hbits c hc]
  exact ⟨fun h => if_pos h, fun h => if_neg h⟩

/-- A range, as far as it goes. -/
theorem putRange_puts {last : UInt8} (hlast : last < 128) {fuel : Nat} {byte : UInt8} (hbyte : byte ≤ 128)
    (hfuel : last.toNat + 1 - byte.toNat ≤ fuel) (exclude : Bool) (set : BitVec 128) :
    ∃ set', putRange exclude last fuel byte set = some set' ∧
      Puts exclude (fun c => byte ≤ c ∧ c ≤ last) set set' := by
  induction fuel generalizing byte set with
  | zero =>
    refine ⟨set, rfl, .refl (fun c hc => ?_) set⟩
    have hle : byte.toNat ≤ last.toNat := UInt8.le_trans hc.1 hc.2
    omega
  | succ fuel ih =>
    rw [putRange]
    split
    · next hle =>
      have hle' : byte.toNat ≤ last.toNat := hle
      have hlast' : last.toNat < 128 := hlast
      have hnext : (byte + 1).toNat = byte.toNat + 1 := by
        rw [UInt8.toNat_add]
        exact Nat.mod_eq_of_lt (show byte.toNat + 1 < 256 by omega)
      obtain ⟨set₁, hput, hbits⟩ := putBit_puts (show byte < 128 from UInt8.lt_of_le_of_lt hle hlast) exclude set
      obtain ⟨set₂, hrange, hbits'⟩ := ih (show (byte + 1).toNat ≤ 128 by omega) (by omega) set₁
      refine ⟨set₂, by rw [hput]; exact hrange, (hbits.trans hbits').congr fun c => ?_⟩
      rw [UInt8.le_iff_toNat_le, UInt8.le_iff_toNat_le, UInt8.le_iff_toNat_le, hnext, ← UInt8.toNat_inj]
      omega
    · next hnot =>
      refine ⟨set, rfl, .refl (fun c hc => ?_) set⟩
      exact hnot (UInt8.le_trans hc.1 hc.2)

/-! ## Reading a set -/

/-- The items are put into the set one after the other. -/
theorem parseSetFrom_items (h : Items text items rest) (hascii : ∀ c ∈ text, c < 128) {fuel : Nat}
    (hfuel : text.length ≤ fuel) (exclude : Bool) (set : BitVec 128) :
    ∃ set', parseSetFrom exclude fuel set text = some (true, set', rest) ∧
      Puts exclude (fun c => ∃ item ∈ items, item.Has c) set set' := by
  induction h generalizing fuel set with
  | @close rest =>
    obtain ⟨fuel, rfl⟩ : ∃ n, fuel = n + 1 := ⟨fuel - 1, by simp only [List.length_cons] at hfuel; omega⟩
    exact ⟨set, if_pos rfl, .refl (by simp) set⟩
  | @range first last text rest items hfirst hlast _ ih =>
    simp only [List.length_cons] at hfuel
    obtain ⟨fuel, rfl⟩ : ∃ n, fuel = n + 1 := ⟨fuel - 1, by omega⟩
    have hlo : first < 128 := hascii first (by simp)
    have hhi : last < 128 := hascii last (by simp)
    obtain ⟨set₁, hput, hbits⟩ := @putRange_puts last hhi 256 first (UInt8.le_of_lt hlo)
      (by have : last.toNat < 128 := hhi; omega) exclude set
    obtain ⟨set₂, hrest, hbits'⟩ := @ih (fun c hc => hascii c (by simp [hc])) fuel (by omega) set₁
    refine ⟨set₂, ?_, (hbits.trans hbits').congr fun c => ?_⟩
    · rw [parseSetFrom, if_neg hfirst, if_pos hlo, if_pos ⟨rfl, hlast⟩]
      show (putRange exclude last 256 first set).bind _ = _
      rw [hput]
      exact hrest
    · rw [List.exists_mem_cons_iff]
      rfl
  | @byte c text rest items hc hdash htext ih =>
    simp only [List.length_cons] at hfuel
    obtain ⟨fuel, rfl⟩ : ∃ n, fuel = n + 1 := ⟨fuel - 1, by omega⟩
    have hlo : c < 128 := hascii c (by simp)
    obtain ⟨set₁, hput, hbits⟩ := putBit_puts hlo exclude set
    obtain ⟨set₂, hrest, hbits'⟩ := @ih (fun c hc => hascii c (by simp [hc])) fuel (by omega) set₁
    have hclosed : 93 ∈ text := (exists_items_iff text).mp ⟨_, _, htext⟩
    have hnot : ¬ (text.headD 0 = 45 ∧ text.getD 1 0 ≠ 93) := by
      rintro ⟨hhead, hlast⟩
      match text, hclosed, hhead, hlast with
      | [a], hclosed, hhead, _ =>
        obtain rfl : a = 45 := hhead
        exact absurd (List.mem_singleton.mp hclosed) (by decide)
      | a :: b :: text, _, hhead, hlast =>
        obtain rfl : a = 45 := hhead
        exact hlast (hdash b text rfl)
    refine ⟨set₂, ?_, (hbits.trans hbits').congr fun x => ?_⟩
    · rw [parseSetFrom, if_neg hc, if_pos hlo, if_neg hnot, hput]
      exact hrest
    · rw [List.exists_mem_cons_iff]
      rfl

/-- Without a `]` it is not closed. -/
theorem parseSetFrom_open (hopen : 93 ∉ text) (hascii : ∀ c ∈ text, c < 128) (fuel : Nat) (exclude : Bool)
    (set : BitVec 128) : ∃ set' rest, parseSetFrom exclude fuel set text = some (false, set', rest) := by
  induction fuel generalizing text set with
  | zero => exact ⟨set, text, rfl⟩
  | succ fuel ih =>
    cases text with
    | nil => exact ⟨set, [], rfl⟩
    | cons c text =>
      obtain ⟨hc, hrest⟩ : c ≠ 93 ∧ 93 ∉ text := by simpa [eq_comm] using hopen
      have hlo : c < 128 := hascii c List.mem_cons_self
      have htext : ∀ x ∈ text, x < 128 := fun x hx => hascii x (List.mem_cons_of_mem _ hx)
      rw [parseSetFrom, if_neg hc, if_pos hlo]
      split
      · have hhi : text.getD 1 0 < 128 := by
          match text, htext with
          | [], _ | [_], _ => exact (by decide : (0 : UInt8) < 128)
          | _ :: last :: _, htext => exact htext last (by simp)
        obtain ⟨set₁, hput, -⟩ := @putRange_puts _ hhi 256 c (UInt8.le_of_lt hlo)
          (by have : (text.getD 1 0).toNat < 128 := hhi; omega) exclude set
        rw [hput]
        exact ih (fun hmem => hrest (List.mem_of_mem_drop hmem)) (fun x hx => htext x (List.mem_of_mem_drop hx)) set₁
      · obtain ⟨set₁, hput, -⟩ := putBit_puts hlo exclude set
        rw [hput]
        exact ih hrest htext set₁

theorem headD_ne {k : UInt8} (hk : k ≠ 0) (h : ∀ rest, text = k :: rest → False) : text.headD 0 ≠ k := by
  cases text with
  | nil => exact hk.symm
  | cons c text => exact fun heq => h text (congrArg (· :: text) heq)

/-- Only a `]` is special behind the `^`. -/
theorem itemText_caret (h : text.headD 0 ≠ 93) : leading (94 :: text) = false ∧ itemText (94 :: text) = text := by
  have hleading : leading (94 :: text) = false := decide_eq_false h
  rw [itemText, hleading]
  exact ⟨rfl, rfl⟩

/-- A set with no special byte. -/
theorem itemText_plain (hclose : text.headD 0 ≠ 93) (hcaret : text.headD 0 ≠ 94) :
    negated text = false ∧ leading text = false ∧ itemText text = text := by
  have hnegated : negated text = false := decide_eq_false hcaret
  have hbehind : behindCaret text = text := by rw [behindCaret, hnegated]; rfl
  have hleading : leading text = false := by rw [leading, hbehind]; exact decide_eq_false hclose
  rw [itemText, hleading, hbehind]
  exact ⟨hnegated, rfl, rfl⟩

/-- The first byte of a set decides how it is read. -/
theorem parseSet_eq (body : List UInt8) :
    ∃ set fuel, parseSet body = parseSetFrom (negated body) fuel set (itemText body) ∧
      (itemText body).length ≤ fuel ∧
      ∀ c < 128, getBit set c = if leading body ∧ c = 93 then !negated body else negated body := by
  have hall : ∀ c : UInt8, c < 128 → getBit (BitVec.allOnes 128) c = true := by
    intro c hc
    have hlt : c.toNat < 128 := hc
    rw [getBit, BitVec.getLsbD_allOnes]
    exact decide_eq_true hlt
  have hnone : ∀ c : UInt8, getBit 0 c = false := fun c => BitVec.getLsbD_zero
  fun_cases parseSet body
  case case1 rest =>
    obtain ⟨set, hput, hbits⟩ := putBit_spec (show (93 : UInt8) < 128 by decide) false 0
    refine ⟨set, (93 :: rest).length, by rw [hput]; rfl, Nat.le_succ _, fun c hc => ?_⟩
    rw [hbits c hc, hnone c]
    by_cases h : c = 93 <;> simp [h, leading, behindCaret, negated]
  case case2 rest =>
    obtain ⟨set, hput, hbits⟩ := putBit_spec (show (93 : UInt8) < 128 by decide) true (BitVec.allOnes 128)
    refine ⟨set, (94 :: 93 :: rest).length, by rw [hput]; rfl, Nat.le_add_right _ 2, fun c hc => ?_⟩
    rw [hbits c hc, hall c hc]
    by_cases h : c = 93 <;> simp [h, leading, behindCaret, negated]
  case case3 rest hnext =>
    have hhead : rest.headD 0 ≠ 93 := headD_ne (by decide) fun text h => hnext text h
    obtain ⟨hleading, htext⟩ := itemText_caret hhead
    rw [htext, hleading]
    exact ⟨BitVec.allOnes 128, (94 :: rest).length, rfl, Nat.le_succ _, fun c hc => hall c hc⟩
  case case4 hbracket _ hcaret =>
    obtain ⟨hnegated, hleading, htext⟩ := itemText_plain
      (headD_ne (by decide) fun rest h => hbracket rest h) (headD_ne (by decide) fun rest h => hcaret rest h)
    rw [htext, hnegated, hleading]
    exact ⟨0, body.length + 1, rfl, Nat.le_succ _, fun c hc => by rw [hnone c]; rfl⟩

/-- Nothing stands between the `%` and the set. -/
theorem parseScanSpecifier_set (body : List UInt8) (args : VariadicArgs) {closed : Bool} {set : BitVec 128}
    (h : parseSet body = some (closed, set, rest)) :
    parseScanSpecifier (91 :: body) args = some (if closed then
      (⟨.set, .none, {}, 0, 0, some (args.get 0).1, set⟩, rest, (args.get 0).2)
      else (⟨.unknown, .none, {}, 0, 0, none, set⟩, rest, args)) := by
  have hset : ScanType.set = .set := rfl
  simp only [parseScanSpecifier]
  show (if ScanType.set = .set then (parseSet body).map _ else _) = _
  rw [if_pos hset, h]
  cases closed <;> rfl

theorem mem_itemText {body : List UInt8} {c : UInt8} (h : c ∈ itemText body) : c ∈ body := by
  have hcaret : ∀ x ∈ behindCaret body, x ∈ body := by
    rw [behindCaret]
    split
    · exact fun x => List.mem_of_mem_tail
    · exact fun x hx => hx
  rw [itemText] at h
  split at h
  · exact hcaret c (List.mem_of_mem_tail h)
  · exact hcaret c h

/-- **What a scan set is.** -/
theorem scan_set (body : List UInt8) (args : VariadicArgs) (hascii : ∀ c ∈ body, c < 128) :
    (∀ items rest, Items (itemText body) items rest →
      ∃ config, parseScanSpecifier (91 :: body) args = some (config, rest, (args.get 0).2) ∧
        config.type = .set ∧ config.data = some (args.get 0).1 ∧
        ∀ c < 128, (getBit config.set c = true ↔ Member body items c)) ∧
    ((∃ items rest, Items (itemText body) items rest) ↔ 93 ∈ itemText body) ∧
    (93 ∉ itemText body →
      ∃ config rest, parseScanSpecifier (91 :: body) args = some (config, rest, args) ∧
        config.type = .unknown ∧ config.data = none) := by
  have hitems : ∀ c ∈ itemText body, c < 128 := fun c hc => hascii c (mem_itemText hc)
  obtain ⟨set, fuel, hparse, hfuel, hbits⟩ := parseSet_eq body
  refine ⟨fun items rest h => ?_, exists_items_iff _, fun hopen => ?_⟩
  · obtain ⟨set', hset, hputs⟩ := parseSetFrom_items h hitems hfuel (negated body) set
    refine ⟨_, parseScanSpecifier_set body args (hparse.trans hset), rfl, rfl, fun c hc => ?_⟩
    show getBit set' c = true ↔ _
    by_cases hhas : ∃ item ∈ items, item.Has c
    · rw [(hputs c hc).1 hhas, Member]
      cases negated body <;> simp [hhas]
    · rw [(hputs c hc).2 hhas, hbits c hc, Member]
      by_cases hfirst : leading body = true ∧ c = 93
      · cases negated body <;> simp [hfirst]
      · rw [if_neg hfirst]
        cases negated body <;> simp [hhas, hfirst]
  · obtain ⟨set', rest, hset⟩ := parseSetFrom_open hopen hitems fuel (negated body) set
    exact ⟨_, rest, parseScanSpecifier_set body args (hparse.trans hset), rfl, rfl⟩

/-- `a-c]` -/
def lettersBody : List UInt8 := [97, 45, 99, 93]

theorem scan_set_letters :
    (∀ c ∈ lettersBody, c < 128) ∧
    (∀ items rest, Items (itemText lettersBody) items rest →
      ∃ config, parseScanSpecifier (91 :: lettersBody) (.init fun _ => 0) =
          some (config, rest, ((VariadicArgs.init fun _ => 0).get 0).2) ∧
        config.type = .set ∧ config.data = some ((VariadicArgs.init fun _ => 0).get 0).1 ∧
        ∀ c < 128, (getBit config.set c = true ↔ Member lettersBody items c)) ∧
    ((∃ items rest, Items (itemText lettersBody) items rest) ↔ 93 ∈ itemText lettersBody) ∧
    (93 ∉ itemText lettersBody →
      ∃ config rest, parseScanSpecifier (91 :: lettersBody) (.init fun _ => 0) =
          some (config, rest, .init fun _ => 0) ∧
        config.type = .unknown ∧ config.data = none) :=
  have hascii : ∀ c ∈ lettersBody, c < 128 := by simp [lettersBody]
  ⟨hascii, scan_set lettersBody (.init fun _ => 0) hascii⟩

end WindowsLibc.Scanf
