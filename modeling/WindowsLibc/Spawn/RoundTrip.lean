import Mathlib.Data.List.Forall2
import Mathlib.Data.List.TakeWhile
import WindowsLibc.Lib.ArgRead
import WindowsLibc.Spawn.CommandLine

/-!
# The command line survives splitting, but for empty arguments

`convert_argv_to_windows_cmd` is `Alphabet.quote` on bytes (`convertArgvToWindowsCmd_spec`), so that the
runtime reads back what it writes (`convertArgvToWindowsCmd_read`). The conversion to UTF-16 commutes with
quoting because everything that quoting looks at is ASCII (`decode_quote`), and so the command line is the
arguments, converted, quoted and joined.
-/

namespace WindowsLibc.Spawn

open WindowsLibc.Lib

/-- The special bytes. -/
def bytes : Alphabet UInt8 where
  backslash := 92
  quotation := 34
  space := 32
  tab := 9
  backslash_ne_quotation := by decide
  backslash_ne_space := by decide
  backslash_ne_tab := by decide
  quotation_ne_space := by decide
  quotation_ne_tab := by decide

/-- The special units. -/
def units : Alphabet UInt16 where
  backslash := 92
  quotation := 34
  space := 32
  tab := 9
  backslash_ne_quotation := by decide
  backslash_ne_space := by decide
  backslash_ne_tab := by decide
  quotation_ne_space := by decide
  quotation_ne_tab := by decide

/-! ## The two passes -/

/-- What the first pass finds special. -/
theorem countFrom_special (arg : List UInt8) (pending : Nat) (n : Counts) :
    ((countFrom pending n arg).hasWhitespaces = true ∨ (countFrom pending n arg).doubleQuotes > 0) ↔
      n.hasWhitespaces = true ∨ n.doubleQuotes > 0 ∨ bytes.NeedsQuotes arg := by
  induction arg generalizing pending n with
  | nil => simp [countFrom, Alphabet.NeedsQuotes]
  | cons c arg ih =>
    have hcons : bytes.NeedsQuotes (c :: arg) ↔
        (c = 32 ∨ c = 9) ∨ c = 34 ∨ bytes.NeedsQuotes arg := by
      simp only [Alphabet.NeedsQuotes, List.exists_mem_cons_iff, Alphabet.IsBlank, bytes, or_assoc]
    rw [countFrom, hcons]
    by_cases hb : c = 92
    · -- The inner loop over a run of backslashes sees nothing special.
      rw [if_pos hb, ih]
      subst hb
      simp
    by_cases hq : c = 34
    · rw [if_neg hb, if_pos hq, ih]
      simp [hq]
    · rw [if_neg hb, if_neg hq, ih]
      simp only [Bool.or_eq_true, beq_iff_eq]
      tauto

/-- `*size` is the length of the argument at first. -/
theorem countFrom_length (arg : List UInt8) (pending : Nat) (n : Counts) :
    (countFrom pending n arg).size = n.size + pending + arg.length := by
  induction arg generalizing pending n with
  | nil => rfl
  | cons c arg ih =>
    rw [countFrom, List.length_cons]
    split
    · rw [ih]
      omega
    · split
      · rw [ih]
        simp only
        omega
      · rw [ih]
        simp only
        omega

/-- The first pass counts what the second writes. -/
theorem countFrom_size (arg : List UInt8) (pending : Nat) (n : Counts) :
    (countFrom pending n arg).size + (countFrom pending n arg).doubleQuotes +
        (countFrom pending n arg).backslashesBeforeQuote =
      n.size + n.doubleQuotes + n.backslashesBeforeQuote + pending +
        (writeFrom pending arg).length := by
  induction arg generalizing pending n with
  | nil =>
    simp only [countFrom, writeFrom, List.length_nil]
    omega
  | cons c arg ih =>
    rw [countFrom, writeFrom]
    by_cases hb : c = 92
    · have hq : c ≠ 34 := by rw [hb]; decide
      rw [if_pos hb, if_neg hq, if_pos hb, ih, List.length_cons]
      omega
    by_cases hq : c = 34
    · rw [if_neg hb, if_pos hq, if_pos hq, ih]
      simp only [List.length_append, List.length_replicate, List.length_cons]
      omega
    · rw [if_neg hb, if_neg hq, if_neg hq, if_neg hb, ih]
      simp only [List.length_cons]
      omega

theorem quoteFrom_bytes_cons (pending : Nat) (c : UInt8) (arg : List UInt8) :
    bytes.quoteFrom pending (c :: arg) =
      if c = 34 then bytes.backslashes (pending + 1) ++ c :: bytes.quoteFrom 0 arg
      else if c = 92 then c :: bytes.quoteFrom (pending + 1) arg
      else c :: bytes.quoteFrom 0 arg := rfl

/-- The loop behind the second pass repeats the backslashes at the end. -/
theorem writeFrom_eq (arg : List UInt8) (pending : Nat) (n : Counts)
    (hn : n.backslashesAtTheEnd = 0) :
    writeFrom pending arg ++ List.replicate (countFrom pending n arg).backslashesAtTheEnd 92 =
      bytes.quoteFrom pending arg := by
  induction arg generalizing pending n with
  | nil =>
    simp only [countFrom, writeFrom, List.nil_append, Alphabet.quoteFrom]
    -- The run that is pending at the end is the one the loop behind the pass repeats.
    cases pending with
    | zero => rw [if_neg (Nat.lt_irrefl 0), hn]; rfl
    | succ pending => rw [if_pos (Nat.succ_pos pending)]; rfl
  | cons c arg ih =>
    rw [countFrom, writeFrom, quoteFrom_bytes_cons]
    by_cases hb : c = 92
    · have hq : c ≠ 34 := by rw [hb]; decide
      rw [if_pos hb, if_neg hq, if_pos hb, if_neg hq, if_pos hb, List.cons_append, ih _ _ hn, hb]
    by_cases hq : c = 34
    · rw [if_neg hb, if_pos hq, if_pos hq, if_pos hq, List.append_assoc, List.cons_append,
        List.cons_append, Alphabet.backslashes_add, List.append_assoc, hq]
      exact congrArg (fun text => List.replicate pending 92 ++ 92 :: 34 :: text) (ih 0 _ hn)
    · rw [if_neg hb, if_neg hq, if_neg hq, if_neg hb, if_neg hq, if_neg hb, List.cons_append]
      exact congrArg (List.cons c) (ih 0 _ hn)

/-- **`convert_argv_to_windows_cmd` quotes**, and its size is that of what it writes. -/
theorem convertArgvToWindowsCmd_spec (arg : List UInt8) :
    (convertArgvToWindowsCmd arg).1.getD arg = bytes.quote arg ∧
      (convertArgvToWindowsCmd arg).2 = (bytes.quote arg).length := by
  have hspecial := countFrom_special arg 0 ⟨false, 0, 0, 0, 0⟩
  have hsize := countFrom_size arg 0 ⟨false, 0, 0, 0, 0⟩
  have hwrite := writeFrom_eq arg 0 ⟨false, 0, 0, 0, 0⟩ rfl
  simp only [Bool.false_eq_true, gt_iff_lt, Nat.lt_irrefl, false_or] at hspecial
  simp only [Nat.zero_add] at hsize
  simp only [convertArgvToWindowsCmd, Bool.or_eq_true, decide_eq_true_eq, gt_iff_lt]
  rw [Alphabet.quote]
  by_cases hneeds : bytes.NeedsQuotes arg
  · rw [if_pos (hspecial.mpr hneeds), if_pos hneeds]
    refine ⟨?_, ?_⟩
    · rw [hwrite]
      rfl
    · rw [← hwrite]
      simp only [List.length_cons, List.length_append, List.length_replicate, List.length_nil]
      omega
  · have hnot := mt hspecial.mp hneeds
    rw [if_neg hnot, if_neg hneeds]
    refine ⟨rfl, ?_⟩
    rw [countFrom_length]
    simp only [Nat.zero_add]

/-- Text is written exactly where something is special. -/
theorem convertArgvToWindowsCmd_text (arg : List UInt8) :
    (convertArgvToWindowsCmd arg).1 = if bytes.NeedsQuotes arg then some (bytes.quote arg) else none := by
  have hspecial := countFrom_special arg 0 ⟨false, 0, 0, 0, 0⟩
  have hquote := (convertArgvToWindowsCmd_spec arg).1
  simp only [Bool.false_eq_true, gt_iff_lt, Nat.lt_irrefl, false_or] at hspecial
  simp only [convertArgvToWindowsCmd, Bool.or_eq_true, decide_eq_true_eq, gt_iff_lt] at hquote ⊢
  by_cases hneeds : bytes.NeedsQuotes arg
  · rw [if_pos (hspecial.mpr hneeds)] at hquote ⊢
    rw [if_pos hneeds, ← hquote]
    rfl
  · rw [if_neg (mt hspecial.mp hneeds), if_neg hneeds]

/-- **Quoting an argument.** An argument in which something is special becomes a text of `*size` bytes, which
the runtime reads to its end and takes for the argument, in front of a space or at the end of the line. Any
other argument stays as it is, and `*size` is its length. -/
theorem convertArgvToWindowsCmd_read (arg : CString) :
    if 32 ∈ arg.bytes ∨ 9 ∈ arg.bytes ∨ 34 ∈ arg.bytes then
      ∃ text, convertArgvToWindowsCmd arg.bytes = (some text, text.length) ∧
        bytes.read text = (arg.bytes, []) ∧
        ∀ line, bytes.read (text ++ 32 :: line) = (arg.bytes, 32 :: line)
    else convertArgvToWindowsCmd arg.bytes = (none, arg.bytes.length) := by
  have hneeds := bytes.needsQuotes_iff arg.bytes
  have htext := convertArgvToWindowsCmd_text arg.bytes
  have hsize := (convertArgvToWindowsCmd_spec arg.bytes).2
  split
  · next hspecial =>
    have hquoted : bytes.NeedsQuotes arg.bytes := hneeds.mpr hspecial
    rw [if_pos hquoted] at htext
    refine ⟨bytes.quote arg.bytes, Prod.ext htext hsize, ?_, fun line => ?_⟩
    · have hend : bytes.Ended [] := by
        intro c hc
        cases hc
      have hread := bytes.read_quote hquoted hend
      rwa [List.append_nil] at hread
    · refine bytes.read_quote hquoted ?_
      intro c hc
      cases hc
      exact Or.inl rfl
  · next hplain =>
    have hquoted : ¬ bytes.NeedsQuotes arg.bytes := fun h => hplain (hneeds.mp h)
    rw [if_neg hquoted] at htext
    refine Prod.ext htext ?_
    rw [hsize, Alphabet.quote, if_neg hquoted]

/-! ## Quoting and the conversion -/

/-- A text that begins where a character does: at its end, or with an ASCII byte. -/
def AtBoundary (text : List UInt8) : Prop := ∀ c ∈ text.head?, c < 128

/-- Induction over a text by ASCII bytes and runs of other bytes. -/
theorem runs_induction {P : List UInt8 → Prop} (nil : P [])
    (ascii : ∀ c text, c < 128 → P text → P (c :: text))
    (wide : ∀ xs text, xs ≠ [] → (∀ x ∈ xs, 128 ≤ x) → AtBoundary text → P text → P (xs ++ text))
    (text : List UInt8) : P text := by
  induction hlen : text.length using Nat.strongRecOn generalizing text with
  | ind n ih =>
    cases text with
    | nil => exact nil
    | cons c text =>
      by_cases hc : c < 128
      · exact ascii c text hc (ih text.length (by rw [← hlen]; exact Nat.lt_succ_self _) text rfl)
      · let isWide : UInt8 → Bool := fun x => decide (128 ≤ x)
        have hwide : isWide c = true := by
          simp only [isWide, decide_eq_true_eq]
          exact UInt8.not_lt.mp hc
        have hsplit : (c :: text).takeWhile isWide ++ (c :: text).dropWhile isWide = c :: text :=
          List.takeWhile_append_dropWhile
        have hne : (c :: text).takeWhile isWide ≠ [] := by
          rw [List.takeWhile_cons_of_pos hwide]
          exact List.cons_ne_nil _ _
        rw [← hsplit]
        apply wide _ _ hne
        · intro x hx
          simpa [isWide] using List.mem_takeWhile_imp hx
        · intro d hd
          have hnot := List.head?_dropWhile_not isWide (c :: text)
          rw [Option.mem_def.mp hd] at hnot
          simpa [isWide] using hnot
        · apply ih ((c :: text).dropWhile isWide).length _ _ rfl
          rw [← hlen, List.dropWhile_cons_of_pos hwide]
          exact Nat.lt_succ_of_le (List.dropWhile_suffix isWide).length_le

namespace Utf8ToUtf16

variable (U : Utf8ToUtf16)

theorem decode_cons {c : UInt8} (hc : c < 128) (text : List UInt8) :
    U.decode (c :: text) = (U.decode text).map (List.cons c.toUInt16) := by
  have h := U.decode_ascii [] c text hc
  rw [List.nil_append, U.decode_nil, Option.bind_some] at h
  exact h

/-- Texts meet at a character boundary. -/
theorem decode_append (xs : List UInt8) {text : List UInt8} (h : AtBoundary text) :
    U.decode (xs ++ text) =
      (U.decode xs).bind (fun us => (U.decode text).map (fun vs => us ++ vs)) := by
  cases text with
  | nil =>
    rw [List.append_nil, U.decode_nil]
    cases U.decode xs with
    | none => rfl
    | some us => simp
  | cons c text =>
    have hc := h c rfl
    rw [U.decode_ascii xs c text hc, U.decode_cons hc]
    simp only [Option.map_map]
    rfl

theorem decode_backslashes (n : Nat) (text : List UInt8) :
    U.decode (bytes.backslashes n ++ text) =
      (U.decode text).map (fun vs => units.backslashes n ++ vs) := by
  induction n with
  | zero => exact Option.map_id'.symm
  | succ n ih =>
    rw [Alphabet.backslashes_succ, List.cons_append, U.decode_cons (by decide), ih,
      Option.map_map]
    rfl

theorem decode_eq_nil_iff {text : List UInt8} {us : List UInt16} (h : U.decode text = some us) :
    us = [] ↔ text = [] := by
  constructor
  · rintro rfl
    exact U.decode_nonempty text h
  · rintro rfl
    rw [U.decode_nil] at h
    exact (Option.some.inj h).symm

end Utf8ToUtf16

/-! ### Quoting on either side -/

theorem quoteFrom_units_cons (pending : Nat) (c : UInt16) (arg : List UInt16) :
    units.quoteFrom pending (c :: arg) =
      if c = 34 then units.backslashes (pending + 1) ++ c :: units.quoteFrom 0 arg
      else if c = 92 then c :: units.quoteFrom (pending + 1) arg
      else c :: units.quoteFrom 0 arg := rfl

theorem toUInt16_eq_iff {c d : UInt8} : c.toUInt16 = d.toUInt16 ↔ c = d := by
  constructor
  · intro h
    have h' := congrArg UInt16.toNat h
    simp only [UInt8.toNat_toUInt16] at h'
    exact UInt8.toNat_inj.mp h'
  · rintro rfl
    rfl

/-- What quoting writes begins where a character does, if the argument does. -/
theorem atBoundary_quoteFrom {arg : List UInt8} (h : AtBoundary arg) :
    AtBoundary (bytes.quoteFrom 0 arg) := by
  cases arg with
  | nil =>
    intro c hc
    cases hc
  | cons d arg =>
    have hd := h d rfl
    rw [quoteFrom_bytes_cons]
    intro c hc
    split at hc
    · cases hc
      decide
    · split at hc
      · cases hc
        exact hd
      · cases hc
        exact hd

/-- **The conversion commutes with quoting.** -/
theorem decode_quoteFrom (U : Utf8ToUtf16) (arg : List UInt8) (pending : Nat) :
    U.decode (bytes.quoteFrom pending arg) = (U.decode arg).map (units.quoteFrom pending) := by
  induction arg using runs_induction generalizing pending with
  | nil =>
    have h := U.decode_backslashes pending []
    rw [List.append_nil, U.decode_nil, Option.map_some, List.append_nil] at h
    rw [Alphabet.quoteFrom, h, U.decode_nil]
    rfl
  | ascii c arg hc ih =>
    rw [quoteFrom_bytes_cons, U.decode_cons hc, Option.map_map]
    by_cases hq : c = 34
    · rw [if_pos hq, U.decode_backslashes, U.decode_cons hc, ih, Option.map_map, Option.map_map, hq]
      rfl
    by_cases hb : c = 92
    · rw [if_neg hq, if_pos hb, U.decode_cons hc, ih, Option.map_map, hb]
      rfl
    · rw [if_neg hq, if_neg hb, U.decode_cons hc, ih, Option.map_map]
      apply congrArg (fun f => (U.decode arg).map f)
      funext vs
      have hq' : c.toUInt16 ≠ 34 := fun h => hq (toUInt16_eq_iff.mp h)
      have hb' : c.toUInt16 ≠ 92 := fun h => hb (toUInt16_eq_iff.mp h)
      simp only [Function.comp_apply, quoteFrom_units_cons]
      rw [if_neg hq', if_neg hb']
  | wide xs arg hne hxs hb ih =>
    -- A run of other bytes holds no quote and no backslash on either side of the conversion.
    have hplain : ∀ x ∈ xs, x ≠ bytes.quotation ∧ x ≠ bytes.backslash := by
      intro x hx
      have h := hxs x hx
      constructor
      · rintro rfl
        exact absurd h (by decide)
      · rintro rfl
        exact absurd h (by decide)
    rw [bytes.quoteFrom_plain hne hplain, U.decode_append xs (atBoundary_quoteFrom hb),
      U.decode_append xs hb, ih]
    cases hus : U.decode xs with
    | none => rfl
    | some us =>
      have hus_ne : us ≠ [] := fun h => hne (U.decode_nonempty xs (h ▸ hus))
      have hus_plain : ∀ u ∈ us, u ≠ units.quotation ∧ u ≠ units.backslash := by
        intro u hu
        have h := U.decode_wide xs us hxs hus u hu
        constructor
        · rintro rfl
          exact absurd h (by decide)
        · rintro rfl
          exact absurd h (by decide)
      simp only [Option.bind_some, Option.map_map]
      apply congrArg (fun f => (U.decode arg).map f)
      funext vs
      exact (units.quoteFrom_plain hus_ne hus_plain pending vs).symm

/-- An ASCII byte is in the text exactly when it is in the units. -/
theorem mem_decode_iff (U : Utf8ToUtf16) (text : List UInt8) {us : List UInt16}
    (h : U.decode text = some us) {d : UInt8} (hd : d < 128) : d.toUInt16 ∈ us ↔ d ∈ text := by
  induction text using runs_induction generalizing us with
  | nil =>
    rw [U.decode_nil] at h
    cases h
    simp
  | ascii c text hc ih =>
    rw [U.decode_cons hc] at h
    obtain ⟨vs, hvs, rfl⟩ := Option.map_eq_some_iff.mp h
    rw [List.mem_cons, List.mem_cons, toUInt16_eq_iff, ih hvs]
  | wide xs text hne hxs hb ih =>
    rw [U.decode_append xs hb] at h
    obtain ⟨us₁, hus₁, h⟩ := Option.bind_eq_some_iff.mp h
    obtain ⟨vs, hvs, rfl⟩ := Option.map_eq_some_iff.mp h
    have hxs' : d ∉ xs := fun hin => absurd (hxs d hin) (UInt8.not_le.mpr hd)
    have hus' : d.toUInt16 ∉ us₁ := by
      intro hin
      have hle := U.decode_wide xs us₁ hxs hus₁ _ hin
      rw [UInt16.le_iff_toNat_le, UInt8.toNat_toUInt16] at hle
      rw [UInt8.lt_iff_toNat_lt] at hd
      exact absurd hd (Nat.not_lt.mpr hle)
    rw [List.mem_append, List.mem_append, ih hvs]
    simp only [hxs', hus', false_or]

theorem needsQuotes_decode (U : Utf8ToUtf16) {text : List UInt8} {us : List UInt16}
    (h : U.decode text = some us) : units.NeedsQuotes us ↔ bytes.NeedsQuotes text := by
  have hspace := mem_decode_iff U text h (d := 32) (by decide)
  have htab := mem_decode_iff U text h (d := 9) (by decide)
  have hquote := mem_decode_iff U text h (d := 34) (by decide)
  rw [Alphabet.needsQuotes_iff, Alphabet.needsQuotes_iff]
  exact or_congr hspace (or_congr htab hquote)

theorem decode_quote (U : Utf8ToUtf16) (arg : List UInt8) :
    U.decode (bytes.quote arg) = (U.decode arg).map units.quote := by
  have hquoted : U.decode (bytes.quotation :: (bytes.quoteFrom 0 arg ++ [bytes.quotation])) =
      (U.decode arg).map (fun us =>
        units.quotation :: (units.quoteFrom 0 us ++ [units.quotation])) := by
    have hend : AtBoundary [bytes.quotation] := by
      intro c hc
      cases hc
      decide
    have hlast : U.decode [bytes.quotation] = some [units.quotation] := by
      rw [U.decode_cons (by decide), U.decode_nil]
      rfl
    rw [U.decode_cons (by decide), U.decode_append _ hend, decode_quoteFrom, hlast]
    cases U.decode arg <;> rfl
  rw [Alphabet.quote]
  cases harg : U.decode arg with
  | none =>
    split
    · rw [hquoted, harg]
      rfl
    · exact harg
  | some us =>
    have hiff := needsQuotes_decode U harg
    rw [Option.map_some, Alphabet.quote]
    by_cases hneeds : bytes.NeedsQuotes arg
    · rw [if_pos hneeds, if_pos (hiff.mpr hneeds), hquoted, harg]
      rfl
    · rw [if_neg hneeds, if_neg (mt hiff.mp hneeds), harg]

/-! ## The whole command line -/

/-- Every quoted argument is shorter than 65535 bytes. -/
def Short (argv : List CString) : Prop :=
  ∀ arg ∈ argv, (convertArgvToWindowsCmd arg.bytes).2 < 65535

/-- The arguments in UTF-16. -/
def Converted (U : Utf8ToUtf16) : List CString → List (List UInt16) → Prop :=
  List.Forall₂ (fun arg us => U.decode arg.bytes = some us)

theorem converted_unique (U : Utf8ToUtf16) {argv : List CString} {args args' : List (List UInt16)}
    (h : Converted U argv args) (h' : Converted U argv args') : args = args' :=
  List.right_unique_forall₂' (fun _ _ _ hus hus' => Option.some.inj (hus.symm.trans hus')) h h'

/-- Every argument finds room: what is left of the allocation, in 16 bits, holds it and a
terminator. `used` bytes are written before. -/
def Fits (argvSize : Nat) : Nat → List (List UInt16) → Prop
  | _, [] => True
  | used, us :: args =>
    2 * (units.quote us).length + 2 ≤ (argvSize - used) % 65536 ∧
      Fits argvSize (used + 2 * (units.quote us).length + 2) args

theorem quote_length_le (U : Utf8ToUtf16) {arg : CString} {us : List UInt16}
    (h : (convertArgvToWindowsCmd arg.bytes).2 < 65535) (hus : U.decode arg.bytes = some us) :
    2 * (units.quote us).length + 2 ≤ ((u8Arg arg).2 + 1).toNat * 2 := by
  have hsize := (convertArgvToWindowsCmd_spec arg.bytes).2
  have hunits : (units.quote us).length ≤ (bytes.quote arg.bytes).length := by
    apply U.decode_length
    rw [decode_quote, hus]
    rfl
  have hlen : ((u8Arg arg).2 + 1).toNat = (bytes.quote arg.bytes).length + 1 := by
    rw [← hsize]
    change (UInt16.ofNat (convertArgvToWindowsCmd arg.bytes).2 + 1).toNat = _
    rw [UInt16.toNat_add, UInt16.toNat_ofNat', UInt16.toNat_one]
    omega
  rw [hlen]
  omega

theorem argvSize_cons (arg : CString) (argv : List CString) :
    argvSize (arg :: argv) = ((u8Arg arg).2 + 1).toNat * 2 + argvSize argv := by
  rw [argvSize, argvSize, List.map_cons, List.map_cons, List.sum_cons, Nat.add_mul]

/-- The text of an argument that is converted: its quoted form, as far as the 16-bit `Length` goes. -/
def cut (arg : CString) : List UInt8 := (u8Arg arg).1.take (u8Arg arg).2.toNat

/-- The texts that are converted, in UTF-16. -/
def Cut (U : Utf8ToUtf16) : List CString → List (List UInt16) → Prop :=
  List.Forall₂ (fun arg us => U.decode (cut arg) = some us)

/-- Every text finds room, behind `used` bytes. -/
def Room (argvSize : Nat) : Nat → List (List UInt16) → Prop
  | _, [] => True
  | used, us :: cuts =>
    2 * us.length + 2 ≤ (argvSize - used) % 65536 ∧ Room argvSize (used + 2 * us.length + 2) cuts

theorem fits_iff_room (argvSize used : Nat) (args : List (List UInt16)) :
    Fits argvSize used args ↔ Room argvSize used (args.map units.quote) := by
  induction args generalizing used with
  | nil => exact Iff.rfl
  | cons us args ih => exact and_congr Iff.rfl (ih _)

theorem cut_eq (arg : CString) :
    cut arg = (bytes.quote arg.bytes).take ((bytes.quote arg.bytes).length % 65536) := by
  obtain ⟨htext, hsize⟩ := convertArgvToWindowsCmd_spec arg.bytes
  have hbuffer : (u8Arg arg).1 = bytes.quote arg.bytes := htext
  have hlen : (u8Arg arg).2.toNat = (bytes.quote arg.bytes).length % 65536 := by
    rw [← hsize]
    exact UInt16.toNat_ofNat'
  rw [cut, hbuffer, hlen]

/-- A 16-bit `Length` is enough for these. -/
theorem cut_of_lt {arg : CString} (h : (bytes.quote arg.bytes).length < 65536) :
    cut arg = bytes.quote arg.bytes := by
  rw [cut_eq, Nat.mod_eq_of_lt h, List.take_length]

/-- What is converted is the quoted arguments, if none of them is cut. -/
theorem cut_iff_converted (U : Utf8ToUtf16) {argv : List CString}
    (hlt : ∀ arg ∈ argv, (bytes.quote arg.bytes).length < 65536) {cuts : List (List UInt16)} :
    Cut U argv cuts ↔ ∃ args, Converted U argv args ∧ cuts = args.map units.quote := by
  induction argv generalizing cuts with
  | nil =>
    constructor
    · intro h
      cases h
      exact ⟨[], List.Forall₂.nil, rfl⟩
    · rintro ⟨args, hargs, rfl⟩
      cases hargs
      exact List.Forall₂.nil
  | cons arg argv ih =>
    have hcut := cut_of_lt (hlt arg List.mem_cons_self)
    have ih := @ih (fun a ha => hlt a (List.mem_cons_of_mem arg ha))
    constructor
    · intro h
      cases h with
      | cons hus hrest =>
        rw [hcut, decode_quote] at hus
        obtain ⟨us, hdecode, rfl⟩ := Option.map_eq_some_iff.mp hus
        obtain ⟨args, hargs, rfl⟩ := ih.mp hrest
        exact ⟨us :: args, List.Forall₂.cons hdecode hargs, rfl⟩
    · rintro ⟨args, hargs, rfl⟩
      cases hargs with
      | cons hus hargs =>
        refine List.Forall₂.cons ?_ (ih.mpr ⟨_, hargs, rfl⟩)
        rw [hcut, decode_quote, hus]
        rfl

/-- The second loop appends every text, converted, and a space. -/
theorem convertFrom_cut (U : Utf8ToUtf16) (argvSize : Nat) {argv : List CString} {wargv out : List UInt16} :
    convertFrom U argvSize wargv (argv.map u8Arg) = some out ↔
      ∃ cuts, Cut U argv cuts ∧ Room argvSize (2 * wargv.length) cuts ∧
        out = wargv ++ cuts.flatMap (fun us => us ++ [32]) := by
  induction argv generalizing wargv with
  | nil =>
    constructor
    · intro h
      cases h
      exact ⟨[], List.Forall₂.nil, trivial, (List.append_nil _).symm⟩
    · rintro ⟨cuts, hcuts, -, rfl⟩
      cases hcuts
      rw [List.flatMap_nil, List.append_nil]
      rfl
  | cons arg argv ih =>
    have htext : (u8Arg arg).1.take (u8Arg arg).2.toNat = cut arg := rfl
    rw [List.map_cons, convertFrom, htext, rtlUTF8StringToUnicodeString]
    cases harg : U.decode (cut arg) with
    | none =>
      constructor
      · intro h
        cases h
      · rintro ⟨cuts, hcuts, -, -⟩
        cases hcuts with
        | cons hus _ => exact absurd (harg.symm.trans hus) (by simp)
    | some us =>
      -- What is written so far is counted in bytes, two for each unit.
      have hused : 2 * (wargv ++ us ++ [32]).length = 2 * wargv.length + 2 * us.length + 2 := by
        simp only [List.length_append, List.length_singleton]
        omega
      rw [Option.bind_some, UInt16.toNat_ofNat']
      by_cases hroom : 2 * us.length + 2 ≤ (argvSize - 2 * wargv.length) % 65536
      · rw [if_pos hroom]
        dsimp only
        rw [ih, hused]
        constructor
        · rintro ⟨cuts, hcuts, hfits, rfl⟩
          refine ⟨us :: cuts, List.Forall₂.cons harg hcuts, ⟨hroom, hfits⟩, ?_⟩
          rw [List.flatMap_cons]
          simp only [List.append_assoc]
        · rintro ⟨cuts, hcuts, hfits, rfl⟩
          cases hcuts with
          | cons hus hcuts =>
            cases Option.some.inj (harg.symm.trans hus)
            refine ⟨_, hcuts, hfits.2, ?_⟩
            rw [List.flatMap_cons]
            simp only [List.append_assoc]
      · rw [if_neg hroom]
        constructor
        · intro h
          cases h
        · rintro ⟨cuts, hcuts, hfits, -⟩
          cases hcuts with
          | cons hus _ =>
            cases Option.some.inj (harg.symm.trans hus)
            exact absurd hfits.1 hroom

/-- The second loop appends every argument, converted and quoted, and a space. -/
theorem convertFrom_spec (U : Utf8ToUtf16) (argvSize : Nat) {argv : List CString}
    (hshort : Short argv) {wargv out : List UInt16} :
    convertFrom U argvSize wargv (argv.map u8Arg) = some out ↔
      ∃ args, Converted U argv args ∧ Fits argvSize (2 * wargv.length) args ∧
        out = wargv ++ args.flatMap (fun us => units.quote us ++ [32]) := by
  have hlt : ∀ arg ∈ argv, (bytes.quote arg.bytes).length < 65536 := fun arg harg => by
    have hsize := hshort arg harg
    rw [(convertArgvToWindowsCmd_spec arg.bytes).2] at hsize
    omega
  rw [convertFrom_cut]
  constructor
  · rintro ⟨cuts, hcuts, hroom, rfl⟩
    obtain ⟨args, hargs, rfl⟩ := (cut_iff_converted U hlt).mp hcuts
    exact ⟨args, hargs, (fits_iff_room _ _ _).mpr hroom, by rw [List.flatMap_map]⟩
  · rintro ⟨args, hargs, hfits, rfl⟩
    exact ⟨_, (cut_iff_converted U hlt).mpr ⟨args, hargs, rfl⟩, (fits_iff_room _ _ _).mp hfits,
      by rw [List.flatMap_map]⟩

/-- The last space is the terminator's. -/
theorem dropLast_flatMap_space {us : List UInt16} {cuts : List (List UInt16)} :
    ((us :: cuts).flatMap (fun us => us ++ [32])).dropLast = units.join (us :: cuts) := by
  induction cuts generalizing us with
  | nil => rw [List.flatMap_singleton, List.dropLast_concat, Alphabet.join, List.intercalate_singleton]
  | cons vs cuts ih =>
    rw [List.flatMap_cons, List.dropLast_append_of_ne_nil (by simp), ih, Alphabet.join, Alphabet.join,
      List.intercalate_cons_cons]
    rfl

theorem dropLast_flatMap {us : List UInt16} {args : List (List UInt16)} :
    ((us :: args).flatMap (fun us => units.quote us ++ [32])).dropLast =
      units.join ((us :: args).map units.quote) := by
  rw [List.map_cons, ← dropLast_flatMap_space, ← List.map_cons, List.flatMap_map]

/-- The command line that is built: every argument, converted, quoted and joined. -/
theorem convertArgvToWargv_line (U : Utf8ToUtf16) {first : CString} {rest : List CString}
    (hshort : Short (first :: rest)) {line : List UInt16} :
    convertArgvToWargv U (first :: rest) = .line line ↔
      ∃ us args, U.decode first.bytes = some us ∧ Converted U rest args ∧
        Fits (argvSize (first :: rest)) 0 (us :: args) ∧
        line = units.join ((us :: args).map units.quote) := by
  have hloop := @convertFrom_spec U (argvSize (first :: rest)) (first :: rest) hshort []
  rw [convertArgvToWargv, if_neg (by simp)]
  constructor
  · intro h
    cases hout : convertFrom U (argvSize (first :: rest)) [] ((first :: rest).map u8Arg) with
    | none =>
      rw [hout] at h
      cases h
    | some out =>
      rw [hout] at h
      obtain ⟨args, hargs, hfits, rfl⟩ := hloop.mp hout
      cases h
      cases hargs with
      | cons hus hargs =>
        exact ⟨_, _, hus, hargs, hfits, by rw [List.nil_append, dropLast_flatMap]⟩
  · rintro ⟨us, args, hus, hargs, hfits, rfl⟩
    rw [hloop.mpr ⟨us :: args, List.Forall₂.cons hus hargs, hfits, rfl⟩]
    dsimp only
    rw [List.nil_append, dropLast_flatMap]

/-- Nothing is lost exactly when nothing is empty. -/
theorem filter_eq_self_iff (U : Utf8ToUtf16) {rest : List CString} {args : List (List UInt16)}
    (h : Converted U rest args) :
    args.filter (fun us => us ≠ []) = args ↔ ∀ arg ∈ rest, arg.bytes ≠ [] := by
  rw [List.filter_eq_self]
  induction h with
  | nil => simp
  | cons hus _ ih =>
    have hempty := U.decode_eq_nil_iff hus
    rw [List.forall_mem_cons, List.forall_mem_cons, ih]
    simp only [ne_eq, decide_eq_true_eq, hempty]

theorem drop_join_quote (us : List UInt16) (args : List (List UInt16)) :
    (units.join ((us :: args).map units.quote)).drop ((units.quote us).length + 1) =
      units.join (args.map units.quote) := by
  cases args with
  | nil =>
    rw [List.map_singleton, Alphabet.join, List.intercalate_singleton]
    exact List.drop_eq_nil_of_le (Nat.le_succ _)
  | cons vs args =>
    rw [List.map_cons, List.map_cons, Alphabet.join, List.intercalate_cons_cons]
    exact List.drop_left' (by rw [List.length_append]; rfl)

theorem quote_prefix_join (us : List UInt16) (args : List (List UInt16)) :
    units.quote us <+: units.join ((us :: args).map units.quote) := by
  cases args with
  | nil =>
    refine ⟨[], ?_⟩
    rw [List.map_singleton, Alphabet.join, List.intercalate_singleton, List.append_nil]
  | cons vs args =>
    rw [List.map_cons, List.map_cons, Alphabet.join, List.intercalate_cons_cons, List.append_assoc]
    exact List.prefix_append _ _

/-- A command line is built, it begins with the program's own argument, and splitting what follows
gives the other arguments. -/
def RoundTrips (U : Utf8ToUtf16) (first : CString) (rest : List CString) : Prop :=
  ∃ line program args,
    convertArgvToWargv U (first :: rest) = .line line ∧
    U.decode ((convertArgvToWindowsCmd first.bytes).1.getD first.bytes) = some program ∧
    program <+: line ∧ Converted U rest args ∧
    units.split (line.drop (program.length + 1)) = args

/-- **When the arguments come back**: they are UTF-8, every one finds room and none behind the
program's own is empty. -/
theorem convertArgvToWargv_split_iff (U : Utf8ToUtf16) (first : CString) (rest : List CString)
    (hshort : Short (first :: rest)) :
    RoundTrips U first rest ↔
      (∃ us args, U.decode first.bytes = some us ∧ Converted U rest args ∧
        Fits (argvSize (first :: rest)) 0 (us :: args)) ∧
      ∀ arg ∈ rest, arg.bytes ≠ [] := by
  have hprogram : ∀ {us}, U.decode first.bytes = some us →
      U.decode ((convertArgvToWindowsCmd first.bytes).1.getD first.bytes) =
        some (units.quote us) := by
    intro us hus
    rw [(convertArgvToWindowsCmd_spec first.bytes).1, decode_quote, hus]
    rfl
  constructor
  · rintro ⟨line, program, args', hline, hprog, -, hargs', hsplit⟩
    obtain ⟨us, args, hus, hargs, hfits, rfl⟩ := (convertArgvToWargv_line U hshort).mp hline
    cases Option.some.inj ((hprogram hus).symm.trans hprog)
    refine ⟨⟨us, args, hus, hargs, hfits⟩, ?_⟩
    -- Splitting gives the arguments without the empty ones, whatever the line.
    rw [← filter_eq_self_iff U hargs, ← units.split_join_quote, ← drop_join_quote us, hsplit]
    exact converted_unique U hargs' hargs
  · rintro ⟨⟨us, args, hus, hargs, hfits⟩, hne⟩
    refine ⟨_, _, args, (convertArgvToWargv_line U hshort).mpr ⟨us, args, hus, hargs, hfits, rfl⟩,
      hprogram hus, quote_prefix_join us args, hargs, ?_⟩
    rw [drop_join_quote, units.split_join_quote]
    exact (filter_eq_self_iff U hargs).mpr hne

/-! ### Two command lines -/

/-- The conversion, of ASCII texts only. -/
def ascii : Utf8ToUtf16 where
  decode text := if text.all (fun c => c < 128) then some (text.map UInt8.toUInt16) else none
  decode_nil := rfl
  decode_ascii := by
    intro xs c ys hc
    have hcons : (xs ++ c :: ys).all (fun c => c < 128) =
        (xs.all (fun c => c < 128) && ys.all (fun c => c < 128)) := by
      rw [List.all_append, List.all_cons, decide_eq_true hc, Bool.true_and]
    rw [hcons, List.map_append, List.map_cons]
    cases xs.all (fun c => c < 128) with
    | false => rfl
    | true =>
      cases ys.all (fun c => c < 128) with
      | false => rfl
      | true => rfl
  decode_wide := by
    intro xs us hxs h
    cases xs with
    | nil =>
      cases h
      intro u hu
      cases hu
    | cons x xs =>
      have hx : ¬ x < 128 := UInt8.not_lt.mpr (hxs x List.mem_cons_self)
      rw [List.all_cons, decide_eq_false hx, Bool.false_and] at h
      cases h
  decode_nonempty := by
    intro xs h
    split at h
    · exact List.map_eq_nil_iff.mp (Option.some.inj h)
    · cases h
  decode_length := by
    intro xs us h
    split at h
    · cases h
      rw [List.length_map]
    · cases h

/-- `sh`, `a b\"` and `c\` come back. -/
theorem convertArgvToWargv_split_sh :
    RoundTrips ascii ⟨[115, 104], by decide⟩
      [⟨[97, 32, 98, 92, 34], by decide⟩, ⟨[99, 92], by decide⟩] :=
  (convertArgvToWargv_split_iff ascii _ _ (by simp only [Short]; decide)).mpr
    ⟨⟨[115, 104], [[97, 32, 98, 92, 34], [99, 92]], by decide,
      .cons (by decide) (.cons (by decide) .nil),
      by simp only [Fits]; decide⟩, by decide⟩

/-- The empty argument of `a`, the empty one and `b` is lost. -/
theorem convertArgvToWargv_empty_lost :
    convertArgvToWargv ascii [⟨[97], by decide⟩, ⟨[], by decide⟩, ⟨[98], by decide⟩] =
        .line [97, 32, 32, 98] ∧
      units.split ([97, 32, 32, 98].drop 2) = [[98]] ∧
      ¬ RoundTrips ascii ⟨[97], by decide⟩ [⟨[], by decide⟩, ⟨[98], by decide⟩] := by
  refine ⟨rfl, by decide, ?_⟩
  rintro ⟨line, program, args, hline, hprog, -, hargs, hsplit⟩
  cases hline
  cases hprog
  have hlost : args = [[98]] := by
    rw [← hsplit]
    decide
  subst hlost
  cases hargs with
  | cons _ hmore => cases hmore

end WindowsLibc.Spawn
