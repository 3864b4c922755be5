import WindowsLibc.Printf.Text
import WindowsLibc.Scanf.Directive
import WindowsLibc.Scanf.Scan

/-!
# A printed number is read

What `printf` prints for a directive, and what `do_scan` makes of it when it comes across it.

* `Inner d text` says that `text` is printed for `d`, without the spaces around it.
* The prefixes are the difficult part. An octal number that begins with a zero loses that zero to the
  prefix, and a hexadecimal one must not look like a prefix (`skipOctalPrefix_inner`,
  `skipPrefix_inner`).
* `doScan_inner`: the text is read up to its end, and the bits of the argument are stored.
-/

namespace WindowsLibc.Scanf

open WindowsLibc.Lib WindowsLibc.Printf

/-! ## One number -/

/-- The text between the spaces of what is printed for `d`. -/
def Inner (d : Directive) (text : List UInt8) : Prop :=
  ∃ config : PrintConfig, config.type = d.letter.printType ∧ config.modifier = d.modifier ∧
    config.data = d.value ∧ NumberText config text

/-- A number ends in front of a space, or at the end of the input. -/
def Separated (rest : List UInt8) : Prop := rest.headD 0 = 0 ∨ rest.headD 0 = 32

theorem decodes_oct : Decodes 8 digitChar octDigit := by
  unfold Decodes
  decide

theorem decodes_hex (upper : Bool) : Decodes 16 (hexChar upper) hexNibble := by
  unfold Decodes
  cases upper <;> decide

variable {b : Buffer} {rest : List UInt8} {config : PrintConfig} {inner : List UInt8}

theorem Separated.stops (h : Separated rest) : ¬ isDigit (rest.headD 0) ∧
    octDigit (rest.headD 0) = none ∧ hexNibble (rest.headD 0) = none ∧
    toLower (rest.headD 0) = 32 := by
  rcases h with h | h
  · rw [h]
    decide
  · rw [h]
    decide

theorem intFromDecCommon_inner (hrest : Separated rest) (htype : config.type = .intNumber)
    (htext : NumberText config inner) (h : Reads b (inner ++ rest)) :
    ∃ b', intFromDecCommon false b = ⟨Int64.ofInt config.int, UInt32.ofNat inner.length, b'⟩ ∧
      Reads b' rest := by
  simp only [NumberText, htype] at htext
  obtain ⟨sign, ds, hds, rfl, hsign⟩ := htext
  rw [List.append_assoc] at h
  rw [List.length_append, List.length_map]
  exact intFromDecCommon_numeral hds hsign h hrest.stops.1

theorem uintFromDecCommon_inner (hrest : Separated rest) (htype : config.type = .uintNumber)
    (htext : NumberText config inner) (h : Reads b (inner ++ rest)) :
    ∃ b', uintFromDecCommon false b = ⟨UInt64.ofNat config.uint, UInt32.ofNat inner.length, b'⟩ ∧
      Reads b' rest := by
  simp only [NumberText, htype] at htext
  obtain ⟨ds, hds, rfl⟩ := htext
  rw [List.length_map]
  exact uintFromDecCommon_numeral hds h hrest.stops.1

theorem pointerDecode_inner (hrest : Separated rest) (htype : config.type = .pointer)
    (htext : NumberText config inner) (h : Reads b (inner ++ rest)) :
    ∃ b', pointerDecode b = ⟨config.data, UInt32.ofNat inner.length, b'⟩ ∧ Reads b' rest := by
  simp only [NumberText, htype] at htext
  obtain ⟨ds, hds, rfl⟩ := htext
  obtain ⟨b', hread, hreads⟩ := pointerDecode_numeral (decodes_hex false) hds h hrest.stops.2.2.1
  refine ⟨b', ?_, hreads⟩
  rw [hread, UInt64.ofNat_toNat, List.length_cons, List.length_cons, List.length_map,
    show ds.length + 1 + 1 = 2 + ds.length by omega]

theorem alternateForm_cases (config : PrintConfig) :
    alternateForm config = [48, alternateFormChar config] ∨ alternateForm config = [] := by
  rw [alternateForm]
  split
  · exact .inl rfl
  · exact .inr rfl

/-- What follows an octal prefix: the numeral, or what is left of it behind a zero. -/
theorem skipOctalPrefix_inner (hrest : Separated rest) (htype : config.type = .uintOctal)
    (htext : NumberText config inner) (h : Reads b (inner ++ rest)) :
    ∃ ds : List Nat, (∀ d ∈ ds, d < 8) ∧ numeral 8 0 ds = config.uint ∧
      (skipOctalPrefix b).1 + UInt32.ofNat ds.length = UInt32.ofNat inner.length ∧
      Reads (skipOctalPrefix b).2 (ds.map digitChar ++ rest) := by
  simp only [NumberText, htype] at htext
  obtain ⟨ds, hds, rfl⟩ := htext
  rcases alternateForm_cases config with hform | hform <;> rw [hform] at h ⊢
  · -- `0o`
    have hletter : toLower (alternateFormChar config) = 111 := by
      simp only [alternateFormChar, htype]
      split <;> rfl
    have hzero : b.peekbyte 0 = 48 := h.peek
    have hnext : b.next.peekbyte 0 = alternateFormChar config := h.next.peek
    have hskip : skipOctalPrefix b = (2, b.next.next) := by
      rw [skipOctalPrefix, if_pos hzero, hnext, if_pos hletter]
    rw [hskip]
    refine ⟨ds, hds.digit, hds.value, ?_, h.next.next⟩
    rw [List.length_append, List.length_map, UInt32.ofNat_add]
    rfl
  · cases ds with
    | nil => exact absurd rfl hds.ne_nil
    | cons d ds =>
      have hpeek : b.peekbyte 0 = digitChar d := h.peek
      by_cases hzero : d = 0
      · -- the first zero is taken for a prefix
        subst hzero
        have hletter : toLower (b.next.peekbyte 0) ≠ 111 := by
          rw [h.next.peek]
          cases ds with
          | nil => exact fun heq => absurd (hrest.stops.2.2.2.symm.trans heq) (by decide)
          | cons e ds =>
            have hlower : ∀ e < 8, toLower (digitChar e) ≠ 111 := by decide
            exact hlower e (hds.digit e (by simp))
        have hskip : skipOctalPrefix b = (1, b.next) := by
          rw [skipOctalPrefix, if_pos (show b.peekbyte 0 = 48 from hpeek), if_neg hletter]
        rw [hskip]
        refine ⟨ds, fun e he => hds.digit e (List.mem_cons_of_mem _ he), ?_, ?_, h.next⟩
        · exact (@numeral_zeros 8 1 ds).symm.trans hds.value
        · rw [List.nil_append, List.length_map, List.length_cons, Nat.add_comm, UInt32.ofNat_add]
          rfl
      · have hne : b.peekbyte 0 ≠ 48 := by
          have hdigit : ∀ d < 8, d ≠ 0 → digitChar d ≠ 48 := by decide
          rw [hpeek]
          exact hdigit d (hds.digit d List.mem_cons_self) hzero
        have hskip : skipOctalPrefix b = (0, b) := by rw [skipOctalPrefix, if_neg hne]
        rw [hskip]
        refine ⟨d :: ds, hds.digit, hds.value, ?_, h⟩
        rw [List.nil_append, List.length_map, UInt32.zero_add]

/-- What follows a hexadecimal prefix, if there is one. -/
theorem skipPrefix_inner (hrest : Separated rest) (htype : config.type = .uintHex)
    (htext : NumberText config inner) (h : Reads b (inner ++ rest)) :
    ∃ ds : List Nat, Numeral 16 config.uint ds ∧
      (skipPrefix 120 b).1 + UInt32.ofNat ds.length = UInt32.ofNat inner.length ∧
      Reads (skipPrefix 120 b).2 (ds.map (hexChar config.flags.upperCase) ++ rest) := by
  simp only [NumberText, htype] at htext
  obtain ⟨ds, hds, rfl⟩ := htext
  refine ⟨ds, hds, ?_⟩
  rcases alternateForm_cases config with hform | hform <;> rw [hform] at h ⊢
  · have hletter : toLower (alternateFormChar config) = 120 := by
      simp only [alternateFormChar, htype]
      split <;> rfl
    have hskip : skipPrefix 120 b = (2, b.advance 2) := by
      rw [skipPrefix, h.peekbyte 0, h.peekbyte 1]
      exact if_pos ⟨rfl, hletter⟩
    rw [List.append_assoc] at h
    rw [hskip]
    refine ⟨?_, h.advance⟩
    rw [List.length_append, List.length_map, UInt32.ofNat_add]
    rfl
  · have hletter : toLower (b.peekbyte 1) ≠ 120 := by
      rw [h.peekbyte 1]
      cases ds with
      | nil => exact absurd rfl hds.ne_nil
      | cons d ds =>
        cases ds with
        | nil =>
          have hone : ([] ++ [d].map (hexChar config.flags.upperCase) ++ rest).getD 1 0 =
              rest.headD 0 := by
            cases rest <;> rfl
          rw [hone]
          exact fun heq => absurd (hrest.stops.2.2.2.symm.trans heq) (by decide)
        | cons e ds =>
          have hlower : ∀ upper, ∀ e < 16, toLower (hexChar upper e) ≠ 120 := by decide
          exact hlower _ e (hds.digit e (by simp))
    have hskip : skipPrefix 120 b = (0, b) := by
      rw [skipPrefix, if_neg (fun hboth => hletter hboth.2)]
    rw [hskip]
    refine ⟨?_, h⟩
    rw [List.nil_append, List.length_map, UInt32.zero_add]

/-! ### What is stored -/

/-- The size of the type that the value goes into. -/
def Directive.bytes (d : Directive) : Nat := if d.letter = .p then 8 else d.modifier.resultBytes

theorem two_pow_bits (modifier : Modifier) : 2 ^ modifier.bits = 256 ^ modifier.resultBytes := by
  cases modifier <;> rfl

/-- A signed number that wraps around to the bits of the argument. -/
theorem toNat_int_mod (config : PrintConfig) :
    (Int64.ofInt config.int).toUInt64.toNat % 2 ^ config.modifier.bits =
      config.data.toNat % 2 ^ config.modifier.bits := by
  have hdvd : 2 ^ config.modifier.bits ∣ 2 ^ 64 := Nat.pow_dvd_pow 2 (modifier_bits_le _)
  have hword : ((Int64.ofInt config.int).toUInt64.toNat : Int) = config.int % (2 ^ 64 : Nat) := by
    show ((BitVec.ofInt 64 config.int).toNat : Int) = _
    rw [BitVec.toNat_ofInt, Int.toNat_of_nonneg (Int.emod_nonneg _ (by decide))]
  have hint : config.int % (2 ^ config.modifier.bits : Nat) =
      config.data.toNat % (2 ^ config.modifier.bits : Nat) := by
    rw [PrintConfig.int, BitVec.toInt_ofNat', Int.bmod_emod]
  have hmod : (((Int64.ofInt config.int).toUInt64.toNat % 2 ^ config.modifier.bits : Nat) : Int) =
      (config.data.toNat % 2 ^ config.modifier.bits : Nat) := by
    rw [Int.natCast_emod, hword, Int.emod_emod_of_dvd _ (Int.natCast_dvd_natCast.mpr hdvd), hint,
      Int.natCast_emod]
  exact Int.ofNat.inj hmod

theorem toNat_uint_mod (config : PrintConfig) :
    (UInt64.ofNat config.uint).toNat % 2 ^ config.modifier.bits =
      config.data.toNat % 2 ^ config.modifier.bits := by
  rw [UInt64.toNat_ofNat_of_lt' (uint_lt config), PrintConfig.uint, Nat.mod_mod]

/-- What is stored in so many bytes depends on so many bits. -/
theorem put_congr {bytes v w : Nat} (h : v % 256 ^ bytes = w % 256 ^ bytes) (st : Store)
    (data : Option UInt64) : st.put data bytes v = st.put data bytes w := by
  have hbyte : ∀ i < bytes, UInt8.ofNat (v / 256 ^ i) = UInt8.ofNat (w / 256 ^ i) := by
    intro i hi
    have hmod : ∀ u, u / 256 ^ i % 256 = u % 256 ^ bytes / 256 ^ i % 256 := by
      intro u
      rw [← Nat.mod_mul_right_div_self, ← Nat.mod_mul_right_div_self, ← pow_succ,
        Nat.mod_mod_of_dvd _ (Nat.pow_dvd_pow 256 hi)]
    apply UInt8.toNat_inj.mp
    rw [UInt8.toNat_ofNat', UInt8.toNat_ofNat']
    exact (hmod v).trans (h ▸ (hmod w).symm)
  cases data with
  | none => rfl
  | some address =>
    show Store.mk _ _ = Store.mk _ _
    congr 1
    funext a
    rw [storeResult, storeResult]
    split
    · next hlt => exact hbyte _ hlt
    · rfl

variable {d : Directive} {sc : ScanConfig}

/-- **A number that was printed is read**, and the argument is stored. -/
theorem doScan_inner (hinner : Inner d inner) (htype : sc.type = d.letter.scanType)
    (hmodifier : sc.modifier = d.modifier) (hgroup : sc.flags.groupDigits = false)
    (hrest : Separated rest) (h : Reads b (inner ++ rest)) (env : ScanEnv) (st : Store) :
    ∃ b', doScan env sc b st =
        some (UInt32.ofNat inner.length, b', st.put sc.data d.bytes d.value.toNat) ∧
      Reads b' rest := by
  obtain ⟨config, hconfig, hmod, hdata, htext⟩ := hinner
  have hbits : 2 ^ config.modifier.bits = 256 ^ sc.modifier.resultBytes := by
    rw [hmod, hmodifier, two_pow_bits]
  have hint := toNat_int_mod config
  have huint := toNat_uint_mod config
  rw [hbits, hdata] at hint huint
  rw [Directive.bytes, ← hmodifier]
  cases hletter : d.letter with
  | d | i =>
    rw [hletter] at hconfig htype
    obtain ⟨b', hread, hreads⟩ := intFromDecCommon_inner hrest hconfig htext h
    refine ⟨b', ?_, hreads⟩
    simp only [doScan, htype, Letter.scanType, hgroup, hread, storeInteger, UInt32.zero_add]
    rw [put_congr hint]
    rfl
  | u =>
    rw [hletter] at hconfig htype
    obtain ⟨b', hread, hreads⟩ := uintFromDecCommon_inner hrest hconfig htext h
    refine ⟨b', ?_, hreads⟩
    simp only [doScan, htype, Letter.scanType, hgroup, hread, storeInteger, UInt32.zero_add]
    rw [put_congr huint]
    rfl
  | o =>
    rw [hletter] at hconfig htype
    obtain ⟨ds, hdigit, hvalue, hcount, hreads⟩ := skipOctalPrefix_inner hrest hconfig htext h
    obtain ⟨b', hread, hreads'⟩ := @uintFrom_numeral _ rest 3 8 _ digitChar octDigit ds (by decide)
      (by decide) (by decide) decodes_oct hdigit hvalue hreads hrest.stops.2.1
    refine ⟨b', ?_, hreads'⟩
    simp only [doScan, htype, Letter.scanType, uintFromOctCommon, hread, storeInteger, hcount]
    rw [put_congr huint]
    rfl
  | x | X =>
    rw [hletter] at hconfig htype
    obtain ⟨ds, hds, hcount, hreads⟩ := skipPrefix_inner hrest hconfig htext h
    obtain ⟨b', hread, hreads'⟩ := @uintFrom_numeral _ rest 4 16 _ _ hexNibble ds (by decide)
      (by decide) (by decide) (decodes_hex _) hds.digit hds.value hreads hrest.stops.2.2.1
    refine ⟨b', ?_, hreads'⟩
    simp only [doScan, htype, Letter.scanType, uintFromHexCommon, hread, storeInteger, hcount]
    rw [put_congr huint]
    rfl
  | p =>
    rw [hletter] at hconfig htype
    obtain ⟨b', hread, hreads⟩ := pointerDecode_inner hrest hconfig htext h
    refine ⟨b', ?_, hreads⟩
    simp only [doScan, htype, Letter.scanType, hread, hdata]
    rfl

/-! ## Spaces -/

/-- The bytes of a number are neither spaces nor the end of the input. -/
def isGraphic (c : UInt8) : Bool := c ≠ 0 ∧ ¬ isSpace c

theorem graphic_numeral {base x : Nat} {digit : Nat → UInt8} {front : List UInt8} {ds : List Nat}
    (hdigit : ∀ d < base, isGraphic (digit d)) (hfront : ∀ c ∈ front, isGraphic c)
    (hds : Numeral base x ds) :
    front ++ ds.map digit ≠ [] ∧ ∀ c ∈ front ++ ds.map digit, isGraphic c := by
  refine ⟨List.append_ne_nil_of_right_ne_nil _ (mt List.map_eq_nil_iff.mp hds.ne_nil), ?_⟩
  intro c hc
  rcases List.mem_append.mp hc with hc | hc
  · exact hfront c hc
  · obtain ⟨d, hd, rfl⟩ := List.mem_map.mp hc
    exact hdigit d (hds.digit d hd)

theorem graphic_hexChar (upper : Bool) : ∀ d < 16, isGraphic (hexChar upper d) := by
  cases upper <;> decide

theorem graphic_alternateForm (config : PrintConfig)
    (h : config.type = .uintOctal ∨ config.type = .uintHex) :
    ∀ c ∈ alternateForm config, isGraphic c := by
  have hletter : isGraphic (alternateFormChar config) := by
    rcases h with h | h
    · simp only [alternateFormChar, h]
      split <;> rfl
    · simp only [alternateFormChar, h]
      split <;> rfl
  intro c hc
  rcases alternateForm_cases config with hform | hform
  · rw [hform] at hc
    rcases List.mem_pair.mp hc with rfl | rfl
    · rfl
    · exact hletter
  · rw [hform] at hc
    cases hc

theorem graphic_inner (h : Inner d inner) : inner ≠ [] ∧ ∀ c ∈ inner, isGraphic c := by
  obtain ⟨config, hconfig, -, -, htext⟩ := h
  cases hletter : d.letter with
  | d | i =>
    rw [hletter] at hconfig
    simp only [NumberText, hconfig, Letter.printType] at htext
    obtain ⟨sign, ds, hds, rfl, hsign⟩ := htext
    apply graphic_numeral (by decide) _ hds
    rw [← List.forall_iff_forall_mem]
    rcases hsign with ⟨-, rfl⟩ | ⟨-, rfl | rfl⟩ <;> decide
  | u =>
    rw [hletter] at hconfig
    simp only [NumberText, hconfig, Letter.printType] at htext
    obtain ⟨ds, hds, rfl⟩ := htext
    apply @graphic_numeral 10 _ digitChar [] ds (by decide) _ hds
    exact fun c hc => absurd hc List.not_mem_nil
  | o =>
    rw [hletter] at hconfig
    simp only [NumberText, hconfig, Letter.printType] at htext
    obtain ⟨ds, hds, rfl⟩ := htext
    exact graphic_numeral (by decide) (graphic_alternateForm config (.inl hconfig)) hds
  | x | X =>
    rw [hletter] at hconfig
    simp only [NumberText, hconfig, Letter.printType] at htext
    obtain ⟨ds, hds, rfl⟩ := htext
    exact graphic_numeral (graphic_hexChar _) (graphic_alternateForm config (.inr hconfig)) hds
  | p =>
    rw [hletter] at hconfig
    simp only [NumberText, hconfig, Letter.printType] at htext
    obtain ⟨ds, hds, rfl⟩ := htext
    apply @graphic_numeral 16 _ (hexChar false) [48, 120] ds (graphic_hexChar false) _ hds
    rw [← List.forall_iff_forall_mem]
    decide

end WindowsLibc.Scanf
