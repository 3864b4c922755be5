import WindowsLibc.Lib.Texts
import WindowsLibc.Path.Readlink
import WindowsLibc.Spawn.RoundTrip

/-!
# The environment of a child process (`spawn/spawn.c`, `internal/wmain.c`)

`convert_env_to_wenv` converts the variables to UTF-16, into a block that ends with two zeros. The runtime of the
child finds them in there, and `wmain` converts them back for `main`.

* `system` is the conversion of the system, for which everything that is assumed of it holds.
* `convertEnvToWenv_eq_some`: when there is a block, and that it is the variables.
* `received_eq_some` says what `main` gets, and `received_iff` when that is all variables but the last.
-/

namespace WindowsLibc.Spawn

open WindowsLibc.Lib WindowsLibc.Path WindowsLibc.Path.Absolute

/-! ## The conversion of the system -/

/-- A byte of ASCII is a character, and ends another. -/
theorem utf8_split {xs ys : List UInt8} {c : UInt8} {s : List Char} (hc : c.toNat < 128)
    (h : utf8 s = xs ++ c :: ys) :
    ∃ before after, xs = utf8 before ∧ ys = utf8 after ∧ s = before ++ byteChar c :: after := by
  induction s generalizing xs with
  | nil => exact absurd h.symm (List.append_ne_nil_of_right_ne_nil _ (List.cons_ne_nil _ _))
  | cons d s ih =>
    rw [utf8_cons] at h
    rcases List.append_eq_append_iff.mp h with ⟨more, hxs, hrest⟩ | ⟨more, hd, hrest⟩
    · -- The character is over before the byte.
      obtain ⟨before, after, hmore, hys, rfl⟩ := ih hrest
      refine ⟨d :: before, after, ?_, hys, rfl⟩
      rw [hxs, hmore, utf8_cons]
    · cases more with
      | nil =>
        obtain ⟨before, after, hmore, hys, rfl⟩ := @ih [] hrest.symm
        refine ⟨d :: before, after, ?_, hys, rfl⟩
        rw [utf8_cons, ← hmore, List.append_nil, hd, List.append_nil]
      | cons e more =>
        -- The byte is in the character, and so all of it.
        obtain ⟨rfl, hys⟩ := List.cons.inj hrest
        rcases utf8EncodeChar_cases d with ⟨hsmall, hencode⟩ | ⟨-, hlarge⟩
        · rw [hencode] at hd
          obtain ⟨rfl, hone⟩ := List.append_eq_singleton_iff.mp hd.symm |>.resolve_right (by simp)
          obtain ⟨rfl, rfl⟩ := List.cons.inj hone
          have hchar : byteChar (UInt8.ofNat d.toNat) = d := by
            rw [← Char.toNat_inj, toNat_byteChar, UInt8.toNat_ofNat']
            omega
          exact ⟨[], s, rfl, hys, by rw [hchar, List.nil_append]⟩
        · have hbyte := hlarge c (hd ▸ List.mem_append_right _ List.mem_cons_self)
          omega

theorem utf8_append (s t : List Char) : utf8 (s ++ t) = utf8 s ++ utf8 t := List.flatMap_append

theorem utf16_append (s t : List Char) : utf16 (s ++ t) = utf16 s ++ utf16 t := List.flatMap_append

theorem utf8_byteChar {c : UInt8} (hc : c.toNat < 128) (s : List Char) :
    utf8 (byteChar c :: s) = c :: utf8 s := by
  rw [utf8_cons, utf8EncodeChar_byteChar hc, List.singleton_append]

theorem utf16_byteChar (c : UInt8) (s : List Char) :
    utf16 (byteChar c :: s) = c.toUInt16 :: utf16 s := by
  rw [utf16_cons, utf16Units_ascii (toNat_byteChar c), List.singleton_append]

theorem rtlUtf8ToUnicode_ascii (xs : List UInt8) (c : UInt8) (ys : List UInt8) (hc : c < 128) :
    rtlUtf8ToUnicode (xs ++ c :: ys) =
      (rtlUtf8ToUnicode xs).bind (fun us => (rtlUtf8ToUnicode ys).map (fun vs => us ++ c.toUInt16 :: vs)) := by
  have hlt : c.toNat < 128 := hc
  have hjoin (s t : List Char) :
      rtlUtf8ToUnicode (utf8 s ++ c :: utf8 t) = some (utf16 s ++ c.toUInt16 :: utf16 t) := by
    rw [← utf8_byteChar hlt, ← utf8_append, rtlUtf8ToUnicode_utf8, utf16_append, utf16_byteChar]
  cases hwhole : rtlUtf8ToUnicode (xs ++ c :: ys) with
  | some units =>
    obtain ⟨s, hbytes, -⟩ := rtlUtf8ToUnicode_eq_some hwhole
    obtain ⟨before, after, rfl, rfl, -⟩ := utf8_split hlt hbytes.symm
    rw [← hwhole, hjoin, rtlUtf8ToUnicode_utf8, rtlUtf8ToUnicode_utf8]
    rfl
  | none =>
    cases hxs : rtlUtf8ToUnicode xs with
    | none => rfl
    | some us =>
      cases hys : rtlUtf8ToUnicode ys with
      | none => rfl
      | some vs =>
        obtain ⟨s, rfl, -⟩ := rtlUtf8ToUnicode_eq_some hxs
        obtain ⟨t, rfl, -⟩ := rtlUtf8ToUnicode_eq_some hys
        rw [hjoin] at hwhole
        cases hwhole

/-- Characters outside ASCII have no unit of ASCII. -/
theorem le_of_mem_utf16 {s : List Char} (h : ∀ b ∈ utf8 s, 128 ≤ b) {u : UInt16} (hu : u ∈ utf16 s) : 128 ≤ u := by
  obtain ⟨c, hc, hu⟩ := List.mem_flatMap.mp hu
  have hlarge : 128 ≤ c.toNat := by
    rcases utf8EncodeChar_cases c with ⟨hsmall, hencode⟩ | ⟨hlarge, -⟩
    · have hbyte : 128 ≤ (UInt8.ofNat c.toNat).toNat :=
        h _ (List.mem_flatMap.mpr ⟨c, hc, hencode ▸ List.mem_singleton_self _⟩)
      rw [UInt8.toNat_ofNat'] at hbyte
      omega
    · exact hlarge
  have hnat : 128 ≤ u.toNat := by
    rcases utf16Units_cases c with ⟨v, hv, hnat, -⟩ | ⟨high, low, hv, -, hhigh, -, hlow⟩
    · rw [hv, List.mem_singleton] at hu
      rw [hu, hnat]
      exact hlarge
    · rw [hv] at hu
      rcases List.mem_cons.mp hu with rfl | hu
      · omega
      · rw [List.mem_singleton.mp hu]
        omega
  exact hnat

theorem rtlUtf8ToUnicode_wide (xs : List UInt8) (us : List UInt16) (hxs : ∀ x ∈ xs, 128 ≤ x)
    (h : rtlUtf8ToUnicode xs = some us) (u : UInt16) (hu : u ∈ us) : 128 ≤ u := by
  obtain ⟨s, rfl, rfl⟩ := rtlUtf8ToUnicode_eq_some h
  exact le_of_mem_utf16 hxs hu

theorem rtlUtf8ToUnicode_nonempty (xs : List UInt8) (h : rtlUtf8ToUnicode xs = some []) : xs = [] := by
  obtain ⟨s, rfl, hs⟩ := rtlUtf8ToUnicode_eq_some h
  rw [utf16_injective (s := s) (t := []) hs.symm]
  rfl

theorem rtlUtf8ToUnicode_length (xs : List UInt8) (us : List UInt16) (h : rtlUtf8ToUnicode xs = some us) :
    us.length ≤ xs.length := by
  obtain ⟨s, rfl, rfl⟩ := rtlUtf8ToUnicode_eq_some h
  exact (length_utf16 s).1

/-- What `RtlUTF8StringToUnicodeString` converts. -/
def system : Utf8ToUtf16 where
  decode := rtlUtf8ToUnicode
  decode_nil := rtlUtf8ToUnicode_utf8 []
  decode_ascii := rtlUtf8ToUnicode_ascii
  decode_wide := rtlUtf8ToUnicode_wide
  decode_nonempty := rtlUtf8ToUnicode_nonempty
  decode_length := rtlUtf8ToUnicode_length

/-! ## The parent -/

/-- `RtlInitUTF8String`: 16 bits hold the length, and one more. -/
def u8Env (v : CString) : List UInt8 := v.bytes.take 0xFFFE

/-- `env_size`: the sum of the `MaximumLength`s and one, in units of two bytes. -/
def envSize (env : List CString) : Nat := ((env.map (fun v => (u8Env v).length + 1)).sum + 1) * 2

/-- The second loop of `convert_env_to_wenv`. `wenv` is written up to `env_used` bytes; what is left of it is
counted in 16 bits. -/
def convertEnvFrom (U : Utf8ToUtf16) (envSize : Nat) (wenv : List UInt16) : List (List UInt8) → Option (List UInt16)
  | [] => some wenv
  | text :: env =>
    match rtlUTF8StringToUnicodeString U text (UInt16.ofNat (envSize - 2 * wenv.length)) with
    | none => none
    | some units => convertEnvFrom U envSize (wenv ++ units ++ [0]) env

/-- `convert_env_to_wenv`: the block, none after an error. -/
def convertEnvToWenv (U : Utf8ToUtf16) (env : List CString) : Option (List UInt16) :=
  (convertEnvFrom U (envSize env) [] (env.map u8Env)).map (· ++ [0])

/-! ## The child -/

/-- The table that the C runtime of the system sets up as `_wenviron` before `wmain`, from the block that
`GetEnvironmentStringsW` gives: a string for each variable, in order, up to the empty one. Variables that begin
with an equals sign, as the current directories of the drives do, stay out of it. -/
def wenviron (block : List UInt16) : List (List UInt16) :=
  (readTexts 0 [] block).filter (fun text => text.head? != some 61)

/-- With what status the process ends before `main`. -/
inductive ExitStatus where
  | noMemory
  | someNotMapped
  | invalidParameter2
  deriving DecidableEq, Repr

/-- `RtlInitUnicodeString`: 16 bits hold the bytes, and those of one more unit. -/
def rtlInitUnicodeString (text : List UInt16) : List UInt16 := text.take 0x7FFE

/-- `RtlUnicodeStringToUTF8String`, which allocates the text. -/
def rtlUnicodeStringToUTF8String (text : List UInt16) : Except ExitStatus (List UInt8) :=
  match fromUtf16 text with
  | none => .error .someNotMapped
  | some s => if (utf8 s).length + 1 ≤ 0xFFFF then .ok (utf8 s) else .error .invalidParameter2

/-- The loop of `wmain` over the environment. -/
def convertVariables : List (List UInt16) → Except ExitStatus (List (List UInt8))
  | [] => .ok []
  | text :: wenv => do
    let u8 ← rtlUnicodeStringToUTF8String (rtlInitUnicodeString text)
    let env ← convertVariables wenv
    return u8 :: env

/-- What `wmain` makes of the environment for `main`. `envc` is one less than the number of variables; no heap has
room for the -1 elements of `u8_env`. -/
def wmainEnv (wenv : List (List UInt16)) : Except ExitStatus (List (List UInt8)) :=
  let envc : Int := wenv.length - 1
  if envc < 0 then .error .noMemory else convertVariables (wenv.take envc.toNat)

/-- The environment of the `main` of a child that is spawned with `env`; none if it is not. -/
def received (U : Utf8ToUtf16) (env : List CString) : Option (Except ExitStatus (List (List UInt8))) :=
  (convertEnvToWenv U env).map (fun block => wmainEnv (wenviron block))

/-! ## What is in the block -/

theorem utf8_injective {s t : List Char} (h : utf8 s = utf8 t) : s = t := by
  have hunits := congrArg rtlUtf8ToUnicode h
  rw [rtlUtf8ToUnicode_utf8, rtlUtf8ToUnicode_utf8] at hunits
  exact utf16_injective (Option.some.inj hunits)

/-- A variable is converted if what is left of the block, in 16 bits, has room for it. -/
theorem convertEnvFrom_cons (envSize : Nat) (wenv : List UInt16) (s : List Char) (env : List (List UInt8)) :
    convertEnvFrom system envSize wenv (utf8 s :: env) =
      if 2 * (utf16 s).length + 2 ≤ (envSize - 2 * wenv.length) % 65536 then
        convertEnvFrom system envSize (wenv ++ utf16 s ++ [0]) env
      else none := by
  have hdecode : system.decode (utf8 s) = some (utf16 s) := rtlUtf8ToUnicode_utf8 s
  rw [convertEnvFrom, rtlUTF8StringToUnicodeString, hdecode, Option.bind_some, UInt16.toNat_ofNat']
  by_cases hroom : 2 * (utf16 s).length + 2 ≤ (envSize - 2 * wenv.length) % 65536
  · rw [if_pos hroom, if_pos hroom]
  · rw [if_neg hroom, if_neg hroom]

/-- The second loop appends every variable, converted, and a zero. -/
theorem convertEnvFrom_eq_some (envSize : Nat) {env : List (List UInt8)} {wenv out : List UInt16} :
    convertEnvFrom system envSize wenv env = some out ↔
      ∃ texts : List (List Char), env = texts.map utf8 ∧ Room envSize (2 * wenv.length) (texts.map utf16) ∧
        out = wenv ++ (texts.map utf16).flatMap (· ++ [0]) := by
  induction env generalizing wenv with
  | nil =>
    constructor
    · rintro ⟨⟩
      exact ⟨[], rfl, trivial, (List.append_nil _).symm⟩
    · rintro ⟨texts, htexts, -, rfl⟩
      rw [List.map_eq_nil_iff.mp htexts.symm, List.map_nil, List.flatMap_nil, List.append_nil]
      rfl
  | cons bytes env ih =>
    -- What is written is counted in bytes, two for each unit.
    have hused (s : List Char) :
        2 * (wenv ++ utf16 s ++ [0]).length = 2 * wenv.length + 2 * (utf16 s).length + 2 := by
      rw [List.length_append, List.length_append, List.length_singleton]
      omega
    constructor
    · intro h
      cases hbytes : rtlUtf8ToUnicode bytes with
      | none =>
        have hdecode : system.decode bytes = none := hbytes
        rw [convertEnvFrom, rtlUTF8StringToUnicodeString, hdecode] at h
        cases h
      | some units =>
        obtain ⟨s, rfl, rfl⟩ := rtlUtf8ToUnicode_eq_some hbytes
        rw [convertEnvFrom_cons] at h
        by_cases hroom : 2 * (utf16 s).length + 2 ≤ (envSize - 2 * wenv.length) % 65536
        · rw [if_pos hroom] at h
          obtain ⟨texts, rfl, hrest, rfl⟩ := ih.mp h
          rw [hused] at hrest
          refine ⟨s :: texts, rfl, ⟨hroom, hrest⟩, ?_⟩
          rw [List.map_cons, List.flatMap_cons, List.append_assoc, List.append_assoc, List.append_assoc]
        · rw [if_neg hroom] at h
          cases h
    · rintro ⟨texts, htexts, hroom, rfl⟩
      cases texts with
      | nil => cases htexts
      | cons s texts =>
        obtain ⟨rfl, rfl⟩ := List.cons.inj htexts
        rw [convertEnvFrom_cons, if_pos hroom.1]
        refine ih.mpr ⟨texts, rfl, ?_, ?_⟩
        · rw [hused]
          exact hroom.2
        · rw [List.map_cons, List.flatMap_cons, List.append_assoc, List.append_assoc, List.append_assoc]

/-- **The block.** The variables, up to 65534 bytes of each, if they are UTF-8 and every one finds room. -/
theorem convertEnvToWenv_eq_some {env : List CString} {block : List UInt16} :
    convertEnvToWenv system env = some block ↔
      ∃ texts : List (List Char), env.map u8Env = texts.map utf8 ∧
        Room (envSize env) 0 (texts.map utf16) ∧ block = packTexts 0 (texts.map utf16) := by
  rw [convertEnvToWenv, Option.map_eq_some_iff]
  constructor
  · rintro ⟨out, hout, rfl⟩
    obtain ⟨texts, htexts, hroom, rfl⟩ := (convertEnvFrom_eq_some _).mp hout
    exact ⟨texts, htexts, hroom, rfl⟩
  · rintro ⟨texts, htexts, hroom, rfl⟩
    exact ⟨_, (convertEnvFrom_eq_some _).mpr ⟨texts, htexts, hroom, rfl⟩, rfl⟩

/-! ## What arrives -/

/-- The variables that the runtime puts into its table. -/
def visible (texts : List (List Char)) : List (List Char) :=
  (texts.takeWhile (fun s => !s.isEmpty)).filter (fun s => s.head? != some '=')

/-- What `main` gets of them. -/
def mainEnv (texts : List (List Char)) : Except ExitStatus (List (List UInt8)) :=
  if texts = [] then .error .noMemory else .ok (texts.dropLast.map utf8)

theorem isEmpty_utf16 (s : List Char) : (utf16 s).isEmpty = s.isEmpty := by
  cases s with
  | nil => rfl
  | cons c s =>
    have hpos := (length_utf16Units c).2.2
    cases hunits : utf16Units c with
    | nil => rw [hunits] at hpos; cases hpos
    | cons u units => rw [utf16_cons, hunits]; rfl

theorem head?_utf16 (s : List Char) : (utf16 s).head? = some 61 ↔ s.head? = some '=' := by
  cases s with
  | nil => simp [utf16]
  | cons c s =>
    rw [utf16_cons, List.head?_cons]
    rcases utf16Units_cases c with ⟨u, hunits, hu, -⟩ | ⟨high, low, hunits, hlarge, hhigh, -, -⟩
    · rw [hunits, List.singleton_append, List.head?_cons, Option.some_inj, Option.some_inj]
      constructor
      · rintro rfl
        exact Char.toNat_inj.mp hu.symm
      · rintro rfl
        exact UInt16.toNat_inj.mp hu
    · rw [hunits, List.cons_append, List.head?_cons, Option.some_inj, Option.some_inj]
      constructor
      · intro h
        have hsixtyOne : high.toNat = 61 := congrArg UInt16.toNat h
        omega
      · rintro rfl
        exact absurd hlarge (by decide)

/-- The table is made of the variables that are visible. -/
theorem wenviron_packTexts {texts : List (List Char)} (h0 : ∀ s ∈ texts, 0 ∉ utf8 s) :
    wenviron (packTexts 0 (texts.map utf16)) = (visible texts).map utf16 := by
  have hzero : ∀ text ∈ texts.map utf16, 0 ∉ text := by
    intro text htext
    obtain ⟨s, hs, rfl⟩ := List.mem_map.mp htext
    exact zero_not_mem_utf16 (zero_not_mem_of_utf8 (h0 s hs))
  have hread := readTexts_packTexts hzero []
  rw [List.append_nil] at hread
  rw [wenviron, hread, List.takeWhile_map, List.filter_map, visible]
  have hempty : (fun text : List UInt16 => !text.isEmpty) ∘ utf16 = fun s => !s.isEmpty :=
    funext (fun s => congrArg not (isEmpty_utf16 s))
  have hequals : (fun text : List UInt16 => text.head? != some 61) ∘ utf16 = fun s => s.head? != some '=' := by
    funext s
    rw [Function.comp_apply, Bool.eq_iff_iff, bne_iff_ne, bne_iff_ne, Ne, Ne, head?_utf16]
  rw [hempty, hequals]

/-- The conversion back, of variables that are short. -/
theorem convertVariables_utf16 {texts : List (List Char)}
    (h : ∀ s ∈ texts, (utf16 s).length ≤ 0x7FFE ∧ (utf8 s).length ≤ 0xFFFE) :
    convertVariables (texts.map utf16) = .ok (texts.map utf8) := by
  induction texts with
  | nil => rfl
  | cons s texts ih =>
    obtain ⟨hunits, hbytes⟩ := h s List.mem_cons_self
    have hone : rtlUnicodeStringToUTF8String (rtlInitUnicodeString (utf16 s)) = .ok (utf8 s) := by
      rw [rtlInitUnicodeString, List.take_of_length_le hunits, rtlUnicodeStringToUTF8String, fromUtf16_utf16]
      exact if_pos (by omega)
    rw [List.map_cons, convertVariables, hone, ih (fun t ht => h t (List.mem_cons_of_mem _ ht))]
    rfl

/-- `wmain` leaves the last variable out. -/
theorem wmainEnv_utf16 {texts : List (List Char)}
    (h : ∀ s ∈ texts, (utf16 s).length ≤ 0x7FFE ∧ (utf8 s).length ≤ 0xFFFE) :
    wmainEnv (texts.map utf16) = mainEnv texts := by
  rw [wmainEnv, mainEnv, List.length_map]
  cases texts with
  | nil => rfl
  | cons s texts =>
    have hcount : ((s :: texts).length - 1 : Int) = texts.length := by
      rw [List.length_cons]
      omega
    have hlast : ((s :: texts).map utf16).take texts.length = (s :: texts).dropLast.map utf16 := by
      rw [List.dropLast_eq_take, List.map_take]
      rfl
    simp only [hcount]
    rw [if_neg (by omega), Int.toNat_natCast, hlast,
      convertVariables_utf16 (fun t ht => h t (List.mem_of_mem_dropLast ht)), if_neg (List.cons_ne_nil _ _)]

/-! ## Which environments arrive -/

theorem visible_sublist (texts : List (List Char)) : (visible texts).Sublist texts :=
  List.filter_sublist.trans (List.takeWhile_sublist _)

/-- Nothing is left out if every variable has a name. -/
theorem visible_eq_self_iff (texts : List (List Char)) :
    visible texts = texts ↔ ∀ s ∈ texts, s ≠ [] ∧ s.head? ≠ some '=' := by
  constructor
  · intro h s hs
    rw [← h] at hs
    obtain ⟨htaken, hname⟩ := List.mem_filter.mp hs
    have hne := List.mem_takeWhile_imp htaken
    refine ⟨?_, bne_iff_ne.mp hname⟩
    rintro rfl
    cases hne
  · intro h
    have htaken : texts.takeWhile (fun s => !s.isEmpty) = texts := by
      refine List.takeWhile_eq_self_iff.mpr (fun s hs => ?_)
      have hne := (h s hs).1
      cases s with
      | nil => exact absurd rfl hne
      | cons c s => rfl
    rw [visible, htaken]
    exact List.filter_eq_self.mpr (fun s hs => bne_iff_ne.mpr (h s hs).2)

theorem exists_variable {env : List CString} {texts : List (List Char)} (h : env.map u8Env = texts.map utf8)
    {s : List Char} (hs : s ∈ texts) : ∃ v ∈ env, u8Env v = utf8 s := by
  have hmem := List.mem_map_of_mem (f := utf8) hs
  rw [← h] at hmem
  exact List.mem_map.mp hmem

theorem exists_text {env : List CString} {texts : List (List Char)} (h : env.map u8Env = texts.map utf8)
    {v : CString} (hv : v ∈ env) : ∃ s ∈ texts, u8Env v = utf8 s := by
  have hmem := List.mem_map_of_mem (f := u8Env) hv
  rw [h] at hmem
  obtain ⟨s, hs, heq⟩ := List.mem_map.mp hmem
  exact ⟨s, hs, heq.symm⟩

theorem dropLast_texts {env : List CString} {texts : List (List Char)} (h : env.map u8Env = texts.map utf8) :
    texts.dropLast.map utf8 = env.dropLast.map u8Env := by
  rw [List.map_dropLast, List.map_dropLast, h]

/-- What finds room is no longer than the runtime and `wmain` can tell. -/
theorem length_le_of_room {total used : Nat} {texts : List (List UInt16)} (h : Room total used texts) :
    ∀ text ∈ texts, text.length ≤ 0x7FFE := by
  induction texts generalizing used with
  | nil =>
    intro text htext
    cases htext
  | cons first texts ih =>
    intro text htext
    have hmod := Nat.mod_lt (total - used) (show 0 < 65536 by decide)
    have hfirst := h.1
    rcases List.mem_cons.mp htext with rfl | htext
    · omega
    · exact ih h.2 text htext

/-- `main` gets the variables that are visible, but for the last. -/
theorem wmainEnv_wenviron {env : List CString} {texts : List (List Char)} (htexts : env.map u8Env = texts.map utf8)
    (hroom : Room (envSize env) 0 (texts.map utf16)) :
    wmainEnv (wenviron (packTexts 0 (texts.map utf16))) = mainEnv (visible texts) := by
  have hshort : ∀ s ∈ texts, 0 ∉ utf8 s ∧ (utf8 s).length ≤ 0xFFFE := by
    intro s hs
    obtain ⟨v, -, hbytes⟩ := exists_variable htexts hs
    rw [← hbytes, u8Env]
    exact ⟨fun hmem => v.no_nul (List.mem_of_mem_take hmem), List.length_take_le _ _⟩
  rw [wenviron_packTexts (fun s hs => (hshort s hs).1)]
  refine wmainEnv_utf16 (fun s hs => ?_)
  have hs := (visible_sublist texts).subset hs
  exact ⟨length_le_of_room hroom _ (List.mem_map_of_mem hs), (hshort s hs).2⟩

/-- **What `main` gets.** -/
theorem received_eq_some {env : List CString} {out : Except ExitStatus (List (List UInt8))} :
    received system env = some out ↔
      ∃ texts : List (List Char), env.map u8Env = texts.map utf8 ∧
        Room (envSize env) 0 (texts.map utf16) ∧ out = mainEnv (visible texts) := by
  rw [received, Option.map_eq_some_iff]
  constructor
  · rintro ⟨block, hblock, rfl⟩
    obtain ⟨texts, htexts, hroom, rfl⟩ := convertEnvToWenv_eq_some.mp hblock
    exact ⟨texts, htexts, hroom, wmainEnv_wenviron htexts hroom⟩
  · rintro ⟨texts, htexts, hroom, rfl⟩
    exact ⟨_, convertEnvToWenv_eq_some.mpr ⟨texts, htexts, hroom, rfl⟩, wmainEnv_wenviron htexts hroom⟩

theorem head?_utf8 (s : List Char) : (utf8 s).head? = some 61 ↔ s.head? = some '=' := by
  cases s with
  | nil => simp [utf8]
  | cons c s =>
    rw [utf8_cons, List.head?_cons, Option.some_inj]
    rcases utf8EncodeChar_cases c with ⟨hsmall, hencode⟩ | ⟨hwide, hlarge⟩
    · rw [hencode, List.singleton_append, List.head?_cons, Option.some_inj]
      constructor
      · intro h
        have hcode := congrArg UInt8.toNat h
        rw [UInt8.toNat_ofNat', Nat.mod_eq_of_lt (by omega)] at hcode
        exact Char.toNat_inj.mp hcode
      · rintro rfl
        rfl
    · constructor
      · intro h
        have hmem : 61 ∈ String.utf8EncodeChar c := by
          cases hencode : String.utf8EncodeChar c with
          | nil => exact absurd hencode String.utf8EncodeChar_ne_nil
          | cons d rest =>
            rw [hencode, List.cons_append, List.head?_cons, Option.some_inj] at h
            exact h ▸ List.mem_cons_self
        exact absurd (hlarge 61 hmem) (by decide)
      · rintro rfl
        exact absurd hwide (by decide)

theorem utf8_eq_nil_iff (s : List Char) : utf8 s = [] ↔ s = [] := by
  constructor
  · intro h
    exact utf8_injective (h.trans rfl)
  · rintro rfl
    rfl

/-- A variable has a name where its text has one. -/
theorem nonempty_and_head_iff {v : CString} {s : List Char} (h : u8Env v = utf8 s) :
    (s ≠ [] ∧ s.head? ≠ some '=') ↔ v.bytes ≠ [] ∧ v.bytes.head? ≠ some 61 := by
  have hnil : s = [] ↔ v.bytes = [] := by
    rw [← utf8_eq_nil_iff, ← h, u8Env, List.take_eq_nil_iff]
    exact or_iff_right (by decide)
  have hhead : s.head? = some '=' ↔ v.bytes.head? = some 61 := by
    rw [← head?_utf8, ← h, u8Env, List.head?_take, if_neg (by decide)]
  rw [Ne, Ne, Ne, Ne, hnil, hhead]

/-- When everything but the last variable arrives: there is a variable, every one has a name, 16 bits hold the length
of those that arrive, and all are UTF-8 and find room in what is left of the block, modulo 65536. -/
def Arrives (env : List CString) : Prop :=
  env ≠ [] ∧ (∀ v ∈ env, v.bytes ≠ [] ∧ v.bytes.head? ≠ some 61) ∧ (∀ v ∈ env.dropLast, v.bytes.length ≤ 0xFFFE) ∧
    ∃ texts : List (List Char), env.map u8Env = texts.map utf8 ∧ Room (envSize env) 0 (texts.map utf16)

/-- **The environment arrives**, but for its last variable. -/
theorem received_iff (env : List CString) :
    received system env = some (.ok (env.dropLast.map CString.bytes)) ↔ Arrives env := by
  rw [received_eq_some, Arrives]
  constructor
  · rintro ⟨texts, htexts, hroom, hout⟩
    have hlength : env.length = texts.length := by
      have hlengths := congrArg List.length htexts
      rwa [List.length_map, List.length_map] at hlengths
    rw [mainEnv] at hout
    by_cases hempty : visible texts = []
    · rw [if_pos hempty] at hout
      cases hout
    rw [if_neg hempty] at hout
    have hgot : env.dropLast.map CString.bytes = (visible texts).dropLast.map utf8 := Except.ok.inj hout
    -- As many variables arrive as there are, so that none is left out.
    have hall : visible texts = texts := by
      refine (visible_sublist texts).eq_of_length ?_
      have hlengths := congrArg List.length hgot
      rw [List.length_map, List.length_map, List.length_dropLast, List.length_dropLast] at hlengths
      have hpos := List.length_pos_iff.mpr hempty
      have hle := (visible_sublist texts).length_le
      omega
    refine ⟨?_, ?_, ?_, texts, htexts, hroom⟩
    · rintro rfl
      rw [hall] at hempty
      exact hempty (List.eq_nil_of_length_eq_zero hlength.symm)
    · intro v hv
      obtain ⟨s, hs, hbytes⟩ := exists_text htexts hv
      exact (nonempty_and_head_iff hbytes).mp ((visible_eq_self_iff texts).mp hall s hs)
    · intro v hv
      rw [hall, dropLast_texts htexts] at hgot
      have hwhole : v.bytes = u8Env v := List.map_inj_left.mp hgot v hv
      rw [hwhole, u8Env]
      exact List.length_take_le _ _
  · rintro ⟨hne, hnamed, hshort, texts, htexts, hroom⟩
    refine ⟨texts, htexts, hroom, ?_⟩
    have hall : visible texts = texts := by
      refine (visible_eq_self_iff texts).mpr (fun s hs => ?_)
      obtain ⟨v, hv, hbytes⟩ := exists_variable htexts hs
      exact (nonempty_and_head_iff hbytes).mpr (hnamed v hv)
    have htextsNe : texts ≠ [] := by
      rintro rfl
      exact hne (List.map_eq_nil_iff.mp htexts)
    rw [hall, mainEnv, if_neg htextsNe, dropLast_texts htexts]
    refine congrArg Except.ok (List.map_congr_left (fun v hv => ?_))
    rw [u8Env, List.take_of_length_le (hshort v hv)]

end WindowsLibc.Spawn
