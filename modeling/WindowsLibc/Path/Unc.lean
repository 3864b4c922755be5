import WindowsLibc.Path.DosPath

/-!
# Pipes and network shares (`internal/path.c`)

What `get_absolute_ntpath2` does with a path that begins with two separators: `\\.\pipe\` in any case is a pipe,
anything else a share, whose components are coalesced below `\Device\Mup`.

* Paths come as UTF-8. The kernel's conversion to UTF-16 fails on what is not UTF-8.
* The sizes are sums of lengths in 16 bits. `PipePath.Fits` and `SharePath.Fits` say when they are large enough, and
  `pipeNtpath_iff` and `shareNtpath_iff` that the path is right exactly then.
-/

namespace WindowsLibc.Path

open WindowsLibc.Lib

/-! ## UTF-8 and UTF-16 -/

def utf8 (s : List Char) : List UInt8 := s.flatMap String.utf8EncodeChar

/-- A character above the basic plane is a surrogate pair. -/
def utf16Units (c : Char) : List WChar :=
  if c.toNat < 0x10000 then [UInt16.ofNat c.toNat]
  else [UInt16.ofNat (0xD800 + (c.toNat - 0x10000) / 0x400),
    UInt16.ofNat (0xDC00 + (c.toNat - 0x10000) % 0x400)]

def utf16 (s : List Char) : List WChar := s.flatMap utf16Units

/-- `RtlUTF8StringToUnicodeString`, where it succeeds without a replacement. -/
def rtlUtf8ToUnicode (bytes : List UInt8) : Option (List WChar) :=
  bytes.toByteArray.utf8Decode?.map fun cs => utf16 cs.toList

theorem rtlUtf8ToUnicode_utf8 (s : List Char) : rtlUtf8ToUnicode (utf8 s) = some (utf16 s) := by
  have h : (utf8 s).toByteArray.utf8Decode? = some s.toArray := List.utf8Decode?_utf8Encode
  rw [rtlUtf8ToUnicode, h]
  rfl

theorem rtlUtf8ToUnicode_eq_some {bytes : List UInt8} {units : List WChar}
    (h : rtlUtf8ToUnicode bytes = some units) : ∃ s, bytes = utf8 s ∧ units = utf16 s := by
  obtain ⟨cs, hcs, rfl⟩ := Option.map_eq_some_iff.mp h
  refine ⟨cs.toList, ?_, rfl⟩
  have hget := ByteArray.utf8Encode_get_utf8Decode? (b := bytes.toByteArray) (h := by rw [hcs]; rfl)
  simp only [hcs, Option.get_some] at hget
  exact (List.toByteArray_inj.mp hget).symm

theorem length_utf16Units (c : Char) :
    (utf16Units c).length ≤ (String.utf8EncodeChar c).length ∧
      (String.utf8EncodeChar c).length ≤ 3 * (utf16Units c).length ∧ 0 < (utf16Units c).length := by
  rw [String.length_utf8EncodeChar, utf16Units]
  have hpos := c.utf8Size_pos
  by_cases h : c.toNat < 0x10000
  · have h3 : c.utf8Size ≤ 3 := by
      rw [Char.utf8Size]
      split
      · decide
      · split
        · decide
        · split
          · decide
          · next hlarge => exact absurd (show c.toNat ≤ 65535 by omega) hlarge
    rw [if_pos h, List.length_singleton]
    omega
  · have h4 : c.utf8Size = 4 := by
      rw [Char.utf8Size, if_neg, if_neg, if_neg]
      · show ¬ c.toNat ≤ 65535
        omega
      · show ¬ c.toNat ≤ 2047
        omega
      · show ¬ c.toNat ≤ 127
        omega
    rw [if_neg h, h4, List.length_cons, List.length_singleton]
    decide

/-- UTF-16 has fewer units than UTF-8 has bytes, but not fewer than a third. -/
theorem length_utf16 (s : List Char) :
    (utf16 s).length ≤ (utf8 s).length ∧ (utf8 s).length ≤ 3 * (utf16 s).length := by
  induction s with
  | nil => exact ⟨Nat.le_refl _, Nat.le_refl _⟩
  | cons c s ih =>
    obtain ⟨hle, hge, _⟩ := length_utf16Units c
    simp only [utf8, utf16] at ih
    simp only [utf8, utf16, List.flatMap_cons, List.length_append]
    omega

/-- A text of which only a part is converted becomes shorter. -/
theorem length_utf16_lt {s t : List Char} {k : Nat} (h : (utf8 s).take k = utf8 t)
    (hk : k < (utf8 s).length) : (utf16 t).length < (utf16 s).length := by
  have hbytes : utf8 t ++ (utf8 s).drop k = utf8 s := by rw [← h, List.take_append_drop]
  have hencode : t.utf8Encode ++ ((utf8 s).drop k).toByteArray = s.utf8Encode := by
    have := congrArg List.toByteArray hbytes
    rwa [List.toByteArray_append] at this
  obtain ⟨suffix, rfl⟩ := List.isPrefix_of_utf8Encode_append_eq_utf8Encode _ hencode
  cases suffix with
  | nil =>
    have := congrArg List.length h
    rw [List.append_nil, List.length_take] at this
    rw [List.append_nil] at hk
    omega
  | cons c suffix =>
    have := (length_utf16Units c).2.2
    simp only [utf16, List.flatMap_append, List.flatMap_cons, List.length_append]
    omega

theorem zero_not_mem_utf16 {s : List Char} (h : Char.ofNat 0 ∉ s) : 0 ∉ utf16 s := by
  intro hin
  obtain ⟨c, hc, hunit⟩ := List.mem_flatMap.mp hin
  have hne : c.toNat ≠ 0 := by
    intro h0
    have hnul : c = Char.ofNat 0 := Char.toNat_inj.mp h0
    exact h (hnul ▸ hc)
  have hlt : c.toNat < 0x110000 := by
    have := c.valid
    rw [UInt32.isValidChar, Nat.isValidChar] at this
    show c.val.toNat < 0x110000
    omega
  have hunits : ∀ n : Nat, 0 < n → n < 2 ^ 16 → (0 : WChar) ≠ UInt16.ofNat n := by
    intro n hpos hn heq
    have := congrArg UInt16.toNat heq
    rw [UInt16.toNat_ofNat_of_lt' hn] at this
    exact absurd this (by show ¬ 0 = n; omega)
  rw [utf16Units] at hunit
  split at hunit
  · exact hunits _ (by omega) (by omega) (List.mem_singleton.mp hunit)
  · rcases List.mem_cons.mp hunit with heq | hunit
    · exact hunits _ (by omega) (by omega) heq
    · exact hunits _ (by omega) (by omega) (List.mem_singleton.mp hunit)

/-! ## The model -/

/-- `tolower`. -/
def lower (c : UInt8) : UInt8 := if 65 ≤ c ∧ c ≤ 90 then c + 32 else c

/-- `"\\\\.\\pipe\\"`. -/
def pipeLead : List UInt8 := [92, 92, 46, 92, 112, 105, 112, 101, 92]

/-- `strnicmp(path, "\\\\.\\pipe\\", 9) == 0`. -/
def isPipe (path : List UInt8) : Bool := (path.take 9).map lower == pipeLead

/-- The pipes of `get_absolute_ntpath2`. -/
def pipeNtpath (heap : Fill) (path : List UInt8) : Except Stop (Option NtString) := do
  let length := UInt16.ofNat path.length - 9
  let required : UInt16 := 36 + (length * 2 + 2)
  let buffer ← allocateString heap required.toNat
  match rtlUtf8ToUnicode ((path.drop 9).take length.toNat) with
  | none => return none
  | some units =>
    -- the kernel wants room for a terminator, but not for the device
    if required.toNat < 2 * units.length + 2 then return none
    else
      let buffer ← copy buffer 0 (units ++ [0]) (2 * units.length + 2)
      let buffer ← copy buffer 18 buffer (2 * units.length)
      let buffer ← copy buffer 0 (namedPipe ++ [backslash]) 36
      let length := UInt16.ofNat (2 * units.length) + 36
      let buffer ← copy buffer (length.toNat / 2) [0] 2
      return some ⟨length, length + 2, buffer⟩

/-- The network shares of `get_absolute_ntpath2`. `entries` is what the heap has in a new array of
components, `size` the global `path_components_size`. -/
def shareNtpath (heap : Fill) (entries : Nat → PathComponent) (size : Nat) (path : List UInt8) :
    Except Stop (Option NtString) := do
  -- `RtlInitUTF8String`
  let path := path.take 0xFFFE
  match rtlUtf8ToUnicode path with
  | none => return none
  | some units =>
    if 0xFFFF < 2 * units.length + 2 then return none
    else
      let units := backslashed units
      let required := UInt16.ofNat ((path.length + 12 - 1) * 2)
      let buffer := (List.range (required.toNat / 2)).map heap
      let buffer ← copy buffer 0 (mup ++ [backslash]) 24
      let buffer ← copy buffer 12 ((units ++ [0]).drop 2) (2 * units.length - 2)
      let buffer := buffer.take (11 + units.length)
      let s ← coalesce (some entries) size buffer
      let text := assemble (s.texts buffer)
      let ntpath ← allocateString heap required.toNat
      let ntpath ← copy ntpath 0 (text ++ [0]) (2 * text.length + 2)
      return some ⟨UInt16.ofNat (2 * text.length), required, ntpath⟩

/-- `get_absolute_ntpath2`, for a path that begins with two separators. -/
def getAbsoluteNtpath2 (heap : Fill) (entries : Nat → PathComponent) (size : Nat)
    (path : List UInt8) : Except Stop (Option NtString) :=
  if isPipe path then pipeNtpath heap path else shareNtpath heap entries size path

/-! ## Pipes -/

/-- The path of a pipe, `\\.\pipe\` in any case and a name. -/
structure PipePath where
  lead : List UInt8
  name : List Char
  isLead : lead.map lower = pipeLead
  no_nul : Char.ofNat 0 ∉ name

def PipePath.bytes (p : PipePath) : List UInt8 := p.lead ++ utf8 p.name

/-- The sums of 16 bits are large enough for the name behind the device. -/
def PipePath.Fits (p : PipePath) : Prop :=
  (utf8 p.name).length < 2 ^ 16 ∧
    2 * (utf16 p.name).length + 38 ≤ (2 * (utf8 p.name).length + 38) % 2 ^ 16

instance (p : PipePath) : Decidable p.Fits := inferInstanceAs (Decidable (_ ∧ _))

theorem PipePath.length_lead (p : PipePath) : p.lead.length = 9 := by
  have := congrArg List.length p.isLead
  rwa [List.length_map] at this

theorem PipePath.isPipe (p : PipePath) : isPipe p.bytes = true := by
  have htake : p.bytes.take 9 = p.lead := by
    rw [PipePath.bytes, ← p.length_lead, List.take_left]
  rw [Path.isPipe, htake, p.isLead]
  exact beq_self_eq_true _

theorem PipePath.toNat_length (p : PipePath) :
    (UInt16.ofNat p.bytes.length - 9).toNat = (utf8 p.name).length % 2 ^ 16 := by
  rw [PipePath.bytes, List.length_append, p.length_lead, UInt16.toNat_sub, UInt16.toNat_ofNat']
  show (2 ^ 16 - 9 + (9 + (utf8 p.name).length) % 2 ^ 16) % 2 ^ 16 = _
  omega

theorem PipePath.drop_bytes (p : PipePath) : p.bytes.drop 9 = utf8 p.name := by
  rw [PipePath.bytes, ← p.length_lead, List.drop_left]

/-- The path of a pipe whose name became `units`, if there is room for it. -/
theorem pipeNtpath_units (heap : Fill) (p : PipePath) {units : List WChar} {k : Nat}
    (hk : (utf8 p.name).length % 2 ^ 16 = k)
    (hunits : rtlUtf8ToUnicode ((utf8 p.name).take k) = some units) :
    if 2 * units.length + 38 ≤ (2 * k + 38) % 2 ^ 16 then
      ∃ s, pipeNtpath heap p.bytes = .ok (some s) ∧ s.Holds (namedPipe ++ backslash :: units)
    else ∀ s, pipeNtpath heap p.bytes ≠ .ok (some s) := by
  have hlength := p.toNat_length
  rw [hk] at hlength
  generalize hlen : UInt16.ofNat p.bytes.length - 9 = length at hlength
  have hrequired : ((36 : UInt16) + (length * 2 + 2)).toNat = (2 * k + 38) % 2 ^ 16 := by
    rw [UInt16.toNat_add, UInt16.toNat_add, UInt16.toNat_mul, hlength]
    show (36 + (k * 2 % 2 ^ 16 + 2) % 2 ^ 16) % 2 ^ 16 = _
    omega
  obtain ⟨r, hr⟩ : ∃ r, (2 * k + 38) % 2 ^ 16 = 2 * r := ⟨(2 * k + 38) % 2 ^ 16 / 2, by omega⟩
  have hfresh := length_allocated heap r
  simp only [pipeNtpath, hlen, p.drop_bytes, hlength, hrequired, hr, hunits,
    allocateString_eq heap _ r (by omega : ((2 * r : Nat) : Int) = 2 * r), bind, Except.bind]
  have htoNat : ∀ n : Nat, 2 * n + 36 ≤ 2 * r →
      (UInt16.ofNat (2 * n) + 36).toNat = 2 * (18 + n) := by
    intro n hn
    rw [UInt16.toNat_add, UInt16.toNat_ofNat']
    show ((2 * n) % 2 ^ 16 + 36) % 2 ^ 16 = _
    omega
  split
  · next hfits =>
    obtain ⟨b₁, hcopy₁, hlen₁, hpre₁⟩ := copy_whole
      (List.nil_prefix (l := (List.range r).map heap)) (units ++ [0]) 0 (2 * units.length + 2)
      rfl (by simp; omega) (by rw [hfresh]; simp; omega)
    -- The name moves up, and the device is put before it.
    have hunits₁ : b₁.take units.length = units := by
      exact (List.prefix_iff_eq_take.mp ((List.prefix_append units [0]).trans hpre₁)).symm
    obtain ⟨b₂, hb₂⟩ : ∃ b₂, overwrite b₁ 18 units = b₂ := ⟨_, rfl⟩
    have hlen₂ : b₂.length = r := by
      rw [← hb₂, length_overwrite, hlen₁, hfresh]
      omega
    have hcopy₂ : copy b₁ 18 b₁ (2 * units.length) = .ok b₂ := by
      rw [copy_eq b₁ 18 (2 * units.length) units.length rfl (by omega) (by omega), hunits₁, hb₂]
    have hmoved : units <+: b₂.drop 18 := by
      have h18 : (b₁.take 18).length = 18 := List.length_take_of_le (by omega)
      rw [← hb₂, overwrite_of_le (by omega), List.append_assoc, List.drop_left' h18]
      exact List.prefix_append _ _
    have hcopy₃ : copy b₂ 0 (namedPipe ++ [backslash]) 36 =
        .ok (overwrite b₂ 0 ((namedPipe ++ [backslash]).take 18)) :=
      copy_eq _ 0 36 18 rfl (Nat.le_refl 18) (by omega)
    have hpre₃ : namedPipe ++ [backslash] ++ units <+:
        overwrite b₂ 0 ((namedPipe ++ [backslash]).take 18) := by
      rw [overwrite_of_le (Nat.zero_le _), List.take_zero, List.nil_append]
      exact (List.prefix_append_right_inj _).mpr hmoved
    have hend := htoNat units.length (by omega)
    have htext : (namedPipe ++ [backslash] ++ units).length = 18 + units.length :=
      List.length_append
    obtain ⟨b₄, hcopy₄, _, hpre₄⟩ := copy_whole hpre₃ [0]
      ((UInt16.ofNat (2 * units.length) + 36).toNat / 2) 2 (by omega) rfl
      (by rw [length_overwrite, hlen₂, htext, List.length_singleton]; omega)
    rw [if_neg (by omega)]
    simp only [hcopy₁, hcopy₂, hcopy₃, hcopy₄]
    refine ⟨_, rfl, ?_, hpre₄⟩
    rw [hend, ← htext]
    rfl
  · next hfits =>
    intro s hs
    split at hs
    · cases hs
    · split at hs
      · cases hs
      · next hcopy₁ =>
        split at hs
        · cases hs
        · next hcopy₂ =>
          split at hs
          · cases hs
          · next hcopy₃ =>
            split at hs
            · cases hs
            · next hcopy₄ =>
              obtain ⟨_, _, hlen₁⟩ := copy_bounds hcopy₁
              obtain ⟨_, hroom₂, hlen₂⟩ := copy_bounds hcopy₂
              obtain ⟨_, _, hlen₃⟩ := copy_bounds hcopy₃
              obtain ⟨_, hroom₄, _⟩ := copy_bounds hcopy₄
              rw [htoNat units.length (by omega)] at hroom₄
              omega

/-- The path of a pipe that fits. -/
theorem pipeNtpath_fits (heap : Fill) {p : PipePath} (h : p.Fits) :
    ∃ s, pipeNtpath heap p.bytes = .ok (some s) ∧
      s.Holds (namedPipe ++ backslash :: utf16 p.name) := by
  obtain ⟨hsmall, hroom⟩ := h
  have hk := Nat.mod_eq_of_lt hsmall
  have hunits := pipeNtpath_units heap p hk
    (by rw [List.take_length]; exact rtlUtf8ToUnicode_utf8 p.name)
  rwa [if_pos hroom] at hunits

/-- Of a name that does not fit, at most a part is in the path. -/
theorem pipeNtpath_not_fits (heap : Fill) {p : PipePath} (h : ¬ p.Fits) {s : NtString}
    (hs : pipeNtpath heap p.bytes = .ok (some s)) :
    ∃ units : List WChar, units.length < (utf16 p.name).length ∧
      s.Holds (namedPipe ++ backslash :: units) := by
  cases hunits : rtlUtf8ToUnicode ((utf8 p.name).take ((utf8 p.name).length % 2 ^ 16)) with
  | none =>
    simp only [pipeNtpath, p.drop_bytes, p.toNat_length, hunits, bind, Except.bind] at hs
    split at hs
    · cases hs
    · cases hs
  | some units =>
    have hspec := pipeNtpath_units heap p rfl hunits
    split at hspec
    · next hroom =>
      obtain ⟨s', hs', hholds⟩ := hspec
      cases hs.symm.trans hs'
      refine ⟨units, ?_, hholds⟩
      obtain ⟨t, ht, rfl⟩ := rtlUtf8ToUnicode_eq_some hunits
      apply length_utf16_lt ht
      -- A name that is taken whole would fit.
      by_contra hlarge
      have hmod := Nat.mod_le (utf8 p.name).length (2 ^ 16)
      have hsame : (utf8 p.name).length % 2 ^ 16 = (utf8 p.name).length := by omega
      rw [hsame, List.take_length] at hunits
      rw [hsame, ← Option.some.inj ((rtlUtf8ToUnicode_utf8 p.name).symm.trans hunits)] at hroom
      exact h ⟨by omega, hroom⟩
    · exact absurd hs (hspec s)

/-! ## Network shares -/

/-- The path of a network share: two separators and a text that is not the rest of the path of a pipe. -/
structure SharePath where
  separator : Char
  rest : List Char
  isSeparator : separator = '/' ∨ separator = '\\'
  no_nul : Char.ofNat 0 ∉ rest
  not_pipe : isPipe (utf8 (separator :: separator :: rest)) = false

def SharePath.text (p : SharePath) : List Char := p.separator :: p.separator :: p.rest

def SharePath.bytes (p : SharePath) : List UInt8 := utf8 p.text

/-- What is below `\Device\Mup`. -/
def SharePath.below (p : SharePath) : List WChar := backslash :: backslashed (utf16 p.rest)

/-- The path on DOS: two slashes, and what is kept of the components. -/
def SharePath.dos (p : SharePath) : List WChar :=
  backslash :: backslash :: [backslash].intercalate (marks.kept (components p.below))

/-- The sum of 16 bits is large enough for the path behind the device. -/
def SharePath.Fits (p : SharePath) : Prop :=
  2 * (utf16 p.text).length + 22 ≤ (2 * min p.bytes.length 0xFFFE + 22) % 2 ^ 16

instance (p : SharePath) : Decidable p.Fits := inferInstanceAs (Decidable (_ ≤ _))

/-- What the path of a share is below the device. -/
theorem SharePath.backslashed_text (p : SharePath) :
    backslashed (utf16 p.text) = backslash :: p.below := by
  have hunits : utf16 p.text = utf16Units p.separator ++ (utf16Units p.separator ++ utf16 p.rest) := rfl
  rw [hunits, backslashed, List.map_append, List.map_append]
  rcases p.isSeparator with h | h <;> rw [h] <;> rfl

theorem SharePath.length_below (p : SharePath) : (utf16 p.text).length = p.below.length + 1 := by
  have := congrArg List.length p.backslashed_text
  rwa [backslashed, List.length_map, List.length_cons] at this

theorem joined_eq (dev : List WChar) (cs : List (List WChar)) :
    joined (dev :: cs) = dev ++ backslash :: [backslash].intercalate cs := by
  cases cs with
  | nil => rw [joined, List.intercalate_singleton]; rfl
  | cons c cs => exact joined_cons dev (List.cons_ne_nil c cs)

/-- The buffer that is coalesced. -/
def SharePath.buffer (p : SharePath) : Buffer where
  name := [77, 117, 112]
  below := p.below
  name_clean := ⟨by decide, by decide⟩
  below_no_zero := by
    rw [SharePath.below, List.mem_cons, not_or]
    exact ⟨by decide, zero_not_mem_backslashed (zero_not_mem_utf16 p.no_nul)⟩
  below_start := .inr rfl

/-- Nothing becomes longer. -/
theorem SharePath.length_dos (p : SharePath) : p.dos.length ≤ p.below.length + 1 := by
  have hcomponents : [backslash].intercalate (components p.below) = backslashed (utf16 p.rest) := by
    rw [SharePath.below, components, List.intercalate_splitOn]
  have hle : ([backslash].intercalate (marks.kept (components p.below))).length ≤
      ([backslash].intercalate (components p.below)).length := by
    by_cases hne : marks.kept (components p.below) = []
    · rw [hne]
      exact Nat.zero_le _
    · exact length_intercalate_le hne (marks.kept_sublist _)
  rw [hcomponents] at hle
  simp only [SharePath.dos, SharePath.below, List.length_cons] at hle ⊢
  omega

theorem shareNtpath_fits (heap : Fill) (entries : Nat → PathComponent) (doublings : Nat)
    {p : SharePath} (h : p.Fits) :
    ∃ s, shareNtpath heap entries (16 * 2 ^ doublings) p.bytes = .ok (some s) ∧
      s.Holds (mup ++ p.dos.tail) := by
  rw [SharePath.Fits] at h
  have hbytes : p.bytes.length ≤ 0xFFFE := by
    by_contra hlarge
    rw [Nat.min_eq_right (by omega)] at h
    omega
  rw [Nat.min_eq_left hbytes] at h
  have hunits : rtlUtf8ToUnicode p.bytes = some (utf16 p.text) := rtlUtf8ToUnicode_utf8 p.text
  have hlen := p.length_below
  have hrequired : (UInt16.ofNat ((p.bytes.length + 12 - 1) * 2)).toNat =
      (2 * p.bytes.length + 22) % 2 ^ 16 := by
    rw [UInt16.toNat_ofNat']
    congr 1
    omega
  obtain ⟨r, hr⟩ : ∃ r, (2 * p.bytes.length + 22) % 2 ^ 16 = 2 * r :=
    ⟨(2 * p.bytes.length + 22) % 2 ^ 16 / 2, by omega⟩
  have hfresh := length_allocated heap r
  have hbelow : (backslashed (utf16 p.text) ++ [0]).drop 2 = p.below.tail ++ [0] := by
    rw [p.backslashed_text]
    rfl
  have hunits' : (backslashed (utf16 p.text)).length = (utf16 p.text).length := List.length_map _
  have hpos : p.below.length = p.below.tail.length + 1 := rfl
  have hterm : (p.below.tail ++ [0]).length = p.below.tail.length + 1 := List.length_append
  -- The buffer is the device and what is below it.
  obtain ⟨b₁, hcopy₁, hlen₁, hpre₁⟩ := copy_whole
    (List.nil_prefix (l := (List.range r).map heap)) (mup ++ [backslash]) 0 24 rfl rfl
    (by rw [hfresh]; show 0 + 12 ≤ r; omega)
  obtain ⟨b₂, hcopy₂, hlen₂, hpre₂⟩ := copy_whole hpre₁ (p.below.tail ++ [0]) 12
    (2 * (utf16 p.text).length - 2) rfl (by omega) (by
      rw [hlen₁, hfresh, hterm]
      show 12 + (p.below.tail.length + 1) ≤ r
      omega)
  have hbuffer : b₂.take (11 + (utf16 p.text).length) = p.buffer.units := by
    have hwhole : p.buffer.units <+: b₂ := hpre₂
    have hsize : p.buffer.units.length = 11 + (utf16 p.text).length := by
      rw [Buffer.units, List.length_append, List.length_append]
      show 11 + p.below.length + 1 = _
      omega
    rw [← hsize]
    exact (List.prefix_iff_eq_take.mp hwhole).symm
  -- It is coalesced and copied out.
  obtain ⟨s, hcoalesce, htexts⟩ := coalesce_spec entries doublings p.buffer
  have hdos := p.length_dos
  have htail : p.dos.length = p.dos.tail.length + 1 := rfl
  have hjoined : joined (s.texts p.buffer.units) = mup ++ p.dos.tail := by
    rw [htexts, joined_eq]
    rfl
  have htext : assemble (s.texts p.buffer.units) = mup ++ p.dos.tail := by
    rw [← hjoined]
    apply assemble_eq
    rw [hjoined, List.length_append]
    show 2 * (11 + p.dos.tail.length) < _
    omega
  have hsize : (mup ++ p.dos.tail).length = 11 + p.dos.tail.length := List.length_append
  obtain ⟨b₃, hcopy₃, _, hpre₃⟩ := copy_whole
    (List.nil_prefix (l := (List.range r).map heap)) (mup ++ p.dos.tail ++ [0]) 0
    (2 * (mup ++ p.dos.tail).length + 2) rfl (by simp; omega)
    (by rw [hfresh, List.length_append, List.length_nil, List.length_singleton]; omega)
  have hpath : shareNtpath heap entries (16 * 2 ^ doublings) p.bytes =
      .ok (some ⟨UInt16.ofNat (2 * (mup ++ p.dos.tail).length),
        UInt16.ofNat ((p.bytes.length + 12 - 1) * 2), b₃⟩) := by
    simp only [shareNtpath, hunits, List.take_of_length_le hbytes, hrequired, hr, hunits', hbelow,
      Nat.mul_div_cancel_left r (by decide : 0 < 2), hcopy₁, hcopy₂, hbuffer, hcoalesce, htext,
      allocateString_eq heap _ r (by omega : ((2 * r : Nat) : Int) = 2 * r), hcopy₃, bind, Except.bind]
    rw [if_neg (by omega)]
    rfl
  refine ⟨_, hpath, ?_, hpre₃⟩
  exact UInt16.toNat_ofNat_of_lt' (by show _ < 65536; omega)

/-- A share that does not fit has no path. -/
theorem shareNtpath_not_fits (heap : Fill) (entries : Nat → PathComponent) (size : Nat)
    {p : SharePath} (h : ¬ p.Fits) (s : NtString) :
    shareNtpath heap entries size p.bytes ≠ .ok (some s) := by
  intro hs
  have htake : (p.bytes.take 0xFFFE).length = min 0xFFFE p.bytes.length := List.length_take
  have hrequired : (UInt16.ofNat (((p.bytes.take 0xFFFE).length + 12 - 1) * 2)).toNat =
      (2 * min p.bytes.length 0xFFFE + 22) % 2 ^ 16 := by
    rw [UInt16.toNat_ofNat', htake]
    congr 1
    omega
  simp only [shareNtpath, bind, Except.bind, hrequired] at hs
  split at hs
  · cases hs
  · next units hunits =>
    split at hs
    · cases hs
    · split at hs
      · cases hs
      · next hcopy₁ =>
        split at hs
        · cases hs
        · next hcopy₂ =>
          obtain ⟨_, hroom₁, hlen₁⟩ := copy_bounds hcopy₁
          obtain ⟨_, hroom₂, _⟩ := copy_bounds hcopy₂
          rw [length_allocated] at hroom₁ hlen₁
          have hunits' : (backslashed units).length = units.length := List.length_map _
          rw [hunits', hlen₁] at hroom₂
          rw [SharePath.Fits] at h
          by_cases hbytes : p.bytes.length ≤ 0xFFFE
          · rw [List.take_of_length_le hbytes] at hunits
            have hwhole : units = utf16 p.text :=
              Option.some.inj (hunits.symm.trans (rtlUtf8ToUnicode_utf8 p.text))
            rw [hwhole] at hroom₂
            omega
          · rw [Nat.min_eq_right (by omega)] at hroom₁
            omega

end WindowsLibc.Path
