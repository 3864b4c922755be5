import WindowsLibc.Path.Links

/-!
# What a link shows (`unistd/readlink.c`)

`readlink` converts the name of a link back, and puts slashes for its backslashes.

* `doReadlink` is the function, for the data that the kernel has, and `shownText` what it should give.
* `accepted_lead`: what begins with a slash and has a path begins with a letter or with a second slash.
* `linkUnits_text`: the text that `symlink` stores is that, with backslashes, if nothing is misread.
* `storeName_iff`: what arrives in the buffer.
-/

namespace WindowsLibc.Path.Absolute

open WindowsLibc.Lib WindowsLibc.Fcntl Surroundings

/-! ## The conversion back -/

/-- The character of a pair of surrogates. -/
def surrogatePair (high low : WChar) : Char :=
  Char.ofNat (0x10000 + (high.toNat - 0xD800) * 0x400 + (low.toNat - 0xDC00))

/-- `RtlUnicodeStringToUTF8String`, where it succeeds without a replacement: a surrogate needs its other half. -/
def fromUtf16 : List WChar → Option (List Char)
  | [] => some []
  | [u] => if u.toNat < 0xD800 ∨ 0xDFFF < u.toNat then some [Char.ofNat u.toNat] else none
  | u :: v :: rest =>
    if u.toNat < 0xD800 ∨ 0xDFFF < u.toNat then (fromUtf16 (v :: rest)).map (Char.ofNat u.toNat :: ·)
    else if u.toNat < 0xDC00 ∧ 0xDC00 ≤ v.toNat ∧ v.toNat ≤ 0xDFFF then
      (fromUtf16 rest).map (surrogatePair u v :: ·)
    else none

theorem fromUtf16_cons_unit {u : WChar} (h : u.toNat < 0xD800 ∨ 0xDFFF < u.toNat) (rest : List WChar) :
    fromUtf16 (u :: rest) = (fromUtf16 rest).map (Char.ofNat u.toNat :: ·) := by
  cases rest with
  | nil => exact if_pos h
  | cons v rest => exact if_pos h

theorem fromUtf16_utf16 (s : List Char) : fromUtf16 (utf16 s) = some s := by
  induction s with
  | nil => rfl
  | cons c s ih =>
    rw [utf16_cons]
    rcases utf16Units_cases c with ⟨u, hc, hu, hcs⟩ | ⟨high, low, hc, hcl, hhigh, hle, hlow⟩
    · rw [hc, List.singleton_append, fromUtf16_cons_unit (hu ▸ hcs), ih, hu, Char.ofNat_toNat]
      rfl
    · have hvalid : c.toNat < 0xD800 ∨ 0xDFFF < c.toNat ∧ c.toNat < 0x110000 := c.valid
      have hpair : surrogatePair high low = c := by
        have hcode : 0x10000 + (high.toNat - 0xD800) * 0x400 + (low.toNat - 0xDC00) = c.toNat := by omega
        rw [surrogatePair, hcode, Char.ofNat_toNat]
      rw [hc, List.cons_append, List.singleton_append, fromUtf16, if_neg (by omega), if_pos (by omega), ih, hpair]
      rfl

/-- A high surrogate before something else. -/
theorem fromUtf16_lone {high v : WChar} (hhigh : 0xD800 ≤ high.toNat ∧ high.toNat ≤ 0xDFFF) (hv : v.toNat < 0xDC00)
    (rest : List WChar) : fromUtf16 (high :: v :: rest) = none := by
  rw [fromUtf16, if_neg (by omega), if_neg (by omega)]

/-! ## The function -/

/-- The members that `SymbolicLinkReparseBuffer` and `MountPointReparseBuffer` share. -/
structure NameBuffer where
  substituteNameOffset : UInt16
  substituteNameLength : UInt16
  printNameOffset : UInt16
  printNameLength : UInt16
  pathBuffer : List WChar

def Reparse.names (r : Reparse) : NameBuffer :=
  ⟨r.substituteNameOffset, r.substituteNameLength, r.printNameOffset, r.printNameLength, r.pathBuffer⟩

/-- What the kernel has for a file. -/
inductive FileData where
  /-- `FILE_ATTRIBUTE_REPARSE_POINT` is not set. -/
  | plain
  | symlink (data : Reparse)
  | mountPoint (names : NameBuffer)
  /-- A tag that is not supported. -/
  | other

namespace NameBuffer

variable (b : NameBuffer)

/-- The units that an offset and a length in bytes mean. -/
def window (offset length : UInt16) : List WChar := (b.pathBuffer.drop (offset.toNat / 2)).take (length.toNat / 2)

/-- `u16_data`. "This should not happen": neither name is there. -/
def shown : Option (List WChar) :=
  if b.printNameLength ≠ 0 then some (b.window b.printNameOffset b.printNameLength)
  else if b.substituteNameLength ≠ 0 then some (b.window b.substituteNameOffset b.substituteNameLength)
  else none

end NameBuffer

/-- `convert_bs_to_fs`. -/
def convertBsToFs (bytes : List UInt8) : List UInt8 := bytes.map (fun b => if b = 92 then 47 else b)

/-- `RtlUnicodeStringToUTF8String` into `buffer`, or into a block that is copied to it. `zero` is what the
conversion wants for the terminating zero, nothing or a byte; `MaximumLength` has 16 bits, `memcpy` has not. -/
def storeName (zero : Fin 2) (name : List UInt8) (bufsiz : Nat) : Except Stop (Option (List UInt8)) :=
  if name.length + zero ≤ bufsiz % 2 ^ 16 then .ok (some name)
  else if 0xFFFF < name.length + 1 then .ok none
  else if name.length + 1 < bufsiz then .error .fault
  else .ok (some ((name ++ [0]).take bufsiz))

/-- `do_readlink`. -/
def doReadlink (zero : Fin 2) (file : FileData) (bufsiz : Nat) : Except Stop (Option (List UInt8)) :=
  let names := match file with
    | .symlink data => data.names.shown
    | .mountPoint names => names.shown
    | _ => none
  match names.bind fromUtf16 with
  | none => .ok none
  | some text => (storeName zero (utf8 text) bufsiz).map (Option.map convertBsToFs)

/-! ## What is shown -/

/-- Slashes for backslashes. -/
def forward (s : List Char) : List Char := s.map (fun c => if c = '\\' then '/' else c)

/-- The path begins with a drive, `C:` or `/c`; behind the letter of the second there is a slash or nothing, as
`get_absolute_ntpath2` has it. -/
def leadsDrive (path : List UInt8) : Bool :=
  isAlpha (path.getD 0 0) && path.getD 1 0 == 58 ||
    path.getD 0 0 == 47 && isAlpha (path.getD 1 0) && (path.getD 2 0 == 47 || path.getD 2 0 == 0)

/-- The text that a link should show: its source with slashes, and its drive in capitals and with a separator. -/
def shownText (s : List Char) : List Char :=
  if leadsDrive (utf8 s) = true then
    byteChar (driveOf (utf8 s)) :: ':' :: (if s.drop 2 = [] then ['/'] else forward (s.drop 2))
  else forward s

/-- "Change /c to C:", where no drive is named: by the second character alone, of which it takes the low byte. -/
def Misread (s : List Char) : Prop :=
  (utf16 s).getD 0 0 = 47 ∧ isAlpha ((utf16 s).getD 1 0).toUInt8 = true ∧ leadsDrive (utf8 s) = false

/-- Both slashes are shown as slashes. -/
theorem forward_slashes (s : List Char) : forward (slashes s) = forward s := by
  rw [forward, slashes, List.map_map, forward]
  refine List.map_congr_left fun c _ => ?_
  rw [Function.comp_apply]
  by_cases hc : c = '/'
  · rw [if_pos hc, hc]
    rfl
  · rw [if_neg hc]

theorem slashes_forward (s : List Char) : slashes (forward s) = slashes s := by
  rw [slashes, forward, List.map_map, slashes]
  refine List.map_congr_left fun c _ => ?_
  rw [Function.comp_apply]
  by_cases hc : c = '\\'
  · rw [if_pos hc, hc]
    rfl
  · rw [if_neg hc]

theorem slashes_slashes (s : List Char) : slashes (slashes s) = slashes s := by
  rw [← slashes_forward (slashes s), forward_slashes, slashes_forward]

theorem utf16_forward_length (s : List Char) : (utf16 (forward s)).length = (utf16 s).length := by
  rw [← length_utf16_slashes (forward s), slashes_forward, length_utf16_slashes]

theorem utf8_forward (s : List Char) : convertBsToFs (utf8 s) = utf8 (forward s) := by
  induction s with
  | nil => rfl
  | cons c s ih =>
    change _ = utf8 ((if c = '\\' then '/' else c) :: forward s)
    rw [utf8_cons, utf8_cons, ← ih, convertBsToFs, convertBsToFs, List.map_append]
    congr 1
    by_cases hc : c = '\\'
    · rw [if_pos hc, hc]
      rfl
    · rw [if_neg hc]
      have hne (b : UInt8) (hb : b ∈ String.utf8EncodeChar c) : (if b = 92 then 47 else b) = b := by
        refine if_neg (fun heq => ?_)
        rcases utf8EncodeChar_cases c with ⟨hsmall, hencode⟩ | ⟨-, hlarge⟩
        · rw [hencode, List.mem_singleton, heq] at hb
          have hnat := congrArg UInt8.toNat hb
          rw [UInt8.toNat_ofNat', Nat.mod_eq_of_lt (by omega)] at hnat
          exact hc (Char.toNat_inj.mp hnat.symm)
        · have hle := hlarge b hb
          rw [heq] at hle
          exact absurd hle (by decide)
      rw [List.map_congr_left hne, List.map_id']

theorem utf8_injective {s t : List Char} (h : utf8 s = utf8 t) : s = t := by
  have hunits := rtlUtf8ToUnicode_utf8 s
  rw [h, rtlUtf8ToUnicode_utf8] at hunits
  exact utf16_injective (Option.some.inj hunits.symm)

theorem leadsDrive_cases {path : List UInt8} (h : leadsDrive path = true) :
    ∃ b c rest, path = b :: c :: rest ∧ (isAlpha b = true ∧ c = 58 ∨ b = 47 ∧ isAlpha c = true) := by
  match path with
  | [] => exact absurd h (by decide)
  | [b] =>
    have hfalse : leadsDrive [b] = false := by
      change (isAlpha b && false || b == 47 && false && true) = false
      rw [Bool.and_false, Bool.and_false]
      rfl
    rw [hfalse] at h
    cases h
  | b :: c :: rest =>
    refine ⟨b, c, rest, rfl, ?_⟩
    have hcases : (isAlpha b && c == 58 ||
        b == 47 && isAlpha c && (rest.getD 0 0 == 47 || rest.getD 0 0 == 0)) = true := h
    rw [Bool.or_eq_true_iff, Bool.and_eq_true_iff, Bool.and_eq_true_iff, Bool.and_eq_true_iff, beq_iff_eq,
      beq_iff_eq] at hcases
    exact hcases.imp_right And.left

theorem leadsDrive_absolute {path : List UInt8} (h : leadsDrive path = true) : isAbsolutePath path = true := by
  obtain ⟨b, c, rest, rfl, ⟨hb, rfl⟩ | ⟨rfl, -⟩⟩ := leadsDrive_cases h
  · change (isAlpha b && true || _) = true
    rw [hb]
    rfl
  · change (_ || true) = true
    rw [Bool.or_true]

/-- Of a text that begins with a slash, and of no other, the first unit is one. -/
theorem utf16_slash {s : List Char} (h : (utf16 s).getD 0 0 = 47) : ∃ t, s = '/' :: t := by
  cases s with
  | nil => exact absurd h (by decide)
  | cons c t =>
    refine ⟨t, ?_⟩
    rw [utf16_cons] at h
    rcases utf16Units_cases c with ⟨u, hc, hu, -⟩ | ⟨high, low, hc, -, hhigh, -⟩
    · rw [hc] at h
      have hslash : u = 47 := h
      rw [hslash] at hu
      rw [show c = '/' from Char.toNat_inj.mp hu.symm]
    · rw [hc] at h
      have hslash : high = 47 := h
      rw [hslash] at hhigh
      change 47 = _ at hhigh
      omega

theorem absolute_slash {s : List Char} (h : isAbsolutePath (utf8 s) = true) (hlead : leadsDrive (utf8 s) = false) :
    ∃ t, s = '/' :: t := by
  have hcases : isAlpha ((utf8 s).getD 0 0) && (utf8 s).getD 1 0 == 58 || (utf8 s).getD 0 0 == 47 := h
  have hnot : (isAlpha ((utf8 s).getD 0 0) && (utf8 s).getD 1 0 == 58) = false := by
    rw [leadsDrive, Bool.or_eq_false_iff] at hlead
    exact hlead.1
  rw [hnot, Bool.false_or, beq_iff_eq] at hcases
  cases hbytes : utf8 s with
  | nil =>
    rw [hbytes] at hcases
    exact absurd hcases (by decide)
  | cons b bytes =>
    rw [hbytes] at hcases
    have hb : b = 47 := hcases
    subst hb
    obtain ⟨c, t, rfl, hc, -⟩ := exists_cons_of_utf8 hbytes (by decide)
    exact ⟨t, by rw [show c = '/' from Char.toNat_inj.mp hc]⟩

/-- Where no drive is named and nothing is misread, the text stays. -/
theorem cygwinDrive_eq {s : List Char} (hlead : leadsDrive (utf8 s) = false) (hread : ¬ Misread s) :
    cygwinDrive (utf16 s) = utf16 s := by
  refine if_neg fun hcygwin => ?_
  exact hread ⟨hcygwin.1, hcygwin.2, hlead⟩

theorem misread_of_letter {s : List Char} {c : UInt8} {rest : List UInt8} (hs : utf8 s = 47 :: c :: rest)
    (hc : isAlpha c = true) (hlead : leadsDrive (utf8 s) = false) : Misread s := by
  obtain ⟨x, s, rfl, hx, hs'⟩ := exists_cons_of_utf8 hs (by decide)
  obtain ⟨y, s, rfl, hy, -⟩ := exists_cons_of_utf8 hs' (lt_of_isAlpha hc).2
  have hunits : utf16 (x :: y :: s) = 47 :: c.toUInt16 :: utf16 s := by
    rw [utf16_cons, utf16_cons, utf16Units_ascii hx, utf16Units_ascii hy]
    rfl
  refine ⟨?_, ?_, hlead⟩
  · rw [hunits]
    rfl
  · rw [hunits, List.getD_cons_succ, List.getD_cons_zero, UInt8.toUInt8_toUInt16, hc]

/-- How an absolute source begins for which there is a path: with a drive or the letter of one, or with two slashes. -/
theorem accepted_lead {s : List Char} (h0 : 0 ∉ utf8 s) (hroot : isRootPath (utf8 s) = false)
    (habsolute : isAbsolutePath (utf8 s) = true) {env : Surroundings} {dirfd : Int}
    {answer : NtString × Option HandleType} (h : env.getAbsoluteNtpath2 dirfd (utf8 s) = .ok (.ok answer)) :
    (∃ b c rest, utf8 s = b :: c :: rest ∧ (isAlpha b = true ∧ c = 58 ∨ b = 47 ∧ isAlpha c = true)) ∨
      ∃ rest, s = '/' :: '/' :: rest := by
  by_cases hhead : (utf8 s).head? = some 47
  · have hrouted := routed h0
    cases hroute : route (utf8 s) with
    | root =>
      rw [hroute] at hrouted
      cases hrouted with
      | root hpath =>
        rcases hpath with hpath | hpath
        · rw [hpath] at hroot
          cases hroot
        · rw [hpath] at hroot
          cases hroot
    | device length name type =>
      rw [hroute] at hrouted
      cases hrouted with
      | device hname hpath => exact .inl ⟨_, _, _, hpath, .inr ⟨rfl, by decide⟩⟩
      | dosDevice hhead' => exact absurd hhead hhead'
    | descriptor fd =>
      rw [hroute] at hrouted
      cases hrouted with
      | stream hname hpath => exact .inl ⟨_, _, _, hpath, .inr ⟨rfl, by decide⟩⟩
      | descriptor hpath hrest => exact .inl ⟨_, _, _, hpath, .inr ⟨rfl, by decide⟩⟩
    | negative =>
      simp only [Surroundings.getAbsoluteNtpath2, hroute] at h
      cases Except.ok.inj h
    | pipe =>
      rw [hroute] at hrouted
      cases hrouted with
      | pipe hpipe =>
        obtain ⟨rest, hrest⟩ := List.head?_eq_some_iff.mp hhead
        rw [hrest] at hpipe
        cases hpipe
    | share =>
      rw [hroute] at hrouted
      cases hrouted with
      | share hnot hlead =>
        rcases hlead with ⟨rest, hrest⟩ | hlead
        · rw [← hrest] at hhead
          cases hhead
        · obtain ⟨rest, rfl, -⟩ := linkUnits_share hlead
          exact .inr ⟨rest, rfl⟩
    | temporary =>
      rw [hroute] at hrouted
      cases hrouted with
      | temporary htmp =>
        obtain ⟨c, rest, -, hpath, hc, -⟩ := temporary_text htmp
        exact .inl ⟨_, _, _, hpath, .inr ⟨rfl, hc⟩⟩
    | file =>
      obtain ⟨hbad, -⟩ := env.getAbsoluteNtpath2_file hroute habsolute h
      obtain ⟨b, c, rest, hpath, hcases⟩ := absolute_cases habsolute hbad
      refine .inl ⟨b, c, rest, hpath, ?_⟩
      exact hcases.imp_right fun hletter => ⟨hletter.1, hletter.2.1⟩
  · obtain ⟨b, rest, hpath, hb⟩ := exists_drive habsolute hhead
    exact .inl ⟨b, 58, rest, hpath, .inl ⟨hb, rfl⟩⟩

theorem forward_cons {c : Char} (h : c ≠ '\\') (s : List Char) : forward (c :: s) = c :: forward s := by
  rw [forward, List.map_cons, if_neg h, forward]

theorem byteChar_ne {d : UInt8} (hd : isAlpha d = true) : byteChar d ≠ '\\' := by
  intro heq
  have hnat := toNat_byteChar d
  rw [heq] at hnat
  have h92 : d = 92 := UInt8.toNat_inj.mp hnat.symm
  rw [h92] at hd
  exact absurd hd (by decide)

theorem byteChar_ne_slash {d : UInt8} (hd : isAlpha d = true) : byteChar d ≠ '/' := by
  intro heq
  have hnat := toNat_byteChar d
  rw [heq] at hnat
  have h47 : d = 47 := UInt8.toNat_inj.mp hnat.symm
  rw [h47] at hd
  exact absurd hd (by decide)

/-- The drive, and what is behind it. -/
theorem leadsDrive_text {s : List Char} (h : leadsDrive (utf8 s) = true) :
    ∃ x y s', s = x :: y :: s' ∧ isAlpha (driveOf (utf8 s)) = true ∧ upper (driveOf (utf8 s)) = driveOf (utf8 s) ∧
      linkUnits true (utf16 s) = utf16 (byteChar (driveOf (utf8 s)) :: ':' :: closed s') := by
  obtain ⟨b, c, rest, hpath, hlead⟩ := leadsDrive_cases h
  have hsmall : b.toNat < 128 ∧ c.toNat < 128 := by
    rcases hlead with ⟨hb, rfl⟩ | ⟨rfl, hc⟩
    · exact ⟨(lt_of_isAlpha hb).2, by decide⟩
    · exact ⟨by decide, (lt_of_isAlpha hc).2⟩
  obtain ⟨t, hrest, -, -, hlink⟩ := linkUnits_drive hlead hpath.symm
  obtain ⟨hd, hupper⟩ := driveOf_letter rest hlead
  rw [← hpath] at hlink hd hupper
  obtain ⟨x, s₁, rfl, -, hs₁⟩ := exists_cons_of_utf8 hpath hsmall.1
  obtain ⟨y, s', rfl, -, hs'⟩ := exists_cons_of_utf8 hs₁ hsmall.2
  obtain rfl := utf8_injective (hs'.trans hrest)
  refine ⟨x, y, s', rfl, hd, hupper, hlink.trans ?_⟩
  exact rootDrive_pair (y := ':') (c := 58) (toNat_byteChar _) rfl s'

/-- No backslashes are shown. -/
theorem forward_forward (s : List Char) : forward (forward s) = forward s := by
  rw [← forward_slashes (forward s), slashes_forward, forward_slashes]

theorem forward_shownText (s : List Char) : forward (shownText s) = shownText s := by
  rw [shownText]
  by_cases hlead : leadsDrive (utf8 s) = true
  · obtain ⟨x, y, s', hs, hd, -⟩ := leadsDrive_text hlead
    rw [if_pos hlead, forward_cons (byteChar_ne hd), forward_cons (by decide)]
    congr 2
    by_cases hnil : s.drop 2 = []
    · rw [if_pos hnil]
      rfl
    · rw [if_neg hnil, forward_forward]
  · rw [if_neg hlead, forward_forward]

theorem slashes_cons {c : Char} (h : c ≠ '/') (s : List Char) : slashes (c :: s) = c :: slashes s := by
  rw [slashes, List.map_cons, if_neg h, slashes]

/-- **The text of a link** is what should be shown, with backslashes. -/
theorem linkUnits_text {s : List Char} (hread : ¬ Misread s)
    (htwo : isAbsolutePath (utf8 s) = true → leadsDrive (utf8 s) = false → (utf16 s).length ≠ 2) :
    linkUnits (isAbsolutePath (utf8 s)) (utf16 s) = utf16 (slashes (shownText s)) := by
  cases hlead : leadsDrive (utf8 s) with
  | true =>
    obtain ⟨x, y, s', rfl, hd, -, hlink⟩ := leadsDrive_text hlead
    have hclosed : slashes (if s' = [] then ['/'] else forward s') = closed s' := by
      rw [closed]
      by_cases hs : s' = []
      · rw [if_pos hs, if_pos hs]
        rfl
      · rw [if_neg hs, if_neg hs, slashes_forward]
    rw [leadsDrive_absolute hlead, hlink, shownText, if_pos hlead, slashes_cons (byteChar_ne_slash hd),
      slashes_cons (by decide), ← hclosed]
    rfl
  | false =>
    have hcygwin := cygwinDrive_eq hlead hread
    rw [shownText, if_neg (by rw [hlead]; exact Bool.false_ne_true), slashes_forward, linkUnits, hcygwin,
      ← utf16_slashes]
    cases habsolute : isAbsolutePath (utf8 s) with
    | false => rfl
    | true =>
      obtain ⟨t, rfl⟩ := absolute_slash habsolute hlead
      have hhead : (utf16 (slashes ('/' :: t))).modifyHead towupper = utf16 (slashes ('/' :: t)) := by
        rw [utf16_slashes, utf16_cons]
        rfl
      rw [if_pos rfl, hhead, rootDrive, length_utf16_slashes, if_neg (htwo habsolute hlead)]

/-! ## The names of the record -/

theorem Reparse.Describes.shown {r : Reparse} {printName substituteName : List WChar}
    (h : r.Describes printName substituteName) (hne : printName ≠ []) : r.names.shown = some printName := by
  have hpos := List.length_pos_of_ne_nil hne
  have hlength : r.printNameLength ≠ 0 := by
    intro hzero
    have hprint := h.printLength
    rw [hzero] at hprint
    change 0 = _ at hprint
    omega
  rw [NameBuffer.shown, Reparse.names, if_pos hlength, NameBuffer.window]
  simp only
  rw [h.printOffset, h.printLength, h.written, Nat.zero_div, List.drop_zero,
    Nat.mul_div_cancel_left _ (by decide : 0 < 2), List.take_left]

/-- A record without names shows nothing. -/
theorem Reparse.Describes.shown_nil {r : Reparse} (h : r.Describes [] []) : r.names.shown = none := by
  have hprint : r.printNameLength = 0 := UInt16.toNat_inj.mp h.printLength
  have hsubstitute : r.substituteNameLength = 0 := UInt16.toNat_inj.mp h.substituteLength
  rw [NameBuffer.shown, Reparse.names, hprint, hsubstitute]
  rfl

theorem length_convertBsToFs (bytes : List UInt8) : (convertBsToFs bytes).length = bytes.length := List.length_map _

/-- What arrives in the buffer. -/
theorem storeName_iff (zero : Fin 2) {name : List UInt8} (hname : name.length + 1 ≤ 0xFFFF) (bufsiz : Nat) :
    (storeName zero name bufsiz).map (Option.map convertBsToFs) = .ok (some ((convertBsToFs name).take bufsiz)) ↔
      bufsiz ≤ name.length ∨ name.length + zero ≤ bufsiz % 2 ^ 16 := by
  have hmod := Nat.mod_le bufsiz (2 ^ 16)
  rw [storeName]
  by_cases hfits : name.length + zero ≤ bufsiz % 2 ^ 16
  · rw [if_pos hfits]
    refine ⟨fun _ => .inr hfits, fun _ => ?_⟩
    rw [List.take_of_length_le (by rw [length_convertBsToFs]; omega)]
    rfl
  rw [if_neg hfits, if_neg (by omega)]
  by_cases hover : name.length + 1 < bufsiz
  · rw [if_pos hover]
    refine ⟨fun h => ?_, fun h => ?_⟩
    · cases h
    · rcases h with h | h
      · omega
      · exact absurd h hfits
  rw [if_neg hover]
  change Except.ok (some (convertBsToFs ((name ++ [0]).take bufsiz))) = _ ↔ _
  constructor
  · intro h
    left
    have hlength := congrArg List.length (Option.some.inj (Except.ok.inj h))
    rw [length_convertBsToFs, List.length_take, List.length_take, length_convertBsToFs, List.length_append] at hlength
    change min bufsiz (name.length + 1) = _ at hlength
    omega
  · rintro (h | h)
    · rw [List.take_append_of_le_length h, convertBsToFs, convertBsToFs, List.map_take]
    · exact absurd h hfits

end WindowsLibc.Path.Absolute
