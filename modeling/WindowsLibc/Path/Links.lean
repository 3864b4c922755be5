import WindowsLibc.Path.Sizes
import WindowsLibc.Path.Symlink

/-!
# Where symbolic links lead (`unistd/symlink.c`)

The text of a link is resolved as a path again. Its drive is found by other comparisons than those of
`get_absolute_ntpath2`, which make a drive of `/tmp` and `/dev` as well.

* `utf16_injective`, and what slashes become in both encodings.
* `linkable_right` says which sources have links that lead to them.
-/

namespace WindowsLibc.Path.Absolute

open WindowsLibc.Lib WindowsLibc.Fcntl
open WindowsLibc.Spawn (CString)

/-! ## Characters -/

/-- A character is one unit that is no surrogate, or a pair. -/
theorem utf16Units_cases (c : Char) :
    (∃ u, utf16Units c = [u] ∧ u.toNat = c.toNat ∧ (c.toNat < 0xD800 ∨ 0xDFFF < c.toNat)) ∨
      ∃ high low, utf16Units c = [high, low] ∧ 0x10000 ≤ c.toNat ∧
        high.toNat = 0xD800 + (c.toNat - 0x10000) / 0x400 ∧ high.toNat ≤ 0xDBFF ∧
        low.toNat = 0xDC00 + (c.toNat - 0x10000) % 0x400 := by
  have hvalid : c.toNat < 0xD800 ∨ 0xDFFF < c.toNat ∧ c.toNat < 0x110000 := c.valid
  rw [utf16Units]
  by_cases hsmall : c.toNat < 0x10000
  · rw [if_pos hsmall]
    refine .inl ⟨_, rfl, ?_, by omega⟩
    rw [UInt16.toNat_ofNat']
    omega
  · rw [if_neg hsmall]
    refine .inr ⟨_, _, rfl, by omega, ?_, ?_, ?_⟩
    · rw [UInt16.toNat_ofNat']
      omega
    · rw [UInt16.toNat_ofNat']
      omega
    · rw [UInt16.toNat_ofNat']
      omega

theorem utf16Units_append_inj {c d : Char} {s t : List WChar} (h : utf16Units c ++ s = utf16Units d ++ t) :
    c = d ∧ s = t := by
  rcases utf16Units_cases c with ⟨u, hc, hu, hcs⟩ | ⟨high, low, hc, hcl, hhigh, hle, hlow⟩
  · rcases utf16Units_cases d with ⟨v, hd, hv, hds⟩ | ⟨high', low', hd, hdl, hhigh', hle', hlow'⟩
    · rw [hc, hd] at h
      obtain ⟨hfirst, hrest⟩ := List.cons.inj h
      exact ⟨Char.toNat_inj.mp (hu.symm.trans ((congrArg UInt16.toNat hfirst).trans hv)), hrest⟩
    · rw [hc, hd] at h
      have hfirst := congrArg UInt16.toNat (List.cons.inj h).1
      omega
  · rcases utf16Units_cases d with ⟨v, hd, hv, hds⟩ | ⟨high', low', hd, hdl, hhigh', hle', hlow'⟩
    · rw [hc, hd] at h
      have hfirst := congrArg UInt16.toNat (List.cons.inj h).1
      omega
    · rw [hc, hd] at h
      obtain ⟨hfirst, hrest⟩ := List.cons.inj h
      obtain ⟨hsecond, hrest⟩ := List.cons.inj hrest
      have hfirst := congrArg UInt16.toNat hfirst
      have hsecond := congrArg UInt16.toNat hsecond
      exact ⟨Char.toNat_inj.mp (by omega), hrest⟩

theorem utf16_cons (c : Char) (s : List Char) : utf16 (c :: s) = utf16Units c ++ utf16 s := List.flatMap_cons

theorem utf16_injective {s t : List Char} (h : utf16 s = utf16 t) : s = t := by
  induction s generalizing t with
  | nil =>
    cases t with
    | nil => rfl
    | cons d t =>
      have hpos := (length_utf16Units d).2.2
      have hlength := congrArg List.length h
      rw [utf16_cons, List.length_append] at hlength
      change 0 = _ at hlength
      omega
  | cons c s ih =>
    cases t with
    | nil =>
      have hpos := (length_utf16Units c).2.2
      have hlength := congrArg List.length h
      rw [utf16_cons, List.length_append] at hlength
      change _ = 0 at hlength
      omega
    | cons d t =>
      rw [utf16_cons, utf16_cons] at h
      obtain ⟨hc, hs⟩ := utf16Units_append_inj h
      rw [hc, ih hs]

/-- Backslashes for slashes. -/
def slashes (s : List Char) : List Char := s.map (fun c => if c = '/' then '\\' else c)

/-- The same, in bytes. -/
def slashBytes (path : List UInt8) : List UInt8 := path.map (fun b => if b = 47 then 92 else b)

theorem utf16_slashes (s : List Char) : utf16 (slashes s) = backslashed (utf16 s) := by
  induction s with
  | nil => rfl
  | cons c s ih =>
    change utf16 ((if c = '/' then '\\' else c) :: slashes s) = _
    rw [utf16_cons, utf16_cons, ih, backslashed, backslashed, List.map_append]
    congr 1
    by_cases hc : c = '/'
    · rw [if_pos hc, hc]
      rfl
    · rw [if_neg hc]
      have hne (u : WChar) (hu : u.toNat ≠ 47) : (if u = 47 then backslash else u) = u :=
        if_neg (fun heq => hu (congrArg UInt16.toNat heq))
      rcases utf16Units_cases c with ⟨u, hunits, hu, -⟩ | ⟨high, low, hunits, -, hhigh, -, hlow⟩
      · rw [hunits, List.map_singleton, hne u (fun h => hc (Char.toNat_inj.mp (hu.symm.trans h)))]
      · rw [hunits, List.map_cons, List.map_singleton, hne high (by omega), hne low (by omega)]

theorem utf8_slashes (s : List Char) : utf8 (slashes s) = slashBytes (utf8 s) := by
  induction s with
  | nil => rfl
  | cons c s ih =>
    change utf8 ((if c = '/' then '\\' else c) :: slashes s) = _
    rw [utf8_cons, utf8_cons, ih, slashBytes, slashBytes, List.map_append]
    congr 1
    by_cases hc : c = '/'
    · rw [if_pos hc, hc]
      rfl
    · rw [if_neg hc]
      have hne (b : UInt8) (hb : b ∈ String.utf8EncodeChar c) : (if b = 47 then 92 else b) = b := by
        refine if_neg (fun heq => ?_)
        rcases utf8EncodeChar_cases c with ⟨hsmall, hencode⟩ | ⟨-, hlarge⟩
        · rw [hencode, List.mem_singleton, heq] at hb
          have hnat := congrArg UInt8.toNat hb
          rw [UInt8.toNat_ofNat', Nat.mod_eq_of_lt (by omega)] at hnat
          exact hc (Char.toNat_inj.mp hnat.symm)
        · have hle := hlarge b hb
          rw [heq] at hle
          exact absurd hle (by decide)
      rw [List.map_congr_left hne, List.map_id']

theorem length_slashBytes (path : List UInt8) : (slashBytes path).length = path.length := List.length_map _

theorem utf16Units_ascii {c : Char} {b : UInt8} (h : c.toNat = b.toNat) : utf16Units c = [b.toUInt16] := by
  have hlt := b.toNat_lt
  rw [utf16Units, if_pos (by omega)]
  refine congrArg (· :: []) (UInt16.toNat_inj.mp ?_)
  rw [UInt16.toNat_ofNat', UInt8.toNat_toUInt16]
  omega

/-- The character of a byte of ASCII. -/
def byteChar (b : UInt8) : Char := Char.ofNat b.toNat

theorem toNat_byteChar (b : UInt8) : (byteChar b).toNat = b.toNat := by
  have hlt := b.toNat_lt
  rw [byteChar, Char.ofNat, dif_pos (.inl (by omega))]
  rfl

theorem utf8EncodeChar_byteChar {b : UInt8} (h : b.toNat < 128) : String.utf8EncodeChar (byteChar b) = [b] := by
  rcases utf8EncodeChar_cases (byteChar b) with ⟨-, hencode⟩ | ⟨hlarge, -⟩
  · rw [hencode, toNat_byteChar, UInt8.ofNat_toNat]
  · rw [toNat_byteChar] at hlarge
    omega

namespace Surroundings

/-- What is used of the letters. -/
theorem letter_facts {b : UInt8} (h : isAlpha b = true) :
    isAlpha (upper b) = true ∧ upper (upper b) = upper b ∧ towupper b.toUInt16 = (upper b).toUInt16 ∧
      towupper (upper b).toUInt16 = (upper b).toUInt16 ∧ isAlpha b.toUInt16.toUInt8 = true ∧
      b.toUInt16 ≠ 47 ∧ (upper b).toUInt16 ≠ 47 := by
  have hall : ∀ n < 128, isAlpha (UInt8.ofNat n) = true →
      isAlpha (upper (UInt8.ofNat n)) = true ∧ upper (upper (UInt8.ofNat n)) = upper (UInt8.ofNat n) ∧
      towupper (UInt8.ofNat n).toUInt16 = (upper (UInt8.ofNat n)).toUInt16 ∧
      towupper (upper (UInt8.ofNat n)).toUInt16 = (upper (UInt8.ofNat n)).toUInt16 ∧
      isAlpha (UInt8.ofNat n).toUInt16.toUInt8 = true ∧
      (UInt8.ofNat n).toUInt16 ≠ 47 ∧ (upper (UInt8.ofNat n)).toUInt16 ≠ 47 := by decide
  have hb := hall b.toNat (lt_of_isAlpha h).2
  rw [UInt8.ofNat_toNat] at hb
  exact hb h

theorem capital_of_upper {d : UInt8} (hd : isAlpha d = true) (h : upper d = d) : 65 ≤ d ∧ d ≤ 90 := by
  have hall : ∀ n < 128, isAlpha (UInt8.ofNat n) = true → upper (UInt8.ofNat n) = UInt8.ofNat n →
      65 ≤ UInt8.ofNat n ∧ UInt8.ofNat n ≤ 90 := by decide
  have hletter := hall d.toNat (lt_of_isAlpha hd).2
  rw [UInt8.ofNat_toNat] at hletter
  exact hletter hd h

/-! ## The text of a link -/

/-- A path on a drive, by its first two bytes. -/
theorem linkUnits_drive {b c : UInt8} {rest : List UInt8} (h : isAlpha b = true ∧ c = 58 ∨ b = 47 ∧ isAlpha c = true)
    {s : List Char} (hs : b :: c :: rest = utf8 s) :
    ∃ s', rest = utf8 s' ∧ (utf16 s).length = (utf16 s').length + 2 ∧
      backslashed ((utf16 s).drop 2) = backslashed (utf16 s') ∧
      linkUnits true (utf16 s) = rootDrive ((driveOf (b :: c :: rest)).toUInt16 :: 58 :: backslashed (utf16 s')) := by
  have hsmall : b.toNat < 128 ∧ c.toNat < 128 := by
    rcases h with ⟨hb, rfl⟩ | ⟨rfl, hc⟩
    · exact ⟨(lt_of_isAlpha hb).2, by decide⟩
    · exact ⟨by decide, (lt_of_isAlpha hc).2⟩
  obtain ⟨x, s, rfl, hx, hs⟩ := exists_cons_of_utf8 hs.symm hsmall.1
  obtain ⟨y, s, rfl, hy, rfl⟩ := exists_cons_of_utf8 hs hsmall.2
  have hunits : utf16 (x :: y :: s) = b.toUInt16 :: c.toUInt16 :: utf16 s := by
    rw [utf16_cons, utf16_cons, utf16Units_ascii hx, utf16Units_ascii hy]
    rfl
  refine ⟨s, rfl, by rw [hunits, List.length_cons, List.length_cons], by rw [hunits]; rfl, ?_⟩
  rw [hunits, linkUnits]
  rcases h with ⟨hb, rfl⟩ | ⟨rfl, hc⟩
  · obtain ⟨-, -, hupper, -, -, hne, -⟩ := letter_facts hb
    have hdrive : driveOf (b :: 58 :: utf8 s) = upper b := by
      rw [driveOf, if_neg]
      · rfl
      · rw [List.getD_cons_zero, beq_iff_eq]
        intro heq
        exact hne (heq ▸ rfl)
    have hcygwin : cygwinDrive (b.toUInt16 :: 58 :: utf16 s) = b.toUInt16 :: 58 :: utf16 s :=
      if_neg (fun h => hne h.1)
    have hbackslashed : backslashed (b.toUInt16 :: 58 :: utf16 s) = b.toUInt16 :: 58 :: backslashed (utf16 s) := by
      rw [backslashed, List.map_cons, if_neg hne]
      rfl
    change rootDrive ((backslashed (cygwinDrive (b.toUInt16 :: 58 :: utf16 s))).modifyHead towupper) = _
    rw [hcygwin, hbackslashed, List.modifyHead_cons, hupper, hdrive]
  · obtain ⟨-, -, hupper, hupper', halpha, -, hne⟩ := letter_facts hc
    have hdrive : driveOf (47 :: c :: utf8 s) = upper c := rfl
    have hcygwin : cygwinDrive (47 :: c.toUInt16 :: utf16 s) = towupper c.toUInt16 :: 58 :: utf16 s :=
      if_pos ⟨rfl, halpha⟩
    have hbackslashed : backslashed (towupper c.toUInt16 :: 58 :: utf16 s) =
        (upper c).toUInt16 :: 58 :: backslashed (utf16 s) := by
      rw [backslashed, List.map_cons, hupper, if_neg hne]
      rfl
    change rootDrive ((backslashed (cygwinDrive (47 :: c.toUInt16 :: utf16 s))).modifyHead towupper) = _
    rw [hcygwin, hbackslashed, List.modifyHead_cons, hupper', hdrive]

/-- The text behind the drive, with the separator that is added. -/
def closed (s : List Char) : List Char := if s = [] then ['\\'] else slashes s

theorem rootDrive_pair {x y : Char} {b c : UInt8} (hx : x.toNat = b.toNat) (hy : y.toNat = c.toNat) (s : List Char) :
    rootDrive (b.toUInt16 :: c.toUInt16 :: backslashed (utf16 s)) = utf16 (x :: y :: closed s) := by
  rw [utf16_cons, utf16_cons, utf16Units_ascii hx, utf16Units_ascii hy, closed]
  by_cases hs : s = []
  · subst hs
    rfl
  · have hne : (b.toUInt16 :: c.toUInt16 :: backslashed (utf16 s)).length ≠ 2 := by
      obtain ⟨c, s, rfl⟩ := List.exists_cons_of_ne_nil hs
      have hpos := (length_utf16Units c).2.2
      rw [List.length_cons, List.length_cons, backslashed, List.length_map, length_utf16_cons]
      omega
    rw [rootDrive, if_neg hne, if_neg hs, utf16_slashes]
    rfl

/-! ## Resolution -/

/-- The text of a path. -/
def textOf (s : NtString) : List WChar := s.buffer.take (s.length.toNat / 2)

theorem textOf_of_holds {s : NtString} {text : List WChar} (h : s.Holds text) : textOf s = text := by
  obtain ⟨tail, htail⟩ := h.isPrefix
  rw [textOf, h.length, Nat.mul_div_cancel_left _ (by decide : 0 < 2), ← htail, List.append_assoc, List.take_left]

/-- A path that begins with a drive is on it. -/
theorem route_drive {b : UInt8} (hb : isAlpha b = true) (rest : List UInt8) : route (b :: 58 :: rest) = .file := by
  have hall : ∀ n < 128, isAlpha (UInt8.ofNat n) = true →
      (UInt8.ofNat n == 47) = false ∧ (UInt8.ofNat n == 92) = false ∧ (lower (UInt8.ofNat n) == 92) = false ∧
        (lower (UInt8.ofNat n) == 47) = false := by decide
  have hletter := hall b.toNat (lt_of_isAlpha hb).2
  rw [UInt8.ofNat_toNat] at hletter
  obtain ⟨hslash, hback, hlower, hlower'⟩ := hletter hb
  have hroot : isRootPath (b :: 58 :: rest) = false := rfl
  have hdev : same 5 (b :: 58 :: rest) (ascii ['/', 'd', 'e', 'v', '/']) = false := by
    change (b == 47 && _) = false
    rw [hslash, Bool.false_and]
  have hnul : ((b :: 58 :: rest).map lower == ascii ['n', 'u', 'l']) = false := by
    change (lower b == 110 && (false && _)) = false
    rw [Bool.false_and, Bool.and_false]
  have hcon : sameLetters 3 (b :: 58 :: rest) (ascii ['C', 'O', 'N']) = false := by
    change (lower b == 99 && (false && _)) = false
    rw [Bool.false_and, Bool.and_false]
  have hpipe : isPipe (b :: 58 :: rest) = false := by
    change (lower b == 92 && _) = false
    rw [hlower, Bool.false_and]
  have hshare : ((b :: 58 :: rest).getD 0 0 == 92 && (b :: 58 :: rest).getD 1 0 == 92 ||
      (b :: 58 :: rest).getD 0 0 == 47 && (b :: 58 :: rest).getD 1 0 == 47) = false := by
    change (b == 92 && _ || b == 47 && _) = false
    rw [hback, hslash]
    rfl
  have htmp : sameLetters 4 (b :: 58 :: rest) (ascii ['/', 't', 'm', 'p']) = false := by
    change (lower b == 47 && _) = false
    rw [hlower', Bool.false_and]
  simp only [route, dosDevice, hroot, hdev, hnul, hcon, hpipe, hshare, htmp, Bool.false_eq_true, if_false]

theorem convertPath_utf8 {s : List Char} (hbytes : (utf8 s).length ≤ 0xFFFE)
    (hunits : 2 * (utf16 s).length + 2 ≤ 0xFFFF) : convertPath (utf8 s) = some (backslashed (utf16 s)) := by
  rw [convertPath, List.take_of_length_le hbytes, rtlUtf8ToUnicode_utf8]
  exact if_neg (by omega)

variable (env : Surroundings)

/-- Of a path on a drive, the drive itself is only counted. -/
theorem absoluteNtpath_congr (volume : UInt8) {units units' : List WChar} (hlength : units.length = units'.length)
    (hdrop : (units ++ [0]).drop 2 = (units' ++ [0]).drop 2) :
    env.absoluteNtpath volume units = env.absoluteNtpath volume units' := by
  have hmaximum : maximumLength units = maximumLength units' := by rw [maximumLength, maximumLength, hlength]
  have hsize : absoluteSize units = absoluteSize units' := by rw [absoluteSize, absoluteSize, hmaximum]
  simp only [absoluteNtpath, hmaximum, hsize, hdrop, hlength]

theorem utf8_drive {d : UInt8} (hd : isAlpha d = true) (t : List Char) :
    utf8 (byteChar d :: ':' :: t) = d :: 58 :: utf8 t := by
  rw [utf8_cons, utf8_cons, utf8EncodeChar_byteChar (lt_of_isAlpha hd).2]
  rfl

theorem fileNtpath_drive (dirfd : Int) {d : UInt8} (hd : isAlpha d = true) {t : List Char}
    (hbytes : (utf8 t).length ≤ 0xFFFC) (hunits : 2 * (utf16 t).length + 6 ≤ 0xFFFF) :
    env.fileNtpath dirfd (d :: 58 :: utf8 t) =
      env.absoluteNtpath (upper d) (d.toUInt16 :: 58 :: backslashed (utf16 t)) := by
  have hpath := utf8_drive hd t
  have htext : utf16 (byteChar d :: ':' :: t) = d.toUInt16 :: 58 :: utf16 t := by
    rw [utf16_cons, utf16_cons, utf16Units_ascii (toNat_byteChar d)]
    rfl
  have hne : (d == 47) = false := by
    rw [beq_eq_false_iff_ne]
    intro heq
    have hletter := lt_of_isAlpha hd
    rw [heq] at hletter
    exact absurd hletter.1 (by decide)
  have habsolute : isAbsolutePath (d :: 58 :: utf8 t) = true := by
    change (isAlpha d && true || _) = true
    rw [hd]
    rfl
  have hbad : isBadPath (d :: 58 :: utf8 t) = false := by
    change (d == 47 && _) = false
    rw [hne, Bool.false_and]
  have hdrive : driveOf (d :: 58 :: utf8 t) = upper d := by
    change upper (if (d == 47) = true then _ else d) = _
    rw [hne]
    rfl
  have hconvert : convertPath (d :: 58 :: utf8 t) = some (d.toUInt16 :: 58 :: backslashed (utf16 t)) := by
    rw [← hpath, convertPath_utf8 (by rw [hpath, List.length_cons, List.length_cons]; omega)
      (by rw [htext, List.length_cons, List.length_cons]; omega), htext, backslashed, List.map_cons, if_neg]
    · rfl
    · exact (letter_facts hd).2.2.2.2.2.1
  simp only [fileNtpath, habsolute, hbad, hdrive, hconvert, Bool.false_eq_true, if_false, if_true]

theorem getAbsoluteNtpath2_drive (dirfd : Int) {d : UInt8} (hd : isAlpha d = true) {t : List Char}
    (hbytes : (utf8 t).length ≤ 0xFFFC) (hunits : 2 * (utf16 t).length + 6 ≤ 0xFFFF) :
    env.getAbsoluteNtpath2 dirfd (utf8 (byteChar d :: ':' :: t)) =
      env.absoluteNtpath (upper d) (d.toUInt16 :: 58 :: backslashed (utf16 t)) := by
  rw [utf8_drive hd]
  simp only [getAbsoluteNtpath2, route_drive hd, env.fileNtpath_drive dirfd hd hbytes hunits]

/-- What an accepted path on a drive is. -/
theorem getAbsoluteNtpath2_file {dirfd : Int} {source : List UInt8} (hroute : route source = .file)
    (habsolute : isAbsolutePath source = true) {answer : NtString × Option HandleType}
    (h : env.getAbsoluteNtpath2 dirfd source = .ok (.ok answer)) :
    isBadPath source = false ∧ ∃ units, convertPath source = some units ∧
      env.absoluteNtpath (driveOf source) units = .ok (.ok answer) := by
  simp only [getAbsoluteNtpath2, hroute, fileNtpath, habsolute, if_true] at h
  rcases ite_eq_iff.mp h with ⟨-, h⟩ | ⟨hbad, h⟩
  · cases Except.ok.inj h
  · rw [Bool.not_eq_true] at hbad
    cases hunits : convertPath source with
    | none =>
      rw [hunits] at h
      cases Except.ok.inj h
    | some units =>
      rw [hunits] at h
      exact ⟨hbad, units, rfl, h⟩

/-- A drive, with a separator behind it and without. -/
theorem exists_rootBuffers {n : Nat} (hn : n < 10000) :
    ∃ b b' : Buffer, b.device ++ b.below = volumeName n ∧ b'.device ++ b'.below = volumeName n ++ [backslash] ∧
      kept b = volumeName n ++ [backslash] ∧ kept b' = volumeName n ++ [backslash] := by
  obtain ⟨name, hclean, -, hname⟩ := volumeName_eq hn
  refine ⟨⟨name, [], hclean, List.not_mem_nil, .inl rfl⟩, ⟨name, [backslash], hclean, by decide, .inr rfl⟩,
    ?_, ?_, ?_, ?_⟩
  · rw [hname, List.append_nil]
    rfl
  · rw [hname]
    rfl
  · rw [kept, joined_eq, hname]
    rfl
  · rw [kept, joined_eq, hname]
    rfl

theorem backslashed_backslashed (units : List WChar) : backslashed (backslashed units) = backslashed units := by
  rw [backslashed, backslashed, List.map_map]
  refine List.map_congr_left fun c _ => ?_
  rw [Function.comp_apply]
  by_cases hc : c = 47
  · rw [if_pos hc]
    rfl
  · rw [if_neg hc, if_neg hc]

theorem length_utf16_slashes (s : List Char) : (utf16 (slashes s)).length = (utf16 s).length := by
  rw [utf16_slashes, backslashed, List.length_map]

theorem length_utf8_slashes (s : List Char) : (utf8 (slashes s)).length = (utf8 s).length := by
  rw [utf8_slashes, length_slashBytes]

theorem length_closed (s : List Char) :
    (utf16 (closed s)).length ≤ (utf16 s).length + 1 ∧ (utf8 (closed s)).length ≤ (utf8 s).length + 1 := by
  rw [closed]
  by_cases hs : s = []
  · rw [if_pos hs, hs]
    decide
  · rw [if_neg hs, length_utf16_slashes, length_utf8_slashes]
    omega

theorem driveOf_letter {b c : UInt8} (rest : List UInt8)
    (h : isAlpha b = true ∧ c = 58 ∨ b = 47 ∧ isAlpha c = true) :
    isAlpha (driveOf (b :: c :: rest)) = true ∧ upper (driveOf (b :: c :: rest)) = driveOf (b :: c :: rest) := by
  have hdrive : ∃ d, isAlpha d = true ∧ driveOf (b :: c :: rest) = upper d := by
    rcases h with ⟨hb, -⟩ | ⟨rfl, hc⟩
    · refine ⟨b, hb, congrArg upper (if_neg ?_)⟩
      rw [List.getD_cons_zero, beq_iff_eq]
      rintro rfl
      exact absurd hb (by decide)
    · exact ⟨c, hc, rfl⟩
  obtain ⟨d, hd, hdrive⟩ := hdrive
  obtain ⟨halpha, hupper, -⟩ := letter_facts hd
  rw [hdrive]
  exact ⟨halpha, hupper⟩

/-- The link to a path on a drive. -/
theorem drive_resolves {dirfd : Int} {s : List Char} (hsmall : (utf16 s).length ≤ 16377)
    (hroute : route (utf8 s) = .file) (habsolute : isAbsolutePath (utf8 s) = true)
    {answer : NtString × Option HandleType} (h : env.getAbsoluteNtpath2 dirfd (utf8 s) = .ok (.ok answer)) :
    ∃ (text : List Char) (t : NtString) (type : Option HandleType), linkUnits true (utf16 s) = utf16 text ∧
      env.getAbsoluteNtpath2 dirfd (utf8 text) = .ok (.ok (t, type)) ∧ textOf t = textOf answer.1 := by
  obtain ⟨hbad, units, hunits, hntpath⟩ := env.getAbsoluteNtpath2_file hroute habsolute h
  obtain ⟨b, c, rest, hpath, hcases⟩ := absolute_cases habsolute hbad
  have hlead : isAlpha b = true ∧ c = 58 ∨ b = 47 ∧ isAlpha c = true := by
    rcases hcases with hdrive | ⟨hb, hc, -⟩
    · exact .inl hdrive
    · exact .inr ⟨hb, hc⟩
  obtain ⟨s', hrest, hlength, hdrop, hlink⟩ := linkUnits_drive hlead hpath.symm
  obtain ⟨hd, hupper⟩ := driveOf_letter rest hlead
  rw [← hpath] at hlink hd hupper
  have hbytes := (length_utf16 s).2
  have hbytes' := (length_utf16 s').2
  have hclosed := length_closed s'
  rw [convertPath_utf8 (by omega) (by omega)] at hunits
  obtain rfl := Option.some.inj hunits
  have htext := env.getAbsoluteNtpath2_drive dirfd hd (t := closed s') (by omega) (by omega)
  rw [hupper] at htext
  have hunits : rootDrive ((driveOf (utf8 s)).toUInt16 :: 58 :: backslashed (utf16 s')) =
      utf16 (byteChar (driveOf (utf8 s)) :: ':' :: closed s') :=
    rootDrive_pair (y := ':') (c := 58) (toNat_byteChar _) rfl s'
  refine ⟨byteChar (driveOf (utf8 s)) :: ':' :: closed s', ?_⟩
  rw [hlink, hunits, htext]
  by_cases hs : s' = []
  · -- The separator is added by both.
    subst hs
    rcases env.ntDevice_cases (driveOf (utf8 s)) with hnone | ⟨n, hn, hdevice⟩
    · rw [absoluteNtpath, hnone] at hntpath
      cases Except.ok.inj hntpath
    · obtain ⟨b, b', hb, hb', hkept, hkept'⟩ := exists_rootBuffers hn
      have htwo : (backslashed (utf16 s)).length = 2 := by rw [backslashed, List.length_map, hlength]; rfl
      have hnil : (backslashed (utf16 s)).drop 2 = [] := List.drop_eq_nil_of_le (by omega)
      obtain ⟨t, ht, hholds⟩ := env.absoluteNtpath_spec hn hdevice htwo.ge (by rw [htwo]; decide)
        (hb.trans (by rw [hnil, List.append_nil]))
      have hthree : ((driveOf (utf8 s)).toUInt16 :: 58 :: backslashed (utf16 (closed []))).length = 3 := rfl
      obtain ⟨t', ht', hholds'⟩ := env.absoluteNtpath_spec hn hdevice (Nat.le_of_lt (by rw [hthree]; decide))
        (by rw [hthree]; decide) hb'
      rw [ht] at hntpath
      obtain rfl := Except.ok.inj (Except.ok.inj hntpath)
      refine ⟨t', _, rfl, ht', ?_⟩
      rw [textOf_of_holds hholds, textOf_of_holds hholds', hkept, hkept']
  · refine ⟨answer.1, answer.2, rfl, ?_, rfl⟩
    rw [← hntpath]
    refine env.absoluteNtpath_congr _ ?_ ?_
    · rw [closed, if_neg hs, utf16_slashes, backslashed_backslashed, List.length_cons, List.length_cons, backslashed,
        backslashed, List.length_map, List.length_map, hlength]
    · have hrest : (backslashed (utf16 s) ++ [0]).drop 2 = backslashed (utf16 s') ++ [0] := by
        rw [List.drop_append_of_le_length (by rw [backslashed, List.length_map]; omega), ← hdrop, backslashed,
          backslashed, List.map_drop]
      rw [closed, if_neg hs, utf16_slashes, backslashed_backslashed, hrest]
      rfl

theorem route_backslashes (rest : List UInt8) :
    route (92 :: 92 :: rest) = if isPipe (92 :: 92 :: rest) then .pipe else .share := by
  have hroot : isRootPath (92 :: 92 :: rest) = false := rfl
  have hdev : same 5 (92 :: 92 :: rest) (ascii ['/', 'd', 'e', 'v', '/']) = false := rfl
  have hdevice : dosDevice (92 :: 92 :: rest) = none := rfl
  have hshare : ((92 :: 92 :: rest).getD 0 0 == 92 && (92 :: 92 :: rest).getD 1 0 == 92 ||
      (92 :: 92 :: rest).getD 0 0 == 47 && (92 :: 92 :: rest).getD 1 (0 : UInt8) == 47) = true := rfl
  simp only [route, hroot, hdev, hdevice, hshare, Bool.false_eq_true, if_false, if_true]

/-- Of the path of a share, slashes and backslashes are the same. -/
theorem shareNtpath_slashes (heap : Fill) (entries : Nat → PathComponent) (size : Nat) {s : List Char}
    (hbytes : (utf8 s).length ≤ 0xFFFE) :
    shareNtpath heap entries size (utf8 (slashes s)) = shareNtpath heap entries size (utf8 s) := by
  have hlength := length_utf8_slashes s
  have hunits := length_utf16_slashes s
  have hback : backslashed (utf16 (slashes s)) = backslashed (utf16 s) := by
    rw [utf16_slashes, backslashed_backslashed]
  have htake := List.take_of_length_le hbytes
  have htake' := List.take_of_length_le (l := utf8 (slashes s)) (i := 0xFFFE) (by omega)
  simp only [shareNtpath, htake, htake', rtlUtf8ToUnicode_utf8, hlength, hunits, hback]

/-- `//` is the device itself, and `\\\` has an empty name on it. -/
theorem shareNtpath_nothing (heap : Fill) (entries : Nat → PathComponent) (doublings : Nat) :
    ∃ s t, shareNtpath heap entries (16 * 2 ^ doublings) [47, 47] = .ok (some s) ∧
      shareNtpath heap entries (16 * 2 ^ doublings) [92, 92, 92] = .ok (some t) ∧ textOf t ≠ textOf s := by
  obtain ⟨s, hs, hholds⟩ := shareNtpath_fits heap entries doublings
    (p := ⟨'/', [], .inl rfl, by decide, by decide⟩) (by decide)
  obtain ⟨t, ht, hholds'⟩ := shareNtpath_fits heap entries doublings
    (p := ⟨'\\', ['\\'], .inr rfl, by decide, by decide⟩) (by decide)
  refine ⟨s, t, hs, ht, ?_⟩
  rw [textOf_of_holds hholds, textOf_of_holds hholds']
  decide

/-- What an accepted path of a share is. -/
theorem getAbsoluteNtpath2_share {dirfd : Int} {source : List UInt8} (hroute : route source = .share)
    {answer : NtString × Option HandleType} (h : env.getAbsoluteNtpath2 dirfd source = .ok (.ok answer)) :
    shareNtpath env.heap env.entries (16 * 2 ^ env.doublings) source = .ok (some answer.1) ∧
      answer.2 = some .file := by
  simp only [getAbsoluteNtpath2, hroute, bind, Except.bind] at h
  cases hshare : shareNtpath env.heap env.entries (16 * 2 ^ env.doublings) source with
  | error stop =>
    rw [hshare] at h
    cases h
  | ok ntpath =>
    rw [hshare] at h
    cases ntpath with
    | none => cases Except.ok.inj h
    | some ntpath =>
      obtain rfl := Except.ok.inj (Except.ok.inj h)
      exact ⟨rfl, rfl⟩

/-- The text of a link to a share. -/
theorem linkUnits_share {s : List Char} (hs : [47, 47] <+: utf8 s) :
    ∃ s', s = '/' :: '/' :: s' ∧ linkUnits true (utf16 s) = utf16 ('\\' :: '\\' :: closed s') := by
  obtain ⟨rest, hrest⟩ := hs
  obtain ⟨x, s, rfl, hx, hs⟩ := exists_cons_of_utf8 hrest.symm (by decide)
  obtain ⟨y, s, rfl, hy, -⟩ := exists_cons_of_utf8 hs (by decide)
  obtain rfl : x = '/' := Char.toNat_inj.mp hx
  obtain rfl : y = '/' := Char.toNat_inj.mp hy
  have hunits : rootDrive (92 :: 92 :: backslashed (utf16 s)) = utf16 ('\\' :: '\\' :: closed s) :=
    rootDrive_pair (x := '\\') (y := '\\') (b := 92) (c := 92) rfl rfl s
  refine ⟨s, rfl, hunits ▸ ?_⟩
  rfl

/-- The path of a share that has been accepted: if it is short, its size has not wrapped. -/
theorem share_fits {s : List Char} (h0 : 0 ∉ utf8 s) (hsmall : (utf16 s).length ≤ 16377)
    (hroute : route (utf8 s) = .share) {ntpath : NtString}
    (hntpath : shareNtpath env.heap env.entries (16 * 2 ^ env.doublings) (utf8 s) = .ok (some ntpath)) :
    2 * (utf8 s).length + 22 < 2 ^ 16 := by
  have hrouted := routed h0
  rw [hroute] at hrouted
  cases hrouted with
  | share hnot hlead =>
    obtain ⟨p, hp, htext⟩ := exists_sharePath h0 hnot hlead rfl
    have hbytes := (length_utf16 s).2
    by_contra hwrap
    have hunfit : ¬ p.Fits := by
      rw [SharePath.Fits, htext, hp]
      omega
    exact shareNtpath_not_fits env.heap env.entries _ hunfit ntpath (hp ▸ hntpath)

/-- The link to a share. -/
theorem share_resolves {dirfd : Int} {s : List Char} (h0 : 0 ∉ utf8 s) (hsmall : (utf16 s).length ≤ 16377)
    (hroute : route (utf8 s) = .share) (hslash : [47, 47] <+: utf8 s) (hname : utf8 s ≠ [47, 47])
    (hpipe : isPipe (slashBytes (utf8 s)) = false)
    {answer : NtString × Option HandleType} (h : env.getAbsoluteNtpath2 dirfd (utf8 s) = .ok (.ok answer)) :
    ∃ (text : List Char) (t : NtString) (type : Option HandleType), linkUnits true (utf16 s) = utf16 text ∧
      env.getAbsoluteNtpath2 dirfd (utf8 text) = .ok (.ok (t, type)) ∧ textOf t = textOf answer.1 := by
  obtain ⟨hntpath, htype⟩ := env.getAbsoluteNtpath2_share hroute h
  have hbytes := (length_utf16 s).2
  obtain ⟨s', rfl, hlink⟩ := linkUnits_share hslash
  have hs : s' ≠ [] := by
    rintro rfl
    exact hname rfl
  have htext : '\\' :: '\\' :: closed s' = slashes ('/' :: '/' :: s') := by
    rw [closed, if_neg hs]
    rfl
  refine ⟨slashes ('/' :: '/' :: s'), answer.1, answer.2, htext ▸ hlink, ?_, rfl⟩
  have hroute' : route (utf8 (slashes ('/' :: '/' :: s'))) = .share := by
    rw [utf8_slashes]
    exact (route_backslashes _).trans (if_neg (fun h => Bool.false_ne_true (hpipe.symm.trans h)))
  simp only [getAbsoluteNtpath2, hroute',
    shareNtpath_slashes _ _ _ (by omega : (utf8 ('/' :: '/' :: s')).length ≤ 0xFFFE), hntpath, htype, bind, Except.bind]

/-- The link to the root of the current drive. -/
theorem root_resolves {dirfd : Int} {source : List UInt8} (hroot : route source = .root)
    {answer : NtString × Option HandleType} (h : env.getAbsoluteNtpath2 dirfd source = .ok (.ok answer)) :
    ∃ (text : List Char) (t : NtString) (type : Option HandleType),
      [env.cwd.letter.toUInt16, 58, backslash] = utf16 text ∧
      env.getAbsoluteNtpath2 dirfd (utf8 text) = .ok (.ok (t, type)) ∧ textOf t = textOf answer.1 := by
  obtain ⟨hmin, hmax, -⟩ := env.cwd_drive
  obtain ⟨n, hn, s, hlink, hs, hholds⟩ := env.rootNtpath_spec
  have hletter : isAlpha env.cwd.letter = true ∧ upper env.cwd.letter = env.cwd.letter := by
    have hcapital : ¬ 97 ≤ env.cwd.letter := UInt8.not_le.mpr (UInt8.lt_of_le_of_lt hmax (by decide))
    constructor
    · rw [isAlpha, Bool.or_eq_true, Bool.and_eq_true, decide_eq_true_iff, decide_eq_true_iff]
      exact .inl ⟨hmin, hmax⟩
    · rw [upper, if_neg]
      rw [Bool.and_eq_true, decide_eq_true_iff]
      exact fun h => hcapital h.1
  obtain ⟨b, b', -, hb', -, hkept'⟩ := exists_rootBuffers hn
  have hdevice : env.ntDevice env.cwd.letter = some (deviceOf (volumeName n)) := by
    rw [env.ntDevice_eq ⟨hmin, hmax⟩, hlink, Option.map_some]
  have hthree : [env.cwd.letter.toUInt16, 58, backslash].length = 3 := rfl
  obtain ⟨t, ht, hholds'⟩ := env.absoluteNtpath_spec hn hdevice (Nat.le_of_lt (by rw [hthree]; decide))
    (by rw [hthree]; decide) hb'
  simp only [getAbsoluteNtpath2, hroot, hs, bind, Except.bind] at h
  obtain rfl := Except.ok.inj (Except.ok.inj h)
  refine ⟨[byteChar env.cwd.letter, ':', '\\'], t, some .file, ?_, ?_, ?_⟩
  · rw [utf16_cons, utf16Units_ascii (toNat_byteChar _)]
    rfl
  · have hpath := env.getAbsoluteNtpath2_drive dirfd hletter.1 (t := ['\\']) (by decide) (by decide)
    rw [hpath, hletter.2]
    exact ht
  · rw [textOf_of_holds hholds, textOf_of_holds hholds', hkept']

/-! ## Sources -/

/-- A source that is resolved without the directory. -/
def FromRoot (source : List UInt8) : Prop := isRootPath source = true ∨ isAbsolutePath source = true

/-- There is a path for the source, in some surroundings. -/
def Accepted (source : List UInt8) : Prop :=
  ∃ (env : Surroundings) (dirfd : Int) (answer : NtString × Option HandleType),
    env.getAbsoluteNtpath2 dirfd source = .ok (.ok answer)

/-- Of a source that is accepted, nothing is written outside the record, the record describes what has been written,
and a link to an absolute source leads to it. -/
structure LinkRight (source : List UInt8) : Prop where
  inside : ∀ (env : Surroundings) (dirfd : Int) (target : List UInt8) (nttarget : NtString × Option HandleType)
    (created : Bool), env.getAbsoluteNtpath2 dirfd target = .ok (.ok nttarget) →
      env.acceptsSource dirfd source target = .ok true → env.commonSymlink dirfd source target created ≠ .error .fault
  described : ∀ (env : Surroundings) (dirfd : Int) (target : List UInt8) (created : Bool) (link : Link),
    env.commonSymlink dirfd source target created = .ok (some link) → ∃ name,
      link.reparse.Describes name (substituteOf (isRootPath source || isAbsolutePath source) name)
  resolved : FromRoot source → ∀ (env : Surroundings) (dirfd : Int) (target : List UInt8) (created : Bool) (link : Link)
    (answer : NtString × Option HandleType), env.commonSymlink dirfd source target created = .ok (some link) →
      env.getAbsoluteNtpath2 dirfd source = .ok (.ok answer) →
        ∃ (text : List Char) (t : NtString) (type : Option HandleType),
          link.reparse.substituteName = dosNames ++ utf16 text ∧
            env.getAbsoluteNtpath2 dirfd (utf8 text) = .ok (.ok (t, type)) ∧ textOf t = textOf answer.1

/-- What becomes of an absolute source is a drive or a share again. -/
def StaysDrive (source : List UInt8) : Prop :=
  route source = .file ∨ route source = .share ∧ source ≠ [47, 47] ∧ isPipe (slashBytes source) = false

/-- The root of the drive, what has no path, and what is short enough and no other name. -/
def Linkable (source : List UInt8) : Prop :=
  isRootPath source = true ∨ isAbsolutePath source = true ∧ ¬ Accepted source ∨
    ∀ units, convertSource source = some units →
      4 * (linkUnits (isAbsolutePath source) units).length + 20 + dosNamesLength (isAbsolutePath source) < 2 ^ 16 ∧
        (isAbsolutePath source = true → source.length < 2 ^ 16 ∧ StaysDrive source)

theorem length_linkUnits (absolute : Bool) (units : List WChar) :
    units.length ≤ (linkUnits absolute units).length ∧ (linkUnits absolute units).length ≤ max units.length 3 := by
  have hcygwin : (cygwinDrive units).length = units.length := by
    rw [cygwinDrive]
    split
    · next h =>
      match units with
      | [] => exact absurd h.1 (by decide)
      | [c] => exact absurd h.2 (by rw [List.getD_cons_succ, List.getD_nil]; decide)
      | c :: d :: rest => rfl
    · rfl
  have hback : (backslashed (cygwinDrive units)).length = units.length := by
    rw [backslashed, List.length_map, hcygwin]
  rw [linkUnits]
  cases absolute with
  | false =>
    rw [if_neg Bool.false_ne_true, hback]
    omega
  | true =>
    rw [if_pos rfl, rootDrive]
    split
    · next h =>
      rw [List.length_modifyHead, hback] at h
      rw [List.length_append, List.length_modifyHead, hback, List.length_singleton]
      omega
    · rw [List.length_modifyHead, hback]
      omega

theorem convertSource_eq_some {source : List UInt8} {units : List WChar} (h : convertSource source = some units) :
    ∃ s, source.take (source.length % 2 ^ 16) = utf8 s ∧ units = utf16 s ∧ 2 * units.length + 2 ≤ 0xFFFF := by
  unfold convertSource at h
  cases hdecode : rtlUtf8ToUnicode (source.take (source.length % 2 ^ 16)) with
  | none =>
    rw [hdecode] at h
    cases h
  | some decoded =>
    rw [hdecode] at h
    obtain ⟨s, hs, rfl⟩ := rtlUtf8ToUnicode_eq_some hdecode
    rcases ite_eq_iff.mp h with ⟨-, h⟩ | ⟨hle, h⟩
    · cases h
    · cases h
      exact ⟨s, hs, rfl, by omega⟩

theorem route_root {source : List UInt8} (h : isRootPath source = true) : route source = .root := by
  simp only [route, h, if_true]

/-- A source that is stored whole. -/
theorem exists_text {source : List UInt8} {units : List WChar} (h : convertSource source = some units)
    (hlength : source.length < 2 ^ 16) : ∃ s, source = utf8 s ∧ units = utf16 s := by
  obtain ⟨s, hs, hunits, -⟩ := convertSource_eq_some h
  rw [Nat.mod_eq_of_lt hlength, List.take_length] at hs
  exact ⟨s, hs, hunits⟩

theorem linkRight_root {source : List UInt8} (hroot : isRootPath source = true) : LinkRight source := by
  have hreparse (env : Surroundings) : ∃ r, env.reparse source = .ok (some r) ∧
      r.Describes [env.cwd.letter.toUInt16, 58, backslash]
        (substituteOf true [env.cwd.letter.toUInt16, 58, backslash]) := by
    obtain ⟨r, hr, hdescribes⟩ := rootReparse_spec env.cwd.letter.toUInt16
    refine ⟨r, ?_, hdescribes⟩
    rw [reparse, if_pos hroot, hr]
    rfl
  constructor
  · intro env dirfd target nttarget created htarget haccepts
    obtain ⟨r, hr, -⟩ := hreparse env
    exact env.commonSymlink_ne_fault htarget haccepts hr
  · intro env dirfd target created link hlink
    obtain ⟨r, hr, hdescribes⟩ := hreparse env
    rw [(env.commonSymlink_reparse hlink).1] at hr
    obtain rfl := Option.some.inj (Except.ok.inj hr)
    rw [hroot, Bool.true_or]
    exact ⟨_, hdescribes⟩
  · intro _ env dirfd target created link answer hlink haccepted
    obtain ⟨r, hr, hdescribes⟩ := hreparse env
    rw [(env.commonSymlink_reparse hlink).1] at hr
    obtain rfl := Option.some.inj (Except.ok.inj hr)
    obtain ⟨text, t, type, htext, ht, heq⟩ := env.root_resolves (route_root hroot) haccepted
    refine ⟨text, t, type, ?_, ht, heq⟩
    rw [hdescribes.substituteName_eq, ← htext]
    rfl

/-- Of an absolute source without a path, no record is made. -/
theorem linkRight_of_refused {source : List UInt8} (hroot : isRootPath source = false)
    (habsolute : isAbsolutePath source = true) (h : ¬ Accepted source) : LinkRight source := by
  have hrefused (env : Surroundings) {dirfd : Int} {target : List UInt8} :
      env.acceptsSource dirfd source target ≠ .ok true := by
    intro haccepts
    obtain ⟨answer, hanswer⟩ := (env.acceptsSource_iff hroot).mp haccepts
    rw [sourceNtpath, if_pos habsolute] at hanswer
    exact h ⟨env, dirfd, answer, hanswer⟩
  constructor
  · intro env dirfd target nttarget created _ haccepts
    exact (hrefused env haccepts).elim
  · intro env dirfd target created link hlink
    exact (hrefused env (env.commonSymlink_reparse hlink).2).elim
  · intro _ env dirfd target created link answer hlink _
    exact (hrefused env (env.commonSymlink_reparse hlink).2).elim

/-- Nor of one that cannot be converted. -/
theorem linkRight_of_unconverted {source : List UInt8} (hroot : isRootPath source = false)
    (hunits : convertSource source = none) : LinkRight source := by
  have hreparse (env : Surroundings) : env.reparse source = .ok none := by
    simp only [reparse, hroot, hunits, Bool.false_eq_true, if_false]
  have hnone (env : Surroundings) {dirfd : Int} {target : List UInt8} {created : Bool} {link : Link} :
      env.commonSymlink dirfd source target created ≠ .ok (some link) := by
    intro hlink
    have hr := (env.commonSymlink_reparse hlink).1
    rw [hreparse] at hr
    cases Except.ok.inj hr
  constructor
  · intro env dirfd target nttarget created htarget haccepts
    exact env.commonSymlink_ne_fault htarget haccepts (hreparse env)
  · intro env dirfd target created link hlink
    exact (hnone env hlink).elim
  · intro _ env dirfd target created link answer hlink _
    exact (hnone env hlink).elim

/-- What an absolute source resolves to, its text does too. -/
theorem staysDrive_resolves (env : Surroundings) {dirfd : Int} {s : List Char} (h0 : 0 ∉ utf8 s)
    (habsolute : isAbsolutePath (utf8 s) = true) (hsmall : (utf16 s).length ≤ 16377) (hstays : StaysDrive (utf8 s))
    {answer : NtString × Option HandleType} (h : env.getAbsoluteNtpath2 dirfd (utf8 s) = .ok (.ok answer)) :
    ∃ (text : List Char) (t : NtString) (type : Option HandleType), linkUnits true (utf16 s) = utf16 text ∧
      env.getAbsoluteNtpath2 dirfd (utf8 text) = .ok (.ok (t, type)) ∧ textOf t = textOf answer.1 := by
  rcases hstays with hfile | ⟨hshare, hname, hpipe⟩
  · exact env.drive_resolves hsmall hfile habsolute h
  · refine env.share_resolves h0 hsmall hshare ?_ hname hpipe h
    have hrouted := routed h0
    rw [hshare] at hrouted
    cases hrouted with
    | share hnot hlead =>
      rcases hlead with ⟨rest, hrest⟩ | hlead
      · rw [← hrest] at habsolute
        cases habsolute
      · exact hlead

/-- What is linkable has links that lead to it. -/
theorem linkRight_of_linkable {source : List UInt8} (h0 : 0 ∉ source) (h : Linkable source) : LinkRight source := by
  by_cases hroot : isRootPath source = true
  · exact linkRight_root hroot
  have hcases := h.resolve_left hroot
  rw [Bool.not_eq_true] at hroot
  rcases hcases with ⟨habsolute, hrefused⟩ | hlinkable
  · exact linkRight_of_refused hroot habsolute hrefused
  cases hunits : convertSource source with
  | none => exact linkRight_of_unconverted hroot hunits
  | some units =>
    obtain ⟨hfit, habsolute⟩ := hlinkable units hunits
    obtain ⟨r, hr, hdescribes⟩ := packReparse_spec hfit
    have hreparse (env : Surroundings) : env.reparse source = .ok (some r) := by
      simp only [reparse, hroot, hunits, hr, Bool.false_eq_true, if_false]
      rfl
    constructor
    · intro env dirfd target nttarget created htarget haccepts
      exact env.commonSymlink_ne_fault htarget haccepts (hreparse env)
    · intro env dirfd target created link hlink
      have hr' := (env.commonSymlink_reparse hlink).1
      rw [hreparse] at hr'
      obtain rfl := Option.some.inj (Except.ok.inj hr')
      rw [hroot, Bool.false_or]
      exact ⟨_, hdescribes⟩
    · intro hfrom env dirfd target created link answer hlink haccepted
      have hr' := (env.commonSymlink_reparse hlink).1
      rw [hreparse] at hr'
      obtain rfl := Option.some.inj (Except.ok.inj hr')
      have hfrom : isAbsolutePath source = true := hfrom.resolve_left (by rw [hroot]; decide)
      obtain ⟨hlength, hstays⟩ := habsolute hfrom
      rw [hfrom] at hfit hdescribes
      obtain ⟨s, rfl, rfl⟩ := exists_text hunits hlength
      have hsmall : (utf16 s).length ≤ 16377 := by
        have hle := (length_linkUnits true (utf16 s)).1
        change _ + 8 < _ at hfit
        omega
      obtain ⟨text, t, type, htext, ht, heq⟩ := staysDrive_resolves env h0 hfrom hsmall hstays haccepted
      refine ⟨text, t, type, ?_, ht, heq⟩
      rw [hdescribes.substituteName_eq, htext]
      rfl

/-! ## Sources with other links -/

/-- A descriptor that is open on `\\Device\\Null`. -/
def nullPath : KernelPath where
  name := wide ['N', 'u', 'l', 'l']
  below := []
  name_clean := ⟨by decide, by decide⟩
  below_no_zero := List.not_mem_nil
  below_start := .inl rfl
  named := List.cons_ne_nil _ _
  string := ⟨24, 26, wide ['\\', 'D', 'e', 'v', 'i', 'c', 'e', '\\', 'N', 'u', 'l', 'l'] ++ [0]⟩
  holds := ⟨by decide, List.prefix_refl _⟩

/-- The process, where temporary files are in its directory and every descriptor is open. -/
def inDriveC' : Surroundings :=
  { inDriveC with tmpdir := some ⟨[67, 58], by decide⟩, descriptors := fun _ => some (.null, nullPath) }

/-- A link can be made in the root. -/
theorem root_accepted (env : Surroundings) (dirfd : Int) :
    ∃ nttarget, env.getAbsoluteNtpath2 dirfd [47] = .ok (.ok nttarget) := by
  obtain ⟨n, -, s, -, hs, -⟩ := env.rootNtpath_spec
  have hroute : route [47] = .root := route_root rfl
  refine ⟨(s, none), ?_⟩
  simp only [getAbsoluteNtpath2, hroute, hs, bind, Except.bind]
  rfl

/-- What would have to be right of a link, by its text. -/
theorem LinkRight.of_text {s : List Char} (h : LinkRight (utf8 s)) (hroot : isRootPath (utf8 s) = false)
    (habsolute : isAbsolutePath (utf8 s) = true) (hconvert : convertSource (utf8 s) = some (utf16 s))
    (hfit : 4 * (linkUnits true (utf16 s)).length + 28 < 2 ^ 16) (env : Surroundings) {dirfd : Int}
    {answer : NtString × Option HandleType} (haccepted : env.getAbsoluteNtpath2 dirfd (utf8 s) = .ok (.ok answer))
    {text : List Char} (htext : linkUnits true (utf16 s) = utf16 text) :
    ∃ t type, env.getAbsoluteNtpath2 dirfd (utf8 text) = .ok (.ok (t, type)) ∧ textOf t = textOf answer.1 := by
  have hlength : 4 * (linkUnits true (utf16 s)).length + 20 + dosNamesLength true < 2 ^ 16 := hfit
  obtain ⟨r, hr, hdescribes⟩ := packReparse_spec hlength
  have hreparse : env.reparse (utf8 s) = .ok (some r) := by
    simp only [reparse, hroot, habsolute, hconvert, hr, Bool.false_eq_true, if_false]
    rfl
  obtain ⟨nttarget, htarget⟩ := env.root_accepted dirfd
  have haccepts : env.acceptsSource dirfd (utf8 s) [47] = .ok true := by
    rw [env.acceptsSource_iff hroot, sourceNtpath, if_pos habsolute]
    exact ⟨answer, haccepted⟩
  have hlink : env.commonSymlink dirfd (utf8 s) [47] true = .ok (some ⟨nttarget.1, r⟩) := by
    rw [env.commonSymlink_eq htarget haccepts, hreparse]
    rfl
  obtain ⟨text', t, type, htext', ht, heq⟩ :=
    h.resolved (.inr habsolute) env dirfd [47] true _ answer hlink haccepted
  rw [hdescribes.substituteName_eq, htext] at htext'
  obtain rfl := utf16_injective (List.append_cancel_left htext')
  exact ⟨t, type, ht, heq⟩

/-- The link to a name that begins like a drive which there is not. -/
theorem cygwin_lost {s : List Char} {c : UInt8} {rest : List UInt8} (hs : utf8 s = 47 :: c :: rest)
    (hc : isAlpha c = true) (hdrive : upper c ≠ 67) (hsmall : (utf16 s).length ≤ 16377)
    (env : Surroundings) (hvolumes : env.volumes = oneDrive) (dirfd : Int) :
    ∃ text, linkUnits true (utf16 s) = utf16 text ∧
      env.getAbsoluteNtpath2 dirfd (utf8 text) = .ok (.error .ENOENT) := by
  obtain ⟨s', hrest, hlength, -, hlink⟩ := linkUnits_drive (.inr ⟨rfl, hc⟩) hs.symm
  have hlead : isAlpha 47 = true ∧ c = 58 ∨ (47 : UInt8) = 47 ∧ isAlpha c = true := .inr ⟨rfl, hc⟩
  obtain ⟨hd, hupper⟩ := driveOf_letter rest hlead
  have hbytes := (length_utf16 s').2
  have hclosed := length_closed s'
  have hunits : rootDrive ((driveOf (47 :: c :: rest)).toUInt16 :: 58 :: backslashed (utf16 s')) =
      utf16 (byteChar (driveOf (47 :: c :: rest)) :: ':' :: closed s') :=
    rootDrive_pair (y := ':') (c := 58) (toNat_byteChar _) rfl s'
  refine ⟨_, hlink.trans hunits, ?_⟩
  have hnone : env.ntDevice (driveOf (47 :: c :: rest)) = none := by
    rw [env.ntDevice_eq (capital_of_upper hd hupper), hvolumes]
    exact congrArg (Option.map deviceOf) (if_neg hdrive)
  rw [env.getAbsoluteNtpath2_drive dirfd hd (by omega) (by omega), hupper]
  simp only [absoluteNtpath, hnone]

/-- A text that has been accepted, although its link is lost. -/
theorem LinkRight.not_cygwin {s : List Char} (h : LinkRight (utf8 s)) (hroot : isRootPath (utf8 s) = false)
    (hconvert : convertSource (utf8 s) = some (utf16 s)) (hfit : 4 * (linkUnits true (utf16 s)).length + 28 < 2 ^ 16)
    {c : UInt8} {rest : List UInt8} (hs : utf8 s = 47 :: c :: rest) (hc : isAlpha c = true) (hdrive : upper c ≠ 67)
    {env : Surroundings} (hvolumes : env.volumes = oneDrive) {dirfd : Int} {answer : NtString × Option HandleType}
    (haccepted : env.getAbsoluteNtpath2 dirfd (utf8 s) = .ok (.ok answer)) : False := by
  have habsolute : isAbsolutePath (utf8 s) = true := by
    rw [hs, isAbsolutePath, Bool.or_eq_true]
    exact .inr rfl
  have hsmall := (length_linkUnits true (utf16 s)).1
  obtain ⟨text, htext, hlost⟩ := cygwin_lost hs hc hdrive (by omega) env hvolumes dirfd
  obtain ⟨t, type, ht, -⟩ := h.of_text hroot habsolute hconvert hfit env haccepted htext
  rw [hlost] at ht
  cases Except.ok.inj ht

theorem exists_drive {path : List UInt8} (habsolute : isAbsolutePath path = true) (hhead : path.head? ≠ some 47) :
    ∃ b rest, path = b :: 58 :: rest ∧ isAlpha b = true := by
  rw [isAbsolutePath, Bool.or_eq_true, Bool.and_eq_true, beq_iff_eq, beq_iff_eq] at habsolute
  cases path with
  | nil => exact absurd habsolute (by decide)
  | cons b rest =>
    rcases habsolute with ⟨hb, hcolon⟩ | hslash
    · cases rest with
      | nil => exact absurd hcolon (by rw [List.getD_cons_succ, List.getD_nil]; decide)
      | cons c rest =>
        obtain rfl : c = 58 := hcolon
        exact ⟨b, rest, rfl, hb⟩
    · exact absurd (congrArg some hslash) hhead

theorem lt_of_lower {b : UInt8} (h : (lower b).toNat < 128) : b.toNat < 128 := by
  unfold lower at h
  rcases Nat.lt_or_ge b.toNat 128 with hlt | hge
  · exact hlt
  · rw [if_neg (fun hcapital => absurd (UInt8.le_iff_toNat_le.mp hcapital.2) (by change ¬ b.toNat ≤ 90; omega))] at h
    exact h

/-- What `/tmp` looks like. -/
theorem temporary_text {s : List Char} (h : sameLetters 4 (utf8 s) tmp = true) :
    ∃ (c : UInt8) (rest : List UInt8) (s' : List Char), utf8 s = 47 :: c :: rest ∧ isAlpha c = true ∧
      upper c = 84 ∧ 4 ≤ (utf8 s).length ∧ (utf8 s).drop 4 = utf8 s' ∧
      (utf16 s').length ≤ (utf16 s).length := by
  have hprefix : tmp.map lower <+: (utf8 s).map lower := prefix_of_same h rfl (by decide)
  generalize hpath : utf8 s = path at hprefix
  have hlength := hprefix.length_le
  rw [List.length_map, List.length_map] at hlength
  match path, hlength with
  | b₁ :: b₂ :: b₃ :: b₄ :: rest, _ =>
    obtain ⟨h₁, hprefix⟩ := List.cons_prefix_cons.mp hprefix
    obtain ⟨h₂, hprefix⟩ := List.cons_prefix_cons.mp hprefix
    obtain ⟨h₃, hprefix⟩ := List.cons_prefix_cons.mp hprefix
    obtain ⟨h₄, -⟩ := List.cons_prefix_cons.mp hprefix
    obtain ⟨c₁, s₁, rfl, -, hs₁⟩ := exists_cons_of_utf8 hpath (lt_of_lower (h₁ ▸ by decide))
    obtain ⟨c₂, s₂, rfl, -, hs₂⟩ := exists_cons_of_utf8 hs₁ (lt_of_lower (h₂ ▸ by decide))
    obtain ⟨c₃, s₃, rfl, -, hs₃⟩ := exists_cons_of_utf8 hs₂ (lt_of_lower (h₃ ▸ by decide))
    obtain ⟨c₄, s₄, rfl, -, hs₄⟩ := exists_cons_of_utf8 hs₃ (lt_of_lower (h₄ ▸ by decide))
    have hall : ∀ n < 128, lower 116 = lower (UInt8.ofNat n) → isAlpha (UInt8.ofNat n) = true ∧
        upper (UInt8.ofNat n) = 84 := by decide
    have hletter := hall b₂.toNat (lt_of_lower (h₂ ▸ by decide))
    rw [UInt8.ofNat_toNat] at hletter
    obtain ⟨halpha, hupper⟩ := hletter h₂
    refine ⟨b₂, b₃ :: b₄ :: rest, s₄, ?_, halpha, hupper, ?_, hs₄.symm, ?_⟩
    · rw [lower_eq_slash h₁.symm]
    · rw [List.length_cons, List.length_cons, List.length_cons, List.length_cons]
      omega
    · rw [length_utf16_cons, length_utf16_cons, length_utf16_cons, length_utf16_cons]
      omega

/-- Such a path is accepted, where the files are on the drive. -/
theorem temporary_accepted {s : List Char} (h0 : 0 ∉ utf8 s) (h : sameLetters 4 (utf8 s) tmp = true)
    (hsmall : (utf16 s).length ≤ 16377) (dirfd : Int) :
    ∃ answer, inDriveC'.getAbsoluteNtpath2 dirfd (utf8 s) = .ok (.ok answer) := by
  obtain ⟨c, rest, s', -, -, -, hfour, hdrop, hle⟩ := temporary_text h
  have hbytes := (length_utf16 s).2
  have hbytes' := (length_utf16 s').2
  have htmpdir : inDriveC'.tmpdir = some ⟨[67, 58], by decide⟩ := rfl
  have hroom : ([67, 58] : List UInt8).length + (utf8 s).length - 3 < 2 ^ 16 := by
    change 2 + _ - 3 < _
    omega
  have hpath := temporaryPath_eq (by decide) h0 hfour hroom
  have hfile := inDriveC'.fileNtpath_drive dirfd (d := 67) (by decide) (t := s') (by omega) (by omega)
  have h0' : 0 ∉ backslashed (utf16 s') := by
    refine zero_not_mem_backslashed (zero_not_mem_utf16 (zero_not_mem_of_utf8 (fun hmem => h0 ?_)))
    exact List.mem_of_mem_drop (hdrop ▸ hmem)
  have hdevice : inDriveC'.ntDevice (upper 67) = some (deviceOf (volumeName 3)) :=
    inDriveC'.ntDevice_eq (by decide)
  have hunits : 0 ∉ (67 : UInt8).toUInt16 :: 58 :: backslashed (utf16 s') := by
    rw [List.mem_cons, List.mem_cons, not_or, not_or]
    exact ⟨by decide, by decide, h0'⟩
  obtain ⟨b, hb⟩ := drive_buffer (by decide : 3 < 10000) hunits
  obtain ⟨t, ht, -⟩ := inDriveC'.absoluteNtpath_spec (by decide) hdevice
    (by rw [List.length_cons, List.length_cons]; omega)
    (by rw [List.length_cons, List.length_cons, backslashed, List.length_map]; omega) hb
  refine ⟨(t, some .file), ?_⟩
  simp only [getAbsoluteNtpath2, route_temporary h0 h, htmpdir, hpath, bind, Except.bind]
  rw [hdrop]
  exact hfile.trans ht

/-- `//` is linked to something else. -/
theorem LinkRight.not_nothing (h : LinkRight [47, 47]) : False := by
  have hpath : [47, 47] = utf8 ['/', '/'] := by decide
  obtain ⟨s, t, hs, ht, hne⟩ := shareNtpath_nothing inDriveC.heap inDriveC.entries inDriveC.doublings
  have haccepted : inDriveC.getAbsoluteNtpath2 atFdcwd (utf8 ['/', '/']) = .ok (.ok (s, some .file)) := by
    have hroute : route [47, 47] = .share := by decide
    rw [← hpath]
    simp only [getAbsoluteNtpath2, hroute, hs, bind, Except.bind]
  have hlink : inDriveC.getAbsoluteNtpath2 atFdcwd (utf8 ['\\', '\\', '\\']) = .ok (.ok (t, some .file)) := by
    have hroute : route [92, 92, 92] = .share := by decide
    have htext : [92, 92, 92] = utf8 ['\\', '\\', '\\'] := by decide
    rw [← htext]
    simp only [getAbsoluteNtpath2, hroute, ht, bind, Except.bind]
  have hconvert : convertSource (utf8 ['/', '/']) = some (utf16 ['/', '/']) := by
    rw [convertSource, List.take_of_length_le (by decide), rtlUtf8ToUnicode_utf8]
    exact if_neg (by decide)
  rw [hpath] at h
  have hunits : linkUnits true (utf16 ['/', '/']) = utf16 ['\\', '\\', '\\'] := by decide
  obtain ⟨t', type, ht', heq⟩ := h.of_text (by decide) (by decide) hconvert (by decide) inDriveC haccepted hunits
  rw [hlink] at ht'
  obtain ⟨rfl, -⟩ := Prod.mk.inj (Except.ok.inj (Except.ok.inj ht'))
  exact hne heq

/-- What is behind `//./pipe/` is linked to a pipe. -/
theorem LinkRight.not_pipe {s : List Char} (h0 : 0 ∉ utf8 s) (h : LinkRight (utf8 s))
    (hconvert : convertSource (utf8 s) = some (utf16 s)) (hfit : 4 * (linkUnits true (utf16 s)).length + 28 < 2 ^ 16)
    (hroute : route (utf8 s) = .share) (hnot : isPipe (utf8 s) = false) (hslash : [47, 47] <+: utf8 s)
    (hpipe : isPipe (slashBytes (utf8 s)) = true) (hsmall : 2 * (utf8 s).length + 22 < 2 ^ 16) : False := by
  obtain ⟨p, hp, htext⟩ := exists_sharePath h0 hnot (.inr hslash) rfl
  have hle := (length_utf16 s).1
  have hfits : p.Fits := by
    rw [SharePath.Fits, htext, hp]
    omega
  obtain ⟨ntpath, hntpath, hholds⟩ := shareNtpath_fits inDriveC.heap inDriveC.entries inDriveC.doublings hfits
  rw [hp] at hntpath
  have haccepted : inDriveC.getAbsoluteNtpath2 atFdcwd (utf8 s) = .ok (.ok (ntpath, some .file)) := by
    simp only [getAbsoluteNtpath2, hroute, hntpath, bind, Except.bind]
  have hnine := (length_of_isPipe hpipe).2
  rw [length_slashBytes] at hnine
  obtain ⟨s', rfl, hlink⟩ := linkUnits_share hslash
  have hname : s' ≠ [] := by
    rintro rfl
    exact absurd hnine (by decide)
  have hslashes : '\\' :: '\\' :: closed s' = slashes ('/' :: '/' :: s') := by
    rw [closed, if_neg hname]
    rfl
  have habsolute : isAbsolutePath (utf8 ('/' :: '/' :: s')) = true := by
    obtain ⟨rest, hrest⟩ := hslash
    rw [← hrest]
    rfl
  have hroot : isRootPath (utf8 ('/' :: '/' :: s')) = false := by
    obtain ⟨rest, hrest⟩ := hslash
    rw [← hrest]
    rfl
  obtain ⟨t, type, ht, heq⟩ := h.of_text hroot habsolute hconvert hfit inDriveC haccepted (hslashes ▸ hlink)
  rw [utf8_slashes] at ht
  have hroute' : route (slashBytes (utf8 ('/' :: '/' :: s'))) = .pipe :=
    (route_backslashes _).trans (if_pos hpipe)
  have h0' : 0 ∉ slashBytes (utf8 ('/' :: '/' :: s')) := by
    intro hmem
    obtain ⟨b, hb, hzero⟩ := List.mem_map.mp hmem
    rcases ite_eq_iff.mp hzero with ⟨-, hzero⟩ | ⟨-, hzero⟩
    · exact absurd hzero (by decide)
    · exact h0 (hzero ▸ hb)
  simp only [getAbsoluteNtpath2, hroute', bind, Except.bind] at ht
  rcases pipeNtpath_cases h0' hpipe (by rw [length_slashBytes]; omega) inDriveC.heap with hnone | ⟨r, units, hr, hpath⟩
  · rw [hnone] at ht
    cases Except.ok.inj ht
  · rw [hr] at ht
    obtain ⟨rfl, -⟩ := Prod.mk.inj (Except.ok.inj (Except.ok.inj ht))
    rw [textOf_of_holds hpath, textOf_of_holds hholds] at heq
    have hninth : (namedPipe ++ backslash :: units).take 9 = (mup ++ p.dos.tail).take 9 := congrArg (List.take 9) heq
    rw [List.take_append_of_le_length (by decide), List.take_append_of_le_length (by decide)] at hninth
    exact absurd hninth (by decide)

/-- Which routes are left, where the links lead to their sources. -/
theorem LinkRight.staysDrive {s : List Char} (h0 : 0 ∉ utf8 s) (h : LinkRight (utf8 s))
    (hroot : isRootPath (utf8 s) = false) (habsolute : isAbsolutePath (utf8 s) = true)
    (hconvert : convertSource (utf8 s) = some (utf16 s)) (hfit : 4 * (linkUnits true (utf16 s)).length + 28 < 2 ^ 16)
    (haccepted : Accepted (utf8 s)) : StaysDrive (utf8 s) := by
  by_cases hhead : (utf8 s).head? = some 47
  · have hsmall := (length_linkUnits true (utf16 s)).1
    have hrouted := routed h0
    cases hroute : route (utf8 s) with
    | root =>
      rw [hroute] at hrouted
      cases hrouted with
      | root hpath =>
        rcases hpath with hpath | hpath
        · rw [hpath] at hroot
          cases hroot
        · rw [hpath] at hroot
          cases hroot
    | device length name type =>
      rw [hroute] at hrouted
      cases hrouted with
      | device hname hpath =>
        have haccepted : inDriveC'.getAbsoluteNtpath2 atFdcwd (utf8 s) =
            .ok (.ok (⟨length, length, name ++ [0]⟩, some type)) := by simp only [getAbsoluteNtpath2, hroute]
        exact (h.not_cygwin hroot hconvert hfit hpath (by decide) (by decide) rfl haccepted).elim
      | dosDevice hhead' => exact absurd hhead hhead'
    | descriptor fd =>
      have haccepted : inDriveC'.getAbsoluteNtpath2 atFdcwd (utf8 s) = .ok (.ok (nullPath.string, some .null)) := by
        simp only [getAbsoluteNtpath2, hroute]
        rfl
      rw [hroute] at hrouted
      cases hrouted with
      | stream hname hpath =>
        exact (h.not_cygwin hroot hconvert hfit hpath (by decide) (by decide) rfl haccepted).elim
      | descriptor hpath hrest =>
        exact (h.not_cygwin hroot hconvert hfit hpath (by decide) (by decide) rfl haccepted).elim
    | negative =>
      obtain ⟨env, dirfd, answer, hanswer⟩ := haccepted
      simp only [getAbsoluteNtpath2, hroute] at hanswer
      cases Except.ok.inj hanswer
    | pipe =>
      rw [hroute] at hrouted
      cases hrouted with
      | pipe hpipe =>
        obtain ⟨rest, hrest⟩ := List.head?_eq_some_iff.mp hhead
        rw [hrest] at hpipe
        cases hpipe
    | share =>
      rw [hroute] at hrouted
      cases hrouted with
      | share hnot hlead =>
        have hslash : [47, 47] <+: utf8 s := by
          rcases hlead with ⟨rest, hrest⟩ | hlead
          · rw [← hrest] at hhead
            cases hhead
          · exact hlead
        refine .inr ⟨hroute, ?_, Bool.not_eq_true _ ▸ fun hpipe => ?_⟩
        · intro hnothing
          rw [hnothing] at h
          exact h.not_nothing
        · obtain ⟨env, dirfd, answer, hanswer⟩ := haccepted
          have hlength := env.share_fits h0 (by omega) hroute (env.getAbsoluteNtpath2_share hroute hanswer).1
          exact h.not_pipe h0 hconvert hfit hroute hnot hslash hpipe hlength
    | temporary =>
      rw [hroute] at hrouted
      cases hrouted with
      | temporary htmp =>
        obtain ⟨c, rest, -, hpath, hc, hupper, -⟩ := temporary_text htmp
        obtain ⟨answer, haccepted⟩ := temporary_accepted h0 htmp (by omega) atFdcwd
        exact (h.not_cygwin hroot hconvert hfit hpath hc (by rw [hupper]; decide) rfl haccepted).elim
    | file => exact .inl hroute
  · obtain ⟨b, rest, hpath, hb⟩ := exists_drive habsolute hhead
    left
    rw [hpath]
    exact route_drive hb rest

/-- The name of a descriptor. -/
def descriptorName : List UInt8 := ascii ['/', 'd', 'e', 'v', '/', 'f', 'd', '/', '3']

theorem descriptor_accepted (rest : List UInt8) (dirfd : Int) :
    inDriveC'.getAbsoluteNtpath2 dirfd (descriptorName ++ 47 :: rest) = .ok (.ok (nullPath.string, some .null)) := by
  have hroute : route (descriptorName ++ 47 :: rest) = .descriptor 3 := rfl
  simp only [getAbsoluteNtpath2, hroute]
  rfl

theorem descriptorName_accepted (dirfd : Int) :
    inDriveC'.getAbsoluteNtpath2 dirfd descriptorName = .ok (.ok (nullPath.string, some .null)) := by
  have hroute : route descriptorName = .descriptor 3 := rfl
  simp only [getAbsoluteNtpath2, hroute]
  rfl

/-- Below an open descriptor there is a path for every relative source: `atoi` stops at the slash. -/
theorem relative_accepted {source : List UInt8} (hroot : isRootPath source = false)
    (habsolute : isAbsolutePath source = false) (dirfd : Int) :
    inDriveC'.acceptsSource dirfd source descriptorName = .ok true := by
  rw [inDriveC'.acceptsSource_iff hroot, sourceNtpath, if_neg (by rw [habsolute]; exact Bool.false_ne_true)]
  exact ⟨_, descriptor_accepted _ dirfd⟩

/-- Every source that is accepted is accepted together with a target. -/
theorem exists_accepting {source : List UInt8} (hroot : isRootPath source = false)
    (h : isAbsolutePath source = true → Accepted source) :
    ∃ (env : Surroundings) (dirfd : Int) (target : List UInt8) (nttarget : NtString × Option HandleType),
      env.getAbsoluteNtpath2 dirfd target = .ok (.ok nttarget) ∧ env.acceptsSource dirfd source target = .ok true := by
  cases habsolute : isAbsolutePath source with
  | false =>
    exact ⟨inDriveC', atFdcwd, descriptorName, _, descriptorName_accepted atFdcwd,
      relative_accepted hroot habsolute atFdcwd⟩
  | true =>
    obtain ⟨env, dirfd, answer, haccepted⟩ := h habsolute
    obtain ⟨nttarget, htarget⟩ := env.root_accepted dirfd
    refine ⟨env, dirfd, [47], nttarget, htarget, ?_⟩
    rw [env.acceptsSource_iff hroot, sourceNtpath, if_pos habsolute]
    exact ⟨answer, haccepted⟩

/-- What is right has room for both names. -/
theorem LinkRight.fits {source : List UInt8} (h : LinkRight source) (hroot : isRootPath source = false)
    (haccepted : isAbsolutePath source = true → Accepted source) {units : List WChar}
    (hunits : convertSource source = some units) :
    4 * (linkUnits (isAbsolutePath source) units).length + 20 + dosNamesLength (isAbsolutePath source) < 2 ^ 16 := by
  obtain ⟨-, -, hunitsEq, hle⟩ := convertSource_eq_some hunits
  have hbound := (length_linkUnits (isAbsolutePath source) units).2
  by_contra hwrap
  obtain ⟨env, dirfd, target, nttarget, htarget, haccepts⟩ := exists_accepting hroot haccepted
  refine h.inside env dirfd target nttarget true htarget haccepts ?_
  have hsmall : 2 * (linkUnits (isAbsolutePath source) units).length < 2 ^ 16 := by omega
  have hfault := packReparse_fault hsmall (Nat.le_of_not_lt hwrap)
  have hreparse : env.reparse source = .error .fault := by
    simp only [reparse, hroot, hunits, hfault, Bool.false_eq_true, if_false]
    rfl
  rw [env.commonSymlink_eq htarget haccepts, hreparse]
  rfl

/-- **Links.** Sources that are accepted nowhere, and short ones on drives and shares, have links that lead to them;
of relative ones, and of absolute ones whose length is below 65536, no others. -/
theorem linkable_right (source : CString) :
    (Linkable source.bytes → LinkRight source.bytes) ∧
      ((isAbsolutePath source.bytes = true → source.bytes.length < 2 ^ 16) →
        LinkRight source.bytes → Linkable source.bytes) := by
  obtain ⟨source, h0⟩ := source
  refine ⟨linkRight_of_linkable h0, fun hlength h => ?_⟩
  by_cases hroot : isRootPath source = true
  · exact .inl hroot
  rw [Bool.not_eq_true] at hroot
  right
  by_cases hrefused : isAbsolutePath source = true ∧ ¬ Accepted source
  · exact .inl hrefused
  right
  intro units hunits
  have haccepted (habsolute : isAbsolutePath source = true) : Accepted source := by
    by_contra hnot
    exact hrefused ⟨habsolute, hnot⟩
  have hfit := h.fits hroot haccepted hunits
  refine ⟨hfit, fun habsolute => ⟨hlength habsolute, ?_⟩⟩
  rw [habsolute] at hfit
  obtain ⟨s, rfl, rfl⟩ := exists_text hunits (hlength habsolute)
  exact h.staysDrive h0 hroot habsolute hunits (by change _ + 20 + 8 < _ at hfit; omega) (haccepted habsolute)

/-- A link to `/dev/null` is `D:ev\null`. -/
theorem not_linkRight : ¬ LinkRight (ascii ['/', 'd', 'e', 'v', '/', 'n', 'u', 'l', 'l']) := by
  intro h
  have htext : ascii ['/', 'd', 'e', 'v', '/', 'n', 'u', 'l', 'l'] =
      utf8 ['/', 'd', 'e', 'v', '/', 'n', 'u', 'l', 'l'] := by decide
  have hroute : route (ascii ['/', 'd', 'e', 'v', '/', 'n', 'u', 'l', 'l']) = nullDevice := by decide
  have hconvert : convertSource (utf8 ['/', 'd', 'e', 'v', '/', 'n', 'u', 'l', 'l']) =
      some (utf16 ['/', 'd', 'e', 'v', '/', 'n', 'u', 'l', 'l']) := by
    rw [convertSource, List.take_of_length_le (by decide), rtlUtf8ToUnicode_utf8]
    exact if_neg (by decide)
  have haccepted : Accepted (ascii ['/', 'd', 'e', 'v', '/', 'n', 'u', 'l', 'l']) := by
    refine ⟨inDriveC, atFdcwd, ?_⟩
    simp only [getAbsoluteNtpath2, hroute, nullDevice]
    exact ⟨_, rfl⟩
  rw [htext] at h
  have hstays := h.staysDrive (by decide) (by decide) (by decide) hconvert (by decide) (htext ▸ haccepted)
  rw [← htext, StaysDrive, hroute] at hstays
  exact absurd hstays (by decide)

end Surroundings

end WindowsLibc.Path.Absolute
