import WindowsLibc.Path.Readlink

/-!
# Links there and back

* `readlink_symlink_iff`: the source of a link that `symlink` has made comes back, if nothing was taken for a drive
  that is none, and if the length of the buffer fits in 16 bits.
* `relink_iff`: a link to what a link shows is the same link, unless the source began with a backslash.
-/

namespace WindowsLibc.Path.Absolute

open WindowsLibc.Lib WindowsLibc.Fcntl Surroundings

/-! ## The record of a source -/

/-- The names of a record, and whether it is relative, are all of it. -/
theorem Reparse.Describes.unique {r r' : Reparse} {printName substituteName : List WChar}
    (h : r.Describes printName substituteName) (h' : r'.Describes printName substituteName)
    (hrelative : r.relative = r'.relative) : r = r' := by
  have hwritten := h.written.trans h'.written.symm
  obtain ⟨data, subOffset, subLength, printOffset, printLength, relative, buffer⟩ := r
  obtain ⟨data', subOffset', subLength', printOffset', printLength', relative', buffer'⟩ := r'
  have hdata := h.dataLength.trans ((congrArg (fun l => 12 + 2 * List.length l) hwritten).trans h'.dataLength.symm)
  obtain rfl : data = data' := UInt16.toNat_inj.mp hdata
  obtain rfl : subOffset = subOffset' := UInt16.toNat_inj.mp (h.substituteOffset.trans h'.substituteOffset.symm)
  obtain rfl : subLength = subLength' := UInt16.toNat_inj.mp (h.substituteLength.trans h'.substituteLength.symm)
  obtain rfl : printOffset = printOffset' := UInt16.toNat_inj.mp (h.printOffset.trans h'.printOffset.symm)
  obtain rfl : printLength = printLength' := UInt16.toNat_inj.mp (h.printLength.trans h'.printLength.symm)
  obtain rfl : relative = relative' := hrelative
  obtain rfl : buffer = buffer' := hwritten
  rfl

theorem convertSource_utf8 {s : List Char} (hlen : (utf8 s).length < 2 ^ 16) :
    convertSource (utf8 s) = if 0xFFFF < 2 * (utf16 s).length + 2 then none else some (utf16 s) := by
  rw [convertSource, Nat.mod_eq_of_lt hlen, List.take_length, rtlUtf8ToUnicode_utf8]

theorem packReparse_relative {absolute : Bool} {units : List WChar} {r : Reparse}
    (h : packReparse absolute units = .ok r) : r.relative = !absolute := by
  simp only [packReparse, bind, Except.bind] at h
  split at h
  · cases h
  · split at h
    · cases h
    · split at h
      · cases h
      · split at h
        · cases h
        · cases h
          rfl

namespace Surroundings

variable (env : Surroundings) {s : List Char} {r : Reparse}

/-- The record of a source that is not the root. -/
theorem reparse_text (hroot : isRootPath (utf8 s) = false) (hlen : (utf8 s).length < 2 ^ 16) :
    env.reparse (utf8 s) = if 0xFFFF < 2 * (utf16 s).length + 2 then .ok none
      else (packReparse (isAbsolutePath (utf8 s)) (linkUnits (isAbsolutePath (utf8 s)) (utf16 s))).map some := by
  rw [reparse, if_neg (by rw [hroot]; exact Bool.false_ne_true), convertSource_utf8 hlen]
  by_cases hlarge : 0xFFFF < 2 * (utf16 s).length + 2
  · rw [if_pos hlarge, if_pos hlarge]
  · rw [if_neg hlarge, if_neg hlarge]

theorem reparse_packs (hroot : isRootPath (utf8 s) = false) (hlen : (utf8 s).length < 2 ^ 16)
    (h : env.reparse (utf8 s) = .ok (some r)) :
    packReparse (isAbsolutePath (utf8 s)) (linkUnits (isAbsolutePath (utf8 s)) (utf16 s)) = .ok r ∧
      4 * (linkUnits (isAbsolutePath (utf8 s)) (utf16 s)).length + 20 + dosNamesLength (isAbsolutePath (utf8 s)) <
        2 ^ 16 := by
  rw [env.reparse_text hroot hlen] at h
  have hbound := (length_linkUnits (isAbsolutePath (utf8 s)) (utf16 s)).2
  generalize hlink : linkUnits (isAbsolutePath (utf8 s)) (utf16 s) = link at h hbound ⊢
  split at h
  · cases h
  · next hsmall =>
    cases hpack : packReparse (isAbsolutePath (utf8 s)) link with
    | error stop =>
      rw [hpack] at h
      cases h
    | ok r' =>
      rw [hpack] at h
      cases h
      refine ⟨rfl, ?_⟩
      by_contra hwrap
      rw [packReparse_fault (by omega) (by omega)] at hpack
      cases hpack

theorem reparse_describes (hroot : isRootPath (utf8 s) = false) (hlen : (utf8 s).length < 2 ^ 16)
    (h : env.reparse (utf8 s) = .ok (some r)) :
    r.Describes (linkUnits (isAbsolutePath (utf8 s)) (utf16 s))
      (substituteOf (isAbsolutePath (utf8 s)) (linkUnits (isAbsolutePath (utf8 s)) (utf16 s))) := by
  obtain ⟨hpack, hfit⟩ := env.reparse_packs hroot hlen h
  obtain ⟨r', hpack', hdescribes⟩ := packReparse_spec hfit
  cases hpack.symm.trans hpack'
  exact hdescribes

/-- An absolute source of a link has been accepted. -/
theorem accepted_of_link {dirfd : Int} {target : List UInt8} {created : Bool} {link : Link}
    (hroot : isRootPath (utf8 s) = false) (habsolute : isAbsolutePath (utf8 s) = true)
    (h : env.commonSymlink dirfd (utf8 s) target created = .ok (some link)) :
    ∃ answer, env.getAbsoluteNtpath2 dirfd (utf8 s) = .ok (.ok answer) := by
  obtain ⟨answer, hanswer⟩ := (env.acceptsSource_iff hroot).mp (env.commonSymlink_reparse h).2
  rw [sourceNtpath, if_pos habsolute] at hanswer
  exact ⟨answer, hanswer⟩

/-- What a link to a source should show. -/
def shows (s : List Char) : List Char :=
  if isRootPath (utf8 s) = true then [byteChar env.cwd.letter, ':', '/'] else shownText s

/-! ## There and back -/

theorem cwd_isAlpha : isAlpha env.cwd.letter = true ∧ upper env.cwd.letter = env.cwd.letter := by
  have hall : ∀ n < 128, 65 ≤ UInt8.ofNat n ∧ UInt8.ofNat n ≤ 90 → isAlpha (UInt8.ofNat n) = true ∧
      upper (UInt8.ofNat n) = UInt8.ofNat n := by decide
  have hsmall : env.cwd.letter.toNat ≤ 90 := UInt8.le_iff_toNat_le.mp env.cwd_drive.2.1
  have hletter := hall env.cwd.letter.toNat (by omega)
  rw [UInt8.ofNat_toNat] at hletter
  exact hletter ⟨env.cwd_drive.1, env.cwd_drive.2.1⟩

theorem doReadlink_text {substitute : List WChar} {text : List Char} (h : r.Describes (utf16 text) substitute)
    (hne : utf16 text ≠ []) (zero : Fin 2) (bufsiz : Nat) :
    doReadlink zero (.symlink r) bufsiz = (storeName zero (utf8 text) bufsiz).map (Option.map convertBsToFs) := by
  rw [doReadlink]
  simp only [h.shown hne, Option.bind_some, fromUtf16_utf16]

theorem utf16_ne_nil (hs : s ≠ []) : utf16 s ≠ [] := by
  obtain ⟨c, t, rfl⟩ := List.exists_cons_of_ne_nil hs
  have hpos := (length_utf16Units c).2.2
  rw [utf16_cons]
  intro hnil
  rw [(List.append_eq_nil_iff.mp hnil).1] at hpos
  exact absurd hpos (Nat.lt_irrefl 0)

/-- The record holds the text that should be shown, if nothing is misread. -/
theorem reparse_shows (hs : s ≠ []) (hlen : (utf8 s).length < 2 ^ 16) (h : env.reparse (utf8 s) = .ok (some r))
    (hread : ¬ Misread s) (htwo : isRootPath (utf8 s) = false → isAbsolutePath (utf8 s) = true →
      leadsDrive (utf8 s) = false → (utf16 s).length ≠ 2) :
    ∃ substitute, r.Describes (utf16 (slashes (env.shows s))) substitute ∧ utf16 (slashes (env.shows s)) ≠ [] ∧
      convertBsToFs (utf8 (slashes (env.shows s))) = utf8 (env.shows s) ∧
      (utf16 (slashes (env.shows s))).length < 2 ^ 14 := by
  rw [shows]
  cases hroot : isRootPath (utf8 s) with
  | true =>
    obtain ⟨r', hr', hdescribes⟩ := rootReparse_spec env.cwd.letter.toUInt16
    rw [reparse, if_pos hroot, hr'] at h
    cases h
    have hne := byteChar_ne_slash env.cwd_isAlpha.1
    have hunits : utf16 (slashes [byteChar env.cwd.letter, ':', '/']) = [env.cwd.letter.toUInt16, 58, backslash] := by
      rw [slashes_cons hne, utf16_cons, utf16Units_ascii (toNat_byteChar _)]
      rfl
    have hforward : forward [byteChar env.cwd.letter, ':', '/'] = [byteChar env.cwd.letter, ':', '/'] := by
      rw [forward_cons (byteChar_ne env.cwd_isAlpha.1)]
      rfl
    rw [if_pos rfl, hunits, utf8_forward, forward_slashes, hforward]
    exact ⟨_, hdescribes, List.cons_ne_nil _ _, rfl, by change 3 < 2 ^ 14; decide⟩
  | false =>
    have hdescribes := env.reparse_describes hroot hlen h
    have hfit := (env.reparse_packs hroot hlen h).2
    have hlength := (length_linkUnits (isAbsolutePath (utf8 s)) (utf16 s)).1
    have hpos := List.length_pos_of_ne_nil (utf16_ne_nil hs)
    rw [linkUnits_text hread (htwo hroot)] at hdescribes hfit hlength
    rw [if_neg Bool.false_ne_true, utf8_forward, forward_slashes, forward_shownText]
    exact ⟨_, hdescribes, List.ne_nil_of_length_pos (by omega), rfl, by omega⟩

theorem letter_towupper {v : WChar} (h : isAlpha v.toUInt8 = true) : isAlpha (towupper v).toUInt8 = true := by
  by_cases hsmall : 97 ≤ v ∧ v ≤ 122
  · have hall : ∀ n < 123, 97 ≤ UInt16.ofNat n → isAlpha (UInt16.ofNat n - 32).toUInt8 = true := by decide
    have hle := UInt16.le_iff_toNat_le.mp hsmall.2
    change _ ≤ 122 at hle
    have hletter := hall v.toNat (by omega)
    rw [UInt16.ofNat_toNat] at hletter
    rw [towupper, if_pos hsmall]
    exact hletter hsmall.1
  · rw [towupper, if_neg hsmall]
    exact h

/-- A unit with the low byte of a letter is no separator. -/
theorem letter_ne {v : WChar} (h : isAlpha v.toUInt8 = true) : v ≠ 47 ∧ v ≠ 92 := by
  constructor
  · rintro rfl
    exact absurd h (by decide)
  · rintro rfl
    exact absurd h (by decide)

/-- What is misread is stored as a drive. -/
theorem misread_units (h : Misread s) : isAbsolutePath (utf8 s) = true ∧ isRootPath (utf8 s) = false ∧
    (∃ bytes, utf8 (shownText s) = 47 :: bytes) ∧
    ∃ u tail, linkUnits true (utf16 s) = u :: 58 :: tail ∧ u ≠ 47 ∧ u ≠ 92 := by
  obtain ⟨hslash, halpha, hlead⟩ := h
  obtain ⟨t, rfl⟩ := utf16_slash hslash
  cases t with
  | nil => exact absurd halpha (by decide)
  | cons c rest =>
    obtain ⟨v, vs, hunits⟩ : ∃ v vs, utf16Units c = v :: vs :=
      List.exists_cons_of_ne_nil (List.ne_nil_of_length_pos (length_utf16Units c).2.2)
    have hall : utf16 ('/' :: c :: rest) = 47 :: v :: (vs ++ utf16 rest) := by
      rw [utf16_cons, utf16_cons, hunits]
      rfl
    rw [hall] at halpha
    have hletter : isAlpha v.toUInt8 = true := halpha
    obtain ⟨b, bytes, hbytes, hb⟩ : ∃ b bytes, utf8 (c :: rest) = b :: bytes ∧ b ≠ 0 := by
      obtain ⟨b, more, hencode⟩ := List.exists_cons_of_ne_nil (String.utf8EncodeChar_ne_nil (c := c))
      refine ⟨b, more ++ utf8 rest, by rw [utf8_cons, hencode]; rfl, ?_⟩
      rintro rfl
      rcases utf8EncodeChar_cases c with ⟨hsmall, hbyte⟩ | ⟨-, hlarge⟩
      · rw [hencode] at hbyte
        have hzero := congrArg UInt8.toNat (List.cons.inj hbyte).1
        rw [UInt8.toNat_ofNat', Nat.mod_eq_of_lt (by omega)] at hzero
        obtain rfl : c = Char.ofNat 0 := Char.toNat_inj.mp hzero.symm
        obtain rfl : 0 = v := (List.cons.inj (hunits : [0] = v :: vs)).1
        exact absurd hletter (by decide)
      · exact absurd (hlarge 0 (hencode ▸ List.mem_cons_self)) (by decide)
    have hpath : utf8 ('/' :: c :: rest) = 47 :: b :: bytes := by
      rw [utf8_cons, hbytes]
      rfl
    refine ⟨by rw [hpath]; rfl, ?_, ?_, ?_⟩
    · rw [hpath]
      change (b == 0 && _) = false
      rw [beq_eq_false_iff_ne.mpr hb, Bool.false_and]
    · rw [shownText, if_neg (by rw [hlead]; exact Bool.false_ne_true), forward_cons (by decide), utf8_cons]
      exact ⟨_, rfl⟩
    · have hupper := letter_towupper hletter
      have hupper' := letter_towupper hupper
      have hcygwin : cygwinDrive (47 :: v :: (vs ++ utf16 rest)) = towupper v :: 58 :: (vs ++ utf16 rest) :=
        if_pos ⟨rfl, hletter⟩
      have hlink : (backslashed (towupper v :: 58 :: (vs ++ utf16 rest))).modifyHead towupper =
          towupper (towupper v) :: 58 :: backslashed (vs ++ utf16 rest) := by
        rw [backslashed, List.map_cons, if_neg (letter_ne hupper).1, List.modifyHead_cons]
        rfl
      rw [hall, linkUnits, hcygwin]
      simp only [if_true, hlink]
      rw [rootDrive]
      split
      · exact ⟨_, backslashed (vs ++ utf16 rest) ++ [backslash], rfl, letter_ne hupper'⟩
      · exact ⟨_, backslashed (vs ++ utf16 rest), rfl, letter_ne hupper'⟩

/-- The first byte that is stored. -/
theorem storeName_head {zero : Fin 2} {b : UInt8} {name out : List UInt8} {bufsiz : Nat} (hpos : 0 < bufsiz)
    (h : storeName zero (b :: name) bufsiz = .ok (some out)) : ∃ rest, out = b :: rest := by
  rw [storeName] at h
  split at h
  · cases h
    exact ⟨name, rfl⟩
  · split at h
    · cases h
    · split at h
      · cases h
      · cases h
        obtain ⟨n, rfl⟩ := Nat.exists_eq_succ_of_ne_zero (Nat.pos_iff_ne_zero.mp hpos)
        exact ⟨(name ++ [0]).take n, rfl⟩

/-- The first byte of a character that is no separator. -/
theorem exists_firstByte {u : WChar} (hchar : u.toNat < 0xD800 ∨ 0xDFFF < u.toNat) (hslash : u ≠ 47) (hback : u ≠ 92)
    (text : List Char) : ∃ b name, utf8 (Char.ofNat u.toNat :: text) = b :: name ∧ b ≠ 47 ∧ b ≠ 92 := by
  have hvalid : (Char.ofNat u.toNat).toNat = u.toNat := by
    have hlt := u.toNat_lt
    rw [Char.ofNat, dif_pos]
    · rfl
    · rcases hchar with hlow | hhigh
      · exact .inl hlow
      · exact .inr ⟨hhigh, by omega⟩
  rcases utf8EncodeChar_cases (Char.ofNat u.toNat) with ⟨hsmall, hencode⟩ | ⟨-, hlarge⟩
  · have hbyte (n : Nat) (hn : UInt16.ofNat n ≠ u) (hlt : n < 2 ^ 8) : UInt8.ofNat u.toNat ≠ UInt8.ofNat n := by
      intro heq
      have hnat := congrArg UInt8.toNat heq
      rw [UInt8.toNat_ofNat', UInt8.toNat_ofNat', Nat.mod_eq_of_lt (by omega), Nat.mod_eq_of_lt hlt] at hnat
      exact hn (by rw [← hnat, UInt16.ofNat_toNat])
    rw [utf8_cons, hencode, hvalid]
    exact ⟨_, utf8 text, rfl, hbyte 47 (Ne.symm hslash) (by decide), hbyte 92 (Ne.symm hback) (by decide)⟩
  · obtain ⟨b, more, hencode⟩ := List.exists_cons_of_ne_nil (String.utf8EncodeChar_ne_nil (c := Char.ofNat u.toNat))
    have hb := hlarge b (hencode ▸ List.mem_cons_self)
    rw [utf8_cons, hencode]
    refine ⟨b, more ++ utf8 text, rfl, ?_, ?_⟩
    · rintro rfl
      exact absurd hb (by decide)
    · rintro rfl
      exact absurd hb (by decide)

/-- What is misread is not shown. -/
theorem misread_wrong (hmisread : Misread s) (hlen : (utf8 s).length < 2 ^ 16)
    (h : env.reparse (utf8 s) = .ok (some r)) (zero : Fin 2) {bufsiz : Nat} (hpos : 0 < bufsiz) :
    doReadlink zero (.symlink r) bufsiz ≠ .ok (some ((utf8 (env.shows s)).take bufsiz)) := by
  obtain ⟨habsolute, hroot, ⟨bytes, hbytes⟩, u, tail, hlink, hslash, hback⟩ := misread_units hmisread
  have hdescribes := env.reparse_describes hroot hlen h
  rw [habsolute, hlink] at hdescribes
  obtain ⟨n, rfl⟩ := Nat.exists_eq_succ_of_ne_zero (Nat.pos_iff_ne_zero.mp hpos)
  rw [shows, if_neg (by rw [hroot]; exact Bool.false_ne_true), hbytes, List.take_succ_cons, doReadlink]
  simp only [hdescribes.shown (List.cons_ne_nil _ _), Option.bind_some]
  by_cases hchar : u.toNat < 0xD800 ∨ 0xDFFF < u.toNat
  · rw [fromUtf16_cons_unit hchar]
    cases fromUtf16 (58 :: tail) with
    | none =>
      intro heq
      cases heq
    | some text =>
      rw [Option.map_some]
      simp only
      obtain ⟨b, name, hname, hb, hb'⟩ := exists_firstByte hchar hslash hback text
      rw [hname]
      intro heq
      cases hstore : storeName zero (b :: name) (n + 1) with
      | error stop =>
        rw [hstore] at heq
        cases heq
      | ok out =>
        rw [hstore] at heq
        cases out with
        | none => cases heq
        | some out =>
          obtain ⟨rest, rfl⟩ := storeName_head hpos hstore
          have hhead : convertBsToFs (b :: rest) = 47 :: bytes.take n := Option.some.inj (Except.ok.inj heq)
          rw [convertBsToFs, List.map_cons, if_neg hb'] at hhead
          exact hb (List.cons.inj hhead).1
  · rw [fromUtf16_lone (by omega) (by decide)]
    intro heq
    cases heq

/-- The link to `//` shows a third slash. -/
theorem twoSlashes_iff {substitute : List WChar} (h : r.Describes (utf16 ['\\', '\\', '\\']) substitute)
    (zero : Fin 2) (bufsiz : Nat) :
    doReadlink zero (.symlink r) bufsiz = .ok (some ([47, 47].take bufsiz)) ↔ bufsiz ≤ 2 := by
  have hmod := Nat.mod_le bufsiz (2 ^ 16)
  have hname : utf8 ['\\', '\\', '\\'] = [92, 92, 92] := rfl
  rw [doReadlink_text h (by decide), hname, storeName]
  by_cases hfits : [92, 92, (92 : UInt8)].length + zero ≤ bufsiz % 2 ^ 16
  · have hthree : 3 + zero.val ≤ bufsiz % 2 ^ 16 := hfits
    rw [if_pos hfits]
    refine iff_of_false (fun heq => ?_) (by omega)
    have hlength := congrArg List.length (Option.some.inj (Except.ok.inj heq))
    rw [length_convertBsToFs, List.length_take] at hlength
    change 3 = min bufsiz 2 at hlength
    omega
  rw [if_neg hfits, if_neg (by decide)]
  by_cases hover : [92, 92, (92 : UInt8)].length + 1 < bufsiz
  · have hfour : 4 < bufsiz := hover
    rw [if_pos hover]
    exact iff_of_false (fun heq => (by cases heq)) (by omega)
  rw [if_neg hover]
  constructor
  · intro heq
    have hlength := congrArg List.length (Option.some.inj (Except.ok.inj heq))
    rw [length_convertBsToFs, List.length_take, List.length_take] at hlength
    change min bufsiz 4 = min bufsiz 2 at hlength
    omega
  · intro hsmall
    obtain rfl | rfl | rfl : bufsiz = 0 ∨ bufsiz = 1 ∨ bufsiz = 2 := by omega
    · rfl
    · rfl
    · rfl

theorem exists_slashes_of_two (h0 : 0 ∉ utf8 s) (hroot : isRootPath (utf8 s) = false)
    (habsolute : isAbsolutePath (utf8 s) = true) (hlead : leadsDrive (utf8 s) = false) (hread : ¬ Misread s)
    (htwo : (utf16 s).length = 2) {dirfd : Int} {answer : NtString × Option HandleType}
    (h : env.getAbsoluteNtpath2 dirfd (utf8 s) = .ok (.ok answer)) : s = ['/', '/'] := by
  rcases accepted_lead h0 hroot habsolute h with ⟨b, c, rest, hpath, ⟨hb, rfl⟩ | ⟨rfl, hc⟩⟩ | ⟨rest, rfl⟩
  · rw [hpath] at hlead
    have hdrive : (isAlpha b && true || _) = false := hlead
    rw [hb] at hdrive
    cases hdrive
  · exact absurd (misread_of_letter hpath hc hlead) hread
  · cases rest with
    | nil => rfl
    | cons c rest =>
      have hpos := (length_utf16Units c).2.2
      rw [utf16_cons, utf16_cons, utf16_cons, List.length_append, List.length_append, List.length_append] at htwo
      change 1 + (1 + (_ + _)) = 2 at htwo
      omega

/-- **What a link shows.** `readlink` gives the source of a link that `symlink` has made, up to the length of the
buffer, exactly if there is a source, no name was taken for a drive, there are not just two slashes, and the buffer
is too small, or its length in 16 bits is large enough. -/
theorem readlink_symlink_iff {dirfd : Int} {target : List UInt8} {created : Bool} {link : Link} (h0 : 0 ∉ utf8 s)
    (hlen : (utf8 s).length < 2 ^ 16) (h : env.commonSymlink dirfd (utf8 s) target created = .ok (some link))
    (zero : Fin 2) {bufsiz : Nat} (hpos : 0 < bufsiz) :
    doReadlink zero (.symlink link.reparse) bufsiz = .ok (some ((utf8 (env.shows s)).take bufsiz)) ↔
      s ≠ [] ∧ ¬ Misread s ∧ (s = ['/', '/'] → bufsiz ≤ 2) ∧ (bufsiz ≤ (utf8 (env.shows s)).length ∨
        (utf8 (env.shows s)).length + zero ≤ bufsiz % 2 ^ 16) := by
  have hreparse := (env.commonSymlink_reparse h).1
  by_cases hs : s = []
  · subst hs
    have hdescribes : link.reparse.Describes [] [] := env.reparse_describes rfl (by decide) hreparse
    refine iff_of_false (fun heq => ?_) (fun hright => hright.1 rfl)
    rw [doReadlink] at heq
    simp only [hdescribes.shown_nil, Option.bind_none] at heq
    cases heq
  by_cases hread : Misread s
  · exact iff_of_false (env.misread_wrong hread hlen hreparse zero hpos) (fun hright => hright.2.1 hread)
  by_cases hslashes : s = ['/', '/']
  · subst hslashes
    have hdescribes := env.reparse_describes rfl hlen hreparse
    have hshows : utf8 (env.shows ['/', '/']) = [47, 47] := rfl
    rw [hshows, twoSlashes_iff (r := link.reparse) hdescribes]
    exact ⟨fun hsmall => ⟨hs, hread, fun _ => hsmall, .inl hsmall⟩, fun hright => hright.2.2.1 rfl⟩
  have htwo (hroot : isRootPath (utf8 s) = false) (habsolute : isAbsolutePath (utf8 s) = true)
      (hlead : leadsDrive (utf8 s) = false) : (utf16 s).length ≠ 2 := by
    intro htwo
    obtain ⟨answer, hanswer⟩ := env.accepted_of_link hroot habsolute h
    exact hslashes (env.exists_slashes_of_two h0 hroot habsolute hlead hread htwo hanswer)
  obtain ⟨substitute, hdescribes, hne, hshows, hsmall⟩ := env.reparse_shows hs hlen hreparse hread htwo
  have hbytes := (length_utf16 (slashes (env.shows s))).2
  have hlength : (utf8 (env.shows s)).length = (utf8 (slashes (env.shows s))).length := by
    rw [← hshows, length_convertBsToFs]
  rw [doReadlink_text hdescribes hne, ← hshows, storeName_iff zero (by omega), length_convertBsToFs]
  exact ⟨fun hfits => ⟨hs, hread, fun heq => absurd heq hslashes, hfits⟩, fun hright => hright.2.2.2⟩

theorem exists_link {s : List Char} {dirfd : Int} {target : List UInt8} {nttarget : NtString × Option HandleType}
    (htarget : env.getAbsoluteNtpath2 dirfd target = .ok (.ok nttarget))
    (haccepts : env.acceptsSource dirfd (utf8 s) target = .ok true) (hroot : isRootPath (utf8 s) = false)
    (hlen : (utf8 s).length < 2 ^ 16)
    (hfit : 4 * (linkUnits (isAbsolutePath (utf8 s)) (utf16 s)).length + 20 +
      dosNamesLength (isAbsolutePath (utf8 s)) < 2 ^ 16) :
    ∃ link, env.commonSymlink dirfd (utf8 s) target true = .ok (some link) := by
  obtain ⟨r, hpack, -⟩ := packReparse_spec hfit
  have hle := (length_linkUnits (isAbsolutePath (utf8 s)) (utf16 s)).1
  have hreparse : env.reparse (utf8 s) = .ok (some r) := by
    rw [env.reparse_text hroot hlen, if_neg (by omega), hpack]
    rfl
  refine ⟨⟨nttarget.1, r⟩, ?_⟩
  rw [env.commonSymlink_eq htarget haccepts, hreparse]
  rfl

theorem null_accepted :
    inDriveC'.acceptsSource atFdcwd (utf8 ['/', 'd', 'e', 'v', '/', 'n', 'u', 'l', 'l']) descriptorName = .ok true := by
  have hroute : route (utf8 ['/', 'd', 'e', 'v', '/', 'n', 'u', 'l', 'l']) = nullDevice := by decide
  rw [inDriveC'.acceptsSource_iff (by decide), sourceNtpath, if_pos (by decide)]
  simp only [Surroundings.getAbsoluteNtpath2, hroute, nullDevice]
  exact ⟨_, rfl⟩

/-- A link to `x\y` is shown with a slash, and one to `/dev/null` is shown as something else. -/
theorem readlink_symlink_iff_shown :
    (∃ link, inDriveC'.commonSymlink atFdcwd (utf8 ['x', '\\', 'y']) descriptorName true = .ok (some link) ∧
      doReadlink 1 (.symlink link.reparse) 64 = .ok (some (ascii ['x', '/', 'y']))) ∧
    ∃ link, inDriveC'.commonSymlink atFdcwd (utf8 ['/', 'd', 'e', 'v', '/', 'n', 'u', 'l', 'l']) descriptorName true =
        .ok (some link) ∧
      doReadlink 1 (.symlink link.reparse) 64 ≠ .ok (some (ascii ['/', 'd', 'e', 'v', '/', 'n', 'u', 'l', 'l'])) := by
  have htarget := descriptorName_accepted atFdcwd
  constructor
  · obtain ⟨link, hlink⟩ := inDriveC'.exists_link (s := ['x', '\\', 'y']) htarget
      (relative_accepted (by decide) (by decide) atFdcwd) (by decide) (by decide) (by decide)
    refine ⟨link, hlink, (inDriveC'.readlink_symlink_iff (by decide) (by decide) hlink 1 (by decide)).mpr ?_⟩
    refine ⟨List.cons_ne_nil _ _, fun hread => absurd hread.1 (by decide), fun heq => (by cases heq), .inr ?_⟩
    have hshows : utf8 (inDriveC'.shows ['x', '\\', 'y']) = ascii ['x', '/', 'y'] := by decide
    rw [hshows]
    decide
  · obtain ⟨link, hlink⟩ := inDriveC'.exists_link htarget null_accepted (by decide) (by decide) (by decide)
    refine ⟨link, hlink, fun hshown => ?_⟩
    have hright := (inDriveC'.readlink_symlink_iff (by decide) (by decide) hlink 1 (by decide)).mp hshown
    have hpath : utf8 ['/', 'd', 'e', 'v', '/', 'n', 'u', 'l', 'l'] =
        47 :: 100 :: ascii ['e', 'v', '/', 'n', 'u', 'l', 'l'] := by decide
    exact hright.2.1 (misread_of_letter hpath (by decide) (by decide))

end Surroundings

/-! ## A link to what a link shows -/

theorem getD_convertBsToFs (bytes : List UInt8) (i : Nat) :
    (convertBsToFs bytes).getD i 0 = if bytes.getD i 0 = 92 then 47 else bytes.getD i 0 := by
  rw [convertBsToFs, List.getD_eq_getElem?_getD, List.getElem?_map, List.getD_eq_getElem?_getD]
  cases bytes[i]? with
  | none => rfl
  | some b => rfl

theorem isRootPath_forward (s : List Char) : isRootPath (utf8 (forward s)) = isRootPath (utf8 s) := by
  rw [← utf8_forward, isRootPath, isRootPath, getD_convertBsToFs, getD_convertBsToFs]
  generalize (utf8 s).getD 0 0 = a
  generalize (utf8 s).getD 1 0 = b
  by_cases ha : a = 92
  · by_cases hb : b = 92
    · rw [if_pos ha, if_pos hb, ha, hb]
      rfl
    · rw [if_pos ha, if_neg hb, ha]
      rfl
  · by_cases hb : b = 92
    · rw [if_neg ha, if_pos hb, hb]
      rfl
    · rw [if_neg ha, if_neg hb]

/-- Slashes for the backslashes behind the first byte change no comparison. -/
theorem isAbsolutePath_forward {s : List Char} (h : (utf8 s).getD 0 0 ≠ 92) :
    isAbsolutePath (utf8 (forward s)) = isAbsolutePath (utf8 s) := by
  rw [← utf8_forward, isAbsolutePath, isAbsolutePath, getD_convertBsToFs, getD_convertBsToFs, if_neg h]
  generalize (utf8 s).getD 0 0 = a at h ⊢
  generalize (utf8 s).getD 1 0 = b
  by_cases hb : b = 92
  · rw [if_pos hb, hb]
    rfl
  · rw [if_neg hb]

theorem head_backslash {s : List Char} : (utf8 s).getD 0 0 = 92 ↔ s.head? = some '\\' := by
  cases s with
  | nil => exact ⟨fun h => absurd h (by decide), fun h => (by cases h)⟩
  | cons c t =>
    rw [List.head?_cons, Option.some.injEq]
    constructor
    · intro h
      cases hbytes : utf8 (c :: t) with
      | nil =>
        rw [hbytes] at h
        exact absurd h (by decide)
      | cons b bytes =>
        rw [hbytes] at h
        obtain ⟨c', t', hcons, hc, -⟩ := exists_cons_of_utf8 hbytes (by rw [show b = 92 from h]; decide)
        rw [(List.cons.inj hcons).1]
        rw [show b = 92 from h] at hc
        exact Char.toNat_inj.mp hc
    · rintro rfl
      rw [utf8_cons]
      rfl

/-- A relative source is stored as it is, with backslashes. -/
theorem linkUnits_relative {s : List Char} (h : isAbsolutePath (utf8 s) = false) :
    linkUnits false (utf16 s) = utf16 (slashes s) := by
  have hcygwin : cygwinDrive (utf16 s) = utf16 s := by
    refine if_neg fun hslash => ?_
    obtain ⟨t, rfl⟩ := utf16_slash hslash.1
    have habsolute : isAbsolutePath (utf8 ('/' :: t)) = true := rfl
    rw [h] at habsolute
    cases habsolute
  rw [linkUnits, hcygwin, utf16_slashes]
  rfl

theorem closed_forward_closed (s : List Char) : closed (forward (closed s)) = closed s := by
  have hne : forward (closed s) ≠ [] := by
    intro hnil
    have hclosed : closed s = [] := List.map_eq_nil_iff.mp hnil
    by_cases hs : s = []
    · rw [closed, if_pos hs] at hclosed
      cases hclosed
    · rw [closed, if_neg hs] at hclosed
      exact hs (List.map_eq_nil_iff.mp hclosed)
  have hslashes : slashes (closed s) = closed s := by
    by_cases hs : s = []
    · rw [closed, if_pos hs]
      rfl
    · rw [closed, if_neg hs, slashes_slashes]
  rw [closed, if_neg hne, slashes_forward, hslashes]

/-- The text of a link is stored again, if it is given with slashes. -/
structure StoredAgain (absolute : Bool) (text : List Char) : Prop where
  absolute_eq : isAbsolutePath (utf8 (forward text)) = absolute
  not_root : isRootPath (utf8 (forward text)) = false
  units : linkUnits absolute (utf16 (forward text)) = utf16 text

theorem StoredAgain.drive {d : UInt8} (hd : isAlpha d = true) (hupper : upper d = d) (s : List Char) :
    StoredAgain true (byteChar d :: ':' :: closed s) := by
  have hforward : forward (byteChar d :: ':' :: closed s) = byteChar d :: ':' :: forward (closed s) := by
    rw [forward_cons (byteChar_ne hd), forward_cons (by decide)]
  have hbytes := utf8_drive hd (forward (closed s))
  obtain ⟨s', hs', -, -, hlink⟩ := linkUnits_drive (.inl ⟨hd, rfl⟩) hbytes.symm
  obtain rfl := utf8_injective hs'
  have hdrive : driveOf (d :: 58 :: utf8 (forward (closed s))) = d := by
    rw [driveOf, if_neg]
    · exact hupper
    · rw [List.getD_cons_zero, beq_iff_eq]
      rintro rfl
      exact absurd hd (by decide)
  refine ⟨?_, ?_, ?_⟩
  · rw [hforward, hbytes]
    change (isAlpha d && true || _) = true
    rw [hd]
    rfl
  · rw [hforward, hbytes]
    rfl
  · have hpair : rootDrive (d.toUInt16 :: 58 :: backslashed (utf16 (forward (closed s)))) =
        utf16 (byteChar d :: ':' :: closed (forward (closed s))) :=
      rootDrive_pair (y := ':') (c := 58) (toNat_byteChar d) rfl _
    rw [hforward, hlink, hdrive, hpair, closed_forward_closed]

theorem StoredAgain.share (s : List Char) : StoredAgain true ('\\' :: '\\' :: closed s) := by
  have hforward : forward ('\\' :: '\\' :: closed s) = '/' :: '/' :: forward (closed s) := rfl
  obtain ⟨s', hs', hlink⟩ := linkUnits_share (s := '/' :: '/' :: forward (closed s)) ⟨utf8 (forward (closed s)), rfl⟩
  obtain rfl : forward (closed s) = s' := (List.cons.inj (List.cons.inj hs').2).2
  refine ⟨rfl, rfl, ?_⟩
  rw [hforward, hlink, closed_forward_closed]

namespace Surroundings

variable (env : Surroundings) {s : List Char} {r : Reparse}

/-- A record that is made of what another shows. -/
theorem reparse_again {absolute : Bool} {text : List Char} (hagain : StoredAgain absolute text)
    (h : r.Describes (utf16 text) (substituteOf absolute (utf16 text))) (hrelative : r.relative = !absolute)
    {r' : Reparse} (h' : env.reparse (utf8 (forward text)) = .ok (some r')) : r' = r := by
  have hdata := h.dataLength
  rw [h.written, List.length_append] at hdata
  have hlt := r.dataLength.toNat_lt
  have hunits := utf16_forward_length text
  have hbytes := (length_utf16 (forward text)).2
  have hsubstitute := length_substituteOf absolute (utf16 text)
  have hlen : (utf8 (forward text)).length < 2 ^ 16 := by omega
  have hdescribes := env.reparse_describes hagain.not_root hlen h'
  have hpack := (env.reparse_packs hagain.not_root hlen h').1
  rw [hagain.absolute_eq, hagain.units] at hdescribes
  refine hdescribes.unique h ?_
  rw [packReparse_relative hpack, hagain.absolute_eq, hrelative]

/-- How the text of an absolute link is stored again. -/
theorem storedAgain_absolute {dirfd : Int} {target : List UInt8} {created : Bool} {link : Link} (h0 : 0 ∉ utf8 s)
    (hroot : isRootPath (utf8 s) = false) (habsolute : isAbsolutePath (utf8 s) = true)
    (h : env.commonSymlink dirfd (utf8 s) target created = .ok (some link)) :
    ∃ text, linkUnits true (utf16 s) = utf16 text ∧ StoredAgain true text := by
  obtain ⟨answer, hanswer⟩ := env.accepted_of_link hroot habsolute h
  rcases accepted_lead h0 hroot habsolute hanswer with ⟨b, c, rest, hpath, hlead⟩ | ⟨rest, rfl⟩
  · obtain ⟨s', -, -, -, hlink⟩ := linkUnits_drive hlead hpath.symm
    obtain ⟨hd, hupper⟩ := driveOf_letter rest hlead
    refine ⟨_, hlink.trans ?_, StoredAgain.drive hd hupper s'⟩
    exact rootDrive_pair (y := ':') (c := 58) (toNat_byteChar _) rfl s'
  · obtain ⟨s', -, hlink⟩ := linkUnits_share (s := '/' :: '/' :: rest) ⟨utf8 rest, rfl⟩
    exact ⟨_, hlink, StoredAgain.share s'⟩

/-- What is shown whole is the text of the link. -/
theorem shown_whole {units substitute : List WChar} (h : r.Describes units substitute) (hne : units ≠ [])
    {text : List Char} (htext : units = utf16 text) {zero : Fin 2} {bufsiz : Nat} {shown : List UInt8}
    (hshown : doReadlink zero (.symlink r) bufsiz = .ok (some shown)) (hwhole : shown.length < bufsiz) :
    shown = utf8 (forward text) := by
  rw [htext] at h hne
  rw [doReadlink_text h hne, storeName] at hshown
  rw [← utf8_forward]
  by_cases hfits : (utf8 text).length + zero ≤ bufsiz % 2 ^ 16
  · rw [if_pos hfits] at hshown
    exact (Option.some.inj (Except.ok.inj hshown)).symm
  rw [if_neg hfits] at hshown
  by_cases hlarge : 0xFFFF < (utf8 text).length + 1
  · rw [if_pos hlarge] at hshown
    cases hshown
  rw [if_neg hlarge] at hshown
  by_cases hover : (utf8 text).length + 1 < bufsiz
  · rw [if_pos hover] at hshown
    cases hshown
  rw [if_neg hover] at hshown
  have hlength := congrArg List.length (Option.some.inj (Except.ok.inj hshown))
  rw [length_convertBsToFs, List.length_take, List.length_append, List.length_singleton] at hlength
  omega

/-- **A link to what a link shows** has the same record, exactly if the source was not below the root of the drive: a
backslash at its beginning is relative, and the slash that is shown for it is not. -/
theorem relink_iff {env' : Surroundings} {dirfd dirfd' : Int} {target target' : List UInt8} {created created' : Bool}
    {link link' : Link} (h0 : 0 ∉ utf8 s) (hlen : (utf8 s).length < 2 ^ 16)
    (h : env.commonSymlink dirfd (utf8 s) target created = .ok (some link)) {zero : Fin 2} {bufsiz : Nat}
    {shown : List UInt8} (hshown : doReadlink zero (.symlink link.reparse) bufsiz = .ok (some shown))
    (hwhole : shown.length < bufsiz)
    (h' : env'.commonSymlink dirfd' shown target' created' = .ok (some link')) :
    link'.reparse = link.reparse ↔ isRootPath (utf8 s) = true ∨ s.head? ≠ some '\\' := by
  have hreparse := (env.commonSymlink_reparse h).1
  have hreparse' := (env'.commonSymlink_reparse h').1
  cases hroot : isRootPath (utf8 s) with
  | true =>
    refine iff_of_true ?_ (.inl rfl)
    obtain ⟨r, hr, hdescribes⟩ := rootReparse_spec env.cwd.letter.toUInt16
    have hrelative : r.relative = false := by
      cases hr
      rfl
    rw [reparse, if_pos hroot, hr] at hreparse
    obtain rfl : r = link.reparse := Option.some.inj (Except.ok.inj hreparse)
    obtain ⟨halpha, hupper⟩ := env.cwd_isAlpha
    have htext : [env.cwd.letter.toUInt16, 58, backslash] = utf16 (byteChar env.cwd.letter :: ':' :: closed []) := by
      rw [utf16_cons, utf16Units_ascii (toNat_byteChar _)]
      rfl
    have hwholeText := shown_whole hdescribes (List.cons_ne_nil _ _) htext hshown hwhole
    rw [hwholeText] at hreparse'
    rw [htext] at hdescribes
    exact env'.reparse_again (StoredAgain.drive halpha hupper []) hdescribes hrelative hreparse'
  | false =>
    have hdescribes := env.reparse_describes hroot hlen hreparse
    have hpack := (env.reparse_packs hroot hlen hreparse).1
    have hrelative := packReparse_relative hpack
    have hs : s ≠ [] := by
      rintro rfl
      have hempty : link.reparse.Describes [] [] := hdescribes
      rw [doReadlink] at hshown
      simp only [hempty.shown_nil, Option.bind_none] at hshown
      cases hshown
    have hne : linkUnits (isAbsolutePath (utf8 s)) (utf16 s) ≠ [] := by
      have hle := (length_linkUnits (isAbsolutePath (utf8 s)) (utf16 s)).1
      have hpos := List.length_pos_of_ne_nil (utf16_ne_nil hs)
      exact List.ne_nil_of_length_pos (by omega)
    cases habsolute : isAbsolutePath (utf8 s) with
    | true =>
      rw [habsolute] at hdescribes hrelative hne
      have hhead : s.head? ≠ some '\\' := by
        intro hhead
        have hbyte := head_backslash.mpr hhead
        rw [isAbsolutePath, hbyte] at habsolute
        cases habsolute
      refine iff_of_true ?_ (.inr hhead)
      obtain ⟨text, htext, hagain⟩ := env.storedAgain_absolute h0 hroot habsolute h
      have hwholeText := shown_whole hdescribes hne htext hshown hwhole
      rw [hwholeText] at hreparse'
      rw [htext] at hdescribes
      exact env'.reparse_again hagain hdescribes hrelative hreparse'
    | false =>
      rw [habsolute, linkUnits_relative habsolute] at hdescribes hne
      rw [habsolute] at hrelative
      have hwholeText := shown_whole hdescribes hne rfl hshown hwhole
      rw [hwholeText] at hreparse'
      have hroot' : isRootPath (utf8 (forward (slashes s))) = false := by
        rw [forward_slashes, isRootPath_forward, hroot]
      by_cases hhead : s.head? = some '\\'
      · refine iff_of_false (fun heq => ?_) ?_
        · -- the record of what is shown is not relative
          obtain ⟨t, rfl⟩ : ∃ t, s = '\\' :: t := List.head?_eq_some_iff.mp hhead
          have hlen' : (utf8 (forward (slashes ('\\' :: t)))).length < 2 ^ 16 := by
            rwa [forward_slashes, ← utf8_forward, length_convertBsToFs]
          have hpack' := (env'.reparse_packs hroot' hlen' hreparse').1
          have habsolute' : isAbsolutePath (utf8 (forward (slashes ('\\' :: t)))) = true := rfl
          have hrelative' := packReparse_relative hpack'
          rw [heq, hrelative, habsolute'] at hrelative'
          cases hrelative'
        · rintro (hfalse | hnot)
          · cases hfalse
          · exact hnot hhead
      · refine iff_of_true ?_ (.inr hhead)
        have hbyte : (utf8 s).getD 0 0 ≠ 92 := fun hbyte => hhead (head_backslash.mp hbyte)
        have hagain : StoredAgain false (slashes s) := by
          have habsolute' : isAbsolutePath (utf8 (forward s)) = false := (isAbsolutePath_forward hbyte).trans habsolute
          refine ⟨?_, hroot', ?_⟩
          · rw [forward_slashes, habsolute']
          · rw [forward_slashes, linkUnits_relative habsolute', slashes_forward]
        exact env'.reparse_again hagain hdescribes hrelative hreparse'

/-- The copy of a link to `x\y` is that link, and the copy of one to `\dev\null` is a link to the device. -/
theorem relink_iff_copied :
    (∃ link link', inDriveC'.commonSymlink atFdcwd (utf8 ['x', '\\', 'y']) descriptorName true = .ok (some link) ∧
      doReadlink 1 (.symlink link.reparse) 64 = .ok (some (utf8 ['x', '/', 'y'])) ∧
      inDriveC'.commonSymlink atFdcwd (utf8 ['x', '/', 'y']) descriptorName true = .ok (some link') ∧
      link'.reparse = link.reparse) ∧
    ∃ link link', inDriveC'.commonSymlink atFdcwd (utf8 ['\\', 'd', 'e', 'v', '\\', 'n', 'u', 'l', 'l'])
        descriptorName true = .ok (some link) ∧
      doReadlink 1 (.symlink link.reparse) 64 = .ok (some (utf8 ['/', 'd', 'e', 'v', '/', 'n', 'u', 'l', 'l'])) ∧
      inDriveC'.commonSymlink atFdcwd (utf8 ['/', 'd', 'e', 'v', '/', 'n', 'u', 'l', 'l']) descriptorName true =
        .ok (some link') ∧
      link'.reparse ≠ link.reparse := by
  have htarget := descriptorName_accepted atFdcwd
  constructor
  · obtain ⟨link, hlink⟩ := inDriveC'.exists_link (s := ['x', '\\', 'y']) htarget
      (relative_accepted (by decide) (by decide) atFdcwd) (by decide) (by decide) (by decide)
    obtain ⟨link', hlink'⟩ := inDriveC'.exists_link (s := ['x', '/', 'y']) htarget
      (relative_accepted (by decide) (by decide) atFdcwd) (by decide) (by decide) (by decide)
    have hdescribes : link.reparse.Describes (utf16 ['x', '\\', 'y']) _ :=
      inDriveC'.reparse_describes (by decide) (by decide) (inDriveC'.commonSymlink_reparse hlink).1
    have hshown : doReadlink 1 (.symlink link.reparse) 64 = .ok (some (utf8 ['x', '/', 'y'])) :=
      doReadlink_text hdescribes (by decide) 1 64
    refine ⟨link, link', hlink, hshown, hlink', ?_⟩
    exact (inDriveC'.relink_iff (by decide) (by decide) hlink hshown (by decide) hlink').mpr (.inr (by decide))
  · obtain ⟨link, hlink⟩ := inDriveC'.exists_link (s := ['\\', 'd', 'e', 'v', '\\', 'n', 'u', 'l', 'l']) htarget
      (relative_accepted (by decide) (by decide) atFdcwd) (by decide) (by decide) (by decide)
    obtain ⟨link', hlink'⟩ := inDriveC'.exists_link htarget null_accepted (by decide) (by decide) (by decide)
    have hdescribes : link.reparse.Describes (utf16 ['\\', 'd', 'e', 'v', '\\', 'n', 'u', 'l', 'l']) _ :=
      inDriveC'.reparse_describes (by decide) (by decide) (inDriveC'.commonSymlink_reparse hlink).1
    have hshown : doReadlink 1 (.symlink link.reparse) 64 =
        .ok (some (utf8 ['/', 'd', 'e', 'v', '/', 'n', 'u', 'l', 'l'])) :=
      doReadlink_text hdescribes (by decide) 1 64
    refine ⟨link, link', hlink, hshown, hlink', fun heq => ?_⟩
    rcases (inDriveC'.relink_iff (by decide) (by decide) hlink hshown (by decide) hlink').mp heq with hroot | hhead
    · exact absurd hroot (by decide)
    · exact hhead rfl

end Surroundings

end WindowsLibc.Path.Absolute
