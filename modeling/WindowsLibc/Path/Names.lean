import Mathlib.Data.List.TakeWhile
import WindowsLibc.Path.Absolute
import WindowsLibc.Spawn.CommandLine

/-!
# Names that stand for something else (`internal/path.c`)

`/tmp` and what is in `/dev` are no files of a drive. They are found by comparing the beginnings of paths, some
with the terminator behind the name and some without.

* `Routed` says, for every way that `get_absolute_ntpath2` takes, what a path that takes it looks like.
* `named_iff` says which paths are understood as whole names: `/tmp` is compared without what follows it and in
  any case, and `atoi` makes a number of anything.
-/

namespace WindowsLibc.Path.Absolute

open WindowsLibc.Lib WindowsLibc.Fcntl
open WindowsLibc.Spawn (CString)

/-! ## Comparisons -/

variable {s t : List UInt8} {n : Nat}

/-- With the terminator of the literal. -/
theorem eq_of_same (hs : 0 ∉ s) (h : same n s t = true) (hn : n = t.length + 1) : s = t := by
  have htake : (t ++ [0]).take n = t ++ [0] := by
    rw [hn]
    exact List.take_of_length_le (by rw [List.length_append, List.length_singleton])
  rw [same, htake, beq_iff_eq] at h
  have hprefix : t ++ [0] <+: s ++ [0] := h ▸ List.take_prefix n (s ++ [0])
  rcases List.prefix_concat_iff.mp hprefix with heq | hprefix
  · exact (List.append_inj_left' heq rfl).symm
  · exact absurd (List.IsPrefix.subset hprefix (List.mem_append_right t (List.mem_singleton_self 0))) hs

/-- Without the terminator of the literal. -/
theorem prefix_of_same (h : same n s t = true) (hn : n = t.length) (ht : 0 ∉ t) : t <+: s := by
  have htake : (t ++ [0]).take n = t := by rw [hn, List.take_left]
  rw [same, htake, beq_iff_eq] at h
  have hprefix : t <+: s ++ [0] := h ▸ List.take_prefix n (s ++ [0])
  rcases List.prefix_concat_iff.mp hprefix with heq | hprefix
  · exact absurd (heq ▸ List.mem_append_right s (List.mem_singleton_self 0)) ht
  · exact hprefix

/-! ## Routes -/

/-- `/dev/`. -/
def dev : List UInt8 := ascii ['/', 'd', 'e', 'v', '/']

/-- `/dev/fd/`. -/
def devFd : List UInt8 := ascii ['/', 'd', 'e', 'v', '/', 'f', 'd', '/']

/-- `/tmp`. -/
def tmp : List UInt8 := ascii ['/', 't', 'm', 'p']

/-- The devices in `/dev`. -/
def deviceNames : List (List UInt8) :=
  [ascii ['n', 'u', 'l', 'l'], ascii ['t', 't', 'y'], ascii ['z', 'e', 'r', 'o'], ascii ['f', 'u', 'l', 'l'],
    ascii ['r', 'a', 'n', 'd', 'o', 'm'], ascii ['u', 'r', 'a', 'n', 'd', 'o', 'm']]

/-- The standard streams in `/dev`, with their descriptors. -/
def streamNames : List (List UInt8 × Int) :=
  [(ascii ['s', 't', 'd', 'i', 'n'], 0), (ascii ['s', 't', 'd', 'o', 'u', 't'], 1),
    (ascii ['s', 't', 'd', 'e', 'r', 'r'], 2)]

/-- What a path looks like that takes a route. -/
inductive Routed (path : List UInt8) : Route → Prop
  | root (h : path = [47] ∨ path = [92]) : Routed path .root
  | device {name : List UInt8} (hname : name ∈ deviceNames) (h : path = dev ++ name) (length : UInt16)
      (ntpath : List WChar) (type : HandleType) : Routed path (.device length ntpath type)
  | stream {name : List UInt8} {fd : Int} (hname : (name, fd) ∈ streamNames) (h : path = dev ++ name) :
      Routed path (.descriptor fd)
  | descriptor {rest : List UInt8} (h : path = devFd ++ rest) (hrest : 0 ≤ atoi rest) :
      Routed path (.descriptor (atoi rest))
  | negative {rest : List UInt8} (h : path = devFd ++ rest) (hrest : atoi rest < 0) : Routed path .negative
  | dosDevice (h : path.head? ≠ some 47) (length : UInt16) (ntpath : List WChar) (type : HandleType) :
      Routed path (.device length ntpath type)
  | pipe (h : isPipe path = true) : Routed path .pipe
  | share (hpipe : isPipe path = false) (h : [92, 92] <+: path ∨ [47, 47] <+: path) : Routed path .share
  | temporary (h : sameLetters 4 path tmp = true) : Routed path .temporary
  | file (htmp : sameLetters 4 path tmp = false) (hshare : ¬ [47, 47] <+: path) : Routed path .file

theorem routed_device {name t : List UInt8} (ht : t ∈ deviceNames) (h0 : 0 ∉ name) (h : same n name t = true)
    (hn : n = t.length + 1) (length : UInt16) (ntpath : List WChar) (type : HandleType) :
    Routed (dev ++ name) (.device length ntpath type) :=
  .device (eq_of_same h0 h hn ▸ ht) rfl length ntpath type

theorem routed_stream {name t : List UInt8} {fd : Int} (ht : (ascii ['s', 't', 'd'] ++ t, fd) ∈ streamNames)
    (h0 : 0 ∉ name) (hstd : same 3 name (ascii ['s', 't', 'd']) = true) (h : same n (name.drop 3) t = true)
    (hn : n = t.length + 1) : Routed (dev ++ name) (.descriptor fd) := by
  obtain ⟨rest, rfl⟩ := prefix_of_same hstd rfl (by decide)
  have hrest : rest = t := eq_of_same (fun hmem => h0 (List.mem_append_right _ hmem)) h hn
  exact .stream (hrest ▸ ht) rfl

theorem posixDevice_routed {name : List UInt8} (h0 : 0 ∉ name) {r : Route}
    (h : posixDevice (dev ++ name) = some r) : Routed (dev ++ name) r := by
  have hdrop : (dev ++ name).drop 5 = name := rfl
  have hdrop' : (dev ++ name).drop 8 = name.drop 3 := rfl
  simp only [posixDevice, hdrop, hdrop', Bool.and_eq_true] at h
  rcases ite_eq_iff.mp h with ⟨hname, heq⟩ | ⟨-, h⟩
  · exact Option.some.inj heq ▸ routed_device (by decide) h0 hname rfl _ _ _
  rcases ite_eq_iff.mp h with ⟨hname, heq⟩ | ⟨-, h⟩
  · exact Option.some.inj heq ▸ routed_device (by decide) h0 hname rfl _ _ _
  rcases ite_eq_iff.mp h with ⟨⟨hstd, hname⟩, heq⟩ | ⟨-, h⟩
  · exact Option.some.inj heq ▸ routed_stream (by decide) h0 hstd hname rfl
  rcases ite_eq_iff.mp h with ⟨⟨hstd, hname⟩, heq⟩ | ⟨-, h⟩
  · exact Option.some.inj heq ▸ routed_stream (by decide) h0 hstd hname rfl
  rcases ite_eq_iff.mp h with ⟨⟨hstd, hname⟩, heq⟩ | ⟨-, h⟩
  · exact Option.some.inj heq ▸ routed_stream (by decide) h0 hstd hname rfl
  rcases ite_eq_iff.mp h with ⟨hname, heq⟩ | ⟨-, h⟩
  · exact Option.some.inj heq ▸ routed_device (by decide) h0 hname rfl _ _ _
  rcases ite_eq_iff.mp h with ⟨hname, heq⟩ | ⟨-, h⟩
  · exact Option.some.inj heq ▸ routed_device (by decide) h0 hname rfl _ _ _
  rcases ite_eq_iff.mp h with ⟨hname, heq⟩ | ⟨-, h⟩
  · exact Option.some.inj heq ▸ routed_device (by decide) h0 hname rfl _ _ _
  rcases ite_eq_iff.mp h with ⟨hname, heq⟩ | ⟨-, h⟩
  · exact Option.some.inj heq ▸ routed_device (by decide) h0 hname rfl _ _ _
  rcases ite_eq_iff.mp h with ⟨hname, heq⟩ | ⟨-, h⟩
  · obtain ⟨rest, rfl⟩ := prefix_of_same hname rfl (by decide)
    have hrest : (ascii ['f', 'd', '/'] ++ rest).drop 3 = rest := rfl
    rw [hrest] at heq
    cases heq
    split
    · next hneg => exact .negative rfl hneg
    · next hpos => exact .descriptor rfl (Int.not_lt.mp hpos)
  · cases h

theorem dosDevice_slash (rest : List UInt8) : dosDevice (47 :: rest) = none := rfl

theorem dosDevice_routed {path : List UInt8} {r : Route} (h : dosDevice path = some r) : Routed path r := by
  have hhead : path.head? ≠ some 47 := by
    intro hslash
    obtain ⟨rest, rfl⟩ := List.head?_eq_some_iff.mp hslash
    cases (dosDevice_slash rest).symm.trans h
  unfold dosDevice at h
  rcases ite_eq_iff.mp h with ⟨-, heq⟩ | ⟨-, h⟩
  · exact Option.some.inj heq ▸ .dosDevice hhead _ _ _
  rcases ite_eq_iff.mp h with ⟨-, h⟩ | ⟨-, h⟩
  · rcases ite_eq_iff.mp h with ⟨-, heq⟩ | ⟨-, h⟩
    · exact Option.some.inj heq ▸ .dosDevice hhead _ _ _
    rcases ite_eq_iff.mp h with ⟨-, heq⟩ | ⟨-, h⟩
    · exact Option.some.inj heq ▸ .dosDevice hhead _ _ _
    rcases ite_eq_iff.mp h with ⟨-, heq⟩ | ⟨-, h⟩
    · exact Option.some.inj heq ▸ .dosDevice hhead _ _ _
    · cases h
  · cases h

/-- Two characters at the beginning of a path. -/
theorem getD_pair_iff {path : List UInt8} {c : UInt8} (hc : c ≠ 0) :
    (path.getD 0 0 == c && path.getD 1 0 == c) = true ↔ [c, c] <+: path := by
  match path with
  | [] => simp [Ne.symm hc]
  | [d] => simp [Ne.symm hc]
  | d :: e :: path =>
    rw [List.getD_cons_zero, List.getD_cons_succ, List.getD_cons_zero, Bool.and_eq_true, beq_iff_eq,
      beq_iff_eq, List.cons_prefix_cons, List.cons_prefix_cons]
    exact ⟨fun h => ⟨h.1.symm, h.2.symm, List.nil_prefix⟩, fun h => ⟨h.1.symm, h.2.1.symm⟩⟩

theorem routed {path : List UInt8} (h0 : 0 ∉ path) : Routed path (route path) := by
  rw [route]
  by_cases hroot : isRootPath path = true
  · rw [if_pos hroot]
    refine .root ?_
    match path with
    | [] => cases hroot
    | [c] => simpa [isRootPath] using hroot
    | c :: d :: rest =>
      refine absurd ?_ h0
      simp only [isRootPath, List.getD_cons_succ, List.getD_cons_zero, Bool.and_eq_true, beq_iff_eq] at hroot
      rw [hroot.1]
      exact List.mem_cons_of_mem c List.mem_cons_self
  rw [if_neg hroot]
  split
  · next r hdevice =>
    split at hdevice
    · next hdev =>
      obtain ⟨name, rfl⟩ := prefix_of_same hdev rfl (by decide)
      exact posixDevice_routed (fun hmem => h0 (List.mem_append_right _ hmem)) hdevice
    · cases hdevice
  split
  · next r hdevice => exact dosDevice_routed hdevice
  by_cases hpipe : isPipe path = true
  · rw [if_pos hpipe]
    exact .pipe hpipe
  rw [if_neg hpipe, Bool.not_eq_true] at *
  by_cases hshare : (path.getD 0 0 == 92 && path.getD 1 0 == 92 ||
      path.getD 0 0 == 47 && path.getD 1 0 == 47) = true
  · rw [if_pos hshare]
    rw [Bool.or_eq_true, getD_pair_iff (by decide), getD_pair_iff (by decide)] at hshare
    exact .share hpipe hshare
  rw [if_neg hshare]
  rw [Bool.or_eq_true, getD_pair_iff (by decide), getD_pair_iff (by decide), not_or] at hshare
  by_cases htmp : sameLetters 4 path (ascii ['/', 't', 'm', 'p']) = true
  · rw [if_pos htmp]
    exact .temporary htmp
  · rw [if_neg htmp]
    exact .file (Bool.not_eq_true _ ▸ htmp) hshare.2

theorem lower_eq_slash {c : UInt8} (h : lower c = 47) : c = 47 := by
  unfold lower at h
  split at h
  · next hupper =>
    have hle := UInt8.le_iff_toNat_le.mp hupper.1
    have hle' := UInt8.le_iff_toNat_le.mp hupper.2
    have hsum := congrArg UInt8.toNat h
    rw [UInt8.toNat_add] at hsum
    change (c.toNat + 32) % 256 = 47 at hsum
    change 65 ≤ c.toNat at hle
    change c.toNat ≤ 90 at hle'
    omega
  · exact h

/-- The route of `/tmp`. -/
theorem route_temporary {path : List UInt8} (h0 : 0 ∉ path) (h : sameLetters 4 path tmp = true) :
    route path = .temporary := by
  have hprefix : tmp.map lower <+: path.map lower := prefix_of_same h rfl (by decide)
  have hlength := hprefix.length_le
  rw [List.length_map, List.length_map] at hlength
  match path, hlength with
  | c :: d :: path, _ =>
    obtain ⟨hc, hprefix⟩ := List.cons_prefix_cons.mp hprefix
    obtain ⟨hd, -⟩ := List.cons_prefix_cons.mp hprefix
    have hd : d ≠ 47 := by
      rintro rfl
      exact absurd hd (by decide)
    obtain rfl := lower_eq_slash hc.symm
    have hrouted := routed h0
    generalize route (47 :: d :: path) = r at hrouted
    cases hrouted with
    | root hpath => rcases hpath with hpath | hpath <;> cases hpath
    | device hname hpath | stream hname hpath | descriptor hpath hrest | negative hpath hrest =>
      rw [hpath] at h
      cases h
    | dosDevice hhead => exact absurd rfl hhead
    | pipe hpipe => cases hpipe
    | share hpipe hshare =>
      rcases hshare with hshare | hshare
      · exact absurd (List.cons_prefix_cons.mp hshare).1 (by decide)
      · exact absurd (List.cons_prefix_cons.mp (List.cons_prefix_cons.mp hshare).2).1.symm hd
    | temporary => rfl
    | file htmp => exact absurd h (by rw [htmp]; exact Bool.false_ne_true)

theorem route_descriptor (rest : List UInt8) :
    route (devFd ++ rest) = if atoi rest < 0 then .negative else .descriptor (atoi rest) := rfl

/-! ## Whole names -/

/-- `/tmp`, or a path in it. -/
def IsTemporary (path : List UInt8) : Prop := path = tmp ∨ tmp ++ [47] <+: path

/-- A decimal number that is an `int`. -/
structure IsNumber (digits : List UInt8) : Prop where
  nonempty : digits ≠ []
  decimal : ∀ d ∈ digits, isDigit d = true
  small : decimalValue digits < 2 ^ 31

/-- The name of this descriptor. -/
def NamesDescriptor (path : List UInt8) (fd : Int) : Prop :=
  (∃ name, (name, fd) ∈ streamNames ∧ path = dev ++ name) ∨
    ∃ digits, IsNumber digits ∧ path = devFd ++ digits ∧ fd = decimalValue digits

/-- `/X` or `/X/...`. -/
def IsDrive (path : List UInt8) : Prop :=
  ∃ c rest, isAlpha c = true ∧ path = 47 :: c :: rest ∧ (rest = [] ∨ rest.head? = some 47)

/-- The paths that begin with a slash and stand for something. -/
def Known (path : List UInt8) : Prop :=
  path = [47] ∨ IsDrive path ∨ [47, 47] <+: path ∨ (∃ name ∈ deviceNames, path = dev ++ name) ∨
    (∃ fd, NamesDescriptor path fd) ∨ IsTemporary path

/-- Special names are whole components. -/
structure WholeNames (path : List UInt8) : Prop where
  temporary : route path = .temporary → IsTemporary path
  descriptor : ∀ fd, route path = .descriptor fd → NamesDescriptor path fd
  rejected : path.head? = some 47 → ¬ Known path →
    ∀ (env : Surroundings) (dirfd : Int), env.getAbsoluteNtpath2 dirfd path = .ok (.error .ENOENT)

/-- What begins like `/tmp` is `/tmp` or in it, and what follows `/dev/fd/` is a number, of which `atoi` makes no
other one, or negative. -/
structure Named (path : List UInt8) : Prop where
  temporary : sameLetters 4 path tmp = true → IsTemporary path
  descriptor : ∀ rest, path = devFd ++ rest → atoi rest < 0 ∨ IsNumber rest

theorem isSpace_of_digit {d : UInt8} (h : isDigit d = true) : isSpace d = false ∧ d ≠ 45 ∧ d ≠ 43 := by
  rw [isDigit, Bool.and_eq_true, decide_eq_true_iff, decide_eq_true_iff] at h
  have hle := UInt8.le_iff_toNat_le.mp h.1
  change 48 ≤ d.toNat at hle
  refine ⟨?_, ?_, ?_⟩
  · have hne : d ≠ 32 := by
      rintro rfl
      exact absurd hle (by decide)
    have hlarge : ¬ d ≤ 13 := by
      intro hsmall
      have hsmall := UInt8.le_iff_toNat_le.mp hsmall
      change d.toNat ≤ 13 at hsmall
      omega
    simp only [isSpace, beq_eq_false_iff_ne.mpr hne, decide_eq_false hlarge, Bool.and_false, Bool.or_false]
  · rintro rfl
    exact absurd hle (by decide)
  · rintro rfl
    exact absurd hle (by decide)

theorem atoi_number {digits : List UInt8} (h : IsNumber digits) : atoi digits = decimalValue digits := by
  obtain ⟨d, rest, rfl⟩ := List.exists_cons_of_ne_nil h.nonempty
  obtain ⟨hspace, hminus, hplus⟩ := isSpace_of_digit (h.decimal d List.mem_cons_self)
  have hdigits : (d :: rest).takeWhile isDigit = d :: rest := List.takeWhile_eq_self_iff.mpr h.decimal
  have hsign : ¬ ((d :: rest).head? = some 45 ∨ (d :: rest).head? = some 43) := by
    rintro (heq | heq)
    · exact hminus (Option.some.inj heq)
    · exact hplus (Option.some.inj heq)
  have hsmall := h.small
  simp only [atoi, List.dropWhile_cons, hspace, Bool.false_eq_true, if_false, if_neg hsign, List.drop_zero, hdigits]
  have hfirst : ¬ (d :: rest).head? = some 45 := fun heq => hsign (.inl heq)
  rw [if_neg hfirst]
  omega

/-- A bad path. -/
theorem getAbsoluteNtpath2_bad {path : List UInt8} (h0 : 0 ∉ path) (hroute : route path = .file)
    (hslash : path.head? = some 47) (hdrive : ¬ IsDrive path) (env : Surroundings) (dirfd : Int) :
    env.getAbsoluteNtpath2 dirfd path = .ok (.error .ENOENT) := by
  obtain ⟨rest, rfl⟩ := List.head?_eq_some_iff.mp hslash
  have habsolute : isAbsolutePath (47 :: rest) = true := Bool.or_true _
  have hbad : Surroundings.isBadPath (47 :: rest) = true := by
    by_contra h
    rw [Bool.not_eq_true, Surroundings.isBadPath, Bool.and_eq_false_iff] at h
    have h := h.resolve_left (fun hfalse => by cases hfalse)
    rw [Bool.not_eq_false', Bool.and_eq_true, Bool.or_eq_true, beq_iff_eq, beq_iff_eq] at h
    refine hdrive ?_
    match rest with
    | [] => exact absurd h.1 (by decide)
    | [c] => exact ⟨c, [], h.1, rfl, .inl rfl⟩
    | c :: d :: rest =>
      rcases h.2 with hslash | hzero
      · exact ⟨c, d :: rest, h.1, rfl, .inr (congrArg some hslash)⟩
      · change d = 0 at hzero
        subst hzero
        exact absurd (List.mem_cons_of_mem _ (List.mem_cons_of_mem _ List.mem_cons_self)) h0
  rw [Surroundings.getAbsoluteNtpath2, hroute]
  simp only [Surroundings.fileNtpath, habsolute, hbad, if_true]

/-- **Special names.** Which paths are understood as whole names. -/
theorem named_iff (path : CString) : WholeNames path.bytes ↔ Named path.bytes := by
  obtain ⟨path, h0⟩ := path
  constructor
  · intro h
    refine ⟨fun htmp => h.temporary (route_temporary h0 htmp), ?_⟩
    rintro rest rfl
    by_cases hneg : atoi rest < 0
    · exact .inl hneg
    · have hroute : route (devFd ++ rest) = .descriptor (atoi rest) := by
        rw [route_descriptor, if_neg hneg]
      rcases h.descriptor _ hroute with ⟨name, hname, heq⟩ | ⟨digits, hdigits, heq, -⟩
      · have hstream : ∀ e ∈ streamNames, ¬ ascii ['f', 'd', '/'] <+: e.1 := by decide
        exact absurd ⟨rest, @List.append_cancel_left _ dev _ _ heq⟩ (hstream _ hname)
      · exact .inr (List.append_cancel_left heq ▸ hdigits)
  · intro h
    have hrouted := routed h0
    have hdescriptor : ∀ fd, route path = .descriptor fd → NamesDescriptor path fd := by
      intro fd hroute
      rw [hroute] at hrouted
      cases hrouted with
      | stream hname hpath => exact .inl ⟨_, hname, hpath⟩
      | descriptor hpath hrest =>
        rcases h.descriptor _ hpath with hneg | hnumber
        · exact absurd hneg (Int.not_lt.mpr hrest)
        · exact .inr ⟨_, hnumber, hpath, atoi_number hnumber⟩
    have htemporary : route path = .temporary → IsTemporary path := by
      intro hroute
      rw [hroute] at hrouted
      cases hrouted with
      | temporary htmp => exact h.temporary htmp
    refine ⟨htemporary, hdescriptor, fun hslash hknown env dirfd => ?_⟩
    simp only [Known, not_or] at hknown
    obtain ⟨hroot, hdrive, hshare, hdevice, hfd, htmp⟩ := hknown
    cases hroute : route path with
    | root =>
      rw [hroute] at hrouted
      cases hrouted with
      | root hpath =>
        rcases hpath with rfl | rfl
        · exact absurd rfl hroot
        · cases hslash
    | device length ntpath type =>
      rw [hroute] at hrouted
      cases hrouted with
      | device hname hpath => exact absurd ⟨_, hname, hpath⟩ hdevice
      | dosDevice hhead => exact absurd hslash hhead
    | descriptor fd => exact absurd ⟨fd, hdescriptor fd hroute⟩ hfd
    | negative => rw [Surroundings.getAbsoluteNtpath2, hroute]
    | pipe =>
      rw [hroute] at hrouted
      cases hrouted with
      | pipe hpipe =>
        obtain ⟨rest, rfl⟩ := List.head?_eq_some_iff.mp hslash
        cases hpipe
    | share =>
      rw [hroute] at hrouted
      cases hrouted with
      | share hpipe hpath =>
        rcases hpath with hpath | hpath
        · obtain ⟨rest, rfl⟩ := hpath
          cases hslash
        · exact absurd hpath hshare
    | temporary => exact absurd (htemporary hroute) htmp
    | file => exact getAbsoluteNtpath2_bad h0 hroute hslash hdrive env dirfd

/-- `/tmpfile` is taken for a file `file` behind the name of the directory, and `/dev/fd/` for standard input. -/
theorem not_wholeNames :
    ¬ WholeNames (ascii ['/', 't', 'm', 'p', 'f', 'i', 'l', 'e']) ∧ ¬ WholeNames devFd := by
  constructor
  · intro h
    rcases h.temporary (by decide) with hpath | hpath
    · exact absurd hpath (by decide)
    · exact absurd hpath (by decide)
  · intro h
    rcases h.descriptor 0 (by decide) with ⟨name, hname, hpath⟩ | ⟨digits, hdigits, hpath, -⟩
    · have hother : ∀ e ∈ streamNames, devFd ≠ dev ++ e.1 := by decide
      exact hother _ hname hpath
    · exact hdigits.nonempty (List.append_cancel_left (hpath.symm.trans (List.append_nil devFd).symm))

end WindowsLibc.Path.Absolute
