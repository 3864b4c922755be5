import WindowsLibc.Path.Joined

/-!
# Symbolic links (`unistd/symlink.c`)

The text of a link is written in place and then packed twice, as the name that is shown and as the name that is
followed. The lengths of the record are of 16 bits.

* `Surroundings.reparse` is the record for a source, `commonSymlink` the whole function.
* `packReparse_spec` and `packReparse_fault`: the record holds both names exactly if its size is below 65536.
-/

namespace WindowsLibc.Path.Absolute

open WindowsLibc.Lib WindowsLibc.Fcntl

/-! ## The text -/

/-- `towupper`, of the C locale. -/
def towupper (c : WChar) : WChar := if 97 ≤ c ∧ c ≤ 122 then c - 32 else c

/-- "Change /c to C:." -/
def cygwinDrive (units : List WChar) : List WChar :=
  if units.getD 0 0 = 47 ∧ isAlpha (units.getD 1 0).toUInt8 = true then towupper (units.getD 1 0) :: 58 :: units.drop 2
  else units

/-- "If suppose the source reads "C:". We need to append a trailing slash so that it gets intepreted as directory." -/
def rootDrive (units : List WChar) : List WChar := if units.length = 2 then units ++ [backslash] else units

/-- `u16_source`, as it is stored. -/
def linkUnits (absolute : Bool) (units : List WChar) : List WChar :=
  let units := backslashed (cygwinDrive units)
  -- "Convert drive letter to uppercase."
  if absolute then rootDrive (units.modifyHead towupper) else units

/-- `RtlUTF8StringToUnicodeString`, for the length in 16 bits. -/
def convertSource (source : List UInt8) : Option (List WChar) :=
  match rtlUtf8ToUnicode (source.take (source.length % 2 ^ 16)) with
  | none => none
  | some units => if 0xFFFF < 2 * units.length + 2 then none else some units

/-! ## The record -/

/-- `REPARSE_DATA_BUFFER`, with the `SymbolicLinkReparseBuffer`. -/
structure Reparse where
  dataLength : UInt16
  substituteNameOffset : UInt16
  substituteNameLength : UInt16
  printNameOffset : UInt16
  printNameLength : UInt16
  /-- `SYMLINK_FLAG_RELATIVE`. -/
  relative : Bool
  pathBuffer : List WChar

/-- `L"\\??\\"`. -/
def dosNames : List WChar := [backslash, 63, 63, backslash]

/-- The bytes of `L"\\??\\"`, where it is stored. -/
def dosNamesLength (absolute : Bool) : Nat := if absolute then 8 else 0

/-- `total_reparse_data_length`: the header, the other members, and both names. -/
def reparseLength (absolute : Bool) (length : UInt16) : UInt16 :=
  UInt16.ofNat (8 + 12 + 2 * length.toNat + dosNamesLength absolute)

/-- What the substitute name begins with. -/
def addDosNames (absolute : Bool) (length : UInt16) (buffer : List WChar) : Except Stop (List WChar) :=
  if absolute then copy buffer (length.toNat / 2) dosNames 8 else .ok buffer

/-- The record of a text. -/
def packReparse (absolute : Bool) (units : List WChar) : Except Stop Reparse :=
  let length := UInt16.ofNat (2 * units.length)
  let total := reparseLength absolute length
  -- the members before `PathBuffer` are written too
  if total.toNat < 20 then .error .fault
  else do
    let buffer ← copy (List.replicate ((total.toNat - 20) / 2) 0) 0 units length.toNat
    let buffer ← addDosNames absolute length buffer
    let buffer ← copy buffer ((length.toNat + dosNamesLength absolute) / 2) units length.toNat
    return ⟨total - 8, length, UInt16.ofNat (length.toNat + dosNamesLength absolute), 0, length, !absolute, buffer⟩

/-- The record of `symlink_root`, for the drive of the current directory. -/
def rootReparse (letter : WChar) : Except Stop Reparse := do
  let rootDrive := dosNames ++ [letter, 58, backslash]
  let buffer ← copy (List.replicate 10 0) 0 (rootDrive.drop 4) 6
  let buffer ← copy buffer 3 rootDrive 14
  return ⟨40 - 8, 6, 14, 0, 6, false, buffer⟩

/-- The names of a record: what lies where, and that nothing else does. -/
structure Reparse.Describes (r : Reparse) (printName substituteName : List WChar) : Prop where
  written : r.pathBuffer = printName ++ substituteName
  dataLength : r.dataLength.toNat = 12 + 2 * r.pathBuffer.length
  printOffset : r.printNameOffset.toNat = 0
  printLength : r.printNameLength.toNat = 2 * printName.length
  substituteOffset : r.substituteNameOffset.toNat = 2 * printName.length
  substituteLength : r.substituteNameLength.toNat = 2 * substituteName.length

/-- The name that is followed. -/
def Reparse.substituteName (r : Reparse) : List WChar :=
  (r.pathBuffer.drop (r.substituteNameOffset.toNat / 2)).take (r.substituteNameLength.toNat / 2)

theorem Reparse.Describes.substituteName_eq {r : Reparse} {printName substituteName : List WChar}
    (h : r.Describes printName substituteName) : r.substituteName = substituteName := by
  rw [Reparse.substituteName, h.written, h.substituteOffset, h.substituteLength,
    Nat.mul_div_cancel_left _ (by decide : 0 < 2), Nat.mul_div_cancel_left _ (by decide : 0 < 2), List.drop_left,
    List.take_length]

/-- What the substitute name of a text is. -/
def substituteOf (absolute : Bool) (units : List WChar) : List WChar := (if absolute then dosNames else []) ++ units

theorem length_substituteOf (absolute : Bool) (units : List WChar) :
    2 * (substituteOf absolute units).length = 2 * units.length + dosNamesLength absolute := by
  cases absolute with
  | false => rfl
  | true =>
    rw [substituteOf, if_pos rfl, List.length_append, Nat.mul_add, Nat.add_comm]
    rfl

/-- The record, if its size has not wrapped. -/
theorem packReparse_spec {absolute : Bool} {units : List WChar}
    (hfit : 4 * units.length + 20 + dosNamesLength absolute < 2 ^ 16) :
    ∃ r, packReparse absolute units = .ok r ∧ r.Describes units (substituteOf absolute units) := by
  have hlength : (UInt16.ofNat (2 * units.length)).toNat = 2 * units.length := by
    rw [UInt16.toNat_ofNat']
    omega
  have htotal : (reparseLength absolute (UInt16.ofNat (2 * units.length))).toNat =
      4 * units.length + 20 + dosNamesLength absolute := by
    rw [reparseLength, hlength, UInt16.toNat_ofNat']
    omega
  have hsubstitute := length_substituteOf absolute units
  obtain ⟨b₁, hcopy₁, hlen₁, hpre₁⟩ := copy_whole
    (List.nil_prefix (l := List.replicate ((4 * units.length + 20 + dosNamesLength absolute - 20) / 2) (0 : WChar)))
    units 0 (2 * units.length : Nat) rfl (by omega) (by rw [List.length_replicate, List.length_nil]; omega)
  rw [List.length_replicate] at hlen₁
  rw [List.nil_append] at hpre₁
  obtain ⟨b₂, hcopy₂, hlen₂, hpre₂⟩ : ∃ b₂, addDosNames absolute (UInt16.ofNat (2 * units.length)) b₁ = .ok b₂ ∧
      b₂.length = b₁.length ∧ units ++ (if absolute then dosNames else []) <+: b₂ := by
    cases absolute with
    | false => exact ⟨b₁, rfl, rfl, by rwa [if_neg Bool.false_ne_true, List.append_nil]⟩
    | true =>
      have hroom : units.length + dosNames.length ≤ b₁.length := by
        rw [hlen₁]
        change units.length + 4 ≤ (4 * units.length + 20 + 8 - 20) / 2
        omega
      obtain ⟨b₂, hcopy₂, hlen₂, hpre₂⟩ := copy_whole hpre₁ dosNames
        ((UInt16.ofNat (2 * units.length)).toNat / 2) 8 (by omega) rfl hroom
      exact ⟨b₂, hcopy₂, hlen₂, hpre₂⟩
  have hwhole : (units ++ substituteOf absolute units).length = b₂.length := by
    rw [hlen₂, hlen₁, List.length_append]
    omega
  have hend : (units ++ (if absolute then dosNames else [])).length = (2 * units.length + dosNamesLength absolute) / 2 := by
    rw [substituteOf, List.length_append] at hsubstitute
    rw [List.length_append]
    omega
  obtain ⟨b₃, hcopy₃, hlen₃, hpre₃⟩ := copy_whole hpre₂ units ((2 * units.length + dosNamesLength absolute) / 2)
    (2 * units.length : Nat) hend.symm (by omega)
    (by rw [← List.length_append, List.append_assoc, ← substituteOf, hwhole])
  rw [List.append_assoc, ← substituteOf] at hpre₃
  have hbuffer : b₃ = units ++ substituteOf absolute units :=
    (hpre₃.eq_of_length (hwhole.trans hlen₃.symm)).symm
  refine ⟨⟨reparseLength absolute (UInt16.ofNat (2 * units.length)) - 8, UInt16.ofNat (2 * units.length),
    UInt16.ofNat (2 * units.length + dosNamesLength absolute), 0, UInt16.ofNat (2 * units.length), !absolute, b₃⟩,
    ?_, hbuffer, ?_, rfl, hlength, hlength, ?_⟩
  · simp only [packReparse, hlength, htotal, hcopy₁, hcopy₂, hcopy₃, bind, Except.bind]
    exact if_neg (by omega)
  · change (reparseLength absolute (UInt16.ofNat (2 * units.length)) - 8).toNat = 12 + 2 * b₃.length
    rw [UInt16.toNat_sub_of_le _ _ (UInt16.le_iff_toNat_le.mpr (by rw [htotal]; change 8 ≤ _; omega)), htotal, hlen₃,
      hlen₂, hlen₁]
    change _ - 8 = _
    omega
  · change (UInt16.ofNat _).toNat = _
    rw [UInt16.toNat_ofNat', hsubstitute]
    omega

theorem copy_error {dst src : List WChar} {off : Nat} {bytes : Int} {stop : Stop}
    (h : copy dst off src bytes = .error stop) : stop = .fault := by
  rcases ite_eq_iff.mp h with ⟨-, h⟩ | ⟨-, h⟩
  · cases h
  · exact (Except.error.inj h).symm

/-- There is no record, if its size has wrapped. -/
theorem packReparse_fault {absolute : Bool} {units : List WChar} (hsmall : 2 * units.length < 2 ^ 16)
    (hwrap : 2 ^ 16 ≤ 4 * units.length + 20 + dosNamesLength absolute) :
    packReparse absolute units = .error .fault := by
  have hlength : (UInt16.ofNat (2 * units.length)).toNat = 2 * units.length := by
    rw [UInt16.toNat_ofNat']
    omega
  have htotal : (reparseLength absolute (UInt16.ofNat (2 * units.length))).toNat =
      (4 * units.length + 20 + dosNamesLength absolute) % 2 ^ 16 := by
    rw [reparseLength, hlength, UInt16.toNat_ofNat']
    omega
  have height : dosNamesLength absolute ≤ 8 := by cases absolute <;> decide
  generalize hreplicate :
    List.replicate (((4 * units.length + 20 + dosNamesLength absolute) % 2 ^ 16 - 20) / 2) (0 : WChar) = b₀
  have hlen₀ := congrArg List.length hreplicate
  rw [List.length_replicate] at hlen₀
  simp only [packReparse, hlength, htotal, hreplicate, bind, Except.bind]
  rcases Nat.lt_or_ge ((4 * units.length + 20 + dosNamesLength absolute) % 2 ^ 16) 20 with hlt | hge
  · rw [if_pos hlt]
  rw [if_neg (by omega)]
  cases hcopy₁ : copy b₀ 0 units (2 * units.length : Nat) with
  | error stop => exact congrArg Except.error (copy_error hcopy₁)
  | ok b₁ =>
    obtain ⟨-, -, hlen₁⟩ := copy_bounds hcopy₁
    dsimp only
    cases hcopy₂ : addDosNames absolute (UInt16.ofNat (2 * units.length)) b₁ with
    | error stop =>
      refine congrArg Except.error ?_
      rcases ite_eq_iff.mp hcopy₂ with ⟨-, h⟩ | ⟨-, h⟩
      · exact copy_error h
      · cases h
    | ok b₂ =>
      have hlen₂ : b₂.length = b₁.length := by
        rcases ite_eq_iff.mp hcopy₂ with ⟨-, h⟩ | ⟨-, h⟩
        · exact (copy_bounds h).2.2
        · rw [Except.ok.inj h]
      dsimp only
      cases hcopy₃ : copy b₂ ((2 * units.length + dosNamesLength absolute) / 2) units (2 * units.length : Nat) with
      | error stop => exact congrArg Except.error (copy_error hcopy₃)
      | ok b₃ =>
        obtain ⟨-, hroom, -⟩ := copy_bounds hcopy₃
        omega

/-- The record of a drive. -/
theorem rootReparse_spec (letter : WChar) : ∃ r, rootReparse letter = .ok r ∧
    r.Describes [letter, 58, backslash] (substituteOf true [letter, 58, backslash]) := by
  have hdata : (40 - 8 : UInt16).toNat = 32 := by decide
  exact ⟨⟨40 - 8, 6, 14, 0, 6, false, [letter, 58, backslash] ++ substituteOf true [letter, 58, backslash]⟩, rfl,
    rfl, hdata, rfl, rfl, rfl, rfl⟩

/-! ## The function -/

/-- "This is an easy way of checking whether the link text if it exists is a directory or a file." -/
def normalizedSource (target source : List UInt8) : List UInt8 :=
  target ++ (if target.getLast? = some 47 ∨ target.getLast? = some 92 then [] else [47]) ++ [46, 46, 47] ++ source

/-- A link, and its record. -/
structure Link where
  target : NtString
  reparse : Reparse

namespace Surroundings

variable (env : Surroundings)

/-- The record that is set for a source, if it can be converted. -/
def reparse (source : List UInt8) : Except Stop (Option Reparse) :=
  if isRootPath source then (rootReparse env.cwd.letter.toUInt16).map some
  else
    match convertSource source with
    | none => .ok none
    | some units =>
      (packReparse (isAbsolutePath source) (linkUnits (isAbsolutePath source) units)).map some

/-- `u16_ntsource`. -/
def sourceNtpath (dirfd : Int) (source target : List UInt8) : Except Stop Outcome :=
  env.getAbsoluteNtpath2 dirfd (if isAbsolutePath source then source else normalizedSource target source)

/-- Whether there is a path for the source: "Symlinking to root '/' requires special handling." -/
def acceptsSource (dirfd : Int) (source target : List UInt8) : Except Stop Bool :=
  if isRootPath source then .ok true
  else do
    match ← env.sourceNtpath dirfd source target with
    | .error _ => .ok false
    | .ok _ => .ok true

/-- `common_symlink`, where the kernel creates the file for the link or does not. -/
def commonSymlink (dirfd : Int) (source target : List UInt8) (created : Bool) : Except Stop (Option Link) := do
  match ← env.getAbsoluteNtpath2 dirfd target with
  | .error _ => .ok none
  | .ok (nttarget, _) => do
    let accepted ← env.acceptsSource dirfd source target
    if accepted && created then (env.reparse source).map (Option.map (Link.mk nttarget)) else .ok none

/-- When there is a path for a source that is not the root. -/
theorem acceptsSource_iff {dirfd : Int} {source target : List UInt8} (hroot : isRootPath source = false) :
    env.acceptsSource dirfd source target = .ok true ↔
      ∃ answer, env.sourceNtpath dirfd source target = .ok (.ok answer) := by
  simp only [acceptsSource, hroot, Bool.false_eq_true, if_false, bind, Except.bind]
  cases env.sourceNtpath dirfd source target with
  | error stop =>
    constructor
    · intro h
      cases h
    · rintro ⟨answer, h⟩
      cases h
  | ok outcome =>
    cases outcome with
    | error failure =>
      constructor
      · intro h
        cases Except.ok.inj h
      · rintro ⟨answer, h⟩
        cases Except.ok.inj h
    | ok answer => exact iff_of_true rfl ⟨answer, rfl⟩

/-- The record of a source that is accepted. -/
theorem commonSymlink_eq {dirfd : Int} {source target : List UInt8} {created : Bool}
    {nttarget : NtString × Option HandleType} (htarget : env.getAbsoluteNtpath2 dirfd target = .ok (.ok nttarget))
    (haccepts : env.acceptsSource dirfd source target = .ok true) :
    env.commonSymlink dirfd source target created =
      if created then (env.reparse source).map (Option.map (Link.mk nttarget.1)) else .ok none := by
  simp only [commonSymlink, htarget, haccepts, bind, Except.bind, Bool.true_and]

theorem commonSymlink_ne_fault {dirfd : Int} {source target : List UInt8} {created : Bool}
    {nttarget : NtString × Option HandleType} (htarget : env.getAbsoluteNtpath2 dirfd target = .ok (.ok nttarget))
    (haccepts : env.acceptsSource dirfd source target = .ok true) {r : Option Reparse}
    (hr : env.reparse source = .ok r) : env.commonSymlink dirfd source target created ≠ .error .fault := by
  rw [env.commonSymlink_eq htarget haccepts, hr]
  intro hfault
  rcases ite_eq_iff.mp hfault with ⟨-, hfault⟩ | ⟨-, hfault⟩
  · cases hfault
  · cases hfault

/-- What a link is made of. -/
theorem commonSymlink_reparse {dirfd : Int} {source target : List UInt8} {created : Bool} {link : Link}
    (h : env.commonSymlink dirfd source target created = .ok (some link)) :
    env.reparse source = .ok (some link.reparse) ∧ env.acceptsSource dirfd source target = .ok true := by
  simp only [commonSymlink, bind, Except.bind] at h
  cases htarget : env.getAbsoluteNtpath2 dirfd target with
  | error stop =>
    rw [htarget] at h
    cases h
  | ok outcome =>
    rw [htarget] at h
    cases outcome with
    | error failure => cases h
    | ok answer =>
      cases haccepts : env.acceptsSource dirfd source target with
      | error stop =>
        rw [haccepts] at h
        cases h
      | ok accepted =>
        rw [haccepts] at h
        rcases ite_eq_iff.mp h with ⟨hboth, h⟩ | ⟨-, h⟩
        · cases hreparse : env.reparse source with
          | error stop =>
            rw [hreparse] at h
            cases h
          | ok r =>
            rw [hreparse] at h
            obtain ⟨r, rfl, rfl⟩ := Option.map_eq_some_iff.mp (Except.ok.inj h)
            exact ⟨rfl, congrArg Except.ok (Bool.and_eq_true_iff.mp hboth).1⟩
        · cases h

end Surroundings

end WindowsLibc.Path.Absolute
