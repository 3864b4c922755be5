import WindowsLibc.Path.Absolute

/-!
# Joined paths (`internal/path.c`)

What `get_absolute_ntpath2` makes of a directory or a drive and a path, where the buffers are large enough for
it: the components that are kept, joined below the device.

* `relativeNtpath_spec` and `absoluteNtpath_spec` are about a path in a directory and a path on a drive.
* `cwdRoot_spec` and `fdRoot_spec` say which directory that is.
-/

namespace WindowsLibc.Path.Absolute

open WindowsLibc.Lib WindowsLibc.Fcntl

/-! ## Buffers -/

/-- What is kept of a buffer. -/
def kept (b : Buffer) : List WChar := joined (b.device :: marks.kept (components b.below))

theorem length_kept_le {b : Buffer} (h : b.below ≠ []) : (kept b).length ≤ (b.device ++ b.below).length := by
  obtain ⟨x, text, hbelow⟩ := List.exists_cons_of_ne_nil h
  rw [kept, joined_eq, List.length_append, List.length_append, List.length_cons]
  have hle : ([backslash].intercalate (marks.kept (components b.below))).length ≤ text.length := by
    have hcomponents : [backslash].intercalate (components b.below) = text := by
      rw [hbelow, components, List.intercalate_splitOn]
    by_cases hne : marks.kept (components b.below) = []
    · rw [hne]
      exact Nat.zero_le _
    · have hle := length_intercalate_le hne (marks.kept_sublist _)
      rwa [hcomponents] at hle
  have hlength : b.below.length = text.length + 1 := by rw [hbelow, List.length_cons]
  omega

theorem length_kept_le_succ (b : Buffer) : (kept b).length ≤ (b.device ++ b.below).length + 1 :=
  (joined_contained b (marks.kept_sublist _) (marks.mark_not_mem_kept _)).length_le

/-- Any text behind a device. What it begins with belongs to the name of the device. -/
theorem exists_buffer {name : List WChar} (hname : Clean name) {text : List WChar} (h0 : 0 ∉ text) :
    ∃ b : Buffer, b.device ++ b.below = devicePrefix ++ name ++ text := by
  induction text generalizing name with
  | nil => exact ⟨⟨name, [], hname, List.not_mem_nil, .inl rfl⟩, rfl⟩
  | cons c text ih =>
    by_cases hc : c = backslash
    · exact ⟨⟨name, c :: text, hname, h0, .inr (congrArg some hc)⟩, rfl⟩
    · have hclean : Clean (name ++ [c]) := by
        constructor
        · intro hmem
          rcases List.mem_append.mp hmem with hmem | hmem
          · exact hname.1 hmem
          · exact hc (List.mem_singleton.mp hmem).symm
        · intro hmem
          rcases List.mem_append.mp hmem with hmem | hmem
          · exact hname.2 hmem
          · exact h0 (List.mem_singleton.mp hmem ▸ List.mem_cons_self)
      obtain ⟨b, hb⟩ := ih hclean (fun hmem => h0 (List.mem_cons_of_mem c hmem))
      refine ⟨b, hb.trans ?_⟩
      simp only [List.append_assoc, List.singleton_append]

variable (env : Surroundings)

namespace Surroundings

theorem finish_spec (b : Buffer) {required : UInt16} {r : Nat} (hrequired : required.toNat = 2 * r)
    (hroom : (kept b).length + 1 ≤ r) :
    ∃ s, env.finish required b.units = .ok s ∧ s.Holds (kept b) := by
  obtain ⟨s, hcoalesce, htexts⟩ := coalesce_spec env.entries env.doublings b
  have hlt := required.toNat_lt
  have htext : assemble (s.texts b.units) = kept b := by
    rw [htexts]
    exact assemble_eq (by show 2 * (kept b).length < _; omega)
  have hfresh := length_allocated env.heap r
  obtain ⟨ntpath, hcopy, -, hpre⟩ := copy_whole (List.nil_prefix (l := (List.range r).map env.heap))
    (kept b ++ [0]) 0 (2 * (kept b).length + 2) rfl
    (by rw [List.length_append, List.length_singleton]; omega)
    (by rw [hfresh, List.length_nil, List.length_append, List.length_singleton]; omega)
  have hfinish : env.finish required b.units = .ok ⟨UInt16.ofNat (2 * (kept b).length), required, ntpath⟩ := by
    simp only [finish, hcoalesce, htext, hrequired, allocateString_eq env.heap _ r
      (by omega : ((2 * r : Nat) : Int) = 2 * r), hcopy, bind, Except.bind]
    rfl
  exact ⟨_, hfinish, UInt16.toNat_ofNat_of_lt' (by show 2 * (kept b).length < 65536; omega), hpre⟩

/-! ## Drives -/

theorem volumeName_eq {n : Nat} (hn : n < 10000) :
    ∃ name, Clean name ∧ name ≠ [] ∧ volumeName n = devicePrefix ++ name := by
  have hdigits : ∀ c ∈ (decimal 4 n).map digitUnit, c ≠ 0 ∧ c ≠ backslash := by
    intro c hc
    obtain ⟨d, hd, rfl⟩ := List.mem_map.mp hc
    have hfacts := digitUnit_facts d ((decimal_spec 4 (by decide) hn).1.digit d hd)
    exact ⟨hfacts.1, hfacts.2.1⟩
  refine ⟨harddiskVolume.drop 8 ++ (decimal 4 n).map digitUnit, ⟨?_, ?_⟩, List.cons_ne_nil _ _, rfl⟩
  · intro hmem
    rcases List.mem_append.mp hmem with hmem | hmem
    · exact absurd hmem (by decide)
    · exact (hdigits _ hmem).2 rfl
  · intro hmem
    rcases List.mem_append.mp hmem with hmem | hmem
    · exact absurd hmem (by decide)
    · exact (hdigits _ hmem).1 rfl

/-- The name in the entry of a drive. -/
theorem deviceOf_name {n : Nat} (hn : n < 10000) :
    (deviceOf (volumeName n)).name.take (volumeName n).length = volumeName n ∧
      (deviceOf (volumeName n)).name.length = 26 := by
  have hlen := length_volumeName hn
  constructor
  · rw [deviceOf, overwrite_of_le (Nat.zero_le _), List.take_zero, List.nil_append, List.take_left]
  · rw [deviceOf, length_overwrite, List.length_replicate]
    omega

theorem ntDevice_eq {volume : UInt8} (hletter : 65 ≤ volume ∧ volume ≤ 90) :
    env.ntDevice volume = (env.volumes.symbolicLink volume).map deviceOf := by
  obtain ⟨devices', hdevice, -⟩ := dosDeviceToNtDevice_spec env.inverse env.coherent hletter
  rw [ntDevice, hdevice]

theorem ntDevice_cases (volume : UInt8) :
    env.ntDevice volume = none ∨ ∃ n < 10000, env.ntDevice volume = some (deviceOf (volumeName n)) := by
  by_cases hletter : 65 ≤ volume ∧ volume ≤ 90
  · rw [env.ntDevice_eq hletter]
    cases hlink : env.volumes.symbolicLink volume with
    | none => exact .inl rfl
    | some target =>
      obtain ⟨n, hn, rfl⟩ := env.inverse.named volume target hlink
      exact .inr ⟨n, hn, rfl⟩
  · have hrange : volume < 65 ∨ volume > 90 := by
      rcases not_and_or.mp hletter with h | h
      · exact .inl (UInt8.not_le.mp h)
      · exact .inr (UInt8.not_le.mp h)
    left
    rw [ntDevice, dosDeviceToNtDevice, if_pos hrange]

theorem cwdDevice_eq : ∃ n < 10000, env.volumes.symbolicLink env.cwd.letter = some (volumeName n) ∧
    env.cwdDevice = .ok (deviceOf (volumeName n)) := by
  obtain ⟨hmin, hmax, hlink⟩ := env.cwd_drive
  obtain ⟨target, htarget⟩ := Option.ne_none_iff_exists'.mp hlink
  obtain ⟨n, hn, rfl⟩ := env.inverse.named _ target htarget
  exact ⟨n, hn, htarget, by rw [cwdDevice, env.ntDevice_eq ⟨hmin, hmax⟩, htarget, Option.map_some]⟩

/-- The beginning of every copy that is made of a device. -/
theorem copy_device {n : Nat} (hn : n < 10000) {r : Nat} (hr : (volumeName n).length ≤ r) (fill : Fill) :
    ∃ b, copy ((List.range r).map fill) 0 (deviceOf (volumeName n)).name
        (deviceOf (volumeName n)).length.toNat = .ok b ∧ b.length = r ∧ volumeName n <+: b := by
  have hlen := length_volumeName hn
  have hfresh := length_allocated fill r
  obtain ⟨htake, hsize⟩ := deviceOf_name hn
  obtain ⟨b, hcopy, hlength, hpre⟩ := copy_prefix (List.nil_prefix (l := (List.range r).map fill))
    (deviceOf (volumeName n)).name 0 (deviceOf (volumeName n)).length.toNat (volumeName n).length rfl
    (by rw [deviceOf_length hn]; rfl) (by omega) (by rw [hfresh, List.length_nil]; omega)
  rw [List.nil_append, htake] at hpre
  exact ⟨b, hcopy, hlength.trans hfresh, hpre⟩

theorem rootNtpath_spec : ∃ n < 10000, ∃ s, env.volumes.symbolicLink env.cwd.letter = some (volumeName n) ∧
    env.rootNtpath = .ok s ∧ s.Holds (volumeName n ++ [backslash]) := by
  obtain ⟨n, hn, hlink, hdevice⟩ := env.cwdDevice_eq
  have hlen := length_volumeName hn
  have hlength := deviceOf_length hn
  obtain ⟨b₁, hcopy₁, hlen₁, hpre₁⟩ := copy_device hn (Nat.le_add_right (volumeName n).length 2) env.heap
  obtain ⟨b₂, hcopy₂, -, hpre₂⟩ := copy_whole hpre₁ [backslash, 0] ((deviceOf (volumeName n)).length.toNat / 2) 4
    (by omega) rfl (by rw [hlen₁]; rfl)
  have halloc := allocateString_eq env.heap ((deviceOf (volumeName n)).length.toNat + 4)
    ((volumeName n).length + 2) (by omega)
  refine ⟨n, hn, ⟨(deviceOf (volumeName n)).length + 2, (deviceOf (volumeName n)).length + 4, b₂⟩, hlink, ?_, ?_, ?_⟩
  · simp only [rootNtpath, hdevice, halloc, hcopy₁, hcopy₂, bind, Except.bind]
    rfl
  · show ((deviceOf (volumeName n)).length + 2).toNat = _
    rw [UInt16.toNat_add, hlength, List.length_append, List.length_singleton]
    show (2 * (volumeName n).length + 2) % 65536 = _
    omega
  · rw [List.append_assoc]
    exact hpre₂

/-- The buffer of a path on a drive: its device, and what is behind the two units of the drive. -/
theorem drive_buffer {n : Nat} (hn : n < 10000) {units : List WChar} (h0 : 0 ∉ units) :
    ∃ b : Buffer, b.device ++ b.below = volumeName n ++ units.drop 2 := by
  obtain ⟨name, hclean, -, hname⟩ := volumeName_eq hn
  obtain ⟨b, hb⟩ := exists_buffer hclean (fun hmem => h0 (List.mem_of_mem_drop hmem) : 0 ∉ units.drop 2)
  exact ⟨b, by rw [hb, hname]⟩

theorem toNat_maximumLength {units : List WChar} (h : 2 * units.length + 2 < 2 ^ 16) :
    (maximumLength units).toNat = 2 * units.length + 2 :=
  UInt16.toNat_ofNat_of_lt' (by exact h)

/-- A path on a drive, if the size has not wrapped. -/
theorem absoluteNtpath_spec {volume : UInt8} {n : Nat} (hn : n < 10000)
    (hdevice : env.ntDevice volume = some (deviceOf (volumeName n))) {units : List WChar}
    (htwo : 2 ≤ units.length) (hfit : 2 * units.length + 56 < 2 ^ 16) {b : Buffer}
    (hb : b.device ++ b.below = volumeName n ++ units.drop 2) :
    ∃ s, env.absoluteNtpath volume units = .ok (.ok (s, some .file)) ∧ s.Holds (kept b) := by
  have hlen := length_volumeName hn
  have hlength := deviceOf_length hn
  have hmaximum : (maximumLength units).toNat = 2 * units.length + 2 := toNat_maximumLength (by omega)
  have hrequired : (absoluteSize units).toNat = 2 * (units.length + 28) := by
    rw [absoluteSize, UInt16.toNat_add, hmaximum]
    show (2 * units.length + 2 + 54) % 65536 = _
    omega
  have hsource : ((units ++ [0]).drop 2).length = units.length - 1 := by
    rw [List.length_drop, List.length_append, List.length_singleton]
    omega
  obtain ⟨b₁, hcopy₁, hlen₁, hpre₁⟩ :=
    copy_device hn (by omega : (volumeName n).length ≤ units.length + 28) env.heap
  obtain ⟨b₂, hcopy₂, -, hpre₂⟩ := copy_whole hpre₁ ((units ++ [0]).drop 2)
    ((deviceOf (volumeName n)).length.toNat / 2) ((maximumLength units).toNat - 4) (by omega)
    (by rw [hsource]; omega) (by rw [hlen₁, hsource]; omega)
  have hunits : volumeName n ++ (units ++ [0]).drop 2 = b.units := by
    rw [Buffer.units, hb, List.drop_append_of_le_length htwo, List.append_assoc]
  have htake : b₂.take ((deviceOf (volumeName n)).length.toNat / 2 + units.length - 1) = b.units := by
    rw [hunits] at hpre₂
    have hlast : b.units.length = (deviceOf (volumeName n)).length.toNat / 2 + units.length - 1 := by
      rw [← hunits, List.length_append, hsource]
      omega
    rw [← hlast]
    exact (List.prefix_iff_eq_take.mp hpre₂).symm
  have hkept : (kept b).length + 1 ≤ units.length + 28 := by
    have hle := length_kept_le_succ b
    rw [hb, List.length_append, List.length_drop] at hle
    omega
  obtain ⟨s, hfinish, hholds⟩ := env.finish_spec b hrequired hkept
  have halloc := allocateString_eq env.heap (absoluteSize units).toNat (units.length + 28) (by rw [hrequired]; rfl)
  refine ⟨s, ?_, hholds⟩
  simp only [absoluteNtpath, hdevice, halloc, hcopy₁, hcopy₂, htake, hfinish, bind, Except.bind]
  rfl

/-! ## Directories -/

/-- The directory that a relative path is in. -/
structure Holds (root : RootDirectory) (b : Buffer) : Prop where
  length : root.length.toNat = 2 * (b.device ++ b.below).length
  isPrefix : b.device ++ b.below <+: root.buffer
  slash : root.trailingSlash = true ↔ b.below.getLast? = some backslash
  named : b.name ≠ []

/-- The path in the directory. -/
def inDirectory (b : Buffer) (units : List WChar) (h0 : 0 ∉ units) : Buffer where
  name := b.name
  below := b.below ++ (if b.below.getLast? = some backslash then [] else [backslash]) ++ units
  name_clean := b.name_clean
  below_no_zero := by
    rw [List.mem_append, List.mem_append, not_or, not_or]
    refine ⟨⟨b.below_no_zero, ?_⟩, h0⟩
    split <;> decide
  below_start := by
    right
    rcases b.below_start with hnil | hhead
    · rw [hnil]
      rfl
    · obtain ⟨rest, hrest⟩ := List.head?_eq_some_iff.mp hhead
      rw [hrest]
      rfl

/-- A path in a directory, if the size has not wrapped. -/
theorem relativeNtpath_spec {root : RootDirectory} {b : Buffer} (hroot : Holds root b) {units : List WChar}
    (h0 : 0 ∉ units) (hfit : 2 * units.length + 2 + (root.length.toNat + 2) < 2 ^ 16) :
    ∃ s, env.relativeNtpath root units = .ok s ∧ s.Holds (kept (inDirectory b units h0)) := by
  obtain ⟨hlength, hprefix, hslash, hnamed⟩ := hroot
  generalize hk : (b.device ++ b.below).length = k at hlength
  have hmaximum : (maximumLength units).toNat = 2 * units.length + 2 := toNat_maximumLength (by omega)
  have hrequired : (relativeSize root units).toNat = 2 * (units.length + k + 2) := by
    rw [relativeSize, UInt16.toNat_add, UInt16.toNat_add, hmaximum, hlength]
    show (2 * units.length + 2 + (2 * k + 2) % 65536) % 65536 = _
    omega
  have hfresh := length_allocated env.heap (units.length + k + 2)
  have halloc := allocateString_eq env.heap (relativeSize root units).toNat (units.length + k + 2)
    (by rw [hrequired]; rfl)
  obtain ⟨b₁, hcopy₁, hlen₁, hpre₁⟩ := copy_prefix
    (List.nil_prefix (l := (List.range (units.length + k + 2)).map env.heap)) root.buffer 0 root.length.toNat k
    rfl (by omega) (by have hle := hprefix.length_le; omega) (by rw [hfresh, List.length_nil]; omega)
  have htake : root.buffer.take k = b.device ++ b.below := by
    rw [← hk]
    exact (List.prefix_iff_eq_take.mp hprefix).symm
  rw [List.nil_append, htake] at hpre₁
  -- The separator is written where there is none.
  obtain ⟨b₂, hcopy₂, hlen₂, hpre₂⟩ : ∃ b₂, root.addSlash b₁ = .ok b₂ ∧ b₂.length = b₁.length ∧
      b.device ++ b.below ++ (if b.below.getLast? = some backslash then [] else [backslash]) <+: b₂ := by
    rw [RootDirectory.addSlash]
    by_cases htrailing : root.trailingSlash = true
    · rw [if_pos htrailing, if_pos (hslash.mp htrailing), List.append_nil]
      exact ⟨b₁, rfl, rfl, hpre₁⟩
    · rw [if_neg htrailing, if_neg (fun h => htrailing (hslash.mpr h))]
      exact copy_whole hpre₁ [backslash] (root.length.toNat / 2) 2 (by omega) rfl
        (by rw [hlen₁, hfresh, hk, List.length_singleton]; omega)
  have hend : root.lengthWithSlash.toNat / 2 =
      (b.device ++ b.below ++ (if b.below.getLast? = some backslash then [] else [backslash])).length := by
    rw [RootDirectory.lengthWithSlash]
    by_cases htrailing : root.trailingSlash = true
    · rw [if_pos htrailing, if_pos (hslash.mp htrailing), List.append_nil]
      omega
    · rw [if_neg htrailing, if_neg (fun h => htrailing (hslash.mpr h)), List.length_append, hk,
        UInt16.toNat_add, hlength]
      show (2 * k + 2) % 65536 / 2 = k + 1
      omega
  have hunits : b.device ++ b.below ++ (if b.below.getLast? = some backslash then [] else [backslash]) ++
      (units ++ [0]) = (inDirectory b units h0).units := by
    simp only [Buffer.units, Buffer.device, inDirectory, List.append_assoc]
  have hsize : (inDirectory b units h0).units.length ≤ units.length + k + 2 := by
    rw [← hunits, List.length_append, List.length_append, hk, List.length_append, List.length_singleton]
    split
    · rw [List.length_nil]
      omega
    · rw [List.length_singleton]
      omega
  obtain ⟨b₃, hcopy₃, -, hpre₃⟩ := copy_whole hpre₂ (units ++ [0])
    (root.lengthWithSlash.toNat / 2) (maximumLength units).toNat hend
    (by rw [hmaximum, List.length_append, List.length_singleton]; omega)
    (by rw [hlen₂, hlen₁, hfresh, ← List.length_append, hunits]; exact hsize)
  have hcut : b₃.take (root.lengthWithSlash.toNat / 2 + units.length + 1) =
      (inDirectory b units h0).units := by
    rw [hunits] at hpre₃
    have hlast : (inDirectory b units h0).units.length =
        root.lengthWithSlash.toNat / 2 + units.length + 1 := by
      rw [← hunits, List.length_append, ← hend, List.length_append, List.length_singleton, Nat.add_assoc]
    rw [← hlast]
    exact (List.prefix_iff_eq_take.mp hpre₃).symm
  have hkept : (kept (inDirectory b units h0)).length + 1 ≤ units.length + k + 2 := by
    have hbelow : (inDirectory b units h0).below ≠ [] := by
      intro hnil
      obtain ⟨hfront, -⟩ := List.append_eq_nil_iff.mp hnil
      obtain ⟨hbelow, hslash⟩ := List.append_eq_nil_iff.mp hfront
      rw [hbelow] at hslash
      cases hslash
    have hle := length_kept_le hbelow
    rw [Buffer.units, List.length_append, List.length_singleton] at hsize
    omega
  obtain ⟨s, hfinish, hholds⟩ := env.finish_spec _ hrequired hkept
  refine ⟨s, ?_, hholds⟩
  simp only [relativeNtpath, halloc, hcopy₁, hcopy₂, hcopy₃, hcut, hfinish, bind, Except.bind]

/-- The current directory on its device. -/
theorem exists_cwdBuffer {n : Nat} (hn : n < 10000) :
    ∃ b : Buffer, b.device = volumeName n ∧ b.below = env.cwd.below ∧ b.name ≠ [] := by
  obtain ⟨name, hclean, hnamed, hname⟩ := volumeName_eq hn
  exact ⟨⟨name, env.cwd.below, hclean, env.cwd.no_zero, .inr env.cwd.begins⟩, hname.symm, rfl, hnamed⟩

theorem toShort_of_small {k : Nat} (h : 2 * k < 2 ^ 15) : toShort (2 * (k + 2 : Nat) - 4) = 2 * k := by
  rw [toShort]
  omega

/-- A directory that finds room in 1024 bytes. -/
theorem cwdRoot_spec {n : Nat} (hn : n < 10000) (hdevice : env.cwdDevice = .ok (deviceOf (volumeName n)))
    (hfit : 2 * ((volumeName n).length + env.cwd.below.length) ≤ 1024) :
    ∃ (root : RootDirectory) (b : Buffer), env.cwdRoot = .ok root ∧ Holds root b ∧ b.device = volumeName n ∧
      b.below = env.cwd.below := by
  obtain ⟨b, hb, hbelow, hnamed⟩ := env.exists_cwdBuffer hn
  have hlen := length_volumeName hn
  have hlength := deviceOf_length hn
  have hshort := toShort_of_small (k := env.cwd.below.length) (by omega)
  have hdrop : env.cwd.units.drop 2 = env.cwd.below := rfl
  have hunits : env.cwd.units.length = env.cwd.below.length + 2 := rfl
  obtain ⟨b₁, hcopy₁, hlen₁, hpre₁⟩ := copy_device hn (by omega : (volumeName n).length ≤ 512) env.heap
  obtain ⟨b₂, hcopy₂, -, hpre₂⟩ := copy_whole hpre₁ env.cwd.below
    ((deviceOf (volumeName n)).length.toNat / 2) (2 * env.cwd.below.length) (by omega) rfl
    (by rw [hlen₁]; omega)
  have halloc := allocateString_eq env.heap 1024 512 rfl
  refine ⟨⟨(deviceOf (volumeName n)).length + UInt16.ofInt (2 * env.cwd.below.length), b₂, true⟩, b, ?_, ?_, hb, hbelow⟩
  · simp only [cwdRoot, hdevice, halloc, hcopy₁, hdrop, hunits, hshort, hcopy₂, bind, Except.bind]
    rfl
  · refine ⟨?_, ?_, ?_, hnamed⟩
    · have hsmall : (UInt16.ofInt (2 * env.cwd.below.length)).toNat = 2 * env.cwd.below.length := by
        rw [UInt16.ofInt, UInt16.toNat_ofNat']
        omega
      rw [UInt16.toNat_add, hlength, hsmall, hb, hbelow, List.length_append]
      omega
    · rw [hb, hbelow]
      exact hpre₂
    · exact iff_of_true rfl (by rw [hbelow]; exact env.cwd.ends)

/-- A directory that does not. -/
theorem cwdRoot_fault {n : Nat} (hn : n < 10000) (hdevice : env.cwdDevice = .ok (deviceOf (volumeName n)))
    (hfit : 1024 < 2 * ((volumeName n).length + env.cwd.below.length)) : env.cwdRoot = .error .fault := by
  have hlen := length_volumeName hn
  have hlength := deviceOf_length hn
  have hunits : env.cwd.units.length = env.cwd.below.length + 2 := rfl
  have hbound := env.cwd.length
  obtain ⟨b₁, hcopy₁, hlen₁, -⟩ := copy_device hn (by omega : (volumeName n).length ≤ 512) env.heap
  have halloc := allocateString_eq env.heap 1024 512 rfl
  have hcopy₂ : copy b₁ ((deviceOf (volumeName n)).length.toNat / 2) (env.cwd.units.drop 2)
      (toShort (2 * env.cwd.units.length - 4)) = .error .fault := by
    rw [copy, if_neg]
    rintro ⟨hpos, -, hroom⟩
    rw [hlen₁] at hroom
    rw [hunits, toShort] at hpos hroom
    omega
  simp only [cwdRoot, hdevice, halloc, hcopy₁, hcopy₂, bind, Except.bind]

theorem fdRoot_spec {dirfd : Int} {type : HandleType} {path : KernelPath}
    (h : env.descriptors dirfd = some (type, path)) :
    ∃ root : RootDirectory, env.fdRoot dirfd = .ok (.ok root) ∧ Holds root path.toBuffer := by
  obtain ⟨tail, htail⟩ := path.holds.isPrefix
  have hlength := path.holds.length
  have hpos : 0 < (path.toBuffer.device ++ path.below).length := Nat.lt_of_lt_of_le (by decide : 0 < 8)
    (by rw [Buffer.device, List.append_assoc, List.length_append]; exact Nat.le_add_right 8 _)
  have hlast : path.string.buffer[path.string.length.toNat / 2 - 1]? =
      (path.toBuffer.device ++ path.below).getLast? := by
    rw [hlength, Nat.mul_div_cancel_left _ (by decide : 0 < 2), List.getLast?_eq_getElem?, ← htail, List.append_assoc,
      List.getElem?_append_left (by omega)]
  obtain ⟨last, hsome⟩ : ∃ last, (path.toBuffer.device ++ path.below).getLast? = some last :=
    ⟨_, List.getLast?_eq_some_getLast (List.ne_nil_of_length_pos hpos)⟩
  refine ⟨⟨path.string.length, path.string.buffer, last == backslash⟩, ?_, hlength, ?_, ?_, path.named⟩
  · simp only [fdRoot, h, hlast, hsome]
  · rw [← htail, List.append_assoc]
    exact List.prefix_append _ _
  · rw [beq_iff_eq, ← Option.some_inj, ← hsome, List.getLast?_append]
    cases hbelow : path.below.getLast? with
    | some c => rfl
    | none =>
      -- The name of the device does not end in a separator.
      refine iff_of_false ?_ (Option.some_ne_none _ ·.symm)
      rw [Option.none_or, Buffer.device, List.getLast?_append, List.getLast?_eq_some_getLast path.named,
        Option.some_or]
      intro heq
      exact path.name_clean.1 (Option.some.inj heq ▸ List.getLast_mem path.named)

end Surroundings

end WindowsLibc.Path.Absolute
