import WindowsLibc.Path.Conversions
import WindowsLibc.Path.Joined
import WindowsLibc.Path.Names

/-!
# The sizes of buffers for paths (`internal/path.c`)

`required_size` is a sum of lengths in 16 bits, and the buffers are as large as it says. The current directory is
copied into 1024 bytes.

* `Surroundings.sizes` are the sizes that a call computes, each beside the sum itself.
* `sizes_hold_iff`: nothing wraps around, and everything finds room, exactly if the sums are below 65536 and the
  current directory is short.
-/

namespace WindowsLibc.Path.Absolute

open WindowsLibc.Lib WindowsLibc.Fcntl
open WindowsLibc.Spawn (CString)

/-! ## Bytes of characters -/

/-- A character is one byte of ASCII, or all its bytes are larger. -/
theorem utf8EncodeChar_cases (c : Char) : c.toNat < 128 ∧ String.utf8EncodeChar c = [UInt8.ofNat c.toNat] ∨
    128 ≤ c.toNat ∧ ∀ b ∈ String.utf8EncodeChar c, 128 ≤ b.toNat := by
  have hbyte (n : Nat) (hn : 128 ≤ n % 256) : 128 ≤ (UInt8.ofNat n).toNat := by
    rwa [UInt8.toNat_ofNat']
  rw [String.utf8EncodeChar]
  change _ ∧ (if c.toNat ≤ 127 then _ else _) = _ ∨ _
  by_cases hsmall : c.toNat ≤ 127
  · rw [if_pos hsmall]
    exact .inl ⟨by omega, rfl⟩
  · refine .inr ⟨by omega, ?_⟩
    change ∀ b ∈ (if c.toNat ≤ 127 then _ else _), _
    rw [if_neg hsmall]
    split
    · simp only [List.forall_mem_cons, List.not_mem_nil, false_implies, implies_true, and_true]
      exact ⟨hbyte _ (by omega), hbyte _ (by omega)⟩
    · split
      · simp only [List.forall_mem_cons, List.not_mem_nil, false_implies, implies_true, and_true]
        exact ⟨hbyte _ (by omega), hbyte _ (by omega), hbyte _ (by omega)⟩
      · simp only [List.forall_mem_cons, List.not_mem_nil, false_implies, implies_true, and_true]
        exact ⟨hbyte _ (by omega), hbyte _ (by omega), hbyte _ (by omega), hbyte _ (by omega)⟩

theorem utf8_cons (c : Char) (s : List Char) : utf8 (c :: s) = String.utf8EncodeChar c ++ utf8 s :=
  List.flatMap_cons

/-- A text that begins with a byte of ASCII begins with its character. -/
theorem exists_cons_of_utf8 {s : List Char} {b : UInt8} {bytes : List UInt8} (h : utf8 s = b :: bytes)
    (hb : b.toNat < 128) : ∃ c s', s = c :: s' ∧ c.toNat = b.toNat ∧ utf8 s' = bytes := by
  cases s with
  | nil => cases h
  | cons c s =>
    rw [utf8_cons] at h
    rcases utf8EncodeChar_cases c with ⟨hc, hencode⟩ | ⟨-, hlarge⟩
    · rw [hencode] at h
      obtain ⟨hfirst, hrest⟩ := List.cons.inj h
      refine ⟨c, s, rfl, ?_, hrest⟩
      rw [← hfirst, UInt8.toNat_ofNat']
      omega
    · cases hencode : String.utf8EncodeChar c with
      | nil => exact absurd hencode String.utf8EncodeChar_ne_nil
      | cons d rest =>
        rw [hencode, List.cons_append] at h
        have hd := hlarge d (hencode ▸ List.mem_cons_self)
        rw [(List.cons.inj h).1] at hd
        omega

theorem zero_not_mem_of_utf8 {s : List Char} (h : 0 ∉ utf8 s) : Char.ofNat 0 ∉ s := by
  intro hmem
  have hzero : (0 : UInt8) ∈ String.utf8EncodeChar (Char.ofNat 0) := by decide
  exact h (List.mem_flatMap.mpr ⟨_, hmem, hzero⟩)

/-! ## Paths that are converted -/

namespace Surroundings

/-- What is known of a path that has been converted. -/
theorem convertPath_eq_some {path : List UInt8} {units : List WChar} (h : convertPath path = some units) :
    ∃ s, path.take 0xFFFE = utf8 s ∧ units = backslashed (utf16 s) ∧ 2 * units.length + 2 ≤ 0xFFFF := by
  unfold convertPath at h
  cases hdecode : rtlUtf8ToUnicode (path.take 0xFFFE) with
  | none =>
    rw [hdecode] at h
    cases h
  | some decoded =>
    rw [hdecode] at h
    obtain ⟨s, hs, rfl⟩ := rtlUtf8ToUnicode_eq_some hdecode
    rcases ite_eq_iff.mp h with ⟨-, h⟩ | ⟨hle, h⟩
    · cases h
    · cases h
      refine ⟨s, hs, rfl, ?_⟩
      rw [backslashed, List.length_map]
      omega

theorem zero_not_mem_of_convertPath {path : List UInt8} (h0 : 0 ∉ path) {units : List WChar}
    (h : convertPath path = some units) : 0 ∉ units := by
  obtain ⟨s, hs, rfl, -⟩ := convertPath_eq_some h
  have h0' : 0 ∉ utf8 s := fun hmem => h0 (List.mem_of_mem_take (hs ▸ hmem))
  exact zero_not_mem_backslashed (zero_not_mem_utf16 (zero_not_mem_of_utf8 h0'))

/-- The beginning of an absolute path. -/
theorem absolute_cases {path : List UInt8} (h : isAbsolutePath path = true) (hbad : isBadPath path = false) :
    ∃ b c rest, path = b :: c :: rest ∧ (isAlpha b = true ∧ c = 58 ∨
      b = 47 ∧ isAlpha c = true ∧ (rest.getD 0 0 = 47 ∨ rest.getD 0 0 = 0)) := by
  match path with
  | [] => cases h
  | [b] =>
    rw [isAbsolutePath, Bool.or_eq_true, Bool.and_eq_true, beq_iff_eq, beq_iff_eq] at h
    rcases h with ⟨-, hcolon⟩ | hslash
    · exact absurd hcolon (by rw [List.getD_cons_succ, List.getD_nil]; decide)
    · change b = 47 at hslash
      subst hslash
      exact absurd hbad (by decide)
  | b :: c :: rest =>
    refine ⟨b, c, rest, rfl, ?_⟩
    rw [isAbsolutePath, Bool.or_eq_true, Bool.and_eq_true, beq_iff_eq, beq_iff_eq] at h
    rcases h with hdrive | hslash
    · exact .inl hdrive
    · change b = 47 at hslash
      subst hslash
      change (!(isAlpha c && (rest.getD 0 0 == 47 || rest.getD 0 0 == 0))) = false at hbad
      rw [Bool.not_eq_false', Bool.and_eq_true, Bool.or_eq_true, beq_iff_eq, beq_iff_eq] at hbad
      exact .inr ⟨rfl, hbad⟩

theorem lt_of_isAlpha {c : UInt8} (h : isAlpha c = true) : 65 ≤ c.toNat ∧ c.toNat < 128 := by
  simp only [isAlpha, Bool.or_eq_true, Bool.and_eq_true, decide_eq_true_iff, UInt8.le_iff_toNat_le] at h
  have h65 : (65 : UInt8).toNat = 65 := rfl
  have h90 : (90 : UInt8).toNat = 90 := rfl
  have h97 : (97 : UInt8).toNat = 97 := rfl
  have h122 : (122 : UInt8).toNat = 122 := rfl
  omega

/-- Its first two bytes are two units. -/
theorem convertPath_absolute {path : List UInt8} (h : isAbsolutePath path = true) (hbad : isBadPath path = false)
    {units : List WChar} (hunits : convertPath path = some units) : 2 ≤ units.length := by
  obtain ⟨b, c, rest, rfl, hcases⟩ := absolute_cases h hbad
  have hsmall : b.toNat < 128 ∧ c.toNat < 128 := by
    rcases hcases with ⟨hb, rfl⟩ | ⟨rfl, hc, -⟩
    · exact ⟨(lt_of_isAlpha hb).2, by decide⟩
    · exact ⟨by decide, (lt_of_isAlpha hc).2⟩
  obtain ⟨s, hs, rfl, -⟩ := convertPath_eq_some hunits
  obtain ⟨x, s, rfl, -, hs⟩ := exists_cons_of_utf8 hs.symm hsmall.1
  obtain ⟨y, s, rfl, -, -⟩ := exists_cons_of_utf8 hs hsmall.2
  have hx := (length_utf16Units x).2.2
  have hy := (length_utf16Units y).2.2
  rw [backslashed, List.length_map]
  simp only [utf16, List.flatMap_cons, List.length_append]
  omega

/-! ## Sizes -/

/-- `required_size` for a pipe. -/
def pipeSize (path : List UInt8) : UInt16 := 36 + ((UInt16.ofNat path.length - 9) * 2 + 2)

/-- `required_size` for a share. -/
def shareSize (path : List UInt8) : UInt16 := UInt16.ofNat (((path.take 0xFFFE).length + 12 - 1) * 2)

variable (env : Surroundings)

/-- The size that is computed for a path on a drive or in a directory, and the sum. -/
def fileSizes (dirfd : Int) (path : List UInt8) : List (UInt16 × Nat) :=
  match convertPath path with
  | none => []
  | some units =>
    if isAbsolutePath path then
      if isBadPath path then [] else [(absoluteSize units, 2 * units.length + 2 + 54)]
    else
      match env.rootDirectory dirfd with
      | .ok (.ok root) => [(relativeSize root units, 2 * units.length + 2 + (root.length.toNat + 2))]
      | _ => []

/-- All sizes that are computed, and the sums. -/
def sizes (dirfd : Int) (path : List UInt8) : List (UInt16 × Nat) :=
  match route path with
  | .pipe => [(pipeSize path, 36 + ((path.length - 9) * 2 + 2))]
  | .share => if (convertPath path).isSome then [(shareSize path, (path.length + 12 - 1) * 2)] else []
  | .temporary =>
    match env.tmpdir with
    | none => []
    | some tmp => (temporarySize tmp.bytes path, tmp.bytes.length + path.length - 4 + 1) ::
        env.fileSizes dirfd (tmp.bytes ++ path.drop 4)
  | .file => env.fileSizes dirfd path
  | _ => []

/-- No size has wrapped around, and all copies stay in their buffers. -/
def SizesHold (dirfd : Int) (path : List UInt8) : Prop :=
  (∀ size ∈ env.sizes dirfd path, size.1.toNat = size.2) ∧ env.getAbsoluteNtpath2 dirfd path ≠ .error .fault

/-- The device of the current directory, and the rest of it. -/
def cwdLength : Nat :=
  ((env.volumes.symbolicLink env.cwd.letter).getD []).length + env.cwd.below.length

/-- What a path on a drive or in a directory needs. -/
def FileFits (dirfd : Int) (path : List UInt8) : Prop :=
  if isAbsolutePath path then
    isBadPath path = false → ∀ units, convertPath path = some units → 2 * units.length + 56 < 2 ^ 16
  else if dirfd = atFdcwd then
    2 * env.cwdLength ≤ 1024 ∧
      ∀ units, convertPath path = some units → 2 * units.length + 2 * env.cwdLength + 4 < 2 ^ 16
  else
    ∀ type directory, env.descriptors dirfd = some (type, directory) → ∀ units, convertPath path = some units →
      2 * units.length + 2 * (directory.toBuffer.device ++ directory.below).length + 4 < 2 ^ 16

/-- The sums are below 65536, and the current directory finds room in 1024 bytes. -/
def Fits (dirfd : Int) (path : List UInt8) : Prop :=
  match route path with
  | .pipe => 2 * path.length + 20 < 2 ^ 16
  | .share => (convertPath path).isSome → 2 * path.length + 22 < 2 ^ 16
  | .temporary => ∀ tmp ∈ env.tmpdir, tmp.bytes.length + path.length - 3 < 2 ^ 16 ∧
      env.FileFits dirfd (tmp.bytes ++ path.drop 4)
  | .file => env.FileFits dirfd path
  | _ => True

/-! ## Drives and directories -/

theorem absoluteSize_exact_iff {units : List WChar} (h : 2 * units.length + 2 ≤ 0xFFFF) :
    (absoluteSize units).toNat = 2 * units.length + 2 + 54 ↔ 2 * units.length + 56 < 2 ^ 16 := by
  rw [absoluteSize, UInt16.toNat_add, toNat_maximumLength (by omega)]
  change (2 * units.length + 2 + 54) % 65536 = _ ↔ _
  omega

theorem relativeSize_exact_iff (root : RootDirectory) {units : List WChar} (h : 2 * units.length + 2 ≤ 0xFFFF) :
    (relativeSize root units).toNat = 2 * units.length + 2 + (root.length.toNat + 2) ↔
      2 * units.length + 2 + (root.length.toNat + 2) < 2 ^ 16 := by
  have hlt := root.length.toNat_lt
  rw [relativeSize, UInt16.toNat_add, UInt16.toNat_add, toNat_maximumLength (by omega)]
  change (2 * units.length + 2 + (root.length.toNat + 2) % 65536) % 65536 = _ ↔ _
  omega

/-- A path on a drive. -/
theorem absoluteNtpath_ne_fault (volume : UInt8) {units : List WChar} (h0 : 0 ∉ units) (htwo : 2 ≤ units.length)
    (hfit : 2 * units.length + 56 < 2 ^ 16) : env.absoluteNtpath volume units ≠ .error .fault := by
  rcases env.ntDevice_cases volume with hnone | ⟨n, hn, hdevice⟩
  · rw [absoluteNtpath, hnone]
    exact fun h => by cases h
  · obtain ⟨b, hb⟩ := drive_buffer hn h0
    obtain ⟨s, hs, -⟩ := env.absoluteNtpath_spec hn hdevice htwo hfit hb
    rw [hs]
    exact fun h => by cases h

/-- A relative path, where the directory is known. -/
theorem directory_iff {dirfd : Int} {path : List UInt8} (h0 : 0 ∉ path) (habsolute : isAbsolutePath path = false)
    {root : RootDirectory} {b : Buffer} (hroot : env.rootDirectory dirfd = .ok (.ok root)) (hb : Holds root b) :
    ((∀ size ∈ env.fileSizes dirfd path, size.1.toNat = size.2) ∧ env.fileNtpath dirfd path ≠ .error .fault) ↔
      ∀ units, convertPath path = some units →
        2 * units.length + 2 * (b.device ++ b.below).length + 4 < 2 ^ 16 := by
  simp only [fileSizes, fileNtpath, habsolute, hroot, Bool.false_eq_true, if_false, bind, Except.bind]
  cases hunits : convertPath path with
  | none =>
    refine iff_of_true ⟨fun _ h => absurd h List.not_mem_nil, fun h => by cases h⟩ (fun _ h => by cases h)
  | some units =>
    have h0' := zero_not_mem_of_convertPath h0 hunits
    obtain ⟨-, -, -, hle⟩ := convertPath_eq_some hunits
    have hlength := hb.length
    rw [List.forall_mem_singleton, relativeSize_exact_iff root hle]
    constructor
    · rintro ⟨hfit, -⟩ _ heq
      cases heq
      omega
    · intro h
      have hfit := h units rfl
      refine ⟨by omega, ?_⟩
      obtain ⟨s, hs, -⟩ := env.relativeNtpath_spec hb h0' (by omega)
      simp only [hs]
      exact fun h => by cases h

theorem file_iff {path : List UInt8} (h0 : 0 ∉ path) (dirfd : Int) :
    ((∀ size ∈ env.fileSizes dirfd path, size.1.toNat = size.2) ∧ env.fileNtpath dirfd path ≠ .error .fault) ↔
      env.FileFits dirfd path := by
  rw [FileFits]
  by_cases habsolute : isAbsolutePath path = true
  · rw [if_pos habsolute]
    simp only [fileSizes, fileNtpath, habsolute, if_true]
    by_cases hbad : isBadPath path = true
    · simp only [hbad, if_true]
      refine iff_of_true ⟨?_, fun h => by cases h⟩ (fun h => by cases h)
      cases convertPath path with
      | none => exact fun _ h => absurd h List.not_mem_nil
      | some units => exact fun _ h => absurd h List.not_mem_nil
    · rw [Bool.not_eq_true] at hbad
      simp only [hbad, Bool.false_eq_true, if_false, true_implies]
      cases hunits : convertPath path with
      | none => exact iff_of_true ⟨fun _ h => absurd h List.not_mem_nil, fun h => by cases h⟩ (fun _ h => by cases h)
      | some units =>
        have h0' := zero_not_mem_of_convertPath h0 hunits
        obtain ⟨-, -, -, hle⟩ := convertPath_eq_some hunits
        rw [List.forall_mem_singleton, absoluteSize_exact_iff hle]
        constructor
        · rintro ⟨hfit, -⟩ _ heq
          cases heq
          exact hfit
        · intro h
          have hfit := h units rfl
          exact ⟨hfit, env.absoluteNtpath_ne_fault _ h0' (convertPath_absolute habsolute hbad hunits) hfit⟩
  · rw [if_neg habsolute]
    rw [Bool.not_eq_true] at habsolute
    by_cases hcwd : dirfd = atFdcwd
    · rw [if_pos hcwd]
      obtain ⟨n, hn, hlink, hdevice⟩ := env.cwdDevice_eq
      have hlength : env.cwdLength = (volumeName n).length + env.cwd.below.length := by
        rw [cwdLength, hlink, Option.getD_some]
      by_cases hfit : 2 * env.cwdLength ≤ 1024
      · obtain ⟨root, b, hroot, hb, hbdevice, hbelow⟩ := env.cwdRoot_spec hn hdevice (by omega)
        have hdirectory : env.rootDirectory dirfd = .ok (.ok root) := by
          rw [rootDirectory, if_pos hcwd, hroot]
          rfl
        rw [env.directory_iff h0 habsolute hdirectory hb, hbdevice, hbelow, List.length_append, ← hlength]
        exact (and_iff_right hfit).symm
      · refine iff_of_false (fun h => h.2 ?_) (fun h => hfit h.1)
        have hroot : env.rootDirectory dirfd = .error .fault := by
          rw [rootDirectory, if_pos hcwd, env.cwdRoot_fault hn hdevice (by omega)]
          rfl
        simp only [fileNtpath, habsolute, hroot, Bool.false_eq_true, if_false, bind, Except.bind]
    · rw [if_neg hcwd]
      cases hdescriptor : env.descriptors dirfd with
      | none =>
        have hroot : env.rootDirectory dirfd = .ok (.error .EBADF) := by
          rw [rootDirectory, if_neg hcwd, fdRoot, hdescriptor]
        refine iff_of_true ⟨?_, ?_⟩ (fun _ _ h => by cases h)
        · simp only [fileSizes, habsolute, hroot, Bool.false_eq_true, if_false]
          cases convertPath path with
          | none => exact fun _ h => absurd h List.not_mem_nil
          | some units => exact fun _ h => absurd h List.not_mem_nil
        · simp only [fileNtpath, habsolute, hroot, Bool.false_eq_true, if_false, bind, Except.bind]
          exact fun h => by cases h
      | some entry =>
        obtain ⟨type, directory⟩ := entry
        obtain ⟨root, hroot, hb⟩ := env.fdRoot_spec hdescriptor
        have hdirectory : env.rootDirectory dirfd = .ok (.ok root) := by rw [rootDirectory, if_neg hcwd, hroot]
        rw [env.directory_iff h0 habsolute hdirectory hb]
        constructor
        · rintro h _ _ heq
          cases heq
          exact h
        · exact fun h => h type directory rfl

/-! ## The other routes -/

theorem bind_eq_error_iff {α β ε : Type} {x : Except ε α} {f : α → Except ε β} {e : ε} (hf : ∀ a, f a ≠ .error e) :
    x >>= f = .error e ↔ x = .error e := by
  cases x with
  | error stop =>
    constructor
    · exact fun h => congrArg Except.error (Except.error.inj h)
    · exact fun h => congrArg Except.error (Except.error.inj h)
  | ok a => exact iff_of_false (hf a) (fun h => by cases h)

theorem length_of_isPipe {path : List UInt8} (hpipe : isPipe path = true) :
    (path.take 9).map lower = pipeLead ∧ 9 ≤ path.length := by
  have hlead : (path.take 9).map lower = pipeLead := beq_iff_eq.mp hpipe
  refine ⟨hlead, ?_⟩
  have h := congrArg List.length hlead
  rw [List.length_map, List.length_take] at h
  change min 9 path.length = 9 at h
  omega

theorem toNat_pipeName {path : List UInt8} (hnine : 9 ≤ path.length) :
    (UInt16.ofNat path.length - 9).toNat = (path.length - 9) % 2 ^ 16 := by
  rw [UInt16.toNat_sub, UInt16.toNat_ofNat']
  change (2 ^ 16 - 9 + path.length % 2 ^ 16) % 2 ^ 16 = _
  omega

theorem pipeSize_exact_iff {path : List UInt8} (hnine : 9 ≤ path.length) :
    (pipeSize path).toNat = 36 + ((path.length - 9) * 2 + 2) ↔ 2 * path.length + 20 < 2 ^ 16 := by
  rw [pipeSize, UInt16.toNat_add, UInt16.toNat_add, UInt16.toNat_mul, toNat_pipeName hnine]
  change (36 + ((path.length - 9) % 65536 * 2 % 65536 + 2) % 65536) % 65536 = _ ↔ _
  omega

/-- A pipe whose size has not wrapped. -/
theorem pipeNtpath_cases {path : List UInt8} (h0 : 0 ∉ path) (hpipe : isPipe path = true)
    (hfit : 2 * path.length + 20 < 2 ^ 16) (heap : Fill) :
    pipeNtpath heap path = .ok none ∨
      ∃ s units, pipeNtpath heap path = .ok (some s) ∧ s.Holds (namedPipe ++ backslash :: units) := by
  obtain ⟨hlead, hnine⟩ := length_of_isPipe hpipe
  have htake : (path.drop 9).take (UInt16.ofNat path.length - 9).toNat = path.drop 9 := by
    rw [toNat_pipeName hnine, Nat.mod_eq_of_lt (by omega), ← List.length_drop, List.take_length]
  cases hunits : rtlUtf8ToUnicode (path.drop 9) with
  | none =>
    obtain ⟨r, hr⟩ : ∃ r, (pipeSize path).toNat = 2 * r := by
      rw [(pipeSize_exact_iff hnine).mpr hfit]
      exact ⟨18 + (path.length - 9) + 1, by omega⟩
    have halloc := allocateString_eq heap (pipeSize path).toNat r (by rw [hr]; rfl)
    rw [pipeSize] at halloc
    left
    simp only [pipeNtpath, halloc, htake, hunits, bind, Except.bind]
    rfl
  | some units =>
    obtain ⟨s, hs, rfl⟩ := rtlUtf8ToUnicode_eq_some hunits
    have hnul : Char.ofNat 0 ∉ s := zero_not_mem_of_utf8 (fun hmem => h0 (List.mem_of_mem_drop (hs ▸ hmem)))
    have hbytes : (⟨path.take 9, s, hlead, hnul⟩ : PipePath).bytes = path := by
      rw [PipePath.bytes, ← hs, List.take_append_drop]
    have hlength := congrArg List.length hs
    rw [List.length_drop] at hlength
    have hle := (length_utf16 s).1
    have hfits : (⟨path.take 9, s, hlead, hnul⟩ : PipePath).Fits := by
      show (utf8 s).length < 2 ^ 16 ∧ 2 * (utf16 s).length + 38 ≤ (2 * (utf8 s).length + 38) % 2 ^ 16
      omega
    obtain ⟨ntpath, hntpath, hholds⟩ := pipeNtpath_fits heap hfits
    rw [hbytes] at hntpath
    exact .inr ⟨ntpath, _, hntpath, hholds⟩

theorem pipe_iff {path : List UInt8} (h0 : 0 ∉ path) (hpipe : isPipe path = true) (heap : Fill) :
    ((pipeSize path).toNat = 36 + ((path.length - 9) * 2 + 2) ∧ pipeNtpath heap path ≠ .error .fault) ↔
      2 * path.length + 20 < 2 ^ 16 := by
  rw [pipeSize_exact_iff (length_of_isPipe hpipe).2]
  refine ⟨fun h => h.1, fun hfit => ⟨hfit, ?_⟩⟩
  rcases pipeNtpath_cases h0 hpipe hfit heap with hnone | ⟨s, units, hs, -⟩
  · rw [hnone]
    exact fun h => by cases h
  · rw [hs]
    exact fun h => by cases h

/-- The path of a share, as it is known from its bytes. -/
theorem exists_sharePath {path : List UInt8} (h0 : 0 ∉ path) (hpipe : isPipe path = false)
    (h : [92, 92] <+: path ∨ [47, 47] <+: path) {s : List Char} (hs : path = utf8 s) :
    ∃ p : SharePath, p.bytes = path ∧ p.text = s := by
  obtain ⟨b, rest, hb, rfl⟩ : ∃ b rest, (b = 92 ∨ b = 47) ∧ path = b :: b :: rest := by
    rcases h with ⟨rest, rfl⟩ | ⟨rest, rfl⟩
    · exact ⟨92, rest, .inl rfl, rfl⟩
    · exact ⟨47, rest, .inr rfl, rfl⟩
  have hsmall : b.toNat < 128 := by rcases hb with rfl | rfl <;> decide
  obtain ⟨c, s, rfl, hc, hrest⟩ := exists_cons_of_utf8 hs.symm hsmall
  obtain ⟨d, s, rfl, hd, hrest⟩ := exists_cons_of_utf8 hrest hsmall
  obtain rfl : d = c := Char.toNat_inj.mp (hd.trans hc.symm)
  have hnul : Char.ofNat 0 ∉ s := by
    refine zero_not_mem_of_utf8 (fun hmem => h0 ?_)
    rw [← hrest]
    exact List.mem_cons_of_mem _ (List.mem_cons_of_mem _ hmem)
  have hseparator : d = '/' ∨ d = '\\' := by
    rcases hb with rfl | rfl
    · exact .inr (Char.toNat_inj.mp hd)
    · exact .inl (Char.toNat_inj.mp hd)
  exact ⟨⟨d, s, hseparator, hnul, by rw [← hs]; exact hpipe⟩, hs.symm, rfl⟩

theorem share_iff {path : List UInt8} (h0 : 0 ∉ path) (hpipe : isPipe path = false)
    (h : [92, 92] <+: path ∨ [47, 47] <+: path) (heap : Fill) (entries : Nat → PathComponent) (doublings : Nat) :
    ((∀ size ∈ (if (convertPath path).isSome then [(shareSize path, (path.length + 12 - 1) * 2)] else []),
        size.1.toNat = size.2) ∧ shareNtpath heap entries (16 * 2 ^ doublings) path ≠ .error .fault) ↔
      ((convertPath path).isSome → 2 * path.length + 22 < 2 ^ 16) := by
  cases hdecode : rtlUtf8ToUnicode (path.take 0xFFFE) with
  | none =>
    have hnone : convertPath path = none := by rw [convertPath, hdecode]
    simp only [hnone, shareNtpath, hdecode, Option.isSome_none, Bool.false_eq_true, if_false, false_implies, iff_true]
    exact ⟨fun _ h => absurd h List.not_mem_nil, fun h => by cases h⟩
  | some decoded =>
    by_cases hlarge : 0xFFFF < 2 * decoded.length + 2
    · have hnone : convertPath path = none := by
        rw [convertPath, hdecode]
        exact if_pos hlarge
      simp only [hnone, shareNtpath, hdecode, if_pos hlarge, Option.isSome_none, Bool.false_eq_true, if_false,
        false_implies, iff_true]
      exact ⟨fun _ h => absurd h List.not_mem_nil, fun h => by cases h⟩
    · have hsome : (convertPath path).isSome = true := by
        rw [convertPath, hdecode]
        exact congrArg Option.isSome (if_neg hlarge)
      have hexact : (shareSize path).toNat = (path.length + 12 - 1) * 2 ↔ 2 * path.length + 22 < 2 ^ 16 := by
        rw [shareSize, UInt16.toNat_ofNat', List.length_take]
        omega
      rw [hsome, if_pos rfl, List.forall_mem_singleton, hexact, imp_iff_right rfl]
      refine ⟨fun h => h.1, fun hfit => ⟨hfit, ?_⟩⟩
      obtain ⟨s, hs, -⟩ := rtlUtf8ToUnicode_eq_some hdecode
      rw [List.take_of_length_le (by omega)] at hs
      obtain ⟨p, hbytes, htext⟩ := exists_sharePath h0 hpipe h hs
      have hle := (length_utf16 s).1
      have hlength := congrArg List.length hs
      have hfits : p.Fits := by
        rw [SharePath.Fits, htext, hbytes, Nat.min_eq_left (by omega)]
        omega
      obtain ⟨ntpath, hntpath, -⟩ := shareNtpath_fits heap entries doublings hfits
      rw [hbytes] at hntpath
      rw [hntpath]
      exact fun h => by cases h

/-- The replacement of `/tmp`, if its size has not wrapped. -/
theorem temporaryPath_eq {tmp path : List UInt8} (htmp : 0 ∉ tmp) (h0 : 0 ∉ path) (hfour : 4 ≤ path.length)
    (hfit : tmp.length + path.length - 3 < 2 ^ 16) : temporaryPath tmp path = .ok (tmp ++ path.drop 4) := by
  have hsize : (temporarySize tmp path).toNat = (tmp ++ path.drop 4 ++ [0]).length := by
    rw [temporarySize, UInt16.toNat_ofNat', List.length_append, List.length_append, List.length_drop,
      List.length_singleton]
    omega
  obtain ⟨block, hblock⟩ : ∃ block, List.replicate (temporarySize tmp path).toNat (0 : UInt8) = block := ⟨_, rfl⟩
  have hlength : block.length = (tmp ++ (path.drop 4 ++ [0])).length := by
    rw [← hblock, List.length_replicate, hsize, List.append_assoc]
  have hstores := poke_poke block 0 tmp (path.drop 4 ++ [0])
  have hwhole : poke block 0 (tmp ++ (path.drop 4 ++ [0])) = some (tmp ++ (path.drop 4 ++ [0])) := by
    rw [poke, if_pos (by rw [Nat.zero_add, hlength]), overwrite_of_le (Nat.zero_le _), List.take_zero,
      Nat.zero_add, ← hlength, List.drop_length, List.nil_append, List.append_nil]
  rw [hwhole, Nat.zero_add] at hstores
  have hall : ∀ c ∈ tmp ++ path.drop 4, decide (c ≠ 0) = true := by
    intro c hc
    refine decide_eq_true (fun hzero => ?_)
    rcases List.mem_append.mp hc with hc | hc
    · exact htmp (hzero ▸ hc)
    · exact h0 (hzero ▸ List.mem_of_mem_drop hc)
  simp only [temporaryPath, hblock, hstores]
  rw [← List.append_assoc, List.takeWhile_append_of_pos hall, List.takeWhile_cons_of_neg (by decide),
    List.append_nil]

theorem temporarySize_exact_iff {tmp path : List UInt8} (hfour : 4 ≤ path.length) :
    (temporarySize tmp path).toNat = tmp.length + path.length - 4 + 1 ↔ tmp.length + path.length - 3 < 2 ^ 16 := by
  rw [temporarySize, UInt16.toNat_ofNat']
  omega

/-- **Sizes.** When no size wraps around and every copy finds room. -/
theorem sizes_hold_iff (dirfd : Int) (path : CString) : env.SizesHold dirfd path.bytes ↔ env.Fits dirfd path.bytes := by
  obtain ⟨path, h0⟩ := path
  have hrouted := routed h0
  show _ ∧ _ ↔ _
  rw [sizes, getAbsoluteNtpath2, Fits]
  cases hroute : route path with
  | root =>
    obtain ⟨n, hn, s, -, hs, -⟩ := env.rootNtpath_spec
    simp only [hs, bind, Except.bind]
    exact iff_of_true ⟨fun _ h => absurd h List.not_mem_nil, fun h => by cases h⟩ trivial
  | device length name type =>
    exact iff_of_true ⟨fun _ h => absurd h List.not_mem_nil, fun h => by cases h⟩ trivial
  | descriptor fd => exact iff_of_true ⟨fun _ h => absurd h List.not_mem_nil, fun h => by cases h⟩ trivial
  | negative => exact iff_of_true ⟨fun _ h => absurd h List.not_mem_nil, fun h => by cases h⟩ trivial
  | pipe =>
    rw [hroute] at hrouted
    cases hrouted with
    | pipe hpipe =>
      simp only [List.forall_mem_singleton, ← pipe_iff h0 hpipe env.heap]
      refine and_congr_right' (not_congr (bind_eq_error_iff fun answer => ?_))
      cases answer with
      | none => exact fun h => by cases h
      | some ntpath => exact fun h => by cases h
  | share =>
    rw [hroute] at hrouted
    cases hrouted with
    | share hpipe hshare =>
      simp only [← share_iff h0 hpipe hshare env.heap env.entries env.doublings]
      refine and_congr_right' (not_congr (bind_eq_error_iff fun answer => ?_))
      cases answer with
      | none => exact fun h => by cases h
      | some ntpath => exact fun h => by cases h
  | temporary =>
    rw [hroute] at hrouted
    cases hrouted with
    | temporary htmp =>
      have hfour : 4 ≤ path.length := by
        have h : tmp.map lower <+: path.map lower := prefix_of_same htmp rfl (by decide)
        have hle := h.length_le
        rwa [List.length_map, List.length_map] at hle
      cases htmpdir : env.tmpdir with
      | none =>
        exact iff_of_true ⟨fun _ h => absurd h List.not_mem_nil, fun h => by cases h⟩ (fun _ h => by cases h)
      | some tmpdir =>
        simp only [Option.mem_some_iff, forall_eq', List.forall_mem_cons, temporarySize_exact_iff hfour, and_assoc]
        refine and_congr_right fun hfit => ?_
        have h0' : 0 ∉ tmpdir.bytes ++ path.drop 4 := by
          intro hmem
          rcases List.mem_append.mp hmem with hmem | hmem
          · exact tmpdir.no_nul hmem
          · exact h0 (List.mem_of_mem_drop hmem)
        rw [← env.file_iff h0' dirfd]
        simp only [temporaryPath_eq tmpdir.no_nul h0 hfour hfit, bind, Except.bind]
  | file => exact env.file_iff h0 dirfd

/-- A process in `C:\`, the only drive. -/
def inDriveC : Surroundings where
  heap := fun _ => 0
  entries := fun _ => ⟨0, 0⟩
  doublings := 0
  volumes := oneDrive
  inverse := inverse_oneDrive
  devices := initialDevices
  coherent := (coherent_initialCaches oneDrive).devices
  cwd := ⟨67, [backslash], by decide, rfl, rfl, by decide⟩
  cwd_drive := by decide
  tmpdir := none
  descriptors := fun _ => none

theorem length_utf16_cons (c : Char) (s : List Char) :
    (utf16 (c :: s)).length = (utf16Units c).length + (utf16 s).length := by
  rw [utf16, List.flatMap_cons, List.length_append]
  rfl

theorem utf8_replicate (n : Nat) : utf8 (List.replicate n 'a') = List.replicate n 97 := by
  induction n with
  | zero => rfl
  | succ n ih =>
    rw [List.replicate_succ, utf8_cons, ih]
    rfl

theorem length_utf16_replicate (n : Nat) : (utf16 (List.replicate n 'a')).length = n := by
  induction n with
  | zero => rfl
  | succ n ih =>
    rw [List.replicate_succ, length_utf16_cons, ih, Nat.add_comm]
    rfl

/-- `C:/aa…`, with `n` letters. -/
def longPath (n : Nat) : List UInt8 := 67 :: 58 :: 47 :: List.replicate n 97

theorem longPath_eq (n : Nat) : longPath n = utf8 ('C' :: ':' :: '/' :: List.replicate n 'a') := by
  rw [utf8_cons, utf8_cons, utf8_cons, utf8_replicate]
  rfl

theorem convertPath_longPath {n : Nat} (hn : n ≤ 32763) :
    ∃ units, convertPath (longPath n) = some units ∧ units.length = n + 3 := by
  have hlength : (utf16 ('C' :: ':' :: '/' :: List.replicate n 'a')).length = n + 3 := by
    have hlead : (utf16Units 'C').length = 1 ∧ (utf16Units ':').length = 1 ∧ (utf16Units '/').length = 1 := by decide
    rw [length_utf16_cons, length_utf16_cons, length_utf16_cons, length_utf16_replicate, hlead.1, hlead.2.1, hlead.2.2]
    omega
  have hbytes : (longPath n).length = n + 3 := by
    rw [longPath, List.length_cons, List.length_cons, List.length_cons, List.length_replicate]
  refine ⟨backslashed (utf16 ('C' :: ':' :: '/' :: List.replicate n 'a')), ?_, ?_⟩
  · rw [convertPath, List.take_of_length_le (by omega), longPath_eq, rtlUtf8ToUnicode_utf8]
    exact if_neg (by omega)
  · rw [backslashed, List.length_map, hlength]

/-- The size for a path of 32740 units on a drive is 0. -/
theorem not_sizesHold : ¬ inDriveC.SizesHold atFdcwd (longPath 32737) := by
  obtain ⟨n, hn⟩ : ∃ n, n = 32737 := ⟨_, rfl⟩
  rw [← hn]
  obtain ⟨units, hunits, hlength⟩ := convertPath_longPath (n := n) (by omega)
  intro h
  have hsizes : inDriveC.sizes atFdcwd (longPath n) = [(absoluteSize units, 2 * units.length + 2 + 54)] := by
    have hroute : route (longPath n) = .file := rfl
    have habsolute : isAbsolutePath (longPath n) = true := rfl
    have hbad : isBadPath (longPath n) = false := rfl
    simp only [sizes, fileSizes, hroute, hunits, habsolute, hbad, if_true, Bool.false_eq_true, if_false]
  have hsize := h.1 _ (hsizes ▸ List.mem_singleton_self _)
  rw [absoluteSize_exact_iff (by omega)] at hsize
  omega

end Surroundings

end WindowsLibc.Path.Absolute
