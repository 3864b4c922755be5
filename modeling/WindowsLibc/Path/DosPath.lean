import WindowsLibc.Lib.Digits
import WindowsLibc.Path.Normalise

/-!
# Paths of the kernel and of DOS (`internal/path.c`)

`dospath_to_ntpath` puts the device of a drive for its letter, and `ntpath_to_dospath` finds the letter of a
device again, through a cache of two entries by the number of the volume. Pipes and network shares have
fixed names on both sides.

* A `UNICODE_STRING` is an `NtString`: two lengths in bytes, 16 bits wide, and the memory from `Buffer` on.
  An access outside of an allocation is a fault, `none`; an answer of NULL is `some (_, none)`.
* What the kernel says about drives and volumes is a `Volumes`.
* `Coherent` is what the caches have in every run. `dospathToNtpath_spec` and `ntpathToDospath_volume` give
  the results of both functions, which then do not depend on the caches.
-/

namespace WindowsLibc.Path

open WindowsLibc.Lib

/-! ## Strings in memory -/

/-- `UNICODE_STRING`, with the memory from `Buffer` to the end of its allocation. -/
structure NtString where
  length : UInt16
  maximumLength : UInt16
  buffer : List WChar
  deriving DecidableEq, Repr

/-- What the heap has in a new allocation. -/
abbrev Fill := Nat → WChar

/-- `RtlAllocateHeap` for a `UNICODE_STRING` with so many bytes behind it. As a `size_t`, a negative sum is
more than any heap has. -/
def allocateString (heap : Fill) (bytes : Int) : Except Stop (List WChar) :=
  if 16 + bytes < 0 then .error .enomem
  else if bytes < 0 then .error .fault
  else .ok ((List.range (bytes.toNat / 2)).map heap)

/-- `memcpy` of so many bytes from the front of `src`; `off` is in units. -/
def copy (dst : List WChar) (off : Nat) (src : List WChar) (bytes : Int) :
    Except Stop (List WChar) :=
  if 0 ≤ bytes ∧ bytes ≤ 2 * src.length ∧ 2 * off + bytes ≤ 2 * dst.length then
    .ok (overwrite dst off (src.take (bytes.toNat / 2)))
  else .error .fault

/-- `memcmp(buffer, text, …) == 0`, which ends at the first difference. -/
def beginsWith (buffer text : List WChar) : Bool := text.isPrefixOf buffer

/-- What a function returns that has changed `cache`. -/
def answer {C : Type*} (cache : C) : Except Stop NtString → Option (C × Option NtString)
  | .ok s => some (cache, some s)
  | .error .enomem => some (cache, none)
  | .error .fault => none

/-! ## Drives -/

/-- What the kernel says: the device that the link of a drive is to, and the first unit of the path at
which the mount manager has a device. -/
structure Volumes where
  symbolicLink : UInt8 → Option (List WChar)
  mountPoint : List WChar → Option WChar

/-- `nt_device`. -/
structure NtDevice where
  length : UInt16
  name : List WChar
  deriving DecidableEq, Repr

/-- `devices`, by the letter. -/
abbrev Devices := UInt8 → NtDevice

def initialDevices : Devices := fun _ => ⟨0, List.replicate 26 0⟩

/-- `dos_device_to_nt_device`. -/
def dosDeviceToNtDevice (v : Volumes) (devices : Devices) (volume : UInt8) :
    Devices × Option NtDevice :=
  if volume < 65 ∨ volume > 90 then (devices, none)
  else
    let device := devices volume
    -- the volume is known not to exist
    if device.length = 0xFFFF then (devices, none)
    else if device.length ≠ 0 then (devices, some device)
    else
      match v.symbolicLink volume with
      | none => (Function.update devices volume { device with length := 0xFFFF }, none)
      | some target =>
        if 2 * target.length ≤ 52 then
          let device := ⟨UInt16.ofNat (2 * target.length), overwrite device.name 0 target⟩
          (Function.update devices volume device, some device)
        else (Function.update devices volume { device with length := 0xFFFF }, none)

/-- The path on a device. -/
def devicePath (heap : Fill) (device : NtDevice) (dospath : NtString) : Except Stop NtString := do
  let buffer ← allocateString heap (device.length.toNat + dospath.maximumLength.toNat - 4)
  let buffer ← copy buffer 0 device.name device.length.toNat
  let buffer ← copy buffer (device.length.toNat / 2) (dospath.buffer.drop 2)
    (dospath.maximumLength.toNat - 4)
  let length := device.length + dospath.length - 4
  return ⟨length, length + 2, buffer⟩

/-- `dospath_to_ntpath`. -/
def dospathToNtpath (heap : Fill) (v : Volumes) (devices : Devices) (dospath : NtString) :
    Option (Devices × Option NtString) :=
  match dospath.buffer with
  | [] => none
  | c :: _ =>
    match dosDeviceToNtDevice v devices c.toUInt8 with
    | (devices, none) => some (devices, none)
    | (devices, some device) => answer devices (devicePath heap device dospath)

/-! ## Volumes -/

/-- `dos_device`. -/
structure DosDevice where
  deviceNumber : UInt32
  label : UInt8
  deriving DecidableEq, Repr

/-- `dos_device_cache`. -/
structure DosDevices where
  first : DosDevice
  second : DosDevice
  deriving DecidableEq, Repr

def initialDosDevices : DosDevices := ⟨⟨0xFFFFFFFF, 0⟩, ⟨0xFFFFFFFF, 0⟩⟩

/-- `nt_device_to_dos_device`. The name goes into a buffer of 64 bytes, behind its length. -/
def ntDeviceToDosDevice (v : Volumes) (device : List WChar) : Except Stop UInt8 :=
  if 2 + 2 * device.length ≤ 64 then
    match v.mountPoint device with
    | none => .ok 0
    | some c =>
      let label := c.toUInt8
      .ok (if 65 ≤ label ∧ label ≤ 90 then label else 0)
  else .error .fault

/-- `L"\\Device\\HarddiskVolume"`. -/
def harddiskVolume : List WChar :=
  [92, 68, 101, 118, 105, 99, 101, 92, 72, 97, 114, 100, 100, 105, 115, 107, 86, 111, 108, 117, 109, 101]

/-- The `atoi` of `ntpath_to_dospath`, on the units from index `i` on: the number, and where a slash ends
it. -/
def deviceNumberFrom : List WChar → Nat → UInt32 → Except Stop (UInt32 × Option Nat)
  | [], _, _ => .error .fault
  | c :: rest, i, number =>
    if c = 0 then .ok (number, none)
    else if c = backslash then .ok (number, some i)
    else deviceNumberFrom rest (i + 1) (number * 10 + (c.toUInt32 - 48))

/-- The lookup of `ntpath_to_dospath`. A hit in the second slot swaps the slots. -/
def dosLabel (v : Volumes) (cache : DosDevices) (number : UInt32) (device : List WChar) :
    Except Stop (DosDevices × UInt8) :=
  if cache.first.deviceNumber = number then .ok (cache, cache.first.label)
  else if cache.second.deviceNumber = number then
    .ok (⟨cache.second, cache.first⟩, cache.second.label)
  else do
    let label ← ntDeviceToDosDevice v device
    if label = 0 then return (cache, label)
    else if cache.first.deviceNumber = 0xFFFFFFFF then
      return ({ cache with first := ⟨number, label⟩ }, label)
    else return ({ cache with second := ⟨number, label⟩ }, label)

/-- The path on a drive. -/
def drivePath (heap : Fill) (ntpath : NtString) (secondSlash : Option Nat) (label : UInt8) :
    Except Stop NtString := do
  let buffer ← allocateString heap (ntpath.length.toNat - 32)
  let buffer ← copy buffer 0 [label.toUInt16, 58] 4
  match secondSlash with
  | some pos =>
    let buffer ← copy buffer 2 (ntpath.buffer.drop pos) (ntpath.length.toNat - 2 * pos)
    let length := ntpath.length - UInt16.ofNat (2 * (pos - 2))
    let buffer ← copy buffer (length.toNat / 2) [0] 2
    return ⟨length, length + 2, buffer⟩
  | none =>
    let buffer ← copy buffer 2 [0] 2
    return ⟨4, 6, buffer⟩

/-- The part of `ntpath_to_dospath` for volumes. -/
def volumeToDospath (heap : Fill) (v : Volumes) (cache : DosDevices) (ntpath : NtString) :
    Option (DosDevices × Option NtString) :=
  match deviceNumberFrom (ntpath.buffer.drop 22) 22 0 with
  | .error _ => none
  | .ok (number, secondSlash) =>
    -- the name of the volume, without the next slash
    let device := ntpath.buffer.take (secondSlash.getD (ntpath.length.toNat / 2))
    match dosLabel v cache number device with
    | .error _ => none
    | .ok (cache, label) =>
      if label = 0 then some (cache, none)
      else answer cache (drivePath heap ntpath secondSlash label)

/-! ## Pipes and network shares -/

/-- `L"\\Device\\NamedPipe"`. -/
def namedPipe : List WChar :=
  [92, 68, 101, 118, 105, 99, 101, 92, 78, 97, 109, 101, 100, 80, 105, 112, 101]

/-- `L"\\\\.\\pipe"`. -/
def dosPipe : List WChar := [92, 92, 46, 92, 112, 105, 112, 101]

/-- `L"\\Device\\Mup"`. -/
def mup : List WChar := [92, 68, 101, 118, 105, 99, 101, 92, 77, 117, 112]

/-- The part of `ntpath_to_dospath` for a device with a fixed name on both sides: `device` becomes
`dos`. -/
def renamed (heap : Fill) (device dos : List WChar) (ntpath : NtString) : Except Stop NtString := do
  let buffer ← allocateString heap
    (ntpath.length.toNat - 2 * (device.length - dos.length - 1 : Int))
  let buffer ← copy buffer 0 dos (2 * dos.length)
  let buffer ← copy buffer dos.length (ntpath.buffer.drop device.length)
    (ntpath.length.toNat - 2 * (device.length - 1 : Int))
  let length := UInt16.ofNat (2 * dos.length) + (ntpath.length - UInt16.ofNat (2 * device.length))
  return ⟨length, length + 2, buffer⟩

/-- `L"\\Device\\Null"` with its terminator. -/
def nullDevice : List WChar := [92, 68, 101, 118, 105, 99, 101, 92, 78, 117, 108, 108, 0]

/-- `L"\\Device\\ConDrv"`. -/
def conDrv : List WChar := [92, 68, 101, 118, 105, 99, 101, 92, 67, 111, 110, 68, 114, 118]

/-- `ntpath_to_dospath`. -/
def ntpathToDospath (heap : Fill) (v : Volumes) (cache : DosDevices) (ntpath : NtString) :
    Option (DosDevices × Option NtString) :=
  -- `L"NUL"` and `L"CON"` are not in the heap, and their terminators are not counted
  if beginsWith ntpath.buffer nullDevice then some (cache, some ⟨6, 6, [78, 85, 76, 0]⟩)
  else if beginsWith ntpath.buffer conDrv then some (cache, some ⟨6, 6, [67, 79, 78, 0]⟩)
  else if beginsWith ntpath.buffer namedPipe then
    answer cache (renamed heap namedPipe dosPipe ntpath)
  else if beginsWith ntpath.buffer mup then answer cache (renamed heap mup [backslash] ntpath)
  else volumeToDospath heap v cache ntpath

/-! ## What the paths are -/

/-- The text of a string and its terminator are in memory. -/
structure NtString.Holds (s : NtString) (text : List WChar) : Prop where
  length : s.length.toNat = 2 * text.length
  isPrefix : text ++ [0] <+: s.buffer

/-- Digits of a number, as many as there are or `fuel`. -/
def decimal : Nat → Nat → List Nat
  | 0, _ => []
  | fuel + 1, n => if n < 10 then [n] else decimal fuel (n / 10) ++ [n % 10]

def digitUnit (d : Nat) : WChar := UInt16.ofNat (48 + d)

/-- `\Device\HarddiskVolumeN`, for a number of at most four digits. -/
def volumeName (n : Nat) : List WChar := harddiskVolume ++ (decimal 4 n).map digitUnit

/-- What comes behind a drive or a volume: nothing, or a slash and any text. -/
def Below (rest : List WChar) : Prop := rest = [] ∨ rest.head? = some backslash

/-- A path `X:…` of DOS. Its buffer may be larger than it. -/
structure DrivePath where
  string : NtString
  letter : UInt8
  rest : List WChar
  isLetter : 65 ≤ letter ∧ letter ≤ 90
  holds : string.Holds (letter.toUInt16 :: 58 :: rest)
  below : Below rest
  even : 2 ∣ string.maximumLength.toNat
  terminated : string.length.toNat + 2 ≤ string.maximumLength.toNat
  allocated : string.maximumLength.toNat ≤ 2 * string.buffer.length

/-- A path of the kernel on a volume. -/
structure VolumePath where
  string : NtString
  number : Nat
  rest : List WChar
  number_lt : number < 10000
  holds : string.Holds (volumeName number ++ rest)
  below : Below rest

/-- The links of the drives and the mount points of the volumes are inverse to each other. -/
structure Volumes.Inverse (v : Volumes) : Prop where
  named : ∀ volume target, v.symbolicLink volume = some target → ∃ n < 10000, target = volumeName n
  inverse : ∀ volume target, 65 ≤ volume ∧ volume ≤ 90 →
    (v.symbolicLink volume = some target ↔ v.mountPoint target = some volume.toUInt16)

/-! ## Names of volumes -/

theorem decimal_spec (fuel : Nat) : ∀ {n : Nat}, 0 < fuel → n < 10 ^ fuel →
    Numeral 10 n (decimal fuel n) ∧ (decimal fuel n).length ≤ fuel := by
  induction fuel with
  | zero => exact fun h => absurd h (Nat.lt_irrefl 0)
  | succ fuel ih =>
    intro n _ hn
    rw [decimal]
    split
    · next hsmall => exact ⟨.singleton hsmall, by simp⟩
    · next hlarge =>
      have hdiv : n / 10 < 10 ^ fuel := by
        rw [Nat.pow_succ] at hn
        omega
      have hfuel : 0 < fuel := by
        rcases Nat.eq_zero_or_pos fuel with rfl | h
        · rw [Nat.pow_zero] at hdiv
          omega
        · exact h
      obtain ⟨hnum, hlen⟩ := ih hfuel hdiv
      refine ⟨hnum.snoc (by decide), ?_⟩
      rw [List.length_append, List.length_singleton]
      omega

theorem length_volumeName {n : Nat} (hn : n < 10000) :
    23 ≤ (volumeName n).length ∧ (volumeName n).length ≤ 26 := by
  obtain ⟨hnum, hlen⟩ := decimal_spec 4 (by decide) hn
  have hpos := List.length_pos_iff.mpr hnum.ne_nil
  have h22 : harddiskVolume.length = 22 := rfl
  rw [volumeName, List.length_append, List.length_map, h22]
  omega

theorem digitUnit_facts : ∀ d < 10, digitUnit d ≠ 0 ∧ digitUnit d ≠ backslash ∧
    (digitUnit d).toUInt32 - 48 = UInt32.ofNat d := by decide

/-- The number that is read. -/
theorem deviceNumberFrom_digits {ds : List Nat} (hds : ∀ d ∈ ds, d < 10) (rest : List WChar)
    (i v : Nat) :
    deviceNumberFrom (ds.map digitUnit ++ rest) i (UInt32.ofNat v) =
      deviceNumberFrom rest (i + ds.length) (UInt32.ofNat (numeral 10 v ds)) := by
  induction ds generalizing i v with
  | nil => rfl
  | cons d ds ih =>
    obtain ⟨hzero, hslash, hvalue⟩ := digitUnit_facts d (hds d List.mem_cons_self)
    have hread : UInt32.ofNat v * 10 + UInt32.ofNat d = UInt32.ofNat (v * 10 + d) := by
      rw [UInt32.ofNat_add, UInt32.ofNat_mul]
      rfl
    rw [List.map_cons, List.cons_append, deviceNumberFrom, if_neg hzero, if_neg hslash, hvalue, hread,
      ih (fun e he => hds e (List.mem_cons_of_mem d he)), List.length_cons]
    congr 1
    omega

/-- What `atoi` makes of a path on a volume. -/
theorem deviceNumberFrom_volume {n : Nat} (hn : n < 10000) {rest : List WChar} (hrest : Below rest)
    {buffer : List WChar} (hbuffer : volumeName n ++ rest ++ [0] <+: buffer) :
    deviceNumberFrom (buffer.drop 22) 22 0 = .ok (UInt32.ofNat n,
      if rest = [] then none else some (volumeName n).length) := by
  obtain ⟨tail, rfl⟩ := hbuffer
  obtain ⟨hnum, _⟩ := decimal_spec 4 (by decide) hn
  have hdrop : (volumeName n ++ rest ++ [0] ++ tail).drop 22 =
      (decimal 4 n).map digitUnit ++ (rest ++ [0] ++ tail) := by
    simp only [volumeName, List.append_assoc]
    exact List.drop_left' rfl
  have hlen : (volumeName n).length = 22 + (decimal 4 n).length := by
    rw [volumeName, List.length_append, List.length_map]
    rfl
  rw [hdrop, show (0 : UInt32) = UInt32.ofNat 0 from rfl, deviceNumberFrom_digits hnum.digit,
    hnum.value, hlen]
  rcases hrest with rfl | hhead
  · rfl
  · obtain ⟨ys, rfl⟩ := List.head?_eq_some_iff.mp hhead
    rw [if_neg (List.cons_ne_nil _ _), List.cons_append, List.cons_append, deviceNumberFrom,
      if_neg (by decide), if_pos rfl]

/-! ## Copies -/

theorem length_allocated (heap : Fill) (n : Nat) : ((List.range n).map heap).length = n := by
  rw [List.length_map, List.length_range]

theorem allocateString_eq (heap : Fill) (bytes : Int) (n : Nat) (h : bytes = 2 * n) :
    allocateString heap bytes = .ok ((List.range n).map heap) := by
  rw [allocateString, if_neg (by omega), if_neg (by omega), show bytes.toNat / 2 = n by omega]

theorem copy_eq {dst : List WChar} (src : List WChar) (off : Nat) (bytes : Int) (n : Nat)
    (hbytes : bytes = 2 * n) (hsrc : n ≤ src.length) (hdst : off + n ≤ dst.length) :
    copy dst off src bytes = .ok (overwrite dst off (src.take n)) := by
  rw [copy, if_pos (by omega), show bytes.toNat / 2 = n by omega]

/-- A copy behind what is there already. -/
theorem copy_prefix {dst text : List WChar} (htext : text <+: dst) (src : List WChar) (off : Nat)
    (bytes : Int) (n : Nat) (hoff : off = text.length) (hbytes : bytes = 2 * n) (hsrc : n ≤ src.length)
    (hdst : text.length + n ≤ dst.length) :
    ∃ dst', copy dst off src bytes = .ok dst' ∧ dst'.length = dst.length ∧
      text ++ src.take n <+: dst' := by
  have hle : off ≤ dst.length := by omega
  have hn : (src.take n).length = n := List.length_take_of_le hsrc
  refine ⟨_, copy_eq src off bytes n hbytes hsrc (by omega), ?_, ?_⟩
  · rw [length_overwrite, hn]
    omega
  · obtain ⟨tail, rfl⟩ := htext
    rw [overwrite_of_le hle, hoff, List.take_left]
    exact List.prefix_append _ _

theorem copy_whole {dst text : List WChar} (htext : text <+: dst) (src : List WChar) (off : Nat)
    (bytes : Int) (hoff : off = text.length) (hbytes : bytes = 2 * src.length)
    (hdst : text.length + src.length ≤ dst.length) :
    ∃ dst', copy dst off src bytes = .ok dst' ∧ dst'.length = dst.length ∧ text ++ src <+: dst' := by
  have h := copy_prefix htext src off bytes src.length hoff hbytes (Nat.le_refl _) hdst
  rwa [List.take_length] at h

/-- A copy that is made fits. -/
theorem copy_bounds {dst src dst' : List WChar} {off : Nat} {bytes : Int}
    (h : copy dst off src bytes = .ok dst') :
    0 ≤ bytes ∧ 2 * off + bytes ≤ 2 * dst.length ∧ dst'.length = dst.length := by
  rw [copy] at h
  split at h
  · next hfits =>
    cases h
    refine ⟨hfits.1, hfits.2.2, ?_⟩
    rw [length_overwrite, List.length_take]
    omega
  · cases h

/-! ## Drives -/

/-- The entry of a drive that has been found. -/
def deviceOf (target : List WChar) : NtDevice :=
  ⟨UInt16.ofNat (2 * target.length), overwrite (List.replicate 26 0) 0 target⟩

/-- Every entry is empty, or what the kernel says. -/
def DevicesCoherent (v : Volumes) (devices : Devices) : Prop :=
  ∀ volume, devices volume = initialDevices volume ∨
    v.symbolicLink volume = none ∧ devices volume = ⟨0xFFFF, List.replicate 26 0⟩ ∨
    ∃ target, v.symbolicLink volume = some target ∧ devices volume = deviceOf target

theorem deviceOf_length {n : Nat} (hn : n < 10000) :
    (deviceOf (volumeName n)).length.toNat = 2 * (volumeName n).length := by
  have hlen := length_volumeName hn
  exact UInt16.toNat_ofNat_of_lt' (by show _ < 65536; omega)

theorem DevicesCoherent.update {v : Volumes} {devices : Devices} (hc : DevicesCoherent v devices)
    {volume : UInt8} {device : NtDevice}
    (hdevice : v.symbolicLink volume = none ∧ device = ⟨0xFFFF, List.replicate 26 0⟩ ∨
      ∃ target, v.symbolicLink volume = some target ∧ device = deviceOf target) :
    DevicesCoherent v (Function.update devices volume device) := by
  intro volume'
  by_cases hsame : volume' = volume
  · subst hsame
    rw [Function.update_self]
    exact .inr hdevice
  · rw [Function.update_of_ne hsame]
    exact hc volume'

/-- A drive is found, or not, as the kernel says, whatever is in the cache. -/
theorem dosDeviceToNtDevice_spec {v : Volumes} (hv : v.Inverse) {devices : Devices}
    (hc : DevicesCoherent v devices) {volume : UInt8} (hletter : 65 ≤ volume ∧ volume ≤ 90) :
    ∃ devices', dosDeviceToNtDevice v devices volume =
        (devices', (v.symbolicLink volume).map deviceOf) ∧ DevicesCoherent v devices' := by
  have hrange : ¬ (volume < 65 ∨ volume > 90) := by
    rw [not_or]
    exact ⟨UInt8.not_lt.mpr hletter.1, UInt8.not_lt.mpr hletter.2⟩
  simp only [dosDeviceToNtDevice]
  rw [if_neg hrange]
  rcases hc volume with hinitial | ⟨hnone, habsent⟩ | ⟨target, hsome, hknown⟩
  · -- nothing is known of the drive
    rw [hinitial]
    cases hlink : v.symbolicLink volume with
    | none => exact ⟨_, rfl, hc.update (.inl ⟨hlink, rfl⟩)⟩
    | some target =>
      obtain ⟨n, hn, rfl⟩ := hv.named volume target hlink
      have hfit : 2 * (volumeName n).length ≤ 52 := by
        have := length_volumeName hn
        omega
      simp only [initialDevices, if_pos hfit]
      rw [if_neg (by decide), if_neg (by decide)]
      exact ⟨_, rfl, hc.update (.inr ⟨_, hlink, rfl⟩)⟩
  · rw [habsent, hnone]
    exact ⟨devices, rfl, hc⟩
  · obtain ⟨n, hn, rfl⟩ := hv.named volume target hsome
    have hlen := length_volumeName hn
    have hlength := deviceOf_length hn
    have habsent : (deviceOf (volumeName n)).length ≠ 0xFFFF := by
      intro h
      rw [h] at hlength
      have : (0xFFFF : UInt16).toNat = 65535 := rfl
      omega
    have hempty : (deviceOf (volumeName n)).length ≠ 0 := by
      intro h
      rw [h] at hlength
      have : (0 : UInt16).toNat = 0 := rfl
      omega
    rw [hknown, hsome, if_neg habsent, if_pos hempty]
    exact ⟨devices, rfl, hc⟩

/-- What `dospath_to_ntpath` returns does not depend on the cache. -/
theorem dospathToNtpath_spec {v : Volumes} (hv : v.Inverse) (heap : Fill) {devices : Devices}
    (hc : DevicesCoherent v devices) (d : DrivePath) :
    ∃ devices', DevicesCoherent v devices' ∧ dospathToNtpath heap v devices d.string =
      match v.symbolicLink d.letter with
      | none => some (devices', none)
      | some target => answer devices' (devicePath heap (deviceOf target) d.string) := by
  obtain ⟨tail, htail⟩ := d.holds.isPrefix
  obtain ⟨devices', hdevice, hc'⟩ := dosDeviceToNtDevice_spec hv hc d.isLetter
  have hbuffer : d.string.buffer = d.letter.toUInt16 :: (58 :: d.rest ++ [0] ++ tail) := htail.symm
  refine ⟨devices', hc', ?_⟩
  simp only [dospathToNtpath, hbuffer, UInt8.toUInt8_toUInt16, hdevice]
  cases v.symbolicLink d.letter with
  | none => rfl
  | some target => rfl

/-- The path on a device, whose length may have wrapped. -/
theorem devicePath_spec (heap : Fill) {n : Nat} (hn : n < 10000) (d : DrivePath) :
    ∃ s, devicePath heap (deviceOf (volumeName n)) d.string = .ok s ∧
      s.length.toNat = (2 * (volumeName n).length + 2 * d.rest.length) % 2 ^ 16 ∧
      volumeName n ++ d.rest ++ [0] <+: s.buffer := by
  have hname := deviceOf_length hn
  have hlen := length_volumeName hn
  have hdlen := d.holds.length
  have hterm := d.terminated
  have halloc := d.allocated
  obtain ⟨m, hm⟩ := d.even
  obtain ⟨tail, htail⟩ := d.holds.isPrefix
  rw [List.length_cons, List.length_cons] at hdlen
  have hsrc : (deviceOf (volumeName n)).name.take (volumeName n).length = volumeName n := by
    rw [deviceOf, overwrite_of_le (Nat.zero_le _), List.take_zero, List.nil_append, List.take_left]
  have hsize : (deviceOf (volumeName n)).name.length = 26 := by
    rw [deviceOf, length_overwrite, List.length_replicate]
    omega
  have hfresh := length_allocated heap ((volumeName n).length + m - 2)
  have halloc' := allocateString_eq heap
    ((deviceOf (volumeName n)).length.toNat + d.string.maximumLength.toNat - 4)
    ((volumeName n).length + m - 2) (by omega)
  -- The device is copied, then what is behind the drive.
  obtain ⟨b₁, hcopy₁, hlen₁, hpre₁⟩ := copy_prefix
    (List.nil_prefix (l := (List.range ((volumeName n).length + m - 2)).map heap))
    (deviceOf (volumeName n)).name 0 (deviceOf (volumeName n)).length.toNat (volumeName n).length rfl
    (by omega) (by omega) (by rw [hfresh, List.length_nil]; omega)
  rw [List.nil_append, hsrc] at hpre₁
  obtain ⟨b₂, hcopy₂, _, hpre₂⟩ := copy_prefix hpre₁ (d.string.buffer.drop 2)
    ((deviceOf (volumeName n)).length.toNat / 2) (d.string.maximumLength.toNat - 4) (m - 2)
    (by omega) (by omega) (by rw [List.length_drop]; omega) (by rw [hlen₁, hfresh]; omega)
  have hlength : ((deviceOf (volumeName n)).length + d.string.length - 4).toNat =
      (2 * (volumeName n).length + 2 * d.rest.length) % 2 ^ 16 := by
    rw [UInt16.toNat_sub, UInt16.toNat_add, hname, hdlen]
    show (2 ^ 16 - 4 + (2 * (volumeName n).length + 2 * (d.rest.length + 1 + 1)) % 2 ^ 16) % 2 ^ 16 = _
    omega
  have hpath : devicePath heap (deviceOf (volumeName n)) d.string =
      .ok ⟨(deviceOf (volumeName n)).length + d.string.length - 4,
        (deviceOf (volumeName n)).length + d.string.length - 4 + 2, b₂⟩ := by
    simp only [devicePath, halloc', hcopy₁, hcopy₂, bind, Except.bind]
    rfl
  refine ⟨_, hpath, hlength, List.IsPrefix.trans ?_ hpre₂⟩
  rw [List.append_assoc, List.prefix_append_right_inj, List.prefix_take_iff, ← htail]
  refine ⟨List.prefix_append _ _, ?_⟩
  rw [List.length_append, List.length_singleton]
  omega

/-! ## Volumes -/

/-- The letter that the kernel has for a device, or `'\0'`. -/
def labelOf (v : Volumes) (device : List WChar) : UInt8 :=
  match v.mountPoint device with
  | none => 0
  | some c => if 65 ≤ c.toUInt8 ∧ c.toUInt8 ≤ 90 then c.toUInt8 else 0

/-- A slot is empty, or has what the kernel says of a volume. -/
def SlotCoherent (v : Volumes) (slot : DosDevice) : Prop :=
  slot.deviceNumber = 0xFFFFFFFF ∨
    ∃ n < 10000, slot.deviceNumber = UInt32.ofNat n ∧ slot.label = labelOf v (volumeName n)

structure DosDevicesCoherent (v : Volumes) (cache : DosDevices) : Prop where
  first : SlotCoherent v cache.first
  second : SlotCoherent v cache.second

theorem ntDeviceToDosDevice_volume (v : Volumes) {n : Nat} (hn : n < 10000) :
    ntDeviceToDosDevice v (volumeName n) = .ok (labelOf v (volumeName n)) := by
  have hlen := length_volumeName hn
  rw [ntDeviceToDosDevice, if_pos (by omega), labelOf]
  cases v.mountPoint (volumeName n) <;> rfl

theorem toNat_number {n : Nat} (hn : n < 10000) : (UInt32.ofNat n).toNat = n :=
  UInt32.toNat_ofNat_of_lt' (by show _ < 4294967296; omega)

theorem SlotCoherent.hit {v : Volumes} {slot : DosDevice} (hs : SlotCoherent v slot) {n : Nat}
    (hn : n < 10000) (hhit : slot.deviceNumber = UInt32.ofNat n) :
    slot.label = labelOf v (volumeName n) := by
  have hnumber := toNat_number hn
  rcases hs with hempty | ⟨m, hm, hslot, hlabel⟩
  · rw [← hhit, hempty] at hnumber
    have : (0xFFFFFFFF : UInt32).toNat = 4294967295 := rfl
    omega
  · have hsame := toNat_number hm
    rw [← hslot, hhit, hnumber] at hsame
    rw [hlabel, hsame]

/-- The letter does not depend on the cache. -/
theorem dosLabel_spec {v : Volumes} {cache : DosDevices} (hc : DosDevicesCoherent v cache) {n : Nat}
    (hn : n < 10000) :
    ∃ cache', dosLabel v cache (UInt32.ofNat n) (volumeName n) =
        .ok (cache', labelOf v (volumeName n)) ∧ DosDevicesCoherent v cache' := by
  have hnew : SlotCoherent v ⟨UInt32.ofNat n, labelOf v (volumeName n)⟩ := .inr ⟨n, hn, rfl, rfl⟩
  rw [dosLabel]
  split
  · next hhit =>
    rw [hc.first.hit hn hhit]
    exact ⟨cache, rfl, hc⟩
  · split
    · next hhit =>
      rw [hc.second.hit hn hhit]
      exact ⟨⟨cache.second, cache.first⟩, rfl, hc.second, hc.first⟩
    · rw [ntDeviceToDosDevice_volume v hn]
      simp only [bind, Except.bind]
      split
      · exact ⟨cache, rfl, hc⟩
      · split
        · exact ⟨_, rfl, hnew, hc.second⟩
        · exact ⟨_, rfl, hc.first, hnew⟩

/-- A path on a volume goes to the last part of the function. -/
theorem ntpathToDospath_eq {heap : Fill} {v : Volumes} {cache : DosDevices} {ntpath : NtString}
    {n : Nat} {rest : List WChar} (hbegins : volumeName n ++ rest <+: ntpath.buffer) :
    ntpathToDospath heap v cache ntpath = volumeToDospath heap v cache ntpath := by
  obtain ⟨tail, htail⟩ := hbegins
  have hbuffer : ntpath.buffer = harddiskVolume ++ ((decimal 4 n).map digitUnit ++ rest ++ tail) := by
    rw [← htail, volumeName]
    simp only [List.append_assoc]
  -- The names of the devices differ in the unit behind `\\Device\\`.
  have hnull : beginsWith ntpath.buffer nullDevice = false := by rw [hbuffer]; rfl
  have hcon : beginsWith ntpath.buffer conDrv = false := by rw [hbuffer]; rfl
  have hpipe : beginsWith ntpath.buffer namedPipe = false := by rw [hbuffer]; rfl
  have hmup : beginsWith ntpath.buffer mup = false := by rw [hbuffer]; rfl
  rw [ntpathToDospath, hnull, hcon, hpipe, hmup]
  rfl

/-- Where the slash is. -/
def slashOf (n : Nat) (rest : List WChar) : Option Nat :=
  if rest = [] then none else some (volumeName n).length

/-- What `ntpath_to_dospath` returns for a path on a volume does not depend on the cache. -/
theorem ntpathToDospath_volume {v : Volumes} (heap : Fill) {cache : DosDevices}
    (hc : DosDevicesCoherent v cache) {n : Nat} (hn : n < 10000) {rest : List WChar}
    (hrest : Below rest) {ntpath : NtString} (hbegins : volumeName n ++ rest ++ [0] <+: ntpath.buffer)
    (hlength : rest = [] → ntpath.length.toNat = 2 * (volumeName n).length) :
    ∃ cache', DosDevicesCoherent v cache' ∧ ntpathToDospath heap v cache ntpath =
      if labelOf v (volumeName n) = 0 then some (cache', none)
      else answer cache' (drivePath heap ntpath (slashOf n rest) (labelOf v (volumeName n))) := by
  obtain ⟨cache', hlabel, hc'⟩ := dosLabel_spec hc hn
  have hname : volumeName n <+: ntpath.buffer :=
    (List.prefix_append _ _).trans ((List.prefix_append _ _).trans hbegins)
  have hdevice : ntpath.buffer.take ((slashOf n rest).getD (ntpath.length.toNat / 2)) =
      volumeName n := by
    have hpos : (slashOf n rest).getD (ntpath.length.toNat / 2) = (volumeName n).length := by
      rw [slashOf]
      split
      · next hnil =>
        have := hlength hnil
        simp only [Option.getD_none]
        omega
      · rfl
    obtain ⟨tail, htail⟩ := hname
    rw [hpos, ← htail, List.take_left]
  refine ⟨cache', hc', ?_⟩
  rw [ntpathToDospath_eq ((List.prefix_append _ _).trans hbegins), volumeToDospath,
    deviceNumberFrom_volume hn hrest hbegins]
  change (match dosLabel v cache (UInt32.ofNat n)
    (ntpath.buffer.take ((slashOf n rest).getD (ntpath.length.toNat / 2))) with
    | .error _ => none
    | .ok (cache, label) =>
      if label = 0 then some (cache, none)
      else answer cache (drivePath heap ntpath (slashOf n rest) label)) = _
  rw [hdevice, hlabel]

/-- The path on a drive, from a path on a volume. -/
theorem drivePath_spec (heap : Fill) {n : Nat} (hn : n < 10000) {rest : List WChar}
    {ntpath : NtString} (hholds : ntpath.Holds (volumeName n ++ rest)) (label : UInt8) :
    ∃ s, drivePath heap ntpath (slashOf n rest) label = .ok s ∧
      s.Holds (label.toUInt16 :: 58 :: rest) := by
  have hname := length_volumeName hn
  have hlength := hholds.length
  obtain ⟨tail, htail⟩ := hholds.isPrefix
  rw [List.length_append] at hlength
  have halloc := allocateString_eq heap (ntpath.length.toNat - 32)
    ((volumeName n).length + rest.length - 16) (by omega)
  have hfresh := length_allocated heap ((volumeName n).length + rest.length - 16)
  obtain ⟨b₁, hcopy₁, hlen₁, hpre₁⟩ := copy_whole
    (List.nil_prefix (l := (List.range ((volumeName n).length + rest.length - 16)).map heap))
    [label.toUInt16, 58] 0 4 rfl rfl (by rw [hfresh, List.length_nil]; simp; omega)
  by_cases hnil : rest = []
  · -- just the drive
    subst hnil
    obtain ⟨b₂, hcopy₂, _, hpre₂⟩ := copy_whole hpre₁ [0] 2 2 rfl rfl
      (by rw [hlen₁, hfresh]; simp; omega)
    have hpath : drivePath heap ntpath (slashOf n []) label = .ok ⟨4, 6, b₂⟩ := by
      simp only [drivePath, slashOf, halloc, hcopy₁, hcopy₂, bind, Except.bind, if_true]
      rfl
    exact ⟨_, hpath, rfl, hpre₂⟩
  · obtain ⟨b₂, hcopy₂, hlen₂, hpre₂⟩ := copy_prefix hpre₁ (ntpath.buffer.drop (volumeName n).length) 2
      (ntpath.length.toNat - 2 * (volumeName n).length) rest.length rfl (by omega)
      (by rw [List.length_drop, ← htail]; simp) (by rw [hlen₁, hfresh]; simp; omega)
    have hsrc : (ntpath.buffer.drop (volumeName n).length).take rest.length = rest := by
      rw [← htail, List.append_assoc, List.append_assoc, List.drop_left, List.take_left]
    rw [hsrc] at hpre₂
    have hskip : (UInt16.ofNat (2 * ((volumeName n).length - 2))).toNat =
        2 * ((volumeName n).length - 2) := UInt16.toNat_ofNat_of_lt' (by show _ < 65536; omega)
    obtain ⟨length, hlen⟩ : ∃ length, ntpath.length - UInt16.ofNat (2 * ((volumeName n).length - 2)) =
      length := ⟨_, rfl⟩
    have hend : length.toNat = 2 * (2 + rest.length) := by
      rw [← hlen, UInt16.toNat_sub_of_le _ _ (by rw [UInt16.le_iff_toNat_le]; omega), hskip]
      omega
    obtain ⟨b₃, hcopy₃, _, hpre₃⟩ := copy_whole hpre₂ [0] (length.toNat / 2) 2
      (by rw [hend]; simp; omega) rfl (by rw [hlen₂, hlen₁, hfresh]; simp; omega)
    have hpath : drivePath heap ntpath (slashOf n rest) label = .ok ⟨length, length + 2, b₃⟩ := by
      simp only [drivePath, slashOf, if_neg hnil, halloc, hcopy₁, hcopy₂, hlen, hcopy₃, bind,
        Except.bind]
      rfl
    refine ⟨_, hpath, ?_, hpre₃⟩
    rw [hend]
    simp
    omega

/-- A path whose length has wrapped is not copied. -/
theorem drivePath_wrapped (heap : Fill) {ntpath : NtString} {pos : Nat}
    (hshort : ntpath.length.toNat < 2 * pos) (label : UInt8) (s : NtString) :
    drivePath heap ntpath (some pos) label ≠ .ok s := by
  intro hpath
  simp only [drivePath, bind, Except.bind] at hpath
  split at hpath
  · cases hpath
  · split at hpath
    · cases hpath
    · split at hpath
      · cases hpath
      · next hcopy =>
        have := (copy_bounds hcopy).1
        omega

/-! ## Pipes and network shares -/

/-- What follows the device follows its other name. -/
theorem renamed_spec (heap : Fill) {device rest : List WChar} (dos : List WChar)
    (hshort : dos.length < device.length) (hdevice : 2 * device.length < 2 ^ 16)
    {ntpath : NtString} (hholds : ntpath.Holds (device ++ rest)) :
    ∃ s, renamed heap device dos ntpath = .ok s ∧ s.Holds (dos ++ rest) := by
  have hlength := hholds.length
  obtain ⟨tail, htail⟩ := hholds.isPrefix
  rw [List.length_append] at hlength
  have halloc := allocateString_eq heap
    (ntpath.length.toNat - 2 * (device.length - dos.length - 1 : Int)) (dos.length + rest.length + 1)
    (by omega)
  have hfresh := length_allocated heap (dos.length + rest.length + 1)
  obtain ⟨b₁, hcopy₁, hlen₁, hpre₁⟩ := copy_whole
    (List.nil_prefix (l := (List.range (dos.length + rest.length + 1)).map heap)) dos 0
    (2 * dos.length) rfl rfl (by rw [hfresh, List.length_nil]; omega)
  rw [List.nil_append] at hpre₁
  -- The rest is copied with its terminator.
  have hdrop : ntpath.buffer.drop device.length = rest ++ [0] ++ tail := by
    rw [← htail, List.append_assoc, List.append_assoc, List.drop_left, List.append_assoc]
  have hsrc : (ntpath.buffer.drop device.length).take (rest.length + 1) = rest ++ [0] := by
    rw [hdrop, show rest.length + 1 = (rest ++ [0]).length by simp, List.take_left]
  obtain ⟨b₂, hcopy₂, _, hpre₂⟩ := copy_prefix hpre₁ (ntpath.buffer.drop device.length) dos.length
    (ntpath.length.toNat - 2 * (device.length - 1 : Int)) (rest.length + 1) rfl (by omega)
    (by rw [hdrop]; simp) (by rw [hlen₁, hfresh]; omega)
  rw [hsrc, ← List.append_assoc] at hpre₂
  have hpath : renamed heap device dos ntpath =
      .ok ⟨UInt16.ofNat (2 * dos.length) + (ntpath.length - UInt16.ofNat (2 * device.length)),
        UInt16.ofNat (2 * dos.length) + (ntpath.length - UInt16.ofNat (2 * device.length)) + 2, b₂⟩ := by
    simp only [renamed, halloc, hcopy₁, hcopy₂, bind, Except.bind]
    rfl
  refine ⟨_, hpath, ?_, hpre₂⟩
  have hlt := ntpath.length.toNat_lt
  have hdev : (UInt16.ofNat (2 * device.length)).toNat = 2 * device.length :=
    UInt16.toNat_ofNat_of_lt' hdevice
  have hdos : (UInt16.ofNat (2 * dos.length)).toNat = 2 * dos.length :=
    UInt16.toNat_ofNat_of_lt' (by show _ < 65536; omega)
  rw [List.length_append, UInt16.toNat_add, hdos,
    UInt16.toNat_sub_of_le _ _ (by rw [UInt16.le_iff_toNat_le]; omega), hdev]
  exact (Nat.mod_eq_of_lt (by omega)).trans (by omega)

theorem ntpathToDospath_pipe (heap : Fill) (v : Volumes) (cache : DosDevices) {rest : List WChar}
    {ntpath : NtString} (hholds : ntpath.Holds (namedPipe ++ rest)) :
    ∃ s, ntpathToDospath heap v cache ntpath = some (cache, some s) ∧ s.Holds (dosPipe ++ rest) := by
  obtain ⟨s, hs, hdos⟩ := renamed_spec heap dosPipe (by decide) (by decide) hholds
  refine ⟨s, ?_, hdos⟩
  obtain ⟨tail, htail⟩ := hholds.isPrefix
  rw [ntpathToDospath, ← htail]
  show answer cache (renamed heap namedPipe dosPipe ntpath) = _
  rw [hs]
  rfl

theorem ntpathToDospath_mup (heap : Fill) (v : Volumes) (cache : DosDevices) {rest : List WChar}
    {ntpath : NtString} (hholds : ntpath.Holds (mup ++ rest)) :
    ∃ s, ntpathToDospath heap v cache ntpath = some (cache, some s) ∧ s.Holds (backslash :: rest) := by
  obtain ⟨s, hs, hdos⟩ := renamed_spec heap [backslash] (by decide) (by decide) hholds
  refine ⟨s, ?_, hdos⟩
  obtain ⟨tail, htail⟩ := hholds.isPrefix
  rw [ntpathToDospath, ← htail]
  show answer cache (renamed heap mup [backslash] ntpath) = _
  rw [hs]
  rfl

end WindowsLibc.Path
