import WindowsLibc.Fcntl.FdTable
import WindowsLibc.Lib.Block
import WindowsLibc.Path.Unc
import WindowsLibc.Spawn.CommandLine

/-!
# Paths of the kernel from any path (`internal/path.c`)

The whole of `get_absolute_ntpath2`. Some names stand for devices, some for descriptors, `/tmp` for the directory
of temporary files; what is left are paths on drives, and relative ones.

* `route` makes the comparisons in the order of the source. It depends on nothing but the path.
* What the function asks others for is a `Surroundings`.
* A path is a list of bytes without the terminator; behind its end there are zeros.
-/

namespace WindowsLibc.Path.Absolute

open WindowsLibc.Lib WindowsLibc.Fcntl
open WindowsLibc.Spawn (CString)

/-! ## Comparisons of strings -/

/-- A literal. -/
def ascii (text : List Char) : List UInt8 := text.map (fun c => UInt8.ofNat c.toNat)

/-- `strncmp(s, t, n) == 0`. -/
def same (n : Nat) (s t : List UInt8) : Bool := (s ++ [0]).take n == (t ++ [0]).take n

/-- `strnicmp(s, t, n) == 0`. -/
def sameLetters (n : Nat) (s t : List UInt8) : Bool := same n (s.map lower) (t.map lower)

/-- `isalpha`. -/
def isAlpha (c : UInt8) : Bool := 65 ≤ c && c ≤ 90 || 97 ≤ c && c ≤ 122

/-- `toupper`. -/
def upper (c : UInt8) : UInt8 := if 97 ≤ c && c ≤ 122 then c - 32 else c

def isDigit (c : UInt8) : Bool := 48 ≤ c && c ≤ 57

/-- `isspace`. -/
def isSpace (c : UInt8) : Bool := c == 32 || 9 ≤ c && c ≤ 13

/-- The number that decimal digits stand for. -/
def decimalValue (digits : List UInt8) : Nat := numeral 10 0 (digits.map (fun d => d.toNat - 48))

/-- `atoi`, which stops at the ends of `int`. -/
def atoi (s : List UInt8) : Int :=
  let s := s.dropWhile isSpace
  let magnitude : Int := decimalValue ((s.drop (if s.head? = some 45 ∨ s.head? = some 43 then 1 else 0)).takeWhile
    isDigit)
  if s.head? = some 45 then max (-2 ^ 31) (-magnitude) else min (2 ^ 31 - 1) magnitude

/-! ## Names -/

/-- Where the function takes a path. -/
inductive Route where
  | root
  /-- A name with a path of its own. -/
  | device (length : UInt16) (name : List WChar) (type : HandleType)
  | descriptor (fd : Int)
  /-- A negative descriptor. -/
  | negative
  | pipe
  | share
  | temporary
  /-- "After this point the path will be either a FILE_HANDLE or DIRECTORY_HANDLE." -/
  | file
  deriving DecidableEq

/-- A literal of `WCHAR`s. -/
def wide (text : List Char) : List WChar := text.map (fun c => UInt16.ofNat c.toNat)

def nullDevice : Route :=
  .device 24 (wide ['\\', 'D', 'e', 'v', 'i', 'c', 'e', '\\', 'N', 'u', 'l', 'l']) .null

def consoleDevice : Route :=
  .device 44 (wide ['\\', 'D', 'e', 'v', 'i', 'c', 'e', '\\', 'C', 'o', 'n', 'D', 'r', 'v', '\\',
    'C', 'o', 'n', 's', 'o', 'l', 'e']) .console

def zeroDevice : Route :=
  .device 24 (wide ['\\', 'D', 'e', 'v', 'i', 'c', 'e', '\\', 'Z', 'e', 'r', 'o']) .null

def fullDevice : Route :=
  .device 24 (wide ['\\', 'D', 'e', 'v', 'i', 'c', 'e', '\\', 'F', 'u', 'l', 'l']) .null

def randomDevice : Route :=
  .device 28 (wide ['\\', 'D', 'e', 'v', 'i', 'c', 'e', '\\', 'R', 'a', 'n', 'd', 'o', 'm']) .null

def conInDevice : Route :=
  .device 48 (wide ['\\', 'D', 'e', 'v', 'i', 'c', 'e', '\\', 'C', 'o', 'n', 'D', 'r', 'v', '\\',
    'C', 'u', 'r', 'r', 'e', 'n', 't', 'I', 'n']) .console

def conOutDevice : Route :=
  .device 50 (wide ['\\', 'D', 'e', 'v', 'i', 'c', 'e', '\\', 'C', 'o', 'n', 'D', 'r', 'v', '\\',
    'C', 'u', 'r', 'r', 'e', 'n', 't', 'O', 'u', 't']) .console

/-- `IS_ROOT_PATH`. -/
def isRootPath (path : List UInt8) : Bool :=
  path.getD 1 0 == 0 && (path.getD 0 0 == 47 || path.getD 0 0 == 92)

/-- `IS_ABSOLUTE_PATH`. -/
def isAbsolutePath (path : List UInt8) : Bool :=
  isAlpha (path.getD 0 0) && path.getD 1 0 == 58 || path.getD 0 0 == 47

/-- "POSIX devices": the comparisons of `path + 5`. -/
def posixDevice (path : List UInt8) : Option Route :=
  let name := path.drop 5
  let std := same 3 name (ascii ['s', 't', 'd'])
  if same 5 name (ascii ['n', 'u', 'l', 'l']) then some nullDevice
  else if same 4 name (ascii ['t', 't', 'y']) then some consoleDevice
  else if std && same 3 (path.drop 8) (ascii ['i', 'n']) then some (.descriptor 0)
  else if std && same 4 (path.drop 8) (ascii ['o', 'u', 't']) then some (.descriptor 1)
  else if std && same 4 (path.drop 8) (ascii ['e', 'r', 'r']) then some (.descriptor 2)
  else if same 5 name (ascii ['z', 'e', 'r', 'o']) then some zeroDevice
  else if same 5 name (ascii ['f', 'u', 'l', 'l']) then some fullDevice
  else if same 7 name (ascii ['r', 'a', 'n', 'd', 'o', 'm']) then some randomDevice
  else if same 8 name (ascii ['u', 'r', 'a', 'n', 'd', 'o', 'm']) then some randomDevice
  else if same 3 name (ascii ['f', 'd', '/']) then
    some (if atoi (path.drop 8) < 0 then .negative else .descriptor (atoi (path.drop 8)))
  else none

/-- "DOS devices". -/
def dosDevice (path : List UInt8) : Option Route :=
  if path.map lower == ascii ['n', 'u', 'l'] then some nullDevice
  else if sameLetters 3 path (ascii ['C', 'O', 'N']) then
    if path.getD 3 0 == 0 then some consoleDevice
    else if sameLetters 4 (path.drop 3) (ascii ['I', 'N', '$']) then some conInDevice
    else if sameLetters 5 (path.drop 3) (ascii ['O', 'U', 'T', '$']) then some conOutDevice
    else none
  else none

/-- The comparisons of `get_absolute_ntpath2`, in their order. -/
def route (path : List UInt8) : Route :=
  if isRootPath path then .root
  else
    match if same 5 path (ascii ['/', 'd', 'e', 'v', '/']) then posixDevice path else none with
    | some r => r
    | none =>
      match dosDevice path with
      | some r => r
      | none =>
        if isPipe path then .pipe
        else if path.getD 0 0 == 92 && path.getD 1 0 == 92 || path.getD 0 0 == 47 && path.getD 1 0 == 47 then
          .share
        else if sameLetters 4 path (ascii ['/', 't', 'm', 'p']) then .temporary
        else .file

/-! ## The function -/

inductive Failure where
  | ENOENT
  | EBADF
  /-- The path cannot be converted. -/
  | notConverted
  deriving DecidableEq, Repr

/-- `CurrentDirectory.DosPath`: "Eg "C:\Windows\"", and "DosPath always has a trailing slash". -/
structure CurrentDirectory where
  letter : UInt8
  below : List WChar
  no_zero : 0 ∉ below
  begins : below.head? = some backslash
  ends : below.getLast? = some backslash
  length : 2 * (below.length + 2) < 2 ^ 16

def CurrentDirectory.units (d : CurrentDirectory) : List WChar := d.letter.toUInt16 :: 58 :: d.below

/-- A path below a device, as the kernel returns it. -/
structure KernelPath extends Buffer where
  named : name ≠ []
  string : NtString
  holds : string.Holds (toBuffer.device ++ below)

/-- What the function asks others for. -/
structure Surroundings where
  /-- What the heap has in new allocations. -/
  heap : Fill
  entries : Nat → PathComponent
  /-- `path_components_size` has been doubled so many times. -/
  doublings : Nat
  volumes : Volumes
  inverse : volumes.Inverse
  devices : Devices
  coherent : DevicesCoherent volumes devices
  cwd : CurrentDirectory
  cwd_drive : 65 ≤ cwd.letter ∧ cwd.letter ≤ 90 ∧ volumes.symbolicLink cwd.letter ≠ none
  /-- `wlibc_tmpdir`. -/
  tmpdir : Option CString
  /-- `get_fdinfo` and `get_fd_ntpath_internal`, of which the second fails if the first finds `INVALID_HANDLE`. -/
  descriptors : Int → Option (HandleType × KernelPath)

/-- `AT_FDCWD`. -/
def atFdcwd : Int := 0x1000000

/-- What is returned, and `*type` where it is set; or NULL. -/
abbrev Outcome := Except Failure (NtString × Option HandleType)

namespace Surroundings

variable (env : Surroundings)

/-- `dos_device_to_nt_device`. -/
def ntDevice (volume : UInt8) : Option NtDevice := (dosDeviceToNtDevice env.volumes env.devices volume).2

/-- The device of the current directory: "No need to check return value here". -/
def cwdDevice : Except Stop NtDevice :=
  match env.ntDevice env.cwd.letter with
  | none => .error .fault
  | some device => .ok device

/-- "We should be able to stat root as many programs need this." -/
def rootNtpath : Except Stop NtString := do
  let device ← env.cwdDevice
  let buffer ← allocateString env.heap (device.length.toNat + 4)
  let buffer ← copy buffer 0 device.name device.length.toNat
  let buffer ← copy buffer (device.length.toNat / 2) [backslash, 0] 4
  return ⟨device.length + 2, device.length + 4, buffer⟩

/-- What a descriptor is open on. -/
def descriptorNtpath (fd : Int) : Outcome :=
  match env.descriptors fd with
  | none => .error .ENOENT
  | some (type, path) => .ok (path.string, some type)

/-- `required_size` for the replacement of `/tmp`. -/
def temporarySize (tmp path : List UInt8) : UInt16 := UInt16.ofNat (tmp.length + path.length - 4 + 1)

/-- The path with the directory of temporary files for `/tmp`. -/
def temporaryPath (tmp path : List UInt8) : Except Stop (List UInt8) :=
  let buffer := List.replicate (temporarySize tmp path).toNat (0 : UInt8)
  match (poke buffer 0 tmp).bind (fun buffer => poke buffer tmp.length (path.drop 4 ++ [0])) with
  | none => .error .fault
  | some buffer => .ok (buffer.takeWhile (· ≠ 0))

/-- `u16_rootdir`, and `rootdir_has_trailing_slash`. -/
structure RootDirectory where
  length : UInt16
  buffer : List WChar
  trailingSlash : Bool

/-- The assignment of an `int` to a `short`. -/
def toShort (n : Int) : Int := (n + 2 ^ 15) % 2 ^ 16 - 2 ^ 15

/-- The current directory on its device, in a buffer of 1024 bytes. -/
def cwdRoot : Except Stop RootDirectory := do
  let cwdLength := toShort (2 * env.cwd.units.length - 4)
  let buffer ← allocateString env.heap 1024
  let device ← env.cwdDevice
  let buffer ← copy buffer 0 device.name device.length.toNat
  let buffer ← copy buffer (device.length.toNat / 2) (env.cwd.units.drop 2) cwdLength
  return ⟨device.length + UInt16.ofInt cwdLength, buffer, true⟩

/-- The path of `dirfd`. -/
def fdRoot (dirfd : Int) : Except Stop (Except Failure RootDirectory) :=
  match env.descriptors dirfd with
  | none => .ok (.error .EBADF)
  | some (_, path) =>
    match path.string.buffer[path.string.length.toNat / 2 - 1]? with
    | none => .error .fault
    | some last => .ok (.ok ⟨path.string.length, path.string.buffer, last == backslash⟩)

/-- The path in UTF-16, with backslashes. -/
def convertPath (path : List UInt8) : Option (List WChar) :=
  match rtlUtf8ToUnicode (path.take 0xFFFE) with
  | none => none
  | some units => if 0xFFFF < 2 * units.length + 2 then none else some (backslashed units)

/-- `u16_path.MaximumLength`. -/
def maximumLength (units : List WChar) : UInt16 := UInt16.ofNat (2 * units.length + 2)

/-- `required_size` for a relative path. -/
def relativeSize (root : RootDirectory) (units : List WChar) : UInt16 := maximumLength units + (root.length + 2)

/-- `required_size` for an absolute path. -/
def absoluteSize (units : List WChar) : UInt16 := maximumLength units + 54

/-- From `path_coalesce` on. -/
def finish (required : UInt16) (buffer : List WChar) : Except Stop NtString := do
  let s ← coalesce (some env.entries) (16 * 2 ^ env.doublings) buffer
  let text := assemble (s.texts buffer)
  let ntpath ← allocateString env.heap required.toNat
  let ntpath ← copy ntpath 0 (text ++ [0]) (2 * text.length + 2)
  return ⟨UInt16.ofNat (2 * text.length), required, ntpath⟩

/-- The separator behind the directory. -/
def RootDirectory.addSlash (root : RootDirectory) (buffer : List WChar) : Except Stop (List WChar) :=
  if root.trailingSlash then .ok buffer else copy buffer (root.length.toNat / 2) [backslash] 2

/-- `u16_rootdir.Length`, with the separator. -/
def RootDirectory.lengthWithSlash (root : RootDirectory) : UInt16 :=
  if root.trailingSlash then root.length else root.length + 2

/-- A path in a directory. -/
def relativeNtpath (root : RootDirectory) (units : List WChar) : Except Stop NtString := do
  let required := relativeSize root units
  let buffer ← allocateString env.heap required.toNat
  let buffer ← copy buffer 0 root.buffer root.length.toNat
  let buffer ← root.addSlash buffer
  let length := root.lengthWithSlash.toNat
  let buffer ← copy buffer (length / 2) (units ++ [0]) (maximumLength units).toNat
  env.finish required (buffer.take (length / 2 + units.length + 1))

/-- A path on a drive. -/
def absoluteNtpath (volume : UInt8) (units : List WChar) : Except Stop Outcome :=
  let required := absoluteSize units
  match env.ntDevice volume with
  | none => .ok (.error .ENOENT)
  | some device => do
    let buffer ← allocateString env.heap required.toNat
    let buffer ← copy buffer 0 device.name device.length.toNat
    let buffer ← copy buffer (device.length.toNat / 2) ((units ++ [0]).drop 2) ((maximumLength units).toNat - 4)
    let ntpath ← env.finish required (buffer.take (device.length.toNat / 2 + units.length - 1))
    return .ok (ntpath, some .file)

/-- Where a relative path begins. -/
def rootDirectory (dirfd : Int) : Except Stop (Except Failure RootDirectory) :=
  if dirfd = atFdcwd then env.cwdRoot.map .ok else env.fdRoot dirfd

/-- "/abcd (Bad path)." -/
def isBadPath (path : List UInt8) : Bool :=
  path.getD 0 0 == 47 && !(isAlpha (path.getD 1 0) && (path.getD 2 0 == 47 || path.getD 2 0 == 0))

/-- The letter of the drive, behind the slash of a `cygwin_path`. -/
def driveOf (path : List UInt8) : UInt8 := upper (if path.getD 0 0 == 47 then path.getD 1 0 else path.getD 0 0)

/-- Paths on drives, and relative ones. -/
def fileNtpath (dirfd : Int) (path : List UInt8) : Except Stop Outcome :=
  if isAbsolutePath path then
    if isBadPath path then .ok (.error .ENOENT)
    else
      match convertPath path with
      | none => .ok (.error .notConverted)
      | some units => env.absoluteNtpath (driveOf path) units
  else do
    match ← env.rootDirectory dirfd with
    | .error failure => .ok (.error failure)
    | .ok root =>
      match convertPath path with
      | none => .ok (.error .notConverted)
      | some units => do
        let ntpath ← env.relativeNtpath root units
        return .ok (ntpath, some .file)

/-- `get_absolute_ntpath2`. -/
def getAbsoluteNtpath2 (dirfd : Int) (path : List UInt8) : Except Stop Outcome :=
  match route path with
  | .root => do
    let ntpath ← env.rootNtpath
    return .ok (ntpath, none)
  | .device length name type => .ok (.ok (⟨length, length, name ++ [0]⟩, some type))
  | .descriptor fd => .ok (env.descriptorNtpath fd)
  | .negative => .ok (.error .ENOENT)
  | .pipe => do
    match ← pipeNtpath env.heap path with
    | none => .ok (.error .notConverted)
    | some ntpath => .ok (.ok (ntpath, some .pipe))
  | .share => do
    match ← shareNtpath env.heap env.entries (16 * 2 ^ env.doublings) path with
    | none => .ok (.error .notConverted)
    | some ntpath => .ok (.ok (ntpath, some .file))
  | .temporary =>
    match env.tmpdir with
    | none => .ok (.error .ENOENT)
    | some tmp => do
      let path ← temporaryPath tmp.bytes path
      env.fileNtpath dirfd path
  | .file => env.fileNtpath dirfd path

end Surroundings

end WindowsLibc.Path.Absolute
