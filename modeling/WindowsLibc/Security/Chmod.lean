import Mathlib.Data.List.Basic
import Mathlib.Logic.Function.Basic
import WindowsLibc.Lib.Machine

/-!
# Permissions of files (`internal/security.c`, `sys/stat/chmod.c`, `sys/stat/stat.c`)

The permission bits of a file are kept as an access control list, with entries for the system, the administrators,
the user, the users and everyone. The descriptors are made once and kept in a table, for each of the 512 modes and
for files and directories.

* `createSecurityDescriptor` has the space for what it adds: no entry is dropped.
* `Process.Exact`: what the table has for a mode is what would be made for it.
* `stat_permissions`: behind any run of `chmod`, `mkdir` and `open` on any files, `stat` tells the mode that was set
  last.
-/

namespace WindowsLibc.Security

open WindowsLibc.Lib

/-! ## Access masks -/

abbrev AccessMask := BitVec 32

/-- `mode_t` -/
abbrev Mode := BitVec 32

def fileReadData : AccessMask := 0x1#32
def fileWriteData : AccessMask := 0x2#32
def fileAppendData : AccessMask := 0x4#32
def fileReadEa : AccessMask := 0x8#32
def fileWriteEa : AccessMask := 0x10#32
def fileExecute : AccessMask := 0x20#32
def fileDeleteChild : AccessMask := 0x40#32
def fileReadAttributes : AccessMask := 0x80#32
def fileWriteAttributes : AccessMask := 0x100#32
def delete : AccessMask := 0x10000#32
def readControl : AccessMask := 0x20000#32
def writeDac : AccessMask := 0x40000#32
def writeOwner : AccessMask := 0x80000#32
def synchronize : AccessMask := 0x100000#32

def acceptableReadPermissions : AccessMask := fileReadData ||| fileReadEa
def acceptableWritePermissions : AccessMask := fileWriteData ||| fileAppendData ||| fileWriteEa
def acceptableExecutePermissions : AccessMask := fileExecute

def basicPermissions : AccessMask :=
  fileReadAttributes ||| fileWriteAttributes ||| readControl ||| synchronize ||| delete
def readPermissions : AccessMask := fileReadData ||| fileReadEa ||| basicPermissions
def writePermissions : AccessMask :=
  fileWriteData ||| fileAppendData ||| fileWriteEa ||| fileDeleteChild ||| basicPermissions
def executePermissions : AccessMask := fileExecute ||| basicPermissions
def extraPermissions : AccessMask := writeDac ||| writeOwner
def allPermissions : AccessMask :=
  readPermissions ||| writePermissions ||| executePermissions ||| extraPermissions

def determineAccessMask (mode : Mode) : AccessMask :=
  let access : AccessMask := 0
  let access := if mode &&& 0o1#32 ≠ 0 then access ||| executePermissions else access
  let access := if mode &&& 0o2#32 ≠ 0 then access ||| writePermissions else access
  let access := if mode &&& 0o4#32 ≠ 0 then access ||| readPermissions else access
  access

/-- With `S_IREAD`, `S_IWRITE` and `S_IEXEC`, the bits of the user. -/
def getPermissions (access : AccessMask) : Mode :=
  let perms : Mode := 0
  let perms := if access &&& acceptableReadPermissions = acceptableReadPermissions then perms ||| 0o400#32 else perms
  let perms := if access &&& acceptableWritePermissions = acceptableWritePermissions then perms ||| 0o200#32 else perms
  let perms :=
    if access &&& acceptableExecutePermissions = acceptableExecutePermissions then perms ||| 0o100#32 else perms
  perms

/-! ## Lists of entries -/

/-- A security identifier. -/
structure Sid where
  authority : Nat
  subAuthority : List (BitVec 32)
  /-- `SID_MAX_SUB_AUTHORITIES` -/
  count_le : subAuthority.length ≤ 15
deriving DecidableEq

def Sid.size (sid : Sid) : Nat := 8 + 4 * sid.subAuthority.length

/-- The last sub-authority, if there is one. -/
def Sid.id (sid : Sid) : BitVec 32 := sid.subAuthority.getLastD 0

def ntsystemSid : Sid := ⟨5, [18#32], by decide⟩
def adminstratorsSid : Sid := ⟨5, [32#32, 544#32], by decide⟩
def usersSid : Sid := ⟨5, [32#32, 545#32], by decide⟩
def everyoneSid : Sid := ⟨1, [0#32], by decide⟩

inductive AceType where
  /-- `ACCESS_ALLOWED_ACE_TYPE` -/
  | allowed
  /-- `ACCESS_DENIED_ACE_TYPE` -/
  | denied
  | other
deriving DecidableEq

structure Ace where
  aceType : AceType
  /-- `OBJECT_INHERIT_ACE | CONTAINER_INHERIT_ACE` -/
  inherited : Bool
  mask : AccessMask
  sid : Sid

def Ace.size (ace : Ace) : Nat := 8 + ace.sid.size

/-- An access control list in an allocation of `size` bytes. -/
structure Acl where
  size : Nat
  aces : List Ace

def Acl.used (acl : Acl) : Nat := 8 + (acl.aces.map Ace.size).sum

/-- `RtlAddAccessAllowedAceEx`. There may be no space; the callers do not look at its status. -/
def Acl.addAccessAllowed (acl : Acl) (inherited : Bool) (mask : AccessMask) (sid : Sid) : Acl :=
  let ace : Ace := ⟨.allowed, inherited, mask, sid⟩
  if acl.used + ace.size ≤ acl.size then { acl with aces := acl.aces ++ [ace] } else acl

/-! ## Descriptors -/

structure User where
  sid : Sid
  elevated : Bool

/-- `current_uid` -/
def User.uid (user : User) : BitVec 32 := if user.elevated then 0 else user.sid.id

def addUser (user : User) (mode : Mode) (isDirectory : Bool) (acl : Acl) : Acl :=
  if user.uid ≠ 0 then
    acl.addAccessAllowed isDirectory
      (determineAccessMask ((mode &&& 0o700#32) >>> 6) ||| extraPermissions ||| basicPermissions) user.sid
  else acl

def addUsers (mode : Mode) (isDirectory : Bool) (acl : Acl) : Acl :=
  if mode &&& 0o70#32 ≠ 0 then
    acl.addAccessAllowed isDirectory (determineAccessMask ((mode &&& 0o70#32) >>> 3)) usersSid
  else acl

def addEveryone (mode : Mode) (isDirectory : Bool) (acl : Acl) : Acl :=
  if mode &&& 0o7#32 ≠ 0 then acl.addAccessAllowed isDirectory (determineAccessMask (mode &&& 0o7#32)) everyoneSid
  else acl

/-- `create_security_descriptor`: the list behind the 20 bytes of the descriptor, in an allocation of 256. -/
def createSecurityDescriptor (user : User) (mode : Mode) (isDirectory : Bool) : Acl :=
  let acl : Acl := ⟨256 - 20, []⟩
  let acl := acl.addAccessAllowed isDirectory allPermissions ntsystemSid
  let acl := acl.addAccessAllowed isDirectory allPermissions adminstratorsSid
  let acl := addUser user mode isDirectory acl
  let acl := addUsers mode isDirectory acl
  addEveryone mode isDirectory acl

/-- The place in `all_security_descriptors`. -/
def cacheIndex (mode : Mode) (isDirectory : Bool) : BitVec 32 :=
  (mode &&& 511#32) ||| (if isDirectory then 512#32 else 0#32)

abbrev Cache := BitVec 32 → Option Acl

/-- `get_security_descriptor`; `none` if there is no memory for a new one. -/
def getSecurityDescriptor (user : User) (cache : Cache) (mode : Mode) (isDirectory allocated : Bool) :
    Option (Acl × Cache) :=
  match cache (cacheIndex mode isDirectory) with
  | some acl => some (acl, cache)
  | none =>
    if allocated then
      let acl := createSecurityDescriptor user mode isDirectory
      some (acl, Function.update cache (cacheIndex mode isDirectory) (some acl))
    else none

/-! ## `stat` -/

structure File where
  attributes : BitVec 32
  reparseTag : BitVec 32
  owner : Sid
  group : Sid
  dacl : Acl

def File.isDirectory (file : File) : Bool := file.attributes &&& 0x10#32 ≠ 0

/-- What the loop over the entries keeps. -/
structure Access where
  allowed : Mode
  denied : Mode
  userAcePresent : Bool

/-- An entry of the list. It is read for the user, the users or everyone; others are ignored. -/
def Access.read (user : User) (access : Access) (ace : Ace) : Access :=
  match ace.aceType with
  | .allowed =>
    if ace.sid = user.sid then
      { access with userAcePresent := true, allowed := access.allowed ||| getPermissions ace.mask }
    else if ace.sid = usersSid then { access with allowed := access.allowed ||| getPermissions ace.mask >>> 3 }
    else if ace.sid = everyoneSid then { access with allowed := access.allowed ||| getPermissions ace.mask >>> 6 }
    else access
  | .denied =>
    if ace.sid = user.sid then
      { access with userAcePresent := true, denied := access.denied ||| getPermissions ace.mask }
    else if ace.sid = usersSid then { access with denied := access.denied ||| getPermissions ace.mask >>> 3 }
    else if ace.sid = everyoneSid then { access with denied := access.denied ||| getPermissions ace.mask >>> 6 }
    else access
  | .other => access

/-- The permission bits. `EffectiveAccess` stands in for the user if the list has no entry for him. -/
def permissions (user : User) (acl : Acl) (effectiveAccess : AccessMask) : Mode :=
  let access := acl.aces.foldl (Access.read user) ⟨0#32, 0#32, false⟩
  let allowed := if !access.userAcePresent then access.allowed ||| getPermissions effectiveAccess else access.allowed
  allowed &&& ~~~access.denied

/-- The attributes that a regular file may have. -/
def regularAttributes : BitVec 32 :=
  0x1#32 ||| 0x2#32 ||| 0x4#32 ||| 0x20#32 ||| 0x80#32 ||| 0x100#32 ||| 0x200#32 ||| 0x800#32 ||| 0x2000#32 |||
    0x4000#32

/-- The bits of `S_IFMT`. -/
def fileType (file : File) : Mode :=
  if file.attributes &&& 0x400#32 ≠ 0 then
    (if file.reparseTag = 0xA000000C#32 ∨ file.reparseTag = 0xA0000003#32 then 0xA000#32 else 0) |||
      (if file.reparseTag = 0x80000023#32 then 0xC000#32 else 0)
  else if file.isDirectory then 0x4000#32
  else if file.attributes &&& ~~~regularAttributes = 0 then 0x8000#32
  else 0

structure Stat where
  mode : Mode
  uid : BitVec 32
  gid : BitVec 32

/-- The system and the administrators are root. -/
def idOf (sid : Sid) : BitVec 32 := if sid = adminstratorsSid ∨ sid = ntsystemSid then 0 else sid.id

/-- The size of a descriptor with owner, group and list. -/
def File.descriptorSize (file : File) : Nat := 20 + file.owner.size + file.group.size + file.dacl.size

/-- `do_stat` of a file on a disk; `none` if the descriptor does not go into `security_buffer`. -/
def doStat (user : User) (file : File) (effectiveAccess : AccessMask) : Option Stat :=
  if file.descriptorSize ≤ 512 then
    some ⟨permissions user file.dacl effectiveAccess ||| fileType file, idOf file.owner, idOf file.group⟩
  else none

/-! ## Changing permissions -/

structure System where
  cache : Cache
  files : Nat → Option File

/-- Which calls of the system succeed: the query for the attributes, the allocation, and the last one. -/
structure Answers where
  queried : Bool
  allocated : Bool
  granted : Bool

inductive Move where
  | chmod (f : Nat) (mode : Mode) (answers : Answers)
  /-- `mkdir`. A list that is not given is the system's. -/
  | mkdir (f : Nat) (mode : Mode) (answers : Answers) (file : File)
  /-- `open` with `O_CREAT`, of a file that does not exist. -/
  | create (f : Nat) (mode : Mode) (answers : Answers) (file : File)

/-- 0, or -1 with `errno`. -/
inductive Outcome where
  | ok
  | einval
  | enomem
  /-- What `map_ntstatus_to_errno` says. -/
  | status
deriving DecidableEq

/-- `do_chmod` -/
def doChmod (user : User) (s : System) (f : Nat) (file : File) (mode : Mode) (answers : Answers) : System × Outcome :=
  let isDirectory := if answers.queried then file.isDirectory else false
  match getSecurityDescriptor user s.cache mode isDirectory answers.allocated with
  | none => (s, .enomem)
  | some (acl, cache) =>
    if answers.granted then
      ({ cache := cache, files := Function.update s.files f (some { file with dacl := acl }) }, .ok)
    else ({ s with cache := cache }, .status)

/-- A file is created with the descriptor of a mode, or without one if there is no memory for it. -/
def createWith (user : User) (s : System) (f : Nat) (file : File) (mode : Mode) (isDirectory : Bool)
    (answers : Answers) : System × Outcome :=
  let made : File × Cache :=
    match getSecurityDescriptor user s.cache (mode &&& 0o777#32) isDirectory answers.allocated with
    | none => (file, s.cache)
    | some (acl, cache) => ({ file with dacl := acl }, cache)
  if answers.granted ∧ s.files f = none then
    ({ cache := made.2, files := Function.update s.files f (some made.1) }, .ok)
  else ({ s with cache := made.2 }, .status)

def step (user : User) (s : System) : Move → Option (System × Outcome)
  | .chmod f mode answers =>
    match s.files f with
    | none => some (s, .status)
    | some file => some (doChmod user s f file mode answers)
  | .mkdir f mode answers file =>
    if (0o777#32).slt mode then some (s, .einval) else some (createWith user s f file mode true answers)
  | .create f mode answers file => some (createWith user s f file mode false answers)

def machine (user : User) : Machine System Move Outcome := ⟨step user⟩

def init (files : Nat → Option File) : System := ⟨fun _ => none, files⟩

/-! ## The list that is made -/

variable {user : User}

/-- The user is none of those that the list has entries for otherwise. -/
structure User.Ordinary (user : User) : Prop where
  ntsystem : ntsystemSid ≠ user.sid
  adminstrators : adminstratorsSid ≠ user.sid
  users : usersSid ≠ user.sid
  everyone : everyoneSid ≠ user.sid

/-- A list of so many bytes has these entries and uses at most so many bytes. -/
structure Acl.Holds (acl : Acl) (used : Nat) (aces : List Ace) : Prop where
  size : acl.size = 236
  aces : acl.aces = aces
  used : acl.used ≤ used

theorem Acl.Holds.add {acl : Acl} {used : Nat} {aces : List Ace} (h : acl.Holds used aces) (inherited : Bool)
    (mask : AccessMask) (sid : Sid) {size : Nat} (hsid : sid.size ≤ size) (hfits : used + 8 + size ≤ 236) :
    (acl.addAccessAllowed inherited mask sid).Holds (used + 8 + size) (aces ++ [⟨.allowed, inherited, mask, sid⟩]) := by
  have hused := h.used
  have hspace : acl.used + (8 + sid.size) ≤ acl.size := by
    rw [h.size]
    omega
  rw [Acl.addAccessAllowed, Ace.size, if_pos hspace]
  refine ⟨h.size, ?_, ?_⟩
  · rw [h.aces]
  · have hmore : (8 + ((acl.aces ++ [(⟨.allowed, inherited, mask, sid⟩ : Ace)]).map Ace.size).sum) =
        acl.used + (8 + sid.size) := by
      rw [List.map_append, List.sum_append, Acl.used]
      simp [Ace.size]
      omega
    rw [Acl.used, hmore]
    omega

theorem Sid.size_le (sid : Sid) : sid.size ≤ 68 := by
  have hle := sid.count_le
  rw [Sid.size]
  omega

theorem Acl.Holds.addIf {acl : Acl} {used : Nat} {aces : List Ace} (h : acl.Holds used aces) (c : Prop) [Decidable c]
    (inherited : Bool) (mask : AccessMask) (sid : Sid) {size : Nat} (hsid : sid.size ≤ size)
    (hfits : used + 8 + size ≤ 236) :
    (if c then acl.addAccessAllowed inherited mask sid else acl).Holds (used + 8 + size)
      (aces ++ if c then [⟨.allowed, inherited, mask, sid⟩] else []) := by
  by_cases hc : c
  · rw [if_pos hc, if_pos hc]
    exact h.add inherited mask sid hsid hfits
  · rw [if_neg hc, if_neg hc, List.append_nil]
    have hused := h.used
    exact ⟨h.size, h.aces, by omega⟩

/-- The entries that are asked for. -/
def entries (user : User) (mode : Mode) (isDirectory : Bool) : List Ace :=
  [⟨.allowed, isDirectory, allPermissions, ntsystemSid⟩] ++
    [⟨.allowed, isDirectory, allPermissions, adminstratorsSid⟩] ++
    (if user.uid ≠ 0 then
      [⟨.allowed, isDirectory,
        determineAccessMask ((mode &&& 0o700#32) >>> 6) ||| extraPermissions ||| basicPermissions, user.sid⟩]
      else []) ++
    (if mode &&& 0o70#32 ≠ 0 then
      [⟨.allowed, isDirectory, determineAccessMask ((mode &&& 0o70#32) >>> 3), usersSid⟩] else []) ++
    (if mode &&& 0o7#32 ≠ 0 then
      [⟨.allowed, isDirectory, determineAccessMask (mode &&& 0o7#32), everyoneSid⟩] else [])

/-- No entry is dropped. -/
theorem createSecurityDescriptor_holds (user : User) (mode : Mode) (isDirectory : Bool) :
    (createSecurityDescriptor user mode isDirectory).Holds 172 (entries user mode isDirectory) := by
  have hempty : (⟨236, []⟩ : Acl).Holds 8 [] := ⟨rfl, rfl, Nat.le_refl 8⟩
  have hsystem := hempty.add isDirectory allPermissions ntsystemSid (show ntsystemSid.size ≤ 12 by decide) (by omega)
  have hadmins := hsystem.add isDirectory allPermissions adminstratorsSid
    (show adminstratorsSid.size ≤ 16 by decide) (by omega)
  have huser := hadmins.addIf (user.uid ≠ 0) isDirectory
    (determineAccessMask ((mode &&& 0o700#32) >>> 6) ||| extraPermissions ||| basicPermissions) user.sid
    user.sid.size_le (by omega)
  have husers := huser.addIf (mode &&& 0o70#32 ≠ 0) isDirectory (determineAccessMask ((mode &&& 0o70#32) >>> 3))
    usersSid (show usersSid.size ≤ 16 by decide) (by omega)
  exact husers.addIf (mode &&& 0o7#32 ≠ 0) isDirectory (determineAccessMask (mode &&& 0o7#32)) everyoneSid
    (show everyoneSid.size ≤ 12 by decide) (by omega)

/-! ## The bits of a mode -/

/-- What `stat` makes of the entries for the users and for everyone. -/
def groupBits (mode : Mode) : Mode :=
  (if mode &&& 0o70#32 ≠ 0 then getPermissions (determineAccessMask ((mode &&& 0o70#32) >>> 3)) >>> 3 else 0) |||
    (if mode &&& 0o7#32 ≠ 0 then getPermissions (determineAccessMask (mode &&& 0o7#32)) >>> 6 else 0)

/-- What `stat` makes of the entry for the user. -/
def userBits (mode : Mode) : Mode :=
  getPermissions (determineAccessMask ((mode &&& 0o700#32) >>> 6) ||| extraPermissions ||| basicPermissions)

theorem userBits_lt : ∀ n < 512, userBits (BitVec.ofNat 32 n) = BitVec.ofNat 32 n &&& 0o700#32 := by decide +kernel

theorem groupBits_lt : ∀ n < 512, groupBits (BitVec.ofNat 32 n) = BitVec.ofNat 32 n &&& 0o77#32 := by decide +kernel

/-- Only the low nine bits of a mode are looked at. -/
theorem and_of_low {mask : BitVec 32} (hmask : 511#32 &&& mask = mask) (mode : Mode) :
    (mode &&& 511#32) &&& mask = mode &&& mask := by
  rw [BitVec.and_assoc, hmask]

theorem low_eq_ofNat (mode : Mode) : ∃ n < 512, mode &&& 511#32 = BitVec.ofNat 32 n := by
  refine ⟨(mode &&& 511#32).toNat, ?_, ?_⟩
  · rw [BitVec.toNat_and]
    exact Nat.lt_of_le_of_lt Nat.and_le_right (by decide)
  · rw [BitVec.ofNat_toNat, BitVec.setWidth_eq]

theorem userBits_eq (mode : Mode) : userBits mode = mode &&& 0o700#32 := by
  obtain ⟨n, hn, hmode⟩ := low_eq_ofNat mode
  have hlow : userBits mode = userBits (mode &&& 511#32) := by
    rw [userBits, userBits, and_of_low (by decide)]
  rw [hlow, hmode, userBits_lt n hn, ← hmode, and_of_low (by decide)]

theorem groupBits_eq (mode : Mode) : groupBits mode = mode &&& 0o77#32 := by
  obtain ⟨n, hn, hmode⟩ := low_eq_ofNat mode
  have hlow : groupBits mode = groupBits (mode &&& 511#32) := by
    rw [groupBits, groupBits, and_of_low (by decide), and_of_low (by decide)]
  rw [hlow, hmode, groupBits_lt n hn, ← hmode, and_of_low (by decide)]

theorem Access.read_ignored (access : Access) (inherited : Bool) (mask : AccessMask) {sid : Sid} (hne : sid ≠ user.sid)
    (husers : sid ≠ usersSid) (heveryone : sid ≠ everyoneSid) :
    access.read user ⟨.allowed, inherited, mask, sid⟩ = access := by
  simp only [Access.read, if_neg hne, if_neg husers, if_neg heveryone]

theorem Access.read_user (access : Access) (inherited : Bool) (mask : AccessMask) :
    access.read user ⟨.allowed, inherited, mask, user.sid⟩ =
      { access with userAcePresent := true, allowed := access.allowed ||| getPermissions mask } := by
  simp only [Access.read, if_true]

theorem Access.read_users (h : user.Ordinary) (access : Access) (inherited : Bool) (mask : AccessMask) :
    access.read user ⟨.allowed, inherited, mask, usersSid⟩ =
      { access with allowed := access.allowed ||| getPermissions mask >>> 3 } := by
  simp only [Access.read, if_neg h.users, if_true]

theorem Access.read_everyone (h : user.Ordinary) (access : Access) (inherited : Bool) (mask : AccessMask) :
    access.read user ⟨.allowed, inherited, mask, everyoneSid⟩ =
      { access with allowed := access.allowed ||| getPermissions mask >>> 6 } := by
  have hne : everyoneSid ≠ usersSid := by decide
  simp only [Access.read, if_neg h.everyone, if_neg hne, if_true]

/-- The entries for the users and for everyone. -/
def groupEntries (mode : Mode) (isDirectory : Bool) : List Ace :=
  (if mode &&& 0o70#32 ≠ 0 then
    [⟨.allowed, isDirectory, determineAccessMask ((mode &&& 0o70#32) >>> 3), usersSid⟩] else []) ++
  (if mode &&& 0o7#32 ≠ 0 then
    [⟨.allowed, isDirectory, determineAccessMask (mode &&& 0o7#32), everyoneSid⟩] else [])

theorem foldl_groupEntries (h : user.Ordinary) (mode : Mode) (isDirectory : Bool) (allowed : Mode) (present : Bool) :
    (groupEntries mode isDirectory).foldl (Access.read user) ⟨allowed, 0#32, present⟩ =
      ⟨allowed ||| (mode &&& 0o77#32), 0#32, present⟩ := by
  rw [← groupBits_eq, groupBits, groupEntries, List.foldl_append]
  by_cases husers : mode &&& 0o70#32 ≠ 0
  · rw [if_pos husers, if_pos husers, List.foldl_cons, List.foldl_nil, Access.read_users h]
    by_cases heveryone : mode &&& 0o7#32 ≠ 0
    · rw [if_pos heveryone, if_pos heveryone, List.foldl_cons, List.foldl_nil, Access.read_everyone h]
      simp only [BitVec.or_assoc]
    · rw [if_neg heveryone, if_neg heveryone, List.foldl_nil]
      simp
  · rw [if_neg husers, if_neg husers, List.foldl_nil]
    by_cases heveryone : mode &&& 0o7#32 ≠ 0
    · rw [if_pos heveryone, if_pos heveryone, List.foldl_cons, List.foldl_nil, Access.read_everyone h]
      simp
    · rw [if_neg heveryone, if_neg heveryone, List.foldl_nil]
      simp

/-- What the loop makes of a list that was made for a mode. -/
theorem foldl_entries (h : user.Ordinary) (mode : Mode) (isDirectory : Bool) :
    (entries user mode isDirectory).foldl (Access.read user) ⟨0#32, 0#32, false⟩ =
      if user.uid ≠ 0 then ⟨mode &&& 0o777#32, 0#32, true⟩ else ⟨mode &&& 0o77#32, 0#32, false⟩ := by
  have hroot : ([⟨.allowed, isDirectory, allPermissions, ntsystemSid⟩] ++
      [⟨.allowed, isDirectory, allPermissions, adminstratorsSid⟩] : List Ace).foldl (Access.read user)
        ⟨0#32, 0#32, false⟩ = ⟨0#32, 0#32, false⟩ := by
    rw [List.singleton_append, List.foldl_cons, Access.read_ignored _ _ _ h.ntsystem (by decide) (by decide),
      List.foldl_cons, List.foldl_nil, Access.read_ignored _ _ _ h.adminstrators (by decide) (by decide)]
  have hentries : (entries user mode isDirectory).foldl (Access.read user) ⟨0#32, 0#32, false⟩ =
      (groupEntries mode isDirectory).foldl (Access.read user)
        ((if user.uid ≠ 0 then
          [⟨.allowed, isDirectory,
            determineAccessMask ((mode &&& 0o700#32) >>> 6) ||| extraPermissions ||| basicPermissions, user.sid⟩]
          else []).foldl (Access.read user) ⟨0#32, 0#32, false⟩) := by
    rw [entries, List.append_assoc, ← groupEntries, List.foldl_append, List.foldl_append, hroot]
  rw [hentries]
  by_cases huid : user.uid ≠ 0
  · rw [if_pos huid, if_pos huid, List.foldl_cons, List.foldl_nil, Access.read_user, foldl_groupEntries h, ← userBits,
      userBits_eq]
    have hbits : 0#32 ||| (mode &&& 0o700#32) ||| (mode &&& 0o77#32) = mode &&& 0o777#32 := by
      rw [BitVec.zero_or, ← BitVec.and_or_distrib_left]
      rfl
    rw [hbits]
  · rw [if_neg huid, if_neg huid, List.foldl_nil, foldl_groupEntries h, BitVec.zero_or]

/-- The permissions of a list that was made for a mode. -/
theorem permissions_entries (h : user.Ordinary) (mode : Mode) (isDirectory : Bool) (size : Nat)
    (effectiveAccess : AccessMask) :
    permissions user ⟨size, entries user mode isDirectory⟩ effectiveAccess =
      (if user.uid ≠ 0 then mode &&& 0o777#32 else (mode &&& 0o77#32) ||| getPermissions effectiveAccess) := by
  have hall : ∀ bits : Mode, bits &&& ~~~0#32 = bits := by
    intro bits
    rw [BitVec.not_zero, BitVec.and_allOnes]
  simp only [permissions, foldl_entries h]
  by_cases huid : user.uid ≠ 0
  · simp only [if_pos huid, Bool.not_true, Bool.false_eq_true, if_false, hall]
  · simp only [if_neg huid, Bool.not_false, if_true, hall]

/-! ## The table -/

theorem cacheIndex_eq {mode mode' : Mode} {isDirectory isDirectory' : Bool}
    (h : cacheIndex mode isDirectory = cacheIndex mode' isDirectory') :
    mode &&& 511#32 = mode' &&& 511#32 ∧ isDirectory = isDirectory' := by
  have hlow : ∀ (mode : Mode) (isDirectory : Bool), cacheIndex mode isDirectory &&& 511#32 = mode &&& 511#32 := by
    intro mode isDirectory
    rw [cacheIndex, BitVec.and_or_distrib_right, BitVec.and_assoc]
    cases isDirectory with
    | false => simp
    | true => simp
  have hhigh : ∀ (mode : Mode) (isDirectory : Bool),
      cacheIndex mode isDirectory &&& 512#32 = if isDirectory then 512#32 else 0#32 := by
    intro mode isDirectory
    rw [cacheIndex, BitVec.and_or_distrib_right, BitVec.and_assoc]
    cases isDirectory with
    | false => simp
    | true => simp
  refine ⟨?_, ?_⟩
  · rw [← hlow mode isDirectory, h, hlow]
  · have hdirectory : (if isDirectory then 512#32 else 0#32) = if isDirectory' then 512#32 else 0#32 := by
      rw [← hhigh mode, h, hhigh]
    revert hdirectory
    cases isDirectory <;> cases isDirectory' <;> decide

/-- Modes with the same nine bits have the same list. -/
theorem createSecurityDescriptor_low (user : User) {mode mode' : Mode} (isDirectory : Bool)
    (h : mode &&& 511#32 = mode' &&& 511#32) :
    createSecurityDescriptor user mode isDirectory = createSecurityDescriptor user mode' isDirectory := by
  have hmask : ∀ mask : BitVec 32, 511#32 &&& mask = mask → mode &&& mask = mode' &&& mask := by
    intro mask hmask
    rw [← and_of_low hmask mode, ← and_of_low hmask mode', h]
  simp only [createSecurityDescriptor, addUser, addUsers, addEveryone, hmask 0o700#32 (by decide),
    hmask 0o70#32 (by decide), hmask 0o7#32 (by decide)]

/-- What the table has for a mode is what would be made for it. -/
def Cache.Exact (user : User) (cache : Cache) : Prop :=
  ∀ mode isDirectory acl, cache (cacheIndex mode isDirectory) = some acl →
    acl = createSecurityDescriptor user mode isDirectory

theorem getSecurityDescriptor_exact {cache cache' : Cache} (h : cache.Exact user) {mode : Mode}
    {isDirectory allocated : Bool} {acl : Acl}
    (hget : getSecurityDescriptor user cache mode isDirectory allocated = some (acl, cache')) :
    acl = createSecurityDescriptor user mode isDirectory ∧ cache'.Exact user := by
  rw [getSecurityDescriptor] at hget
  split at hget
  · next acl' hcached =>
    cases hget
    exact ⟨h mode isDirectory acl hcached, h⟩
  · split at hget
    · cases hget
      refine ⟨rfl, ?_⟩
      intro mode' isDirectory' acl' hcached
      by_cases hindex : cacheIndex mode' isDirectory' = cacheIndex mode isDirectory
      · rw [hindex, Function.update_self] at hcached
        obtain ⟨hmode, rfl⟩ := cacheIndex_eq hindex
        rw [createSecurityDescriptor_low user _ hmode]
        exact (Option.some.inj hcached).symm
      · rw [Function.update_of_ne hindex] at hcached
        exact h mode' isDirectory' acl' hcached
    · cases hget

/-! ## Runs -/

/-- The mode that a call has given to a file. -/
def given : Move → Outcome → Option (Nat × Mode)
  | .chmod f mode _, .ok => some (f, mode)
  | .mkdir f mode _ _, .ok => some (f, mode)
  | .create f mode _ _, .ok => some (f, mode)
  | _, _ => none

/-- The modes that are known behind a call. -/
def note (known : Nat → Option Mode) (move : Move) (outcome : Outcome) : Nat → Option Mode :=
  match given move outcome with
  | some (f, mode) => Function.update known f (some mode)
  | none => known

/-- The mode that each file was given last. -/
def lastModes : (Nat → Option Mode) → List Move → List Outcome → Nat → Option Mode
  | known, move :: moves, outcome :: outcomes => lastModes (note known move outcome) moves outcomes
  | known, _, _ => known

/-- There is memory for the descriptor of a file that is made. -/
def Provided : Move → Prop
  | .chmod _ _ _ => True
  | .mkdir _ _ answers _ | .create _ _ answers _ => answers.allocated = true

structure Known (user : User) (s : System) (known : Nat → Option Mode) : Prop where
  cache : s.cache.Exact user
  files : ∀ f mode, known f = some mode → ∃ file isDirectory, s.files f = some file ∧
    file.dacl = createSecurityDescriptor user mode isDirectory

variable {s s' : System} {known : Nat → Option Mode}

/-- A file is given a list that was made for a mode. -/
theorem Known.give (h : Known user s known) {cache : Cache} (hcache : cache.Exact user) (f : Nat) (mode : Mode)
    (file : File) {isDirectory : Bool} (hdacl : file.dacl = createSecurityDescriptor user mode isDirectory) :
    Known user ⟨cache, Function.update s.files f (some file)⟩ (Function.update known f (some mode)) := by
  refine ⟨hcache, ?_⟩
  intro g mode' hg
  by_cases hgf : g = f
  · subst hgf
    rw [Function.update_self] at hg
    cases hg
    exact ⟨file, isDirectory, Function.update_self .., hdacl⟩
  · rw [Function.update_of_ne hgf] at hg
    obtain ⟨file', isDirectory', hfile, hdacl'⟩ := h.files g mode' hg
    exact ⟨file', isDirectory', (Function.update_of_ne hgf ..).trans hfile, hdacl'⟩

theorem Known.doChmod (h : Known user s known) {f : Nat} {file : File} {mode : Mode} {answers : Answers}
    {outcome : Outcome} (hstep : doChmod user s f file mode answers = (s', outcome)) :
    Known user s' (note known (.chmod f mode answers) outcome) := by
  simp only [Security.doChmod] at hstep
  split at hstep
  · cases hstep
    exact h
  · next acl cache hget =>
    obtain ⟨hacl, hcache⟩ := getSecurityDescriptor_exact h.cache hget
    split at hstep
    · cases hstep
      exact h.give hcache f mode { file with dacl := acl } hacl
    · cases hstep
      exact ⟨hcache, h.files⟩

/-- What `mkdir` and `open` do to the file and to the table. -/
theorem Known.createWith (h : Known user s known) {f : Nat} {file : File} {mode : Mode} {isDirectory : Bool}
    {answers : Answers} (hprovided : answers.allocated = true) {outcome : Outcome}
    (hstep : createWith user s f file mode isDirectory answers = (s', outcome)) :
    outcome = .ok ∧ Known user s' (Function.update known f (some mode)) ∨ outcome = .status ∧ Known user s' known := by
  have hlow : createSecurityDescriptor user (mode &&& 0o777#32) isDirectory =
      createSecurityDescriptor user mode isDirectory :=
    createSecurityDescriptor_low user isDirectory (and_of_low (by decide) mode)
  simp only [Security.createWith] at hstep
  cases hget : getSecurityDescriptor user s.cache (mode &&& 0o777#32) isDirectory answers.allocated with
  | none =>
    rw [getSecurityDescriptor, hprovided] at hget
    split at hget
    · cases hget
    · rw [if_pos rfl] at hget
      cases hget
  | some made =>
    obtain ⟨acl, cache⟩ := made
    obtain ⟨hacl, hcache⟩ := getSecurityDescriptor_exact h.cache hget
    simp only [hget] at hstep
    split at hstep
    · cases hstep
      exact .inl ⟨rfl, h.give hcache f mode { file with dacl := acl } (hacl.trans hlow)⟩
    · cases hstep
      exact .inr ⟨rfl, hcache, h.files⟩

theorem Known.step (h : Known user s known) {move : Move} (hprovided : Provided move) {outcome : Outcome}
    (hstep : step user s move = some (s', outcome)) : Known user s' (note known move outcome) := by
  cases move with
  | chmod f mode answers =>
    rw [Security.step] at hstep
    split at hstep
    · cases hstep
      exact h
    · exact h.doChmod (Option.some.inj hstep)
  | mkdir f mode answers file =>
    rw [Security.step] at hstep
    split at hstep
    · cases hstep
      exact h
    · rcases h.createWith hprovided (Option.some.inj hstep) with ⟨rfl, hknown⟩ | ⟨rfl, hknown⟩
      · exact hknown
      · exact hknown
  | create f mode answers file =>
    rcases h.createWith hprovided (Option.some.inj hstep) with ⟨rfl, hknown⟩ | ⟨rfl, hknown⟩
    · exact hknown
    · exact hknown

theorem Known.run {moves : List Move} (h : Known user s known) (hprovided : ∀ move ∈ moves, Provided move)
    {outcomes : List Outcome} (hrun : (machine user).run s moves = some (s', outcomes)) :
    Known user s' (lastModes known moves outcomes) := by
  induction moves generalizing s known outcomes with
  | nil =>
    cases hrun
    exact h
  | cons move moves ih =>
    rw [Machine.run] at hrun
    split at hrun
    · contradiction
    · next s₁ outcome hstep =>
      obtain ⟨⟨s₂, outcomes₂⟩, hrun₂, heq⟩ := Option.map_eq_some_iff.mp hrun
      cases heq
      exact ih (h.step (hprovided move List.mem_cons_self) hstep)
        (fun move' hmem => hprovided move' (List.mem_cons_of_mem move hmem)) hrun₂

/-- The type of a file does not touch its permissions. -/
theorem fileType_low (file : File) : fileType file &&& 0o777#32 = 0#32 := by
  rw [fileType]
  split
  · rw [BitVec.and_or_distrib_right]
    split <;> split <;> rfl
  · split
    · rfl
    · split
      · rfl
      · rfl

theorem getPermissions_low (access : AccessMask) : getPermissions access &&& 0o777#32 = getPermissions access := by
  rw [getPermissions]
  split <;> split <;> split <;> rfl

/-- **`stat` tells the mode that was set last**, by `chmod`, `mkdir` or `open`, and the list of the file has every entry
for it. For a process with elevated rights there is none of its user, and the bits of the user are those of the
effective access. -/
theorem stat_permissions (hordinary : user.Ordinary) {files : Nat → Option File} {moves : List Move}
    (hprovided : ∀ move ∈ moves, Provided move) {outcomes : List Outcome}
    (hrun : (machine user).run (init files) moves = some (s, outcomes)) {f : Nat} {mode : Mode}
    (hmode : lastModes (fun _ => none) moves outcomes f = some mode) :
    ∃ file isDirectory, s.files f = some file ∧ file.dacl.aces = entries user mode isDirectory ∧
      ∀ effectiveAccess, ∃ st, doStat user file effectiveAccess = some st ∧ st.mode &&& 0o777#32 =
        (if user.uid ≠ 0 then mode &&& 0o777#32 else (mode &&& 0o77#32) ||| getPermissions effectiveAccess) := by
  have hinit : Known user (init files) (fun _ => none) :=
    ⟨fun _ _ _ h => (by cases h), fun _ _ h => (by cases h)⟩
  obtain ⟨file, isDirectory, hfile, hdacl⟩ := (hinit.run hprovided hrun).files f mode hmode
  have hholds := createSecurityDescriptor_holds user mode isDirectory
  rw [← hdacl] at hholds
  refine ⟨file, isDirectory, hfile, hholds.aces, fun effectiveAccess => ?_⟩
  have hsize : file.descriptorSize ≤ 512 := by
    have howner := file.owner.size_le
    have hgroup := file.group.size_le
    rw [File.descriptorSize, hholds.size]
    omega
  refine ⟨_, if_pos hsize, ?_⟩
  have hpermissions := permissions_entries hordinary mode isDirectory file.dacl.size effectiveAccess
  rw [← hholds.aces] at hpermissions
  change (permissions user ⟨file.dacl.size, file.dacl.aces⟩ effectiveAccess ||| fileType file) &&& 0o777#32 = _
  rw [BitVec.and_or_distrib_right, fileType_low, BitVec.or_zero, hpermissions]
  split
  · exact and_of_low (by decide) mode
  · rw [BitVec.and_or_distrib_right, getPermissions_low, BitVec.and_assoc]
    rfl

def someUser : User := ⟨⟨5, [21#32, 1#32, 2#32, 3#32, 1001#32], by decide⟩, false⟩

theorem someUser_ordinary : someUser.Ordinary := ⟨by decide, by decide, by decide, by decide⟩

def newFile (attributes : BitVec 32) : File := ⟨attributes, 0#32, someUser.sid, usersSid, ⟨0, []⟩⟩

/-- A file is created and changed, and the last change fails. A directory takes its descriptor from the table. -/
def changes : List Move :=
  [.create 1 0o644#32 ⟨true, true, true⟩ (newFile 0x20#32), .mkdir 2 0o750#32 ⟨true, true, true⟩ (newFile 0x10#32),
    .chmod 1 0o7751#32 ⟨false, true, true⟩, .chmod 2 0o4750#32 ⟨true, false, true⟩,
    .chmod 1 0o777#32 ⟨true, true, false⟩]

theorem stat_permissions_changes :
    ∃ s outcomes, (machine someUser).run (init fun _ => none) changes = some (s, outcomes) ∧
      ∃ file isDirectory, s.files 1 = some file ∧ file.dacl.aces = entries someUser 0o7751#32 isDirectory ∧
        ∀ effectiveAccess, ∃ st, doStat someUser file effectiveAccess = some st ∧ st.mode &&& 0o777#32 =
          (if someUser.uid ≠ 0 then 0o7751#32 &&& 0o777#32
          else (0o7751#32 &&& 0o77#32) ||| getPermissions effectiveAccess) := by
  have hprovided : ∀ move ∈ changes, Provided move := by simp [changes, Provided]
  have hmode : lastModes (fun _ => none) changes [.ok, .ok, .ok, .ok, .status] 1 = some 0o7751#32 := rfl
  obtain ⟨s, hrun⟩ : ∃ s, (machine someUser).run (init fun _ => none) changes =
      some (s, [.ok, .ok, .ok, .ok, .status]) := ⟨_, rfl⟩
  exact ⟨s, _, hrun, stat_permissions someUser_ordinary hprovided hrun hmode⟩

end WindowsLibc.Security
