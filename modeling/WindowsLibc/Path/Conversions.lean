import WindowsLibc.Lib.Machine
import WindowsLibc.Path.Unc

/-!
# Conversions of paths in any order (`internal/path.c`)

`conversionMachine` converts paths between the kernel and DOS, one after the other, with what the caches have
from the conversions before.

* `Right` says what every conversion is for: a path comes back as it went, and the caches change no result.
* `conversionMachine_right_iff`: all conversions of a run are right exactly if every sum of lengths in 16 bits is
  large enough (`Fits`).
-/

namespace WindowsLibc.Path

open WindowsLibc.Lib

/-! ## The machine -/

structure Caches where
  devices : Devices
  dosDevices : DosDevices

def initialCaches : Caches := ⟨initialDevices, initialDosDevices⟩

inductive Conversion where
  | toNt (d : DrivePath)
  | toDos (n : VolumePath)
  | thereAndBack (d : DrivePath)
  | pipe (p : PipePath)
  /-- `path_components_size` has been doubled so many times before. -/
  | share (doublings : Nat) (p : SharePath)

/-- A conversion, and what the heap has in new allocations. -/
structure Request where
  heap : Fill
  entries : Nat → PathComponent
  conversion : Conversion

/-- `ntpath_to_dospath` of what `get_absolute_ntpath2` returns. -/
def backToDos (heap : Fill) (v : Volumes) (s : Caches) :
    Except Stop (Option NtString) → Option (Caches × Option NtString)
  | .ok (some ntpath) =>
    (ntpathToDospath heap v s.dosDevices ntpath).map fun r => ({ s with dosDevices := r.1 }, r.2)
  | .ok none | .error .enomem => some (s, none)
  | .error .fault => none

def convert (v : Volumes) (s : Caches) (r : Request) : Option (Caches × Option NtString) :=
  match r.conversion with
  | .toNt d =>
    (dospathToNtpath r.heap v s.devices d.string).map fun a => ({ s with devices := a.1 }, a.2)
  | .toDos n =>
    (ntpathToDospath r.heap v s.dosDevices n.string).map fun a => ({ s with dosDevices := a.1 }, a.2)
  | .thereAndBack d =>
    match dospathToNtpath r.heap v s.devices d.string with
    | none => none
    | some (devices, none) => some ({ s with devices }, none)
    | some (devices, some ntpath) =>
      (ntpathToDospath r.heap v s.dosDevices ntpath).map fun a => (⟨devices, a.1⟩, a.2)
  | .pipe p => backToDos r.heap v s (getAbsoluteNtpath2 r.heap r.entries 16 p.bytes)
  | .share doublings p =>
    backToDos r.heap v s (getAbsoluteNtpath2 r.heap r.entries (16 * 2 ^ doublings) p.bytes)

def conversionMachine (v : Volumes) : Machine Caches Request (Option NtString) where
  step := convert v

/-! ## What a conversion is for -/

/-- A string of this text is returned. -/
def Returns (out : Option NtString) (text : List WChar) : Prop := ∃ s, out = some s ∧ s.Holds text

/-- What a conversion should return: what it returns with empty caches, the path that was converted there
and back, and the paths of a pipe or a share on DOS. -/
def Expected (v : Volumes) (r : Request) (out : Option NtString) : Prop :=
  match r.conversion with
  | .toNt _ | .toDos _ => (convert v initialCaches r).map (·.2) = some out
  | .thereAndBack d =>
    if v.symbolicLink d.letter = none then out = none
    else Returns out (d.letter.toUInt16 :: 58 :: d.rest)
  | .pipe p => Returns out (dosPipe ++ backslash :: utf16 p.name)
  | .share _ p => Returns out p.dos

/-- A conversion stays inside of its allocations and returns what it should. -/
def Exact (v : Volumes) (s : Caches) (r : Request) : Prop :=
  ∃ s' out, convert v s r = some (s', out) ∧ Expected v r out

/-- The lengths of the paths, and the sizes that are computed for them, are numbers of 16 bits. -/
def Request.Fits (v : Volumes) (r : Request) : Prop :=
  match r.conversion with
  | .toNt _ | .toDos _ => True
  | .thereAndBack d =>
    ∀ target ∈ v.symbolicLink d.letter, 2 * target.length + 2 * d.rest.length < 2 ^ 16
  | .pipe p => p.Fits
  | .share _ p => p.Fits

instance (v : Volumes) (r : Request) : Decidable (r.Fits v) :=
  match h : r.conversion with
  | .toNt _ | .toDos _ => .isTrue (by simp only [Request.Fits, h])
  | .thereAndBack d =>
    decidable_of_iff
      (∀ target ∈ v.symbolicLink d.letter, 2 * target.length + 2 * d.rest.length < 2 ^ 16)
      (by simp only [Request.Fits, h])
  | .pipe p => decidable_of_iff p.Fits (by simp only [Request.Fits, h])
  | .share _ p => decidable_of_iff p.Fits (by simp only [Request.Fits, h])

/-! ## One conversion -/

variable {v : Volumes} {s : Caches}

/-- Both caches have what the kernel says. -/
structure Caches.Coherent (v : Volumes) (s : Caches) : Prop where
  devices : DevicesCoherent v s.devices
  dosDevices : DosDevicesCoherent v s.dosDevices

theorem coherent_initialCaches (v : Volumes) : initialCaches.Coherent v :=
  ⟨fun _ => .inl rfl, .inl rfl, .inl rfl⟩

/-- What a drive path becomes does not depend on the cache. -/
theorem dospathToNtpath_result (hv : v.Inverse) (heap : Fill) (d : DrivePath) :
    ∃ out, (v.symbolicLink d.letter = none ∧ out = none ∨
        ∃ n < 10000, v.symbolicLink d.letter = some (volumeName n) ∧ ∃ ntpath, out = some ntpath ∧
          ntpath.length.toNat = (2 * (volumeName n).length + 2 * d.rest.length) % 2 ^ 16 ∧
          volumeName n ++ d.rest ++ [0] <+: ntpath.buffer) ∧
      ∀ devices, DevicesCoherent v devices → ∃ devices', DevicesCoherent v devices' ∧
        dospathToNtpath heap v devices d.string = some (devices', out) := by
  cases hlink : v.symbolicLink d.letter with
  | none =>
    refine ⟨none, .inl ⟨rfl, rfl⟩, ?_⟩
    intro devices hc
    obtain ⟨devices', hc', hpath⟩ := dospathToNtpath_spec hv heap hc d
    rw [hlink] at hpath
    exact ⟨devices', hc', hpath⟩
  | some target =>
    obtain ⟨n, hn, rfl⟩ := hv.named d.letter target hlink
    obtain ⟨ntpath, hntpath, hlength, hbegins⟩ := devicePath_spec heap hn d
    refine ⟨some ntpath, .inr ⟨n, hn, rfl, ntpath, rfl, hlength, hbegins⟩, ?_⟩
    intro devices hc
    obtain ⟨devices', hc', hpath⟩ := dospathToNtpath_spec hv heap hc d
    simp only [hlink, hntpath] at hpath
    exact ⟨devices', hc', hpath⟩

/-- Nor does what a path on a volume becomes. -/
theorem ntpathToDospath_result (v : Volumes) (heap : Fill) (n : VolumePath) :
    ∃ out, ∀ cache, DosDevicesCoherent v cache → ∃ cache', DosDevicesCoherent v cache' ∧
      ntpathToDospath heap v cache n.string = some (cache', out) := by
  have hlength : n.rest = [] → n.string.length.toNat = 2 * (volumeName n.number).length := by
    intro hnil
    have := n.holds.length
    rwa [hnil, List.append_nil] at this
  obtain ⟨dos, hdos, _⟩ := drivePath_spec heap n.number_lt n.holds (labelOf v (volumeName n.number))
  refine ⟨if labelOf v (volumeName n.number) = 0 then none else some dos, ?_⟩
  intro cache hc
  obtain ⟨cache', hc', hpath⟩ :=
    ntpathToDospath_volume heap hc n.number_lt n.below n.holds.isPrefix hlength
  refine ⟨cache', hc', hpath.trans ?_⟩
  rw [hdos]
  split <;> rfl

theorem labelOf_of_link (hv : v.Inverse) {d : DrivePath} {target : List WChar}
    (hlink : v.symbolicLink d.letter = some target) : labelOf v target = d.letter := by
  have hmount := (hv.inverse d.letter target d.isLetter).mp hlink
  rw [labelOf, hmount]
  show (if 65 ≤ d.letter.toUInt16.toUInt8 ∧ d.letter.toUInt16.toUInt8 ≤ 90 then
    d.letter.toUInt16.toUInt8 else 0) = _
  rw [UInt8.toUInt8_toUInt16, if_pos d.isLetter]

theorem answer_eq_some {C : Type*} {cache cache' : C} {result : Except Stop NtString} {s : NtString}
    (h : answer cache result = some (cache', some s)) : result = .ok s := by
  rcases result with (_ | _) | s' <;> cases h
  rfl

theorem answer_cache {C : Type*} {cache : C} {result : Except Stop NtString} {a : C × Option NtString}
    (h : answer cache result = some a) : a.1 = cache := by
  rcases result with (_ | _) | s' <;> cases h <;> rfl

/-- There and back. -/
theorem thereAndBack_spec (hv : v.Inverse) (hc : s.Coherent v) {r : Request} {d : DrivePath}
    (hr : r.conversion = .thereAndBack d) :
    (Exact v s r ↔ r.Fits v) ∧ ∀ s' out, convert v s r = some (s', out) → s'.Coherent v := by
  obtain ⟨out, hout, hall⟩ := dospathToNtpath_result hv r.heap d
  obtain ⟨devices', hdevices, hpath⟩ := hall s.devices hc.devices
  rcases hout with ⟨hlink, rfl⟩ | ⟨n, hn, hlink, ntpath, rfl, hlength, hbegins⟩
  · -- There is no such drive.
    have hstep : convert v s r = some ({ s with devices := devices' }, none) := by
      rw [convert, hr]
      simp only [hpath]
    refine ⟨iff_of_true ⟨_, _, hstep, ?_⟩ ?_, ?_⟩
    · simp only [Expected, hr, hlink, if_true]
    · simp only [Request.Fits, hr, hlink]
      exact fun _ h => by cases h
    · intro s' out h
      cases hstep.symm.trans h
      exact ⟨hdevices, hc.dosDevices⟩
  · have hname := length_volumeName hn
    have hdlen := d.holds.length
    have hterm := d.terminated
    have hlt := d.string.maximumLength.toNat_lt
    rw [List.length_cons, List.length_cons] at hdlen
    have hnil : d.rest = [] → ntpath.length.toNat = 2 * (volumeName n).length := by
      intro hnil
      rw [hlength, hnil, List.length_nil]
      omega
    obtain ⟨cache', hcache, hback⟩ :=
      ntpathToDospath_volume r.heap hc.dosDevices hn d.below hbegins hnil
    have hlabel := labelOf_of_link hv hlink
    have hzero : d.letter ≠ 0 := by
      intro h
      have := d.isLetter.1
      rw [h] at this
      revert this
      decide
    rw [hlabel, if_neg hzero] at hback
    have hstep : convert v s r =
        (answer cache' (drivePath r.heap ntpath (slashOf n d.rest) d.letter)).map
          fun a => (⟨devices', a.1⟩, a.2) := by
      rw [convert, hr]
      simp only [hpath, hback]
    have hkeep : ∀ s' out, convert v s r = some (s', out) → s'.Coherent v := by
      intro s' out h
      obtain ⟨a, ha, heq⟩ := Option.map_eq_some_iff.mp (hstep.symm.trans h)
      cases heq
      rw [← answer_cache ha] at hcache
      exact ⟨hdevices, hcache⟩
    have hexpected : ∀ out, Expected v r out ↔ Returns out (d.letter.toUInt16 :: 58 :: d.rest) := by
      intro out
      simp only [Expected, hr, hlink, reduceCtorEq, if_false]
    have hfits : r.Fits v ↔ 2 * (volumeName n).length + 2 * d.rest.length < 2 ^ 16 := by
      simp only [Request.Fits, hr, hlink, Option.mem_some_iff, forall_eq']
    refine ⟨?_, hkeep⟩
    rw [hfits]
    constructor
    · -- A length that wraps is shorter than the device, and nothing can be copied behind it.
      rintro ⟨s', out, hcode, hexp⟩
      obtain ⟨dos, rfl, _⟩ := (hexpected out).mp hexp
      obtain ⟨a, ha, heq⟩ := Option.map_eq_some_iff.mp (hstep.symm.trans hcode)
      by_contra hlarge
      have hslash : slashOf n d.rest = some (volumeName n).length := by
        apply if_neg
        intro hnil
        rw [hnil, List.length_nil] at hlarge
        omega
      have hout : a.2 = some dos := congrArg Prod.snd heq
      have hok := answer_eq_some (ha.trans (congrArg some (Prod.ext rfl hout)))
      rw [hslash] at hok
      exact drivePath_wrapped r.heap (by omega) d.letter dos hok
    · intro hroom
      have hholds : ntpath.Holds (volumeName n ++ d.rest) := by
        refine ⟨?_, hbegins⟩
        rw [hlength, List.length_append, Nat.mod_eq_of_lt hroom]
        omega
      obtain ⟨dos, hdos, hholds'⟩ := drivePath_spec r.heap hn hholds d.letter
      rw [hdos] at hstep
      exact ⟨_, _, hstep, (hexpected _).mpr ⟨dos, rfl, hholds'⟩⟩

/-- `ntpath_to_dospath` returns a string of this text, and has not used the cache. -/
def Renames (heap : Fill) (v : Volumes) (cache : DosDevices) (ntpath : NtString)
    (text : List WChar) : Prop :=
  ∃ dos, ntpathToDospath heap v cache ntpath = some (cache, some dos) ∧ dos.Holds text

/-- Pipes and shares: what fits is renamed to the text, and what does not fit is never renamed to it. -/
theorem backToDos_spec (heap : Fill) (result : Except Stop (Option NtString)) (text : List WChar)
    (fits : Prop)
    (hfits : fits → ∃ ntpath, result = .ok (some ntpath) ∧ Renames heap v s.dosDevices ntpath text)
    (hnot : ¬ fits → ∀ ntpath, result = .ok (some ntpath) →
      ∃ text', Renames heap v s.dosDevices ntpath text' ∧ text'.length < text.length) :
    ((∃ s' out, backToDos heap v s result = some (s', out) ∧ Returns out text) ↔ fits) ∧
      ∀ s' out, backToDos heap v s result = some (s', out) → s' = s := by
  have hback : ∀ ntpath text', Renames heap v s.dosDevices ntpath text' → ∃ dos, dos.Holds text' ∧
      backToDos heap v s (.ok (some ntpath)) = some (s, some dos) := by
    rintro ntpath text' ⟨dos, hdos, hholds⟩
    refine ⟨dos, hholds, ?_⟩
    rw [backToDos, hdos]
    rfl
  by_cases h : fits
  · obtain ⟨ntpath, rfl, hrenames⟩ := hfits h
    obtain ⟨dos, hholds, hdos⟩ := hback ntpath text hrenames
    refine ⟨iff_of_true ⟨s, _, hdos, dos, rfl, hholds⟩ h, ?_⟩
    intro s' out hcode
    cases hdos.symm.trans hcode
    rfl
  · rcases result with (_ | _) | _ | ntpath
    · exact ⟨iff_of_false (fun ⟨_, _, hcode, _⟩ => by cases hcode) h, fun _ _ hcode => by cases hcode⟩
    · refine ⟨iff_of_false ?_ h, fun _ _ hcode => by cases hcode; rfl⟩
      rintro ⟨_, _, ⟨⟩, _, ⟨⟩, _⟩
    · refine ⟨iff_of_false ?_ h, fun _ _ hcode => by cases hcode; rfl⟩
      rintro ⟨_, _, ⟨⟩, _, ⟨⟩, _⟩
    · obtain ⟨text', hrenames, hlt⟩ := hnot h ntpath rfl
      obtain ⟨dos, hholds, hdos⟩ := hback ntpath text' hrenames
      refine ⟨iff_of_false ?_ h, fun _ _ hcode => by cases hdos.symm.trans hcode; rfl⟩
      rintro ⟨_, _, hcode, _, rfl, hholds'⟩
      cases hdos.symm.trans hcode
      have hsame := hholds.length.symm.trans hholds'.length
      omega

/-- A conversion is right exactly if its lengths fit, and keeps the caches coherent. -/
theorem convert_spec (hv : v.Inverse) (hc : s.Coherent v) (r : Request) :
    (Exact v s r ↔ r.Fits v) ∧ ∀ s' out, convert v s r = some (s', out) → s'.Coherent v := by
  cases hr : r.conversion with
  | toNt d =>
    obtain ⟨out, _, hall⟩ := dospathToNtpath_result hv r.heap d
    obtain ⟨devices', hdevices, hpath⟩ := hall s.devices hc.devices
    obtain ⟨_, _, hinitial⟩ := hall initialDevices (coherent_initialCaches v).devices
    have hstep : convert v s r = some ({ s with devices := devices' }, out) := by
      rw [convert, hr]
      simp only [hpath, Option.map_some]
    refine ⟨iff_of_true ⟨_, _, hstep, ?_⟩ ?_, ?_⟩
    · simp only [Expected, convert, hr, initialCaches, hinitial, Option.map_some]
    · simp only [Request.Fits, hr]
    · intro s' out' h
      cases hstep.symm.trans h
      exact ⟨hdevices, hc.dosDevices⟩
  | toDos n =>
    obtain ⟨out, hall⟩ := ntpathToDospath_result v r.heap n
    obtain ⟨cache', hcache, hpath⟩ := hall s.dosDevices hc.dosDevices
    obtain ⟨_, _, hinitial⟩ := hall initialDosDevices (coherent_initialCaches v).dosDevices
    have hstep : convert v s r = some ({ s with dosDevices := cache' }, out) := by
      rw [convert, hr]
      simp only [hpath, Option.map_some]
    refine ⟨iff_of_true ⟨_, _, hstep, ?_⟩ ?_, ?_⟩
    · simp only [Expected, convert, hr, initialCaches, hinitial, Option.map_some]
    · simp only [Request.Fits, hr]
    · intro s' out' h
      cases hstep.symm.trans h
      exact ⟨hc.devices, hcache⟩
  | thereAndBack d => exact thereAndBack_spec hv hc hr
  | pipe p =>
    have hcode : getAbsoluteNtpath2 r.heap r.entries 16 p.bytes = pipeNtpath r.heap p.bytes := by
      rw [getAbsoluteNtpath2, p.isPipe, if_pos rfl]
    have hspec := backToDos_spec (v := v) (s := s) r.heap (pipeNtpath r.heap p.bytes)
      (dosPipe ++ backslash :: utf16 p.name) p.Fits ?_ ?_
    · simp only [Exact, Expected, Request.Fits, convert, hr, hcode]
      exact ⟨hspec.1, fun s' out h => hspec.2 s' out h ▸ hc⟩
    · intro hfits
      obtain ⟨ntpath, hntpath, hholds⟩ := pipeNtpath_fits r.heap hfits
      exact ⟨ntpath, hntpath, ntpathToDospath_pipe r.heap v s.dosDevices hholds⟩
    · intro hfits ntpath hntpath
      obtain ⟨units, hlt, hholds⟩ := pipeNtpath_not_fits r.heap hfits hntpath
      refine ⟨_, ntpathToDospath_pipe r.heap v s.dosDevices hholds, ?_⟩
      simp only [List.length_append, List.length_cons]
      omega
  | share doublings p =>
    have hcode : getAbsoluteNtpath2 r.heap r.entries (16 * 2 ^ doublings) p.bytes =
        shareNtpath r.heap r.entries (16 * 2 ^ doublings) p.bytes := by
      rw [getAbsoluteNtpath2, SharePath.bytes, SharePath.text, p.not_pipe]
      rfl
    have hspec := backToDos_spec (v := v) (s := s) r.heap
      (shareNtpath r.heap r.entries (16 * 2 ^ doublings) p.bytes) p.dos p.Fits ?_ ?_
    · simp only [Exact, Expected, Request.Fits, convert, hr, hcode]
      exact ⟨hspec.1, fun s' out h => hspec.2 s' out h ▸ hc⟩
    · intro hfits
      obtain ⟨ntpath, hntpath, hholds⟩ := shareNtpath_fits r.heap r.entries doublings hfits
      exact ⟨ntpath, hntpath, ntpathToDospath_mup r.heap v s.dosDevices hholds⟩
    · intro hfits ntpath hntpath
      exact absurd hntpath (shareNtpath_not_fits r.heap r.entries _ hfits ntpath)

/-! ## Runs -/

theorem Caches.Coherent.along_iff (hv : v.Inverse) (requests : List Request) :
    ∀ {s : Caches}, s.Coherent v →
      ((conversionMachine v).Along (Exact v) s requests ↔ ∀ r ∈ requests, r.Fits v) := by
  induction requests with
  | nil => exact fun _ => iff_of_true trivial (fun _ h => by cases h)
  | cons r requests ih =>
    intro s hc
    obtain ⟨hiff, hkeep⟩ := convert_spec hv hc r
    rw [List.forall_mem_cons]
    constructor
    · rintro ⟨hexact, hrest⟩
      obtain ⟨s', out, hstep, _⟩ := id hexact
      exact ⟨hiff.mp hexact, (ih (hkeep s' out hstep)).mp (hrest s' out hstep)⟩
    · rintro ⟨hfits, hrest⟩
      exact ⟨hiff.mpr hfits, fun s' out hstep => (ih (hkeep s' out hstep)).mpr hrest⟩

/-- **There and back.** From empty caches, every conversion of a run is right exactly if the lengths of all
its paths fit. -/
theorem conversionMachine_right_iff (hv : v.Inverse) (requests : List Request) :
    (conversionMachine v).Along (Exact v) initialCaches requests ↔ ∀ r ∈ requests, r.Fits v :=
  (coherent_initialCaches v).along_iff hv requests

/-- A machine with one drive. -/
def oneDrive : Volumes where
  symbolicLink volume := if volume = 67 then some (volumeName 3) else none
  mountPoint device := if device = volumeName 3 then some 67 else none

theorem inverse_oneDrive : oneDrive.Inverse where
  named volume target h := by
    simp only [oneDrive] at h
    split at h
    · exact ⟨3, by decide, (Option.some.inj h).symm⟩
    · cases h
  inverse volume target _ := by
    have hletter : (67 : WChar) = volume.toUInt16 ↔ volume = 67 := by
      rw [eq_comm]
      exact UInt8.toUInt16_inj (b := 67)
    simp only [oneDrive, Option.ite_none_right_eq_some, Option.some.injEq, hletter]
    constructor
    · rintro ⟨hvolume, htarget⟩
      exact ⟨htarget.symm, hvolume⟩
    · rintro ⟨htarget, hvolume⟩
      exact ⟨hvolume, htarget.symm⟩

/-- `C:\a`, in a buffer that is larger. -/
def driveC : DrivePath where
  string := ⟨8, 12, [67, 58, 92, 97, 0, 7]⟩
  letter := 67
  rest := [92, 97]
  isLetter := by decide
  holds := ⟨by decide, by decide⟩
  below := .inr rfl
  even := by decide
  terminated := by decide
  allocated := by decide

/-- `\\.\PIPE\p`. -/
def pipeP : PipePath where
  lead := [92, 92, 46, 92, 80, 73, 80, 69, 92]
  name := ['p']
  isLead := by decide
  no_nul := by decide

/-- `//s/d/../e`. -/
def shareS : SharePath where
  separator := '/'
  rest := ['s', '/', 'd', '/', '.', '.', '/', 'e']
  isSeparator := .inl rfl
  no_nul := by decide
  not_pipe := by decide

theorem oneDrive_right :
    (conversionMachine oneDrive).Along (Exact oneDrive) initialCaches
      ([.thereAndBack driveC, .pipe pipeP, .share 0 shareS, .thereAndBack driveC].map
        (Request.mk (fun _ => 7) fun _ => ⟨0, 0⟩)) :=
  (conversionMachine_right_iff inverse_oneDrive _).mpr (by decide)

/-- A share of `n + 3` characters. -/
def longShare (n : Nat) : SharePath where
  separator := '\\'
  rest := 'a' :: List.replicate n 'a'
  isSeparator := .inr rfl
  no_nul h := by
    rcases List.mem_cons.mp h with h | h
    · exact absurd h (by decide)
    · exact absurd (List.eq_of_mem_replicate h) (by decide)
  not_pipe := rfl

theorem length_longShare (n : Nat) :
    (utf16 (longShare n).text).length = n + 3 ∧ (longShare n).bytes.length = n + 3 := by
  have hsum : ∀ {α : Type} (f : Char → List α), (f 'a').length = 1 →
      ((List.replicate n 'a').flatMap f).length = n := by
    intro α f hf
    induction n with
    | zero => rfl
    | succ n ih => rw [List.replicate_succ, List.flatMap_cons, List.length_append, hf, ih, Nat.add_comm]
  have hslash : (utf16Units '\\').length = 1 ∧ (String.utf8EncodeChar '\\').length = 1 := by decide
  have ha : (utf16Units 'a').length = 1 ∧ (String.utf8EncodeChar 'a').length = 1 := by decide
  simp only [SharePath.bytes, SharePath.text, longShare, utf16, utf8, List.flatMap_cons,
    List.length_append, hsum _ ha.1, hsum _ ha.2, hslash, ha]
  omega

theorem longShare_not_fits {n : Nat} (hn : n = 32754) : ¬ (longShare n).Fits := by
  obtain ⟨hunits, hbytes⟩ := length_longShare n
  rw [SharePath.Fits, hunits, hbytes]
  omega

/-- For a share of 32757 bytes, nothing is allocated and everything copied. -/
theorem longShare_not_right :
    oneDrive.Inverse ∧ ¬ (conversionMachine oneDrive).Along (Exact oneDrive) initialCaches
      [⟨fun _ => 7, fun _ => ⟨0, 0⟩, .share 0 (longShare 32754)⟩] := by
  obtain ⟨n, hn⟩ : ∃ n, n = 32754 := ⟨_, rfl⟩
  rw [← hn]
  refine ⟨inverse_oneDrive, ?_⟩
  rintro ⟨hexact, _⟩
  have hspec := convert_spec inverse_oneDrive (coherent_initialCaches oneDrive)
    ⟨fun _ => 7, fun _ => ⟨0, 0⟩, .share 0 (longShare n)⟩
  exact longShare_not_fits hn (hspec.1.mp hexact)

end WindowsLibc.Path
