import WindowsLibc.Lib.WordSet

/-!
# Waiting for descriptors (`poll/select.c`, `poll/poll.c`)

`select` folds three sets of descriptors into one array for `poll` and unfolds the answer again.

* A NULL set stands for `zerofds`, which all NULL sets share. The caller does not see it.
* `commonSelect` takes what `poll` answers, and whether the heap has memory, as parameters.
* `pollFd` is what one pass of `poll` reports for one descriptor.
* `commonSelect_agrees_iff` says exactly for which sets and answers `select` agrees with `poll`.
-/

namespace WindowsLibc.Poll

open WindowsLibc.Lib WindowsLibc.Lib.WordSet

def POLLIN : BitVec 16 := 0x001
def POLLPRI : BitVec 16 := 0x002
def POLLOUT : BitVec 16 := 0x004
def POLLERR : BitVec 16 := 0x008
def POLLHUP : BitVec 16 := 0x010
def POLLNVAL : BitVec 16 := 0x020
def POLLRDNORM : BitVec 16 := 0x040
def POLLWRNORM : BitVec 16 := 0x100

/-- One of the bits of `mask` is set. -/
def has (events mask : BitVec 16) : Bool := events &&& mask ≠ 0

/-! ## One descriptor of `do_poll` -/

/-- What the system says about a handle. A query that fails gives `none`. -/
inductive Handle where
  | invalid
  | console (eventsRead : Option Nat)
  /-- Null devices, files and directories. -/
  | file
  /-- The quota that is available for writing, the data that is available for reading, and whether the
  other end is closed. -/
  | pipe (local_ : Option (Nat × Nat × Bool))

/-- The access bits of `flags`. -/
structure Access where
  rdwr : Bool
  wronly : Bool

/-- The body of the loop of `do_poll`. -/
def pollFd (handle : Handle) (access : Access) (events revents : BitVec 16) : BitVec 16 :=
  let input := events &&& (POLLIN ||| POLLRDNORM)
  let output := events &&& (POLLOUT ||| POLLWRNORM)
  match handle with
  | .invalid => POLLNVAL
  | .console none => POLLNVAL
  | .console (some eventsRead) =>
    if access.rdwr then (if eventsRead > 0 then input else output)
    else if access.wronly then output
    else (if eventsRead > 0 then input else revents)
  | .file =>
    if access.rdwr then events &&& (POLLIN ||| POLLOUT ||| POLLRDNORM ||| POLLWRNORM)
    else if access.wronly then output
    else input
  | .pipe none => POLLNVAL
  | .pipe (some (writeQuota, readData, closed)) =>
    if access.rdwr then
      let revents := if writeQuota > 0 then output else revents
      if readData > 0 then input else revents
    else if access.wronly then
      let revents := if writeQuota > 0 then output else revents
      if closed then revents ||| POLLERR else revents
    else
      let revents := if readData > 0 then input else revents
      if closed then revents ||| POLLHUP else revents

/-! ## `select` -/

def FD_SETSIZE : Int := 1024

/-- `fd_set`. -/
structure FdSet where
  masks : List (BitVec 64)
  length : masks.length = 128

def FdSet.zero : FdSet := ⟨List.replicate 128 0, List.length_replicate⟩

/-- `FAST_FDISSET`. -/
def FdSet.isset (fd : Nat) (set : FdSet) : Bool := set.masks.getD (fd / 64) 0 &&& bit fd ≠ 0

/-- `FAST_FDSET`. -/
def FdSet.set (fd : Nat) (set : FdSet) : FdSet :=
  ⟨WordSet.insert set.masks fd, (List.length_modify _ _ _).trans set.length⟩

/-- Which of the three sets. -/
inductive Kind where
  | read
  | write
  | except
deriving DecidableEq

/-- The event that a set asks for. -/
def Kind.event : Kind → BitVec 16
  | .read => POLLIN
  | .write => POLLOUT
  | .except => POLLPRI

/-- The caller's sets and the one for NULL. -/
structure Mem where
  sets : Kind → Option FdSet
  zerofds : FdSet

def Mem.load (m : Mem) (k : Kind) : FdSet := (m.sets k).getD m.zerofds

def Mem.store (m : Mem) (k : Kind) (set : FdSet) : Mem :=
  match m.sets k with
  | none => { m with zerofds := set }
  | some _ => { m with sets := Function.update m.sets k (some set) }

/-- A descriptor is in one of the sets. -/
def Mem.isset (m : Mem) (fd : Nat) : Bool :=
  (m.load .read).isset fd || (m.load .write).isset fd || (m.load .except).isset fd

/-- `struct pollfd`, without what `poll` reports. -/
structure Pollfd where
  fd : Nat
  events : BitVec 16

/-- The first loop, which counts. It also sets bits of `setfds`, which nothing reads. -/
def countFds (m : Mem) : Nat → Nat
  | 0 => 0
  | n + 1 => if m.isset n then countFds m n + 1 else countFds m n

/-- The events to ask for. -/
def Mem.events (m : Mem) (fd : Nat) : BitVec 16 :=
  let events := if (m.load .read).isset fd then 0 ||| POLLIN else 0
  let events := if (m.load .write).isset fd then events ||| POLLOUT else events
  if (m.load .except).isset fd then events ||| POLLPRI else events

/-- The second loop. -/
def fillPollfds (m : Mem) : Nat → List Pollfd
  | 0 => []
  | n + 1 => if m.isset n then fillPollfds m n ++ [⟨n, m.events n⟩] else fillPollfds m n

/-- What the third loop changes. -/
structure Loop where
  mem : Mem
  result : Nat
  error : Bool

/-- Report an event. -/
def mark (fd : Nat) (revents : BitVec 16) (k : Kind) (s : Loop) : Loop :=
  if has revents k.event then
    { s with mem := s.mem.store k ((s.mem.load k).set fd), result := s.result + 1 }
  else s

/-- The body of the third loop. -/
def scanFd (fd : Nat) (revents : BitVec 16) (s : Loop) : Loop :=
  if revents = 0 ∨ has revents (POLLERR ||| POLLHUP) then s
  else
    let s := if has revents POLLNVAL then { s with error := true } else s
    mark fd revents .except (mark fd revents .write (mark fd revents .read s))

/-- The third loop, from `pollfds[i]` on. -/
def scan (revents : Nat → BitVec 16) : Nat → List Pollfd → Loop → Loop
  | _, [], s => s
  | i, p :: ps, s => scan revents (i + 1) ps (scanFd p.fd (revents i) s)

inductive Errno where
  | EINVAL
  | ENOMEM
  | EBADF

/-- `poll`: the `revents` by their index. The timeout and the signal mask are only handed to it. -/
def Poller := List Pollfd → Except Errno (Nat → BitVec 16)

/-- `wlibc_common_select`, with the sets it leaves. -/
def commonSelect (nfds : Int) (sets : Kind → Option FdSet) (heap : Bool) (poll : Poller) :
    Except Errno Nat × (Kind → Option FdSet) :=
  if nfds < 0 ∨ nfds > FD_SETSIZE then (.error .EINVAL, sets)
  else if sets .read = none ∧ sets .write = none ∧ sets .except = none then (.ok 0, sets)
  else
    let m : Mem := ⟨sets, .zero⟩
    if countFds m nfds.toNat = 0 then (.ok 0, sets)
    else if heap = false then (.error .ENOMEM, sets)
    else
      let pollfds := fillPollfds m nfds.toNat
      match poll pollfds with
      | .error e => (.error e, sets)
      | .ok revents =>
        let m := ((m.store .read .zero).store .write .zero).store .except .zero
        let s := scan revents 0 pollfds ⟨m, 0, false⟩
        if s.error then (.error .EBADF, s.mem.sets) else (.ok s.result, s.mem.sets)

/-! ## Agreement -/

section

variable (nfds : Int) (sets : Kind → Option FdSet) (heap : Bool) (poll : Poller)

/-- The descriptor is asked for in a set of the caller. -/
def Requested (k : Kind) (fd : Nat) : Prop :=
  (fd : Int) < nfds ∧ ∃ S, sets k = some S ∧ mem S.masks fd = true

/-- The array that `poll` gets. -/
def asked : List Pollfd := fillPollfds ⟨sets, .zero⟩ nfds.toNat

/-- `poll` has reported the event of a set for the descriptor. -/
def Reported (k : Kind) (fd : Nat) : Prop :=
  ∃ revents, poll (asked nfds sets) = .ok revents ∧
    ∃ i p, (asked nfds sets)[i]? = some p ∧ p.fd = fd ∧ has (revents i) k.event = true

/-- The bits of a set. -/
def bits (set : Option FdSet) : Nat :=
  set.elim 0 fun S => (List.range (64 * S.masks.length)).countP (mem S.masks)

/-- `select` agrees with `poll`. -/
structure Agrees : Prop where
  failed : ∀ e sets', commonSelect nfds sets heap poll = (.error e, sets') → sets' = sets
  left : ∀ n sets', commonSelect nfds sets heap poll = (.ok n, sets') → ∀ k S, sets' k = some S →
    ∀ fd, mem S.masks fd = true ↔ Requested nfds sets k fd ∧ Reported nfds sets poll k fd
  count : ∀ n sets', commonSelect nfds sets heap poll = (.ok n, sets') →
    n = bits (sets' .read) + bits (sets' .write) + bits (sets' .except)

/-- The descriptor has neither an error nor been hung up. -/
def sound (revents : BitVec 16) : Bool := !has revents (POLLERR ||| POLLHUP)

/-- A sound entry of the array reports an event for the descriptor. -/
def Marked (revents : Nat → BitVec 16) (mask : BitVec 16) (fd : Nat) : Prop :=
  ∃ i p, (asked nfds sets)[i]? = some p ∧ p.fd = fd ∧ sound (revents i) = true ∧
    has (revents i) mask = true

/-- If nothing is asked for, the sets are empty. If a sound entry is invalid, the sets are already what is
reported. Otherwise the reported events are asked for exactly at the sound entries. -/
structure Reflected : Prop where
  idle : (∀ k fd, ¬ Requested nfds sets k fd) → ∀ k S, sets k = some S → ∀ fd, mem S.masks fd = false
  invalid : heap = true → (∃ k fd, Requested nfds sets k fd) →
    ∀ revents, poll (asked nfds sets) = .ok revents → (∃ fd, Marked nfds sets revents POLLNVAL fd) →
      ∀ k S, sets k = some S → ∀ fd, mem S.masks fd = true ↔ Marked nfds sets revents k.event fd
  valid : heap = true → (∃ k fd, Requested nfds sets k fd) →
    ∀ revents, poll (asked nfds sets) = .ok revents → (¬ ∃ fd, Marked nfds sets revents POLLNVAL fd) →
      ∀ i p k, (asked nfds sets)[i]? = some p → has (revents i) k.event = true →
        (sound (revents i) = true ↔ Requested nfds sets k p.fd)

end

/-! ## The sets -/

theorem FdSet.isset_eq (fd : Nat) (set : FdSet) : set.isset fd = mem set.masks fd := by
  rw [FdSet.isset, Bool.eq_iff_iff, decide_eq_true_iff]
  exact and_bit_ne_zero _ fd

theorem FdSet.mem_zero (fd : Nat) : mem FdSet.zero.masks fd = false := mem_replicate_zero _ fd

theorem FdSet.ext_mem {S T : FdSet} (h : ∀ fd, mem S.masks fd = mem T.masks fd) : S = T := by
  obtain ⟨ws, hws⟩ := S
  obtain ⟨vs, hvs⟩ := T
  have hmasks : ws = vs := WordSet.ext_mem (hws.trans hvs.symm) fun i _ => h i
  subst hmasks
  rfl

theorem Mem.store_sets (m : Mem) (k k' : Kind) (set : FdSet) :
    (m.store k set).sets k' = if k' = k then (m.sets k').map fun _ => set else m.sets k' := by
  rw [Mem.store]
  by_cases hk : k' = k
  · subst hk
    cases h : m.sets k' with
    | none => simp [h]
    | some S => simp
  · cases h : m.sets k with
    | none => simp [hk]
    | some S => simp [hk]

/-- Set several descriptors. -/
def setAll (set : FdSet) (fds : List Nat) : FdSet := fds.foldl (fun set fd => set.set fd) set

theorem mem_setAll {fds : List Nat} (hfds : ∀ fd ∈ fds, fd < 8192) (set : FdSet) (j : Nat) :
    mem (setAll set fds).masks j = (mem set.masks j || decide (j ∈ fds)) := by
  induction fds generalizing set with
  | nil => simp [setAll]
  | cons fd fds ih =>
    have hlt : fd < 64 * set.masks.length := by
      rw [set.length]
      exact hfds fd List.mem_cons_self
    rw [setAll, List.foldl_cons]
    refine (ih (fun fd h => hfds fd (List.mem_cons_of_mem _ h)) _).trans ?_
    rw [FdSet.set, mem_insert hlt]
    by_cases hj : j = fd
    · simp [hj]
    · simp [hj]

/-- As many bits as descriptors have been set. -/
theorem bits_setAll {fds : List Nat} (hfds : ∀ fd ∈ fds, fd < 8192) (hnodup : fds.Nodup) :
    bits (some (setAll .zero fds)) = fds.length := by
  have hmem : mem (setAll .zero fds).masks = fun j => decide (j ∈ fds) := by
    funext j
    rw [mem_setAll hfds, FdSet.mem_zero, Bool.false_or]
  have hperm : ((List.range 8192).filter fun j => decide (j ∈ fds)).Perm fds := by
    rw [List.perm_ext_iff_of_nodup (List.nodup_range.filter _) hnodup]
    intro j
    rw [List.mem_filter, List.mem_range, decide_eq_true_iff]
    exact ⟨And.right, fun h => ⟨hfds j h, h⟩⟩
  rw [bits, Option.elim_some, (setAll .zero fds).length, hmem, List.countP_eq_length_filter]
  exact hperm.length_eq

/-! ## The array -/

theorem load_isset (sets : Kind → Option FdSet) (k : Kind) (fd : Nat) :
    ((⟨sets, .zero⟩ : Mem).load k).isset fd = true ↔ ∃ S, sets k = some S ∧ mem S.masks fd = true := by
  rw [FdSet.isset_eq]
  cases h : sets k with
  | none => simp [Mem.load, h, FdSet.mem_zero]
  | some S => simp [Mem.load, h]

theorem isset_iff (sets : Kind → Option FdSet) (fd : Nat) :
    (⟨sets, .zero⟩ : Mem).isset fd = true ↔ ∃ k S, sets k = some S ∧ mem S.masks fd = true := by
  rw [Mem.isset, Bool.or_eq_true, Bool.or_eq_true, load_isset, load_isset, load_isset]
  constructor
  · rintro ((h | h) | h)
    · exact ⟨.read, h⟩
    · exact ⟨.write, h⟩
    · exact ⟨.except, h⟩
  · rintro ⟨k, h⟩
    cases k with
    | read => exact .inl (.inl h)
    | write => exact .inl (.inr h)
    | except => exact .inr h

theorem fillPollfds_fds (m : Mem) (n : Nat) :
    (fillPollfds m n).map Pollfd.fd = (List.range n).filter m.isset := by
  induction n with
  | zero => rfl
  | succ n ih =>
    rw [fillPollfds, List.range_succ, List.filter_append]
    by_cases h : m.isset n = true
    · rw [if_pos h, List.map_append, ih]
      simp [h]
    · rw [if_neg h, ih]
      simp [h]

/-- The second loop fills what the first one has counted. -/
theorem length_fillPollfds (m : Mem) (n : Nat) : (fillPollfds m n).length = countFds m n := by
  induction n with
  | zero => rfl
  | succ n ih =>
    rw [fillPollfds, countFds]
    split
    · rw [List.length_append, ih, List.length_singleton]
    · exact ih

variable {nfds : Int} {sets : Kind → Option FdSet}

/-- The descriptors of the array are those that are asked for. -/
theorem mem_asked_fds {fd : Nat} :
    fd ∈ (asked nfds sets).map Pollfd.fd ↔ ∃ k, Requested nfds sets k fd := by
  rw [asked, fillPollfds_fds, List.mem_filter, List.mem_range, isset_iff]
  constructor
  · rintro ⟨hlt, k, hk⟩
    exact ⟨k, by omega, hk⟩
  · rintro ⟨k, hlt, hk⟩
    exact ⟨by omega, k, hk⟩

theorem nodup_asked_fds : ((asked nfds sets).map Pollfd.fd).Nodup := by
  rw [asked, fillPollfds_fds]
  exact List.nodup_range.filter _

theorem countFds_eq_zero_iff :
    countFds ⟨sets, .zero⟩ nfds.toNat = 0 ↔ ∀ k fd, ¬ Requested nfds sets k fd := by
  have hlength : countFds ⟨sets, .zero⟩ nfds.toNat = ((asked nfds sets).map Pollfd.fd).length := by
    rw [List.length_map, asked, length_fillPollfds]
  rw [hlength, List.length_eq_zero_iff, List.eq_nil_iff_forall_not_mem]
  constructor
  · exact fun h k fd hk => h fd (mem_asked_fds.mpr ⟨k, hk⟩)
  · intro h fd hfd
    obtain ⟨k, hk⟩ := mem_asked_fds.mp hfd
    exact h k fd hk

/-- No descriptor is there twice. -/
theorem asked_unique {i j : Nat} {p q : Pollfd} (hp : (asked nfds sets)[i]? = some p)
    (hq : (asked nfds sets)[j]? = some q) (hfd : p.fd = q.fd) : i = j := by
  have hi : ((asked nfds sets).map Pollfd.fd)[i]? = some p.fd := by rw [List.getElem?_map, hp]; rfl
  have hj : ((asked nfds sets).map Pollfd.fd)[j]? = some p.fd := by
    rw [List.getElem?_map, hq, hfd]
    rfl
  have hlt := (List.getElem?_eq_some_iff.mp hi).1
  exact (List.getElem?_inj hlt nodup_asked_fds).mp (hi.trans hj.symm)

/-! ## The answer -/

/-- The descriptors that an event is reported for, from `pollfds[i]` on. -/
def marks (revents : Nat → BitVec 16) (mask : BitVec 16) : Nat → List Pollfd → List Nat
  | _, [] => []
  | i, p :: ps =>
    if sound (revents i) && has (revents i) mask then p.fd :: marks revents mask (i + 1) ps
    else marks revents mask (i + 1) ps

theorem marks_sublist (revents : Nat → BitVec 16) (mask : BitVec 16) (i : Nat) (ps : List Pollfd) :
    (marks revents mask i ps).Sublist (ps.map Pollfd.fd) := by
  induction ps generalizing i with
  | nil => exact .slnil
  | cons p ps ih =>
    rw [marks, List.map_cons]
    split
    · exact (ih (i + 1)).cons_cons _
    · exact (ih (i + 1)).cons _

theorem mem_marks {revents : Nat → BitVec 16} {mask : BitVec 16} {i : Nat} {ps : List Pollfd} {fd : Nat} :
    fd ∈ marks revents mask i ps ↔ ∃ j p, ps[j]? = some p ∧ p.fd = fd ∧
      sound (revents (i + j)) = true ∧ has (revents (i + j)) mask = true := by
  induction ps generalizing i with
  | nil => simp [marks]
  | cons q ps ih =>
    have hrest : fd ∈ marks revents mask (i + 1) ps ↔ ∃ j p, (q :: ps)[j + 1]? = some p ∧ p.fd = fd ∧
        sound (revents (i + (j + 1))) = true ∧ has (revents (i + (j + 1))) mask = true := by
      rw [ih]
      simp only [List.getElem?_cons_succ, Nat.add_assoc, Nat.add_comm 1]
    rw [marks]
    constructor
    · intro h
      split at h
      · next hq =>
        rcases List.mem_cons.mp h with rfl | h
        · rw [Bool.and_eq_true] at hq
          exact ⟨0, q, rfl, rfl, hq⟩
        · obtain ⟨j, hj⟩ := hrest.mp h
          exact ⟨j + 1, hj⟩
      · obtain ⟨j, hj⟩ := hrest.mp h
        exact ⟨j + 1, hj⟩
    · rintro ⟨j, p, hp, hfd, hsound, hhas⟩
      cases j with
      | zero =>
        cases hp
        rw [Nat.add_zero] at hsound hhas
        rw [hsound, hhas, ← hfd]
        exact List.mem_cons_self
      | succ j =>
        have hmem := hrest.mpr ⟨j, p, hp, hfd, hsound, hhas⟩
        split
        · exact List.mem_cons_of_mem _ hmem
        · exact hmem

/-- Reporting one event. -/
theorem mark_spec (fd : Nat) (revents : BitVec 16) (k : Kind) (s : Loop) :
    (∀ k', (mark fd revents k s).mem.sets k' =
      (s.mem.sets k').map fun S => if k' = k ∧ has revents k.event = true then S.set fd else S) ∧
    (mark fd revents k s).result = s.result + (if has revents k.event then 1 else 0) ∧
    (mark fd revents k s).error = s.error := by
  rw [mark]
  split
  · next h =>
    refine ⟨fun k' => ?_, rfl, rfl⟩
    rw [Mem.store_sets]
    by_cases hk : k' = k
    · subst hk
      cases hS : s.mem.sets k' with
      | none => simp
      | some S => simp [h, Mem.load, hS]
    · simp [hk]
  · next h => simp [h]

theorem has_zero (mask : BitVec 16) : has 0 mask = false := by simp [has]

/-- **One descriptor.** -/
theorem scanFd_spec (fd : Nat) (revents : BitVec 16) (s : Loop) :
    (∀ k, (scanFd fd revents s).mem.sets k =
      (s.mem.sets k).map fun S => if sound revents && has revents k.event then S.set fd else S) ∧
    (scanFd fd revents s).result = s.result +
      (if sound revents && has revents Kind.read.event then 1 else 0) +
      (if sound revents && has revents Kind.write.event then 1 else 0) +
      (if sound revents && has revents Kind.except.event then 1 else 0) ∧
    (scanFd fd revents s).error = (s.error || (sound revents && has revents POLLNVAL)) := by
  rw [scanFd]
  split
  · next h =>
    have hnone : ∀ mask, (sound revents && has revents mask) = false := by
      intro mask
      rcases h with rfl | h
      · rw [has_zero, Bool.and_false]
      · rw [sound, h]
        rfl
    simp [hnone]
  · next h =>
    have hsound : sound revents = true := by
      rw [sound, Bool.not_eq_true']
      exact Bool.eq_false_iff.mpr fun hhas => h (.inr hhas)
    simp only [hsound, Bool.true_and]
    generalize hs : (if has revents POLLNVAL = true then { s with error := true } else s) = s₀
    have hmem : s₀.mem = s.mem := by rw [← hs]; split <;> rfl
    have hresult : s₀.result = s.result := by rw [← hs]; split <;> rfl
    have herror : s₀.error = (s.error || has revents POLLNVAL) := by
      rw [← hs]
      split
      · next hnval => rw [hnval, Bool.or_true]
      · next hnval => rw [Bool.eq_false_iff.mpr hnval, Bool.or_false]
    obtain ⟨hsets₁, hresult₁, herror₁⟩ := mark_spec fd revents .read s₀
    obtain ⟨hsets₂, hresult₂, herror₂⟩ := mark_spec fd revents .write (mark fd revents .read s₀)
    obtain ⟨hsets₃, hresult₃, herror₃⟩ :=
      mark_spec fd revents .except (mark fd revents .write (mark fd revents .read s₀))
    refine ⟨fun k => ?_, by rw [hresult₃, hresult₂, hresult₁, hresult],
      by rw [herror₃, herror₂, herror₁, herror]⟩
    rw [hsets₃, hsets₂, hsets₁, hmem]
    cases k <;> cases s.mem.sets _ <;> simp

/-- **The third loop.** -/
theorem scan_spec (revents : Nat → BitVec 16) (ps : List Pollfd) (i : Nat) (s : Loop) :
    (∀ k, (scan revents i ps s).mem.sets k =
      (s.mem.sets k).map fun S => setAll S (marks revents k.event i ps)) ∧
    (scan revents i ps s).result = s.result + (marks revents Kind.read.event i ps).length +
      (marks revents Kind.write.event i ps).length + (marks revents Kind.except.event i ps).length ∧
    ((scan revents i ps s).error = true ↔ s.error = true ∨ ∃ fd, fd ∈ marks revents POLLNVAL i ps) := by
  induction ps generalizing i s with
  | nil => simp [scan, marks, setAll]
  | cons p ps ih =>
    obtain ⟨hsets, hresult, herror⟩ := scanFd_spec p.fd (revents i) s
    obtain ⟨hsets', hresult', herror'⟩ := ih (i + 1) (scanFd p.fd (revents i) s)
    -- a list with or without its first element
    have hlength : ∀ mask, (marks revents mask i (p :: ps)).length =
        (if sound (revents i) && has (revents i) mask then 1 else 0) +
          (marks revents mask (i + 1) ps).length := by
      intro mask
      rw [marks]
      split
      · rw [List.length_cons]
        omega
      · omega
    refine ⟨fun k => ?_, ?_, ?_⟩
    · rw [scan, hsets', hsets, Option.map_map]
      congr 1
      funext S
      rw [Function.comp_apply, marks]
      split
      · rfl
      · rfl
    · rw [scan, hresult', hresult, hlength, hlength, hlength]
      omega
    · rw [scan, herror', herror, marks]
      split
      · next h => simp [h]
      · next h => simp [h]

/-! ## Outcomes -/

variable {heap : Bool} {poll : Poller}

theorem agrees_error {e : Errno} {sets' : Kind → Option FdSet}
    (h : commonSelect nfds sets heap poll = (.error e, sets')) :
    Agrees nfds sets heap poll ↔ sets' = sets := by
  constructor
  · exact fun hagrees => hagrees.failed e sets' h
  · intro hsame
    refine ⟨fun e' sets'' h' => ?_, fun n sets'' h' => ?_, fun n sets'' h' => ?_⟩
    · cases h.symm.trans h'
      exact hsame
    · cases h.symm.trans h'
    · cases h.symm.trans h'

theorem agrees_ok {n : Nat} {sets' : Kind → Option FdSet}
    (h : commonSelect nfds sets heap poll = (.ok n, sets')) :
    Agrees nfds sets heap poll ↔
      (∀ k S, sets' k = some S →
        ∀ fd, mem S.masks fd = true ↔ Requested nfds sets k fd ∧ Reported nfds sets poll k fd) ∧
      n = bits (sets' .read) + bits (sets' .write) + bits (sets' .except) := by
  constructor
  · exact fun hagrees => ⟨hagrees.left n sets' h, hagrees.count n sets' h⟩
  · rintro ⟨hleft, hcount⟩
    refine ⟨fun e' sets'' h' => ?_, fun n' sets'' h' => ?_, fun n' sets'' h' => ?_⟩
    · cases h.symm.trans h'
    · cases h.symm.trans h'
      exact hleft
    · cases h.symm.trans h'
      exact hcount

/-- The bits of an empty set. -/
theorem bits_eq_zero_iff (set : Option FdSet) :
    bits set = 0 ↔ ∀ S, set = some S → ∀ fd, mem S.masks fd = false := by
  cases set with
  | none => simp [bits]
  | some S =>
    rw [bits, Option.elim_some, List.countP_eq_zero]
    constructor
    · rintro h _ rfl' fd
      cases rfl'
      by_cases hfd : fd < 64 * S.masks.length
      · exact Bool.eq_false_iff.mpr (h fd (List.mem_range.mpr hfd))
      · exact mem_of_ge (Nat.le_of_not_lt hfd)
    · intro h fd _
      rw [h S rfl fd]
      exact Bool.false_ne_true

/-- Nothing is asked for, and `poll` is not called. -/
theorem agrees_idle (hidle : ∀ k fd, ¬ Requested nfds sets k fd)
    (h : commonSelect nfds sets heap poll = (.ok 0, sets)) :
    Agrees nfds sets heap poll ↔ ∀ k S, sets k = some S → ∀ fd, mem S.masks fd = false := by
  rw [agrees_ok h]
  constructor
  · rintro ⟨hleft, -⟩ k S hS fd
    rw [Bool.eq_false_iff]
    exact fun hmem => hidle k fd ((hleft k S hS fd).mp hmem).1
  · intro hempty
    refine ⟨fun k S hS fd => ?_, ?_⟩
    · rw [hempty k S hS fd]
      exact ⟨fun h => absurd h Bool.false_ne_true, fun h => absurd h.1 (hidle k fd)⟩
    · have hzero : ∀ k, bits (sets k) = 0 := fun k => (bits_eq_zero_iff _).mpr (hempty k)
      rw [hzero, hzero, hzero]

/-- The sets when all descriptors have been looked at. -/
def finalSets (nfds : Int) (sets : Kind → Option FdSet) (revents : Nat → BitVec 16) (k : Kind) :
    Option FdSet :=
  (sets k).map fun _ => setAll .zero (marks revents k.event 0 (asked nfds sets))

section

variable {revents : Nat → BitVec 16}

theorem mem_marks_asked {mask : BitVec 16} {fd : Nat} :
    fd ∈ marks revents mask 0 (asked nfds sets) ↔ Marked nfds sets revents mask fd := by
  rw [mem_marks, Marked]
  simp only [Nat.zero_add]

theorem marks_lt (hle : nfds ≤ FD_SETSIZE) {mask : BitVec 16} :
    ∀ fd ∈ marks revents mask 0 (asked nfds sets), fd < 8192 := by
  intro fd hfd
  obtain ⟨k, hlt, -⟩ := mem_asked_fds.mp ((marks_sublist ..).subset hfd)
  rw [FD_SETSIZE] at hle
  omega

/-- What is asked for is in a set. -/
theorem Requested.not_null {k : Kind} {fd : Nat} (h : Requested nfds sets k fd) :
    ¬ (sets .read = none ∧ sets .write = none ∧ sets .except = none) := by
  rintro ⟨hread, hwrite, hexcept⟩
  obtain ⟨-, S, hS, -⟩ := h
  cases k with
  | read => cases hread.symm.trans hS
  | write => cases hwrite.symm.trans hS
  | except => cases hexcept.symm.trans hS

/-- `poll` has answered. -/
theorem commonSelect_polled (hnfds : ¬ (nfds < 0 ∨ nfds > FD_SETSIZE)) (hheap : heap = true)
    (hrequested : ∃ k fd, Requested nfds sets k fd) (hpoll : poll (asked nfds sets) = .ok revents) :
    ((∃ fd, Marked nfds sets revents POLLNVAL fd) →
      commonSelect nfds sets heap poll = (.error .EBADF, finalSets nfds sets revents)) ∧
    ((¬ ∃ fd, Marked nfds sets revents POLLNVAL fd) →
      commonSelect nfds sets heap poll =
        (.ok ((marks revents Kind.read.event 0 (asked nfds sets)).length +
          (marks revents Kind.write.event 0 (asked nfds sets)).length +
          (marks revents Kind.except.event 0 (asked nfds sets)).length),
          finalSets nfds sets revents)) := by
  obtain ⟨k, fd, hk⟩ := hrequested
  have hnull := hk.not_null
  have hcount : countFds ⟨sets, .zero⟩ nfds.toNat ≠ 0 :=
    fun hzero => countFds_eq_zero_iff.mp hzero k fd hk
  generalize hm : (((⟨sets, .zero⟩ : Mem).store .read .zero).store .write .zero).store .except .zero = m
  obtain ⟨hsets, hresult, herror⟩ := scan_spec revents (asked nfds sets) 0 ⟨m, 0, false⟩
  have hfinal : (scan revents 0 (asked nfds sets) ⟨m, 0, false⟩).mem.sets =
      finalSets nfds sets revents := by
    funext k
    rw [hsets, finalSets, ← hm, Mem.store_sets, Mem.store_sets, Mem.store_sets]
    cases k <;> simp [Function.comp_def]
  have herror' : (scan revents 0 (asked nfds sets) ⟨m, 0, false⟩).error = true ↔
      ∃ fd, Marked nfds sets revents POLLNVAL fd := by
    rw [herror]
    simp only [mem_marks_asked, Bool.false_eq_true, false_or]
  have hselect : commonSelect nfds sets heap poll =
      if (scan revents 0 (asked nfds sets) ⟨m, 0, false⟩).error then
        (.error .EBADF, (scan revents 0 (asked nfds sets) ⟨m, 0, false⟩).mem.sets)
      else (.ok (scan revents 0 (asked nfds sets) ⟨m, 0, false⟩).result,
        (scan revents 0 (asked nfds sets) ⟨m, 0, false⟩).mem.sets) := by
    rw [asked] at hpoll
    rw [commonSelect, if_neg hnfds, if_neg hnull]
    simp only [if_neg hcount, hheap, hpoll, hm, asked]
    rfl
  rw [hselect, hfinal]
  constructor
  · intro hinvalid
    rw [if_pos (herror'.mpr hinvalid)]
  · intro hvalid
    rw [if_neg (fun h => hvalid (herror'.mp h)), hresult, Nat.zero_add]

/-- The members of the sets that are left. -/
theorem mem_finalSets (hle : nfds ≤ FD_SETSIZE) {k : Kind} {S : FdSet}
    (hS : finalSets nfds sets revents k = some S) (fd : Nat) :
    mem S.masks fd = true ↔ Marked nfds sets revents k.event fd := by
  obtain ⟨_, -, rfl⟩ := Option.map_eq_some_iff.mp hS
  rw [mem_setAll (marks_lt hle), FdSet.mem_zero, Bool.false_or, decide_eq_true_iff, mem_marks_asked]

theorem bits_finalSets (hle : nfds ≤ FD_SETSIZE) (k : Kind) :
    bits (finalSets nfds sets revents k) =
      if (sets k).isSome then (marks revents k.event 0 (asked nfds sets)).length else 0 := by
  rw [finalSets]
  cases sets k with
  | none => rfl
  | some S =>
    exact bits_setAll (marks_lt hle) ((marks_sublist ..).nodup nodup_asked_fds)

/-- A descriptor that is invalid makes `select` fail with the sets changed. -/
theorem finalSets_eq_iff (hle : nfds ≤ FD_SETSIZE) : finalSets nfds sets revents = sets ↔
    ∀ k S, sets k = some S → ∀ fd, mem S.masks fd = true ↔ Marked nfds sets revents k.event fd := by
  constructor
  · intro h k S hS fd
    exact mem_finalSets hle (by rw [h, hS]) fd
  · intro h
    funext k
    cases hS : sets k with
    | none => rw [finalSets, hS]; rfl
    | some S =>
      have hfinal : finalSets nfds sets revents k =
          some (setAll .zero (marks revents k.event 0 (asked nfds sets))) := by rw [finalSets, hS]; rfl
      rw [hfinal]
      congr 1
      apply FdSet.ext_mem
      intro fd
      rw [Bool.eq_iff_iff, mem_finalSets hle hfinal, h k S hS]

/-- The sets are right and the bits are counted exactly if the events that are reported are asked for at
the sound entries, and at no other. -/
theorem agrees_polled (hle : nfds ≤ FD_SETSIZE) (hpoll : poll (asked nfds sets) = .ok revents)
    (h : commonSelect nfds sets heap poll =
      (.ok ((marks revents Kind.read.event 0 (asked nfds sets)).length +
        (marks revents Kind.write.event 0 (asked nfds sets)).length +
        (marks revents Kind.except.event 0 (asked nfds sets)).length), finalSets nfds sets revents)) :
    Agrees nfds sets heap poll ↔ ∀ i p k, (asked nfds sets)[i]? = some p →
      has (revents i) k.event = true → (sound (revents i) = true ↔ Requested nfds sets k p.fd) := by
  rw [agrees_ok h]
  constructor
  · rintro ⟨hleft, hcount⟩ i p k hp hhas
    constructor
    · intro hsound
      have hmarked : Marked nfds sets revents k.event p.fd := ⟨i, p, hp, rfl, hsound, hhas⟩
      cases hS : sets k with
      | none =>
        -- what is reported for a NULL set is counted
        exfalso
        have hpos : 0 < (marks revents k.event 0 (asked nfds sets)).length :=
          List.length_pos_of_mem (mem_marks_asked.mpr hmarked)
        have hle' : ∀ k, bits (finalSets nfds sets revents k) ≤
            (marks revents k.event 0 (asked nfds sets)).length := by
          intro k
          rw [bits_finalSets hle]
          split
          · exact Nat.le_refl _
          · exact Nat.zero_le _
        have hzero : bits (finalSets nfds sets revents k) = 0 := by rw [bits_finalSets hle, hS]; rfl
        have hread := hle' .read
        have hwrite := hle' .write
        have hexcept := hle' .except
        cases k <;> omega
      | some S =>
        have hfinal : finalSets nfds sets revents k =
            some (setAll .zero (marks revents k.event 0 (asked nfds sets))) := by rw [finalSets, hS]; rfl
        exact ((hleft k _ hfinal p.fd).mp ((mem_finalSets hle hfinal p.fd).mpr hmarked)).1
    · intro hrequested
      obtain ⟨-, S, hS, -⟩ := id hrequested
      have hfinal : finalSets nfds sets revents k =
          some (setAll .zero (marks revents k.event 0 (asked nfds sets))) := by rw [finalSets, hS]; rfl
      have hmem := (hleft k _ hfinal p.fd).mpr ⟨hrequested, revents, hpoll, i, p, hp, rfl, hhas⟩
      obtain ⟨j, q, hq, hfd, hsound, -⟩ := (mem_finalSets hle hfinal p.fd).mp hmem
      rwa [asked_unique hq hp hfd] at hsound
  · intro hevents
    refine ⟨fun k S hS fd => ?_, ?_⟩
    · rw [mem_finalSets hle hS]
      constructor
      · rintro ⟨i, p, hp, rfl, hsound, hhas⟩
        exact ⟨(hevents i p k hp hhas).mp hsound, revents, hpoll, i, p, hp, rfl, hhas⟩
      · rintro ⟨hrequested, revents', hpoll', i, p, hp, rfl, hhas⟩
        cases hpoll.symm.trans hpoll'
        exact ⟨i, p, hp, rfl, (hevents i p k hp hhas).mpr hrequested, hhas⟩
    · have hbits : ∀ k, bits (finalSets nfds sets revents k) =
          (marks revents k.event 0 (asked nfds sets)).length := by
        intro k
        rw [bits_finalSets hle]
        split
        · rfl
        · next hnull =>
          symm
          rw [List.length_eq_zero_iff, List.eq_nil_iff_forall_not_mem]
          intro fd hfd
          obtain ⟨i, p, hp, rfl, hsound, hhas⟩ := mem_marks_asked.mp hfd
          obtain ⟨-, S, hS, -⟩ := (hevents i p k hp hhas).mp hsound
          rw [hS] at hnull
          exact hnull rfl
      rw [hbits, hbits, hbits]

end

/-- **`select` agrees with `poll`** exactly if the descriptors are too many or the answer is reflected. -/
theorem commonSelect_agrees_iff (nfds : Int) (sets : Kind → Option FdSet) (heap : Bool) (poll : Poller) :
    Agrees nfds sets heap poll ↔
      (nfds < 0 ∨ nfds > FD_SETSIZE) ∨ Reflected nfds sets heap poll := by
  by_cases hnfds : nfds < 0 ∨ nfds > FD_SETSIZE
  · have hselect : commonSelect nfds sets heap poll = (.error .EINVAL, sets) := by
      rw [commonSelect, if_pos hnfds]
    rw [agrees_error hselect]
    exact ⟨fun _ => .inl hnfds, fun _ => rfl⟩
  rw [or_iff_right hnfds]
  have hle : nfds ≤ FD_SETSIZE := Int.not_lt.mp fun h => hnfds (.inr h)
  by_cases hidle : ∀ k fd, ¬ Requested nfds sets k fd
  · have hselect : commonSelect nfds sets heap poll = (.ok 0, sets) := by
      rw [commonSelect, if_neg hnfds]
      split
      · rfl
      · simp only [if_pos (countFds_eq_zero_iff.mpr hidle)]
    rw [agrees_idle hidle hselect]
    refine ⟨fun h => ⟨fun _ => h, fun _ ⟨k, fd, hk⟩ => absurd hk (hidle k fd),
      fun _ ⟨k, fd, hk⟩ => absurd hk (hidle k fd)⟩, fun h => h.idle hidle⟩
  · have hrequested : ∃ k fd, Requested nfds sets k fd := by
      simpa only [not_forall, not_not] using hidle
    by_cases hok : heap = true ∧ ∃ revents, poll (asked nfds sets) = .ok revents
    · obtain ⟨hheap, revents, hpoll⟩ := hok
      obtain ⟨hinvalid, hvalid⟩ := commonSelect_polled hnfds hheap hrequested hpoll
      by_cases hnval : ∃ fd, Marked nfds sets revents POLLNVAL fd
      · rw [agrees_error (hinvalid hnval), finalSets_eq_iff hle]
        constructor
        · intro h
          refine ⟨fun h => absurd h hidle, fun _ _ revents' hpoll' _ => ?_,
            fun _ _ revents' hpoll' hnval' => ?_⟩
          · cases hpoll.symm.trans hpoll'
            exact h
          · cases hpoll.symm.trans hpoll'
            exact absurd hnval hnval'
        · exact fun h => h.invalid hheap hrequested revents hpoll hnval
      · rw [agrees_polled hle hpoll (hvalid hnval)]
        constructor
        · intro h
          refine ⟨fun h => absurd h hidle, fun _ _ revents' hpoll' hnval' => ?_,
            fun _ _ revents' hpoll' _ => ?_⟩
          · cases hpoll.symm.trans hpoll'
            exact absurd hnval' hnval
          · cases hpoll.symm.trans hpoll'
            exact h
        · exact fun h => h.valid hheap hrequested revents hpoll hnval
    · -- the heap or `poll` fails before the sets are touched
      obtain ⟨e, hselect⟩ : ∃ e, commonSelect nfds sets heap poll = (.error e, sets) := by
        obtain ⟨k, fd, hk⟩ := hrequested
        rw [commonSelect, if_neg hnfds, if_neg hk.not_null]
        simp only [if_neg fun hzero => countFds_eq_zero_iff.mp hzero k fd hk]
        split
        · exact ⟨_, rfl⟩
        · next hheap =>
          split
          · exact ⟨_, rfl⟩
          · next revents hpoll =>
            exact absurd ⟨by simpa using hheap, revents, hpoll⟩ hok
      rw [agrees_error hselect]
      refine ⟨fun _ => ⟨fun h => absurd h hidle, fun hheap _ revents hpoll => ?_,
        fun hheap _ revents hpoll => ?_⟩, fun _ => rfl⟩
      · exact absurd ⟨hheap, revents, hpoll⟩ hok
      · exact absurd ⟨hheap, revents, hpoll⟩ hok

/-- The read end of a pipe that has data and whose other end is closed. -/
theorem not_commonSelect_agrees : ¬ Agrees 4 (fun k => if k = .read then some (FdSet.zero.set 3) else none)
    true (fun ps => .ok fun i =>
      pollFd (.pipe (some (0, 5, true))) ⟨false, false⟩ ((ps.map Pollfd.events).getD i 0) 0) := by
  intro h
  have hmem := (h.left 0 _ rfl .read _ rfl 3).mpr
    ⟨⟨by decide, _, rfl, by decide⟩, _, rfl, 0, _, rfl, rfl, by decide⟩
  exact absurd hmem (by decide)

end WindowsLibc.Poll
