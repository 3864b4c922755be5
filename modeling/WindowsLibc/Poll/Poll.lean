import Mathlib.Algebra.Order.Ring.Int
import Mathlib.Data.List.Count
import WindowsLibc.Poll.Select

/-!
# Polling (`poll/poll.c`)

`do_poll` goes over the descriptors again and again until one of them reports something or the time is up.

* `pass` is one round, with what the system answers in it, and `doPoll` the loop. A round that is not the last
  reports nothing, so that the next one starts as the first (`doPoll_cases`).
* `expected` is what a descriptor should report: the requested events in the directions that are ready, of
  those the descriptor is open for, and what there is to say about a broken peer.
* A pipe that is open for both directions reports one of them alone, and no broken peer. `reported_iff`: the
  descriptors report what they should exactly if none of them is such a pipe, in a state where it matters.
-/

namespace WindowsLibc.Poll

/-! ## `do_poll` -/

/-- `handle_t`, as far as it matters here. -/
inductive HandleType where
  | INVALID_HANDLE
  | CONSOLE_HANDLE
  | NULL_HANDLE
  | FILE_HANDLE
  | DIRECTORY_HANDLE
  | PIPE_HANDLE
  deriving DecidableEq

/-- What the system answers about a console and about a pipe; `none` for a query that fails. -/
structure Answer where
  eventsRead : Option Nat
  pipeInfo : Option (Nat × Nat × Bool)

def HandleType.handle (type : HandleType) (answer : Answer) : Handle :=
  match type with
  | .INVALID_HANDLE => .invalid
  | .CONSOLE_HANDLE => .console answer.eventsRead
  | .NULL_HANDLE => .file
  | .FILE_HANDLE => .file
  | .DIRECTORY_HANDLE => .file
  | .PIPE_HANDLE => .pipe answer.pipeInfo

/-- An entry of `fds`, with its `pinfo`. -/
structure Entry where
  type : HandleType
  access : Access
  events : BitVec 16
  revents : BitVec 16

/-- The body of the loop. -/
def Entry.poll (e : Entry) (answer : Answer) : Entry :=
  { e with revents := pollFd (e.type.handle answer) e.access e.events e.revents }

/-- One round over the entries from the index `i` on. -/
def pass (answers : Nat → Answer) : Nat → List Entry → Nat → List Entry × Nat
  | _, [], result => ([], result)
  | i, e :: es, result =>
    let e := e.poll (answers i)
    let result := if e.revents ≠ 0 then result + 1 else result
    let (es, result) := pass answers (i + 1) es result
    (e :: es, result)

/-- `while (1)`, from round `k` on. `clock` is the time behind each round, and the first result is the round
that was the last. `none`: the fuel has run out. -/
def pollLoop (clock : Nat → Int) (timed : Bool) (duetime : Int) (answers : Nat → Nat → Answer) :
    Nat → Nat → List Entry → Nat → Option (Nat × List Entry × Nat)
  | 0, _, _, _ => none
  | fuel + 1, k, es, result =>
    let (es, result) := pass (answers k) 0 es result
    if result = 0 then
      let current := if timed then clock k else 0
      if current ≤ duetime then pollLoop clock timed duetime answers fuel (k + 1) es result
      else some (k, es, result)
    else some (k, es, result)

/-- A timeout: seconds and nanoseconds. -/
structure Timespec where
  sec : Int
  nsec : Int

/-- `do_poll`, for so many rounds at most. `now` is the time at its start. -/
def doPoll (now : Int) (clock : Nat → Int) (timeout : Option Timespec) (answers : Nat → Nat → Answer)
    (fuel : Nat) (es : List Entry) : Option (Nat × List Entry × Nat) :=
  let duetime := match timeout with
    | none => 0
    | some t => (now + t.sec * 10000000 + t.nsec.tdiv 100).bmod (2 ^ 64)
  pollLoop clock timeout.isSome duetime answers fuel 0 es 0

/-- What a caller puts into `struct pollfd`. -/
structure Request where
  fd : Int
  events : BitVec 16

/-- `fds[i].revents = 0`, and `get_fdinfo`. -/
def entry (getFdinfo : Int → HandleType × Access) (p : Request) : Entry where
  type := (getFdinfo p.fd).1
  access := (getFdinfo p.fd).2
  events := p.events
  revents := 0

/-- `wlibc_common_poll`, which finds out what the descriptors are. The signal mask is set around `do_poll`. -/
def commonPoll (heap : Bool) (getFdinfo : Int → HandleType × Access) (now : Int) (clock : Nat → Int)
    (timeout : Option Timespec) (answers : Nat → Nat → Answer) (fuel : Nat) (fds : Option (List Request)) :
    Option (Except Errno (Nat × List Entry × Nat)) :=
  match fds with
  | none => some (.error .EINVAL)
  | some fds =>
    if !heap then some (.error .ENOMEM)
    else (doPoll now clock timeout answers fuel (fds.map (entry getFdinfo))).map .ok

/-! ## What is wanted -/

def INPUT : BitVec 16 := POLLIN ||| POLLRDNORM

def OUTPUT : BitVec 16 := POLLOUT ||| POLLWRNORM

def Access.reads (access : Access) : Bool := access.rdwr || !access.wronly

def Access.writes (access : Access) : Bool := access.rdwr || access.wronly

/-- The directions in which a handle is ready, and whether its peer is broken. -/
structure Readiness where
  input : Bool
  output : Bool
  broken : Bool

/-- Files are always ready. `none` for what is not there. -/
def Handle.readiness : Handle → Option Readiness
  | .file => some ⟨true, true, false⟩
  | .pipe (some (writeQuota, readData, closed)) => some ⟨0 < readData, 0 < writeQuota, closed⟩
  | .console (some eventsRead) => some ⟨0 < eventsRead, true, false⟩
  | .pipe none => none
  | .console none => none
  | .invalid => none

/-- What a descriptor should report. -/
def expected (handle : Handle) (access : Access) (events : BitVec 16) : BitVec 16 :=
  match handle.readiness with
  | none => POLLNVAL
  | some ready =>
    (if access.reads && ready.input then events &&& INPUT else 0) |||
      (if access.writes && ready.output then events &&& OUTPUT else 0) |||
      (if access.writes && ready.broken then POLLERR else 0) |||
      (if access.reads && ready.broken then POLLHUP else 0)

/-- Every entry reports what it should in the round with these answers, and the result is the number of those
that report something. -/
def ReportsRight (answers : Nat → Answer) (es es' : List Entry) (result : Nat) : Prop :=
  es'.map Entry.revents =
      es.mapIdx (fun i e => expected (e.type.handle (answers i)) e.access e.events) ∧
    result = es'.countP (fun e => e.revents ≠ 0)

/-- A pipe that is open for both directions and has a broken peer, or is ready in both while output is asked
for. -/
def TwoWay (handle : Handle) (access : Access) (events : BitVec 16) : Prop :=
  match handle with
  | .pipe (some (writeQuota, readData, closed)) =>
    access.rdwr = true ∧ (closed = true ∨ 0 < writeQuota ∧ 0 < readData ∧ events &&& OUTPUT ≠ 0)
  | _ => False

instance (handle : Handle) (access : Access) (events : BitVec 16) : Decidable (TwoWay handle access events) :=
  match handle with
  | .pipe (some (_, _, _)) => inferInstanceAs (Decidable (_ ∧ _))
  | .pipe none | .file | .console _ | .invalid => inferInstanceAs (Decidable False)

/-! ## One descriptor -/

variable {events : BitVec 16}

theorem and_and_of_disjoint {mask mask' : BitVec 16} (h : mask &&& mask' = 0) :
    events &&& mask &&& mask' = 0 := by
  rw [BitVec.and_assoc, h]
  exact BitVec.and_zero

/-- Both directions are one of them only if nothing is asked for in the other. -/
theorem or_eq_left_iff : events &&& INPUT = events &&& INPUT ||| events &&& OUTPUT ↔ events &&& OUTPUT = 0 := by
  constructor
  · intro heq
    have hmasked := congrArg (· &&& OUTPUT) heq
    simp only [BitVec.and_or_distrib_right, and_and_of_disjoint (show INPUT &&& OUTPUT = 0 by decide),
      BitVec.and_assoc events OUTPUT, BitVec.and_self] at hmasked
    rw [← BitVec.zero_or (x := events &&& OUTPUT)]
    exact hmasked.symm
  · intro hzero
    rw [hzero]
    exact BitVec.or_zero.symm

/-- What a pipe reports that is open for one direction. -/
theorem pollFd_one_way {access : Access} (h : access.rdwr = false) (writeQuota readData : Nat) (closed : Bool) :
    pollFd (.pipe (some (writeQuota, readData, closed))) access events 0 =
      expected (.pipe (some (writeQuota, readData, closed))) access events := by
  obtain ⟨rdwr, wronly⟩ := access
  subst h
  cases wronly with
  | true =>
    have hwrites : (⟨false, true⟩ : Access).writes = true := rfl
    have hreads : (⟨false, true⟩ : Access).reads = false := rfl
    cases closed
    · simp [pollFd, expected, Handle.readiness, hwrites, hreads, OUTPUT]
    · simp [pollFd, expected, Handle.readiness, hwrites, hreads, OUTPUT]
  | false =>
    have hwrites : (⟨false, false⟩ : Access).writes = false := rfl
    have hreads : (⟨false, false⟩ : Access).reads = true := rfl
    cases closed
    · simp [pollFd, expected, Handle.readiness, hwrites, hreads, INPUT]
    · simp [pollFd, expected, Handle.readiness, hwrites, hreads, INPUT]

/-- Requested events are no errors. -/
theorem requested_and_error (p q : Prop) [Decidable p] [Decidable q] :
    (if p then events &&& INPUT else if q then events &&& OUTPUT else 0) &&& POLLERR = 0 := by
  split
  · exact and_and_of_disjoint (by decide)
  · split
    · exact and_and_of_disjoint (by decide)
    · exact BitVec.zero_and

theorem pollFd_two_way {access : Access} (h : access.rdwr = true) (writeQuota readData : Nat) (closed : Bool) :
    pollFd (.pipe (some (writeQuota, readData, closed))) access events 0 =
        expected (.pipe (some (writeQuota, readData, closed))) access events ↔
      ¬ (closed = true ∨ 0 < writeQuota ∧ 0 < readData ∧ events &&& OUTPUT ≠ 0) := by
  have hreads : access.reads = true := by rw [Access.reads, h]; rfl
  have hwrites : access.writes = true := by rw [Access.writes, h]; rfl
  have hpoll : pollFd (.pipe (some (writeQuota, readData, closed))) access events 0 =
      if readData > 0 then events &&& INPUT else if writeQuota > 0 then events &&& OUTPUT else 0 := by
    simp only [pollFd, h, if_true, INPUT, OUTPUT]
  have hexpected : expected (.pipe (some (writeQuota, readData, closed))) access events =
      (if 0 < readData then events &&& INPUT else 0) ||| (if 0 < writeQuota then events &&& OUTPUT else 0) |||
        (if closed = true then POLLERR else 0) ||| (if closed = true then POLLHUP else 0) := by
    simp only [expected, Handle.readiness, hreads, hwrites, Bool.true_and, decide_eq_true_eq]
  cases closed with
  | true =>
    -- the error is missing
    refine ⟨fun heq => ?_, fun hnot => absurd (.inl rfl) hnot⟩
    have hmasked := congrArg (· &&& POLLERR) heq
    simp only [hpoll, hexpected, requested_and_error, if_true, BitVec.and_or_distrib_right] at hmasked
    have hbit := congrArg (·.getLsbD 3) hmasked
    simp [POLLERR, POLLHUP] at hbit
  | false =>
    rw [hpoll, hexpected]
    simp only [Bool.false_eq_true, if_false, false_or]
    by_cases hread : 0 < readData
    · by_cases hwrite : 0 < writeQuota
      · have hiff := @or_eq_left_iff events
        simp only [hread, hwrite, if_true, true_and, not_not]
        simpa using hiff
      · simp [hread, hwrite]
    · simp [hread]

/-- A descriptor that is no console reports what it should, unless it is two-way. -/
theorem pollFd_eq_expected_iff {handle : Handle} (hconsole : ∀ answer, handle ≠ .console answer)
    (access : Access) : pollFd handle access events 0 = expected handle access events ↔
      ¬ TwoWay handle access events := by
  match handle with
  | .invalid => exact iff_of_true rfl id
  | .console answer => exact absurd rfl (hconsole answer)
  | .pipe none => exact iff_of_true rfl id
  | .file =>
    refine iff_of_true ?_ id
    obtain ⟨rdwr, wronly⟩ := access
    cases rdwr with
    | true =>
      have hmask : POLLIN ||| POLLOUT ||| POLLRDNORM ||| POLLWRNORM = INPUT ||| OUTPUT := by decide
      simp [pollFd, expected, Handle.readiness, Access.reads, Access.writes, hmask, BitVec.and_or_distrib_left]
    | false =>
      cases wronly
      · simp [pollFd, expected, Handle.readiness, Access.reads, Access.writes, INPUT]
      · simp [pollFd, expected, Handle.readiness, Access.reads, Access.writes, OUTPUT]
  | .pipe (some (writeQuota, readData, closed)) =>
    cases hrdwr : access.rdwr with
    | false =>
      refine iff_of_true (pollFd_one_way hrdwr writeQuota readData closed) ?_
      rintro ⟨htrue, _⟩
      rw [hrdwr] at htrue
      cases htrue
    | true =>
      rw [pollFd_two_way hrdwr, TwoWay, hrdwr]
      simp only [true_and]

/-! ## Rounds -/

theorem pass_eq (answers : Nat → Answer) (i : Nat) (es : List Entry) (result : Nat) :
    pass answers i es result = (es.mapIdx (fun j e => e.poll (answers (i + j))),
      result + (es.mapIdx (fun j e => e.poll (answers (i + j)))).countP (fun e => e.revents ≠ 0)) := by
  induction es generalizing i result with
  | nil => rfl
  | cons e es ih =>
    have hshift : es.mapIdx (fun j e => e.poll (answers (i + 1 + j))) =
        es.mapIdx (fun j e => e.poll (answers (i + (j + 1)))) := by
      simp only [Nat.add_assoc, Nat.add_comm 1]
    rw [pass]
    simp only [ih, hshift, List.mapIdx_cons, Nat.add_zero, List.countP_cons]
    by_cases hrevents : (e.poll (answers i)).revents ≠ 0
    · simp only [if_pos hrevents, decide_eq_true hrevents, if_true, Prod.mk.injEq, true_and]
      omega
    · simp only [if_neg hrevents, decide_eq_false hrevents, Bool.false_eq_true, if_false, Nat.add_zero]

/-- Entries that report nothing, as they are at the start. -/
def Silent (es : List Entry) : Prop := ∀ e ∈ es, e.revents = 0

/-- A round that reports nothing leaves the entries as they were. -/
theorem pass_silent {answers : Nat → Answer} {es : List Entry} (h : Silent es)
    (hzero : (pass answers 0 es 0).2 = 0) : (pass answers 0 es 0).1 = es := by
  rw [pass_eq] at hzero ⊢
  simp only [Nat.zero_add, List.countP_eq_zero] at hzero ⊢
  apply List.ext_getElem
  · exact List.length_mapIdx
  · intro i hi hi'
    have hpolled := hzero _ (List.getElem_mem hi)
    have hstart := h _ (List.getElem_mem hi')
    simp only [List.getElem_mapIdx, decide_eq_true_eq, not_not] at hpolled ⊢
    rw [Entry.poll] at hpolled ⊢
    simp only at hpolled
    rw [hpolled, ← hstart]

/-- The last round is like a first one. -/
theorem pollLoop_cases {clock : Nat → Int} {timed : Bool} {duetime : Int} {answers : Nat → Nat → Answer}
    {fuel k k' : Nat} {es es' : List Entry} {result : Nat} (hsilent : Silent es)
    (h : pollLoop clock timed duetime answers fuel k es 0 = some (k', es', result)) :
    (es', result) = pass (answers k') 0 es 0 := by
  induction fuel generalizing k with
  | zero => cases h
  | succ fuel ih =>
    rw [pollLoop] at h
    have hsame := @pass_silent (answers k) _ hsilent
    generalize hpass : pass (answers k) 0 es 0 = r at h hsame
    obtain ⟨es₁, result₁⟩ := r
    have hlast : some (k, es₁, result₁) = some (k', es', result) → (es', result) = pass (answers k') 0 es 0 := by
      intro heq
      cases heq
      exact hpass.symm
    simp only at h hsame
    split at h
    · next hzero =>
      generalize (if timed = true then clock k else 0) = current at h
      split at h
      · rw [hzero, hsame hzero] at h
        exact ih h
      · exact hlast h
    · exact hlast h

/-- What is reported at the end is what one round reports. -/
theorem commonPoll_cases {heap : Bool} {getFdinfo : Int → HandleType × Access} {now : Int} {clock : Nat → Int}
    {timeout : Option Timespec} {answers : Nat → Nat → Answer} {fuel k : Nat} {fds : List Request}
    {es' : List Entry} {result : Nat}
    (h : commonPoll heap getFdinfo now clock timeout answers fuel (some fds) = some (.ok (k, es', result))) :
    es' = (fds.map (entry getFdinfo)).mapIdx (fun i e => e.poll (answers k i)) ∧
      result = es'.countP (fun e => e.revents ≠ 0) := by
  rw [commonPoll] at h
  have hsilent : Silent (fds.map (entry getFdinfo)) := by
    intro e he
    obtain ⟨p, _, rfl⟩ := List.mem_map.mp he
    rfl
  split at h
  · cases h
  · obtain ⟨r, hloop, heq⟩ := Option.map_eq_some_iff.mp h
    cases heq
    have hlast := pollLoop_cases hsilent hloop
    rw [pass_eq] at hlast
    simp only [Nat.zero_add] at hlast
    cases hlast
    exact ⟨rfl, rfl⟩

theorem HandleType.handle_ne_console {type : HandleType} (h : type ≠ .CONSOLE_HANDLE) (answer : Answer)
    (eventsRead : Option Nat) : type.handle answer ≠ .console eventsRead := by
  intro heq
  cases type with
  | CONSOLE_HANDLE => exact h rfl
  | _ => cases heq

/-- **`poll`** reports for every descriptor what it should, and counts those that report something, exactly if
none of them is a pipe for both directions with a broken peer, or ready in both with output asked for. -/
theorem reported_iff (heap : Bool) (getFdinfo : Int → HandleType × Access) (now : Int) (clock : Nat → Int)
    (timeout : Option Timespec) (answers : Nat → Nat → Answer) (fuel : Nat) (fds : List Request)
    (hconsole : ∀ p ∈ fds, (getFdinfo p.fd).1 ≠ .CONSOLE_HANDLE) {k : Nat} {es' : List Entry} {result : Nat}
    (h : commonPoll heap getFdinfo now clock timeout answers fuel (some fds) = some (.ok (k, es', result))) :
    ReportsRight (answers k) (fds.map (entry getFdinfo)) es' result ↔
      ∀ (i : Nat) (hi : i < fds.length), ¬ TwoWay ((getFdinfo fds[i].fd).1.handle (answers k i))
        (getFdinfo fds[i].fd).2 fds[i].events := by
  obtain ⟨rfl, hresult⟩ := commonPoll_cases h
  have hiff : ∀ (i : Nat) (hi : i < fds.length),
      ((entry getFdinfo fds[i]).poll (answers k i)).revents =
          expected ((getFdinfo fds[i].fd).1.handle (answers k i)) (getFdinfo fds[i].fd).2 fds[i].events ↔
        ¬ TwoWay ((getFdinfo fds[i].fd).1.handle (answers k i)) (getFdinfo fds[i].fd).2 fds[i].events := by
    intro i hi
    apply pollFd_eq_expected_iff
    exact HandleType.handle_ne_console (hconsole _ (List.getElem_mem hi)) _
  have hlist : ((fds.map (entry getFdinfo)).mapIdx (fun i e => e.poll (answers k i))).map Entry.revents =
        (fds.map (entry getFdinfo)).mapIdx
          (fun i e => expected (e.type.handle (answers k i)) e.access e.events) ↔
      ∀ (i : Nat) (hi : i < fds.length), ((entry getFdinfo fds[i]).poll (answers k i)).revents =
        expected ((getFdinfo fds[i].fd).1.handle (answers k i)) (getFdinfo fds[i].fd).2 fds[i].events := by
    constructor
    · intro heq i hi
      have hget := congrArg (fun l => l[i]?) heq
      simpa [hi, entry] using hget
    · intro hall
      apply List.ext_getElem
      · simp
      · intro i hi _
        simp only [List.length_map, List.length_mapIdx] at hi
        simpa [entry] using hall i hi
  rw [ReportsRight, hlist, and_iff_left hresult]
  exact forall₂_congr hiff

/-- Descriptor 0 is a file for both directions, 1 the reading end of a pipe and 2 a pipe for both directions. -/
def someFds : Int → HandleType × Access
  | 0 => (.FILE_HANDLE, ⟨true, false⟩)
  | 1 => (.PIPE_HANDLE, ⟨false, false⟩)
  | 2 => (.PIPE_HANDLE, ⟨true, false⟩)
  | _ => (.INVALID_HANDLE, ⟨false, false⟩)

/-- The pipes are ready in both directions. -/
def allReady (_ _ : Nat) : Answer := ⟨none, some (1, 1, false)⟩

theorem reported_file : ∃ es' result,
    commonPoll true someFds 0 (fun _ => 0) none allReady 1 (some [⟨0, 5⟩, ⟨1, 1⟩, ⟨2, 1⟩, ⟨9, 1⟩]) =
        some (.ok (0, es', result)) ∧
      ReportsRight (allReady 0) ([⟨0, 5⟩, ⟨1, 1⟩, ⟨2, 1⟩, ⟨9, 1⟩].map (entry someFds)) es' result :=
  ⟨_, _, rfl, (reported_iff true someFds 0 (fun _ => 0) none allReady 1 _ (by decide) rfl).mpr (by decide)⟩

/-- Output is asked for as well, and not reported. -/
theorem not_reported_pipe : ∃ es' result,
    commonPoll true someFds 0 (fun _ => 0) none allReady 1 (some [⟨2, 5⟩]) = some (.ok (0, es', result)) ∧
      ¬ ReportsRight (allReady 0) ([⟨2, 5⟩].map (entry someFds)) es' result :=
  ⟨_, _, rfl, fun h => absurd h.1 (by decide)⟩

end WindowsLibc.Poll
