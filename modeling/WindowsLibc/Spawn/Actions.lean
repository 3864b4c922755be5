import WindowsLibc.Spawn.Inherit

/-!
# File actions (`spawn/spawn.c`, `spawn/actions.c`)

`wlibc_common_spawn` performs a list of actions on the copy of the table that the child is to inherit. An
`open` binds a descriptor in the copy. A `close` and a `dup2` look their descriptor up in the table of the
parent, though, and not in the copy.

* What the kernel answers in an action is an `Answer`, and what the actions do to handles is a list of
  `Effect`s.
* Whether an action succeeds depends on the table of the parent alone (`performAction_eq`), so the actions
  that are performed are the longest front of the list that succeeds (`performActions_eq`).
* `FdMap.perform` says what an action is for: it works on the table as the actions before it have left it.
* `composes_iff`: the loop is a fold of the actions exactly if the parent and the copy agree wherever a
  descriptor is looked up.
-/

namespace WindowsLibc.Spawn

open WindowsLibc.Lib WindowsLibc.Fcntl

/-! ## The model -/

/-- `spawn_action`. -/
inductive SpawnAction where
  | openFd (fd : Int) (oflag : UInt32) (mode : UInt32) (path : List UInt8)
  | closeFd (fd : Int)
  | dup2 (oldfd newfd : Int)
  | chdir (path : List UInt8)
  | fchdir (fd : Int)
  | vmAlloc
  | vmWrite
  deriving DecidableEq

/-- The descriptors have passed `SIMPLE_VALIDATE_FD`. -/
def SpawnAction.Valid : SpawnAction → Prop
  | .openFd fd _ _ _ => 0 ≤ fd
  | .closeFd fd => 0 ≤ fd
  | .dup2 oldfd newfd => 0 ≤ oldfd ∧ 0 ≤ newfd
  | .fchdir fd => 0 ≤ fd
  | _ => True

instance (a : SpawnAction) : Decidable a.Valid := by
  cases a <;> unfold SpawnAction.Valid <;> infer_instance

/-- What the kernel answers: the handle that `do_os_open` gives (NULL if it fails) and its type, and whether
the other call of an action succeeds (`NtSetInformationObject`, or finding the directory). -/
structure Answer where
  handle : UInt64
  type : HandleType
  status : Bool
  deriving DecidableEq

/-- The values of `errno`; `os` is for what `do_os_open`, `get_absolute_dospath` and
`map_ntstatus_to_errno` choose. -/
inductive SpawnErrno where
  | einval | enomem | ebadf | os
  deriving DecidableEq

/-- What is done to a handle. -/
inductive Effect where
  | opened (handle : UInt64)
  | setInherit (handle : UInt64) (inherit : Bool)
  | closed (handle : UInt64)
  deriving DecidableEq

/-- `O_NOINHERIT`. -/
def oNoinherit : UInt32 := 0x80

/-- The copy of the table, and what has been done so far. -/
structure SpawnState where
  info : InheritInformation
  effects : List Effect

/-- `inherit_info.fdinfo[fd] = e`. -/
def SpawnState.set (s : SpawnState) (fd : Int) (e : InheritFdinfo) (effects : List Effect) :
    Option SpawnState :=
  if 0 ≤ fd ∧ fd < s.info.length then
    some ⟨List.set s.info fd.toNat e, s.effects ++ effects⟩
  else none

/-- One action; `local` is the uninitialised `fdinfo` of a block. -/
def performAction (t : FdTable) (fdinfo : FdInfo) (s : SpawnState) (action : SpawnAction)
    (answer : Answer) : Option (Except SpawnErrno Unit × SpawnState) :=
  match action with
  | .openFd fd oflag _ _ =>
    if answer.handle = 0 then some (.error .os, s)
    else
      (s.set fd ⟨answer.handle, answer.type, oflag⟩ [.opened answer.handle]).map (.ok (), ·)
  | .closeFd fd =>
    let info := getFdinfo t fd fdinfo
    if info.type = .invalid then some (.error .ebadf, s)
    else if info.flags &&& oNoinherit = 0 then
      if answer.status then (s.set fd .none [.setInherit info.handle false]).map (.ok (), ·)
      else some (.error .os, s)
    else (s.set fd .none []).map (.ok (), ·)
  | .dup2 oldfd newfd =>
    let info := getFdinfo t oldfd fdinfo
    let e : InheritFdinfo := ⟨info.handle, info.type, info.flags &&& ~~~oNoinherit⟩
    if info.type = .invalid then some (.error .ebadf, s)
    else if info.flags &&& oNoinherit ≠ 0 then
      if answer.status then (s.set newfd e [.setInherit info.handle true]).map (.ok (), ·)
      else some (.error .os, s)
    else (s.set newfd e []).map (.ok (), ·)
  | .chdir _ => if answer.status then some (.ok (), s) else some (.error .os, s)
  | .fchdir _ => if answer.status then some (.ok (), s) else some (.error .ebadf, s)
  | .vmAlloc => some (.ok (), s)
  | .vmWrite => some (.ok (), s)

/-- An action, with what the kernel answers in it. -/
abbrev Attempt := SpawnAction × Answer

/-- The loop over the actions. -/
def performActions (t : FdTable) (fdinfo : FdInfo) (s : SpawnState) :
    List Attempt → Option (Except SpawnErrno Unit × SpawnState)
  | [] => some (.ok (), s)
  | a :: rest =>
    (performAction t fdinfo s a.1 a.2).bind fun
      | (.ok (), s) => performActions t fdinfo s rest
      | (.error e, s) => some (.error e, s)

/-- What is counted before the actions are performed. -/
structure ActionCounts where
  maxFdRequested : Int := 0
  chdirs : Nat := 0
  vmAllocs : Nat := 0
  vmWrites : Nat := 0

/-- One action is counted. -/
def ActionCounts.count (c : ActionCounts) : SpawnAction → ActionCounts
  | .openFd fd _ _ _ => { c with maxFdRequested := max fd c.maxFdRequested }
  | .closeFd _ => c
  | .dup2 _ newfd => { c with maxFdRequested := max newfd c.maxFdRequested }
  | .chdir _ => { c with chdirs := c.chdirs + 1 }
  | .fchdir _ => { c with chdirs := c.chdirs + 1 }
  | .vmAlloc => { c with vmAllocs := c.vmAllocs + 1 }
  | .vmWrite => { c with vmWrites := c.vmWrites + 1 }

/-- The loop that counts, and rejects lists that it finds wrong. -/
def countActions (c : ActionCounts) : List SpawnAction → Except SpawnErrno ActionCounts
  | [] => .ok c
  | a :: rest =>
    let c := c.count a
    if c.chdirs > 2 ∨ (c.vmWrites > 1 ∧ c.vmAllocs = 0) then .error .einval else countActions c rest

/-- `__max(max_fd_requested, (int)(_wlibc_fd_table_size - 1))`. -/
def ActionCounts.maxFd (c : ActionCounts) (t : FdTable) : Int :=
  max c.maxFdRequested (castInt ((t.size + (2 ^ 64 - 1)) % 2 ^ 64))

/-! ## The room in the copy -/

/-- The descriptor that an action writes to. -/
def SpawnAction.target : SpawnAction → Option Int
  | .openFd fd _ _ _ => some fd
  | .closeFd fd => some fd
  | .dup2 _ newfd => some newfd
  | _ => none

/-- The copy has an entry for the descriptors of the parent, and for those that the actions bind. -/
structure Roomy (t : FdTable) (info : InheritInformation) (a : SpawnAction) : Prop where
  parent : t.size ≤ info.length
  bound : a.target = none ∨ (∃ fd, a = .closeFd fd) ∨ ∀ fd, a.target = some fd → fd < info.length

theorem le_count (c : ActionCounts) (a : SpawnAction) :
    c.maxFdRequested ≤ (c.count a).maxFdRequested := by
  unfold ActionCounts.count
  split
  all_goals first | exact Int.le_max_right _ _ | exact Int.le_refl _

theorem countActions_spec {c c' : ActionCounts} {actions : List SpawnAction}
    (h : countActions c actions = .ok c') :
    c.maxFdRequested ≤ c'.maxFdRequested ∧
      ∀ a ∈ actions, (∃ fd, a = .closeFd fd) ∨ ∀ fd, a.target = some fd → fd ≤ c'.maxFdRequested := by
  induction actions generalizing c with
  | nil =>
    cases h
    exact ⟨Int.le_refl _, fun a ha => absurd ha List.not_mem_nil⟩
  | cons a rest ih =>
    rw [countActions] at h
    split at h
    · cases h
    · obtain ⟨hle, hrest⟩ := ih h
      have hfirst : (∃ fd, a = .closeFd fd) ∨
          ∀ fd, a.target = some fd → fd ≤ (c.count a).maxFdRequested := by
        cases a with
        | closeFd fd => exact .inl ⟨fd, rfl⟩
        | openFd fd oflag mode path =>
          refine .inr ?_
          rintro _ ⟨⟩
          exact Int.le_max_left _ _
        | dup2 oldfd newfd =>
          refine .inr ?_
          rintro _ ⟨⟩
          exact Int.le_max_left _ _
        | _ =>
          refine .inr ?_
          rintro _ ⟨⟩
      refine ⟨(le_count c a).trans hle, ?_⟩
      intro b hb
      rcases List.mem_cons.mp hb with rfl | hb
      · exact hfirst.imp_right fun hfd fd htarget => (hfd fd htarget).trans hle
      · exact hrest b hb

theorem maxFd_parent {t : FdTable} (hpos : 0 < t.size) (hsize : t.size < 2 ^ 31) :
    castInt ((t.size + (2 ^ 64 - 1)) % 2 ^ 64) = t.size - 1 := by
  rw [show (t.size + (2 ^ 64 - 1)) % 2 ^ 64 = t.size - 1 by omega, castInt_of_lt (by omega)]
  omega

/-- **The copy is large enough.** -/
theorem roomy_of_count {t : FdTable} {actions : List SpawnAction} {c : ActionCounts}
    {info : InheritInformation} (hcount : countActions {} actions = .ok c)
    (hpos : 0 < t.size) (hsize : t.size < 2 ^ 31)
    (hcopy : initializeInheritInformation true t (c.maxFd t) = some (.ok info)) :
    ∀ a ∈ actions, Roomy t info a := by
  have hlength := length_initialize hcopy
  rw [ActionCounts.maxFd, maxFd_parent hpos hsize] at hlength
  intro a ha
  refine ⟨by omega, .inr ?_⟩
  rcases (countActions_spec hcount).2 a ha with hclose | htarget
  · exact .inl hclose
  · refine .inr fun fd hfd => ?_
    have hle := htarget fd hfd
    omega

/-! ## What an action does -/

variable {t : FdTable} {fdinfo : FdInfo} {s : SpawnState} {a : Attempt}

/-- What `get_fdinfo` finds in the table of the parent. -/
def lookup (t : FdTable) (fd : Int) : Option Binding :=
  let e := getFdinfo t fd ⟨0, .invalid, 0, 0⟩
  if e.type = .invalid then none else some ⟨e.handle, e.type, e.flags⟩

/-- `get_fdinfo` finds an entry, or says that there is none. -/
theorem getFdinfo_cases (t : FdTable) (fd : Int) :
    (∃ e : FdInfo, 0 ≤ fd ∧ fd < t.size ∧ e.handle ≠ 0 ∧ ∀ fdinfo, getFdinfo t fd fdinfo = e) ∨
      ∀ fdinfo, (getFdinfo t fd fdinfo).type = .invalid := by
  unfold getFdinfo
  by_cases hvalid : validateFd t fd = true
  · simp only [hvalid, if_true]
    unfold validateFd at hvalid
    split at hvalid
    · cases hvalid
    · next hrange =>
      obtain ⟨e, hentry, hhandle⟩ := (Option.any_eq_true _ _).mp hvalid
      have hlt := (List.getElem?_eq_some_iff.mp hentry).1
      rw [hentry]
      unfold FdTable.size
      exact .inl ⟨e, by omega, by omega, bne_iff_ne.mp hhandle, fun _ => rfl⟩
  · right
    intro fdinfo
    rw [if_neg hvalid]

theorem lookup_none {fd : Int} (h : lookup t fd = none) (fdinfo : FdInfo) :
    (getFdinfo t fd fdinfo).type = .invalid := by
  rcases getFdinfo_cases t fd with ⟨e, -, -, -, hentry⟩ | hnone
  · unfold lookup at h
    rw [hentry] at h ⊢
    by_contra hne
    rw [if_neg hne] at h
    cases h
  · exact hnone fdinfo

theorem lookup_some {fd : Int} {b : Binding} (h : lookup t fd = some b) :
    0 ≤ fd ∧ fd < t.size ∧ b.handle ≠ 0 ∧ ∀ fdinfo,
      (getFdinfo t fd fdinfo).handle = b.handle ∧ (getFdinfo t fd fdinfo).type = b.type ∧
        (getFdinfo t fd fdinfo).flags = b.flags ∧ b.type ≠ .invalid := by
  unfold lookup at h
  rcases getFdinfo_cases t fd with ⟨e, hlow, hhigh, hhandle, hentry⟩ | hnone
  · simp only [hentry] at h ⊢
    split at h
    · cases h
    · next htype =>
      cases h
      exact ⟨hlow, hhigh, hhandle, fun _ => ⟨rfl, rfl, rfl, htype⟩⟩
  · simp only [hnone, if_true] at h
    cases h

/-- The action succeeds. -/
def Succeeds (t : FdTable) (a : Attempt) : Bool :=
  match a.1 with
  | .openFd _ _ _ _ => a.2.handle ≠ 0
  | .closeFd fd => (lookup t fd).any fun b => b.flags &&& oNoinherit ≠ 0 || a.2.status
  | .dup2 oldfd _ => (lookup t oldfd).any fun b => b.flags &&& oNoinherit = 0 || a.2.status
  | .chdir _ => a.2.status
  | .fchdir _ => a.2.status
  | .vmAlloc => true
  | .vmWrite => true

/-- The error of one that does not. -/
def errorOf (t : FdTable) (a : Attempt) : SpawnErrno :=
  match a.1 with
  | .closeFd fd => if lookup t fd = none then .ebadf else .os
  | .dup2 oldfd _ => if lookup t oldfd = none then .ebadf else .os
  | .fchdir _ => .ebadf
  | _ => .os

/-- A binding without `O_NOINHERIT`. -/
def inheritable (b : Binding) : Binding := { b with flags := b.flags &&& ~~~oNoinherit }

/-- An entry for a binding. -/
def InheritFdinfo.ofBinding (b : Binding) : InheritFdinfo := ⟨b.handle, b.type, b.flags⟩

/-- The entry that an action writes. -/
def written (t : FdTable) (a : Attempt) : Option (Int × InheritFdinfo) :=
  match a.1 with
  | .openFd fd oflag _ _ => some (fd, ⟨a.2.handle, a.2.type, oflag⟩)
  | .closeFd fd => some (fd, .none)
  | .dup2 oldfd newfd => (lookup t oldfd).map fun b => (newfd, .ofBinding (inheritable b))
  | _ => none

/-- What an action does to handles. -/
def effectsOf (t : FdTable) (a : Attempt) : List Effect :=
  match a.1 with
  | .openFd _ _ _ _ => [.opened a.2.handle]
  | .closeFd fd =>
    match lookup t fd with
    | none => []
    | some b => if b.flags &&& oNoinherit = 0 then [.setInherit b.handle false] else []
  | .dup2 oldfd _ =>
    match lookup t oldfd with
    | none => []
    | some b => if b.flags &&& oNoinherit ≠ 0 then [.setInherit b.handle true] else []
  | _ => []

/-- The state behind an action. -/
def SpawnState.after (t : FdTable) (s : SpawnState) (a : Attempt) : SpawnState where
  info := match written t a with
    | none => s.info
    | some (fd, e) => List.set s.info fd.toNat e
  effects := s.effects ++ effectsOf t a

theorem length_after (t : FdTable) (s : SpawnState) (a : Attempt) :
    (s.after t a).info.length = s.info.length := by
  unfold SpawnState.after
  dsimp only
  split
  · rfl
  · exact List.length_set

theorem set_eq {fd : Int} (hfd : 0 ≤ fd) (hlt : fd < s.info.length) (e : InheritFdinfo)
    (effects : List Effect) :
    s.set fd e effects = some ⟨List.set s.info fd.toNat e, s.effects ++ effects⟩ := if_pos ⟨hfd, hlt⟩

/-- **What an action does depends on the table of the parent**, and on the kernel. -/
theorem performAction_eq (hvalid : a.1.Valid) (hroom : Roomy t s.info a.1) (fdinfo : FdInfo) :
    performAction t fdinfo s a.1 a.2 =
      some (if Succeeds t a then (.ok (), s.after t a) else (.error (errorOf t a), s)) := by
  obtain ⟨action, answer⟩ := a
  have hparent := hroom.parent
  cases action with
  | openFd fd oflag mode path =>
    have hlt : fd < s.info.length := by
      rcases hroom.bound with h | ⟨_, h⟩ | h
      · cases h
      · cases h
      · exact h fd rfl
    by_cases hopen : answer.handle = 0
    · simp [performAction, Succeeds, errorOf, hopen]
    · simp [performAction, Succeeds, SpawnState.after, written, effectsOf, hopen,
        set_eq (show 0 ≤ fd from hvalid) hlt]
  | closeFd fd =>
    cases hlookup : lookup t fd with
    | none => simp [performAction, Succeeds, errorOf, lookup_none hlookup, hlookup]
    | some b =>
      obtain ⟨hlow, hhigh, -, hfields⟩ := lookup_some hlookup
      obtain ⟨hhandle, htype, hflags, hne⟩ := hfields fdinfo
      have hset (e : InheritFdinfo) (effects : List Effect) := set_eq (s := s) hlow (by omega) e effects
      by_cases hinherit : b.flags &&& oNoinherit = 0
      · cases hstatus : answer.status <;>
          simp [performAction, Succeeds, errorOf, SpawnState.after, written, effectsOf, hlookup, hhandle,
            htype, hflags, hne, hinherit, hstatus, hset]
      · simp [performAction, Succeeds, SpawnState.after, written, effectsOf, hlookup, htype, hflags,
          hne, hinherit, hset]
  | dup2 oldfd newfd =>
    have hlt : newfd < s.info.length := by
      rcases hroom.bound with h | ⟨_, h⟩ | h
      · cases h
      · cases h
      · exact h newfd rfl
    cases hlookup : lookup t oldfd with
    | none => simp [performAction, Succeeds, errorOf, lookup_none hlookup, hlookup]
    | some b =>
      obtain ⟨-, -, -, hfields⟩ := lookup_some hlookup
      obtain ⟨hhandle, htype, hflags, hne⟩ := hfields fdinfo
      have hset (e : InheritFdinfo) (effects : List Effect) :=
        set_eq (s := s) (show 0 ≤ newfd from hvalid.2) hlt e effects
      by_cases hinherit : b.flags &&& oNoinherit = 0
      · simp [performAction, Succeeds, SpawnState.after, written, effectsOf, inheritable,
          InheritFdinfo.ofBinding, hlookup, hhandle, htype, hflags, hne, hinherit, hset]
      · cases hstatus : answer.status <;>
          simp [performAction, Succeeds, errorOf, SpawnState.after, written, effectsOf, inheritable,
            InheritFdinfo.ofBinding, hlookup, hhandle, htype, hflags, hne, hinherit, hstatus, hset]
  | chdir path =>
    cases hstatus : answer.status <;>
      simp [performAction, Succeeds, errorOf, SpawnState.after, written, effectsOf, hstatus]
  | fchdir fd =>
    cases hstatus : answer.status <;>
      simp [performAction, Succeeds, errorOf, SpawnState.after, written, effectsOf, hstatus]
  | vmAlloc => simp [performAction, Succeeds, SpawnState.after, written, effectsOf]
  | vmWrite => simp [performAction, Succeeds, SpawnState.after, written, effectsOf]

theorem Roomy.after (h : Roomy t s.info a.1) (b : Attempt) : Roomy t (s.after t b).info a.1 := by
  refine ⟨?_, ?_⟩
  · rw [length_after]
    exact h.parent
  · rw [length_after]
    exact h.bound

/-- The actions that are performed: those in front of the first one that fails. -/
def performed (t : FdTable) (actions : List Attempt) : List Attempt := actions.takeWhile (Succeeds t)

/-- The others. -/
def unperformed (t : FdTable) (actions : List Attempt) : List Attempt := actions.dropWhile (Succeeds t)

/-- How the loop ends. -/
def outcomeOf (t : FdTable) (actions : List Attempt) : Except SpawnErrno Unit :=
  match unperformed t actions with
  | [] => .ok ()
  | a :: _ => .error (errorOf t a)

/-- **What the loop does.** -/
theorem performActions_eq {actions : List Attempt} (hvalid : ∀ a ∈ actions, a.1.Valid)
    (hroom : ∀ a ∈ actions, Roomy t s.info a.1) (fdinfo : FdInfo) :
    performActions t fdinfo s actions =
      some (outcomeOf t actions, (performed t actions).foldl (SpawnState.after t) s) := by
  induction actions generalizing s with
  | nil => rfl
  | cons a rest ih =>
    rw [performActions, performAction_eq (hvalid a List.mem_cons_self) (hroom a List.mem_cons_self)]
    unfold outcomeOf performed unperformed
    cases hsucceeds : Succeeds t a with
    | false =>
      rw [List.takeWhile_cons_of_neg (by simp [hsucceeds]), List.dropWhile_cons_of_neg (by simp [hsucceeds])]
      rfl
    | true =>
      rw [List.takeWhile_cons_of_pos hsucceeds, List.dropWhile_cons_of_pos hsucceeds]
      exact ih (fun b hb => hvalid b (List.mem_cons_of_mem _ hb))
        (fun b hb => (hroom b (List.mem_cons_of_mem _ hb)).after a)

/-! ## What an action is for -/

/-- What an entry says: nothing when its handle is NULL. -/
def InheritFdinfo.binding (e : InheritFdinfo) : Option Binding :=
  if e.handle = 0 then Option.none else some ⟨e.handle, e.type, e.flags⟩

/-- The map that the copy stands for. -/
def bindingsOf (info : InheritInformation) : FdMap := fun fd =>
  if fd < 0 then none else (info[fd.toNat]?).bind InheritFdinfo.binding

/-- An action on the table as the actions before it have left it. -/
noncomputable def perform (m : FdMap) (a : Attempt) : FdMap :=
  match a.1 with
  | .openFd fd oflag _ _ => m.bind fd ⟨a.2.handle, a.2.type, oflag⟩
  | .closeFd fd => m.free fd
  | .dup2 oldfd newfd =>
    match m oldfd with
    | none => m
    | some b => m.bind newfd (inheritable b)
  | _ => m

/-- The descriptor that the action looks up is not bound. -/
def Unbound (m : FdMap) : SpawnAction → Prop
  | .closeFd fd => m fd = none
  | .dup2 oldfd _ => m oldfd = none
  | _ => False

/-- The parent and the table `m` agree on the descriptor that the action looks up. -/
def Agrees (t : FdTable) (m : FdMap) : SpawnAction → Prop
  | .closeFd fd => (lookup t fd).isSome = (m fd).isSome
  | .dup2 oldfd _ => (lookup t oldfd).map inheritable = (m oldfd).map inheritable
  | _ => True

/-- They agree at every action, up to one that finds its descriptor unbound. -/
def Agreed (t : FdTable) : FdMap → List Attempt → Prop
  | _, [] => True
  | m, a :: rest => Agrees t m a.1 ∧ (¬ Unbound m a.1 → Agreed t (perform m a) rest)

/-- The kernel does not fail. -/
def Answer.Good (a : Answer) : Prop := a.handle ≠ 0 ∧ a.status = true

instance (a : Answer) : Decidable a.Good := inferInstanceAs (Decidable (_ ∧ _))

/-- **The loop is a fold.** Wherever it has come to, the copy stands for the fold of the actions so far,
and the next action fails with `EBADF` exactly if its descriptor is unbound there. -/
def Composes (t : FdTable) (fdinfo : FdInfo) (s : SpawnState) (m : FdMap) (actions : List Attempt) :
    Prop :=
  ∀ n s', performActions t fdinfo s (actions.take n) = some (.ok (), s') →
    bindingsOf s'.info = (actions.take n).foldl perform m ∧
    ∀ a, actions[n]? = some a →
      ((∃ s'', performAction t fdinfo s' a.1 a.2 = some (.error .ebadf, s'')) ↔
        Unbound ((actions.take n).foldl perform m) a.1)

theorem bindingsOf_set {info : InheritInformation} {fd : Int} (hfd : 0 ≤ fd) (hlt : fd < info.length)
    (e : InheritFdinfo) :
    bindingsOf (List.set info fd.toNat e) = Function.update (bindingsOf info) fd e.binding := by
  funext i
  unfold bindingsOf
  by_cases heq : i = fd
  · subst heq
    rw [Function.update_self, if_neg (Int.not_lt.mpr hfd), List.getElem?_set_self (by omega)]
    rfl
  · rw [Function.update_of_ne heq]
    by_cases hneg : i < 0
    · rw [if_pos hneg, if_pos hneg]
    · rw [if_neg hneg, if_neg hneg, List.getElem?_set_ne (by omega)]

theorem binding_ofBinding {b : Binding} (h : b.handle ≠ 0) : (InheritFdinfo.ofBinding b).binding = some b :=
  if_neg h

/-- What an action that succeeds makes of the map. -/
theorem bindingsOf_after (hvalid : a.1.Valid) (hroom : Roomy t s.info a.1) (h : Succeeds t a = true) :
    bindingsOf (s.after t a).info =
      match a.1 with
      | .openFd fd oflag _ _ => (bindingsOf s.info).bind fd ⟨a.2.handle, a.2.type, oflag⟩
      | .closeFd fd => (bindingsOf s.info).free fd
      | .dup2 oldfd newfd =>
        match lookup t oldfd with
        | none => bindingsOf s.info
        | some b => (bindingsOf s.info).bind newfd (inheritable b)
      | _ => bindingsOf s.info := by
  obtain ⟨action, answer⟩ := a
  have hparent := hroom.parent
  cases action with
  | openFd fd oflag mode path =>
    have hlt : fd < s.info.length := by
      rcases hroom.bound with h | ⟨_, h⟩ | h
      · cases h
      · cases h
      · exact h fd rfl
    have hne : answer.handle ≠ 0 := by simpa [Succeeds] using h
    exact (bindingsOf_set hvalid hlt _).trans (by rw [InheritFdinfo.binding, if_neg hne]; rfl)
  | closeFd fd =>
    cases hlookup : lookup t fd with
    | none => simp [Succeeds, hlookup] at h
    | some b =>
      obtain ⟨hlow, hhigh, -⟩ := lookup_some hlookup
      exact bindingsOf_set hlow (by omega) _
  | dup2 oldfd newfd =>
    have hlt : newfd < s.info.length := by
      rcases hroom.bound with h | ⟨_, h⟩ | h
      · cases h
      · cases h
      · exact h newfd rfl
    cases hlookup : lookup t oldfd with
    | none => simp [Succeeds, hlookup] at h
    | some b =>
      have hne := (lookup_some hlookup).2.2.1
      simp only [SpawnState.after, written, hlookup, Option.map_some]
      rw [bindingsOf_set hvalid.2 hlt, binding_ofBinding (b := inheritable b) hne]
      rfl
  | _ => rfl

/-- The descriptor that the action looks up is in the table of the parent. -/
def Known (t : FdTable) : SpawnAction → Prop
  | .closeFd fd => lookup t fd ≠ none
  | .dup2 oldfd _ => lookup t oldfd ≠ none
  | _ => True

/-- With a kernel that does not fail, an action fails only for a descriptor that the parent does not
have. -/
theorem succeeds_iff (hgood : a.2.Good) : Succeeds t a = true ↔ Known t a.1 := by
  obtain ⟨action, answer⟩ := a
  obtain ⟨hhandle, hstatus⟩ := hgood
  dsimp only at hhandle hstatus
  cases action with
  | openFd fd oflag mode path => simp [Succeeds, Known, hhandle]
  | closeFd fd => cases hlookup : lookup t fd <;> simp [Succeeds, Known, hlookup, hstatus]
  | dup2 oldfd newfd => cases hlookup : lookup t oldfd <;> simp [Succeeds, Known, hlookup, hstatus]
  | chdir path => simp [Succeeds, Known, hstatus]
  | fchdir fd => simp [Succeeds, Known, hstatus]
  | vmAlloc => simp [Succeeds, Known]
  | vmWrite => simp [Succeeds, Known]

theorem errorOf_unknown (h : ¬ Known t a.1) : errorOf t a = .ebadf := by
  obtain ⟨action, answer⟩ := a
  cases action with
  | closeFd fd => exact if_pos (not_not.mp h)
  | dup2 oldfd newfd => exact if_pos (not_not.mp h)
  | _ => exact absurd trivial h

/-- `EBADF` is for what the parent does not know. -/
theorem ebadf_iff (hgood : a.2.Good) (hvalid : a.1.Valid) (hroom : Roomy t s.info a.1)
    (fdinfo : FdInfo) :
    (∃ s', performAction t fdinfo s a.1 a.2 = some (.error .ebadf, s')) ↔ ¬ Known t a.1 := by
  rw [performAction_eq hvalid hroom]
  by_cases hknown : Known t a.1
  · rw [if_pos ((succeeds_iff hgood).mpr hknown)]
    constructor
    · rintro ⟨s', h⟩
      cases h
    · exact fun h => absurd hknown h
  · rw [if_neg (fun h => hknown ((succeeds_iff hgood).mp h)), errorOf_unknown hknown]
    exact ⟨fun _ => hknown, fun _ => ⟨s, rfl⟩⟩

/-- **One action**: it does what it is for, exactly if the parent agrees. -/
theorem agrees_iff {m : FdMap} (hgood : a.2.Good) (hvalid : a.1.Valid) (hroom : Roomy t s.info a.1)
    (hs : bindingsOf s.info = m) :
    Agrees t m a.1 ↔ (¬ Known t a.1 ↔ Unbound m a.1) ∧
      (Known t a.1 → bindingsOf (s.after t a).info = perform m a) := by
  have hafter := fun hknown : Known t a.1 =>
    bindingsOf_after hvalid hroom ((succeeds_iff hgood).mpr hknown)
  rw [hs] at hafter
  obtain ⟨action, answer⟩ := a
  cases action with
  | closeFd fd =>
    simp only [Agrees, Known, Unbound]
    constructor
    · intro h
      refine ⟨?_, hafter⟩
      cases hl : lookup t fd <;> cases hm : m fd <;> simp_all
    · rintro ⟨h, -⟩
      cases hl : lookup t fd <;> cases hm : m fd <;> simp_all
  | dup2 oldfd newfd =>
    simp only [Agrees, Known, Unbound, perform] at hafter ⊢
    cases hl : lookup t oldfd with
    | none => cases hm : m oldfd <;> simp
    | some b =>
      rw [hl] at hafter
      cases hm : m oldfd with
      | none => simp
      | some b' =>
        have hbind := hafter (Option.some_ne_none b)
        dsimp only at hbind
        simp only [Option.map_some, Option.some.injEq, ne_eq, reduceCtorEq, not_false_eq_true,
          not_true_eq_false, true_and, forall_const]
        rw [hbind]
        constructor
        · intro h
          rw [h]
        · intro h
          have hat := congrFun h newfd
          simpa [FdMap.bind] using hat
  | openFd fd oflag mode path => exact ⟨fun _ => ⟨by simp [Known, Unbound], hafter⟩, fun _ => trivial⟩
  | chdir path => exact ⟨fun _ => ⟨by simp [Known, Unbound], hafter⟩, fun _ => trivial⟩
  | fchdir fd => exact ⟨fun _ => ⟨by simp [Known, Unbound], hafter⟩, fun _ => trivial⟩
  | vmAlloc => exact ⟨fun _ => ⟨by simp [Known, Unbound], hafter⟩, fun _ => trivial⟩
  | vmWrite => exact ⟨fun _ => ⟨by simp [Known, Unbound], hafter⟩, fun _ => trivial⟩

theorem performActions_cons (hvalid : a.1.Valid) (hroom : Roomy t s.info a.1) (fdinfo : FdInfo)
    (rest : List Attempt) :
    performActions t fdinfo s (a :: rest) =
      if Succeeds t a then performActions t fdinfo (s.after t a) rest
      else some (.error (errorOf t a), s) := by
  rw [performActions, performAction_eq hvalid hroom]
  cases Succeeds t a <;> rfl

/-- **The actions compose exactly if the parent agrees at each of them.** -/
theorem composes_iff_agreed {actions : List Attempt} {m : FdMap}
    (hgood : ∀ a ∈ actions, a.2.Good) (hvalid : ∀ a ∈ actions, a.1.Valid)
    (hroom : ∀ a ∈ actions, Roomy t s.info a.1) (hs : bindingsOf s.info = m) (fdinfo : FdInfo) :
    Composes t fdinfo s m actions ↔ Agreed t m actions := by
  induction actions generalizing s m with
  | nil =>
    refine ⟨fun _ => trivial, fun _ n s' h => ?_⟩
    rw [List.take_nil] at h ⊢
    cases h
    exact ⟨hs, fun a ha => by rw [List.getElem?_nil] at ha; cases ha⟩
  | cons a rest ih =>
    have hgood₁ := hgood a List.mem_cons_self
    have hvalid₁ := hvalid a List.mem_cons_self
    have hroom₁ := hroom a List.mem_cons_self
    have hih := fun hafter : bindingsOf (s.after t a).info = perform m a =>
      ih (fun b hb => hgood b (List.mem_cons_of_mem _ hb)) (fun b hb => hvalid b (List.mem_cons_of_mem _ hb))
        (fun b hb => (hroom b (List.mem_cons_of_mem _ hb)).after a) hafter
    have hfirst : performActions t fdinfo s ((a :: rest).take 0) = some (.ok (), s) := rfl
    have hnext (n : Nat) : performActions t fdinfo s ((a :: rest).take (n + 1)) =
        if Succeeds t a then performActions t fdinfo (s.after t a) (rest.take n)
        else some (.error (errorOf t a), s) := performActions_cons hvalid₁ hroom₁ fdinfo _
    constructor
    · intro h
      have hebadf : ¬ Known t a.1 ↔ Unbound m a.1 :=
        (ebadf_iff hgood₁ hvalid₁ hroom₁ fdinfo).symm.trans ((h 0 s hfirst).2 a rfl)
      have hafter : Known t a.1 → bindingsOf (s.after t a).info = perform m a := by
        intro hknown
        have hone := hnext 0
        rw [if_pos ((succeeds_iff hgood₁).mpr hknown)] at hone
        exact (h 1 _ hone).1
      refine ⟨(agrees_iff hgood₁ hvalid₁ hroom₁ hs).mpr ⟨hebadf, hafter⟩, fun hbound => ?_⟩
      have hknown : Known t a.1 := not_not.mp (mt hebadf.mp hbound)
      refine (hih (hafter hknown)).mp fun n s' hrun => ?_
      have hsucc := hnext n
      rw [if_pos ((succeeds_iff hgood₁).mpr hknown), hrun] at hsucc
      exact h (n + 1) s' hsucc
    · rintro ⟨hagrees, hrest⟩ n s' hrun
      obtain ⟨hebadf, hafter⟩ := (agrees_iff hgood₁ hvalid₁ hroom₁ hs).mp hagrees
      cases n with
      | zero =>
        cases hfirst.symm.trans hrun
        refine ⟨hs, fun b hb => ?_⟩
        cases hb
        exact (ebadf_iff hgood₁ hvalid₁ hroom₁ fdinfo).trans hebadf
      | succ n =>
        rw [hnext n] at hrun
        by_cases hknown : Known t a.1
        · rw [if_pos ((succeeds_iff hgood₁).mpr hknown)] at hrun
          have hbound : ¬ Unbound m a.1 := fun h => hebadf.mpr h hknown
          exact (hih (hafter hknown)).mpr (hrest hbound) n s' hrun
        · rw [if_neg (fun h => hknown ((succeeds_iff hgood₁).mp h))] at hrun
          cases hrun

/-- The copy stands for the table of the parent. -/
theorem bindingsOf_copy {maxFd : Int} {info : InheritInformation} (hsize : t.size < 2 ^ 31)
    (hmax : t.size ≤ maxFd + 1) (hcopy : initializeInheritInformation true t maxFd = some (.ok info)) :
    bindingsOf info = t.binding := by
  unfold initializeInheritInformation at hcopy
  split at hcopy
  · next hint =>
    rw [if_pos rfl, castInt_of_lt hsize] at hcopy
    rw [← Except.ok.inj (Option.some.inj hcopy)]
    symm
    refine bindings_ext (fun fd hneg => if_pos hneg) fun n => ?_
    rw [bindingsOf, if_neg (Int.not_lt.mpr (Int.natCast_nonneg n)), Int.toNat_natCast,
      List.getElem?_map]
    by_cases hn : n < maxFd.toNat + 1
    · rw [List.getElem?_range hn, Option.map_some, Option.bind_some]
      split
      · cases t.table[n]? <;> rfl
      · next hge =>
        rw [List.getElem?_eq_none (Int.ofNat_le.mp (Int.not_lt.mp hge))]
        rfl
    · have hout : t.table.length ≤ n := by
        unfold FdTable.size at hmax
        omega
      rw [List.getElem?_eq_none hout, List.getElem?_eq_none (by rw [List.length_range]; omega)]
      rfl
  · cases hcopy

/-- **Spawn file actions compose from left to right**, over a copy of the parent's table, exactly if the
parent and the table as the earlier actions have left it agree on every descriptor that is looked up. -/
theorem composes_iff {actions : List Attempt} {c : ActionCounts} {info : InheritInformation}
    (hpos : 0 < t.size) (hsize : t.size < 2 ^ 31)
    (hcount : countActions {} (actions.map Prod.fst) = .ok c)
    (hcopy : initializeInheritInformation true t (c.maxFd t) = some (.ok info))
    (hvalid : ∀ a ∈ actions, a.1.Valid) (hgood : ∀ a ∈ actions, a.2.Good) (fdinfo : FdInfo) :
    Composes t fdinfo ⟨info, []⟩ t.binding actions ↔ Agreed t t.binding actions := by
  refine composes_iff_agreed hgood hvalid
    (fun a ha => roomy_of_count hcount hpos hsize hcopy a.1 (List.mem_map_of_mem ha)) ?_ fdinfo
  refine bindingsOf_copy hsize ?_ hcopy
  rw [ActionCounts.maxFd, maxFd_parent hpos hsize]
  omega

/-- `dup2(3, 1)` and `close(3)`, with a descriptor 3. -/
theorem composes_dup2 : ∃ info, initializeInheritInformation true (tableWith 3) 3 = some (.ok info) ∧
    Composes (tableWith 3) ⟨0, .invalid, 0, 0⟩ ⟨info, []⟩ (tableWith 3).binding
      [(.dup2 3 1, ⟨4, .file, true⟩), (.closeFd 3, ⟨4, .file, true⟩)] := by
  refine ⟨_, rfl, ?_⟩
  have hmax : ActionCounts.maxFd { maxFdRequested := 1 } (tableWith 3) = 3 := by
    rw [ActionCounts.maxFd, maxFd_parent (by decide) (by decide)]
    rfl
  refine (composes_iff (c := { maxFdRequested := 1 }) (by decide) (by decide) rfl (by rw [hmax]; rfl)
    (by decide) (by decide) ⟨0, .invalid, 0, 0⟩).mpr ?_
  have hlookup : lookup (tableWith 3) 3 = some ⟨20, .file, 0⟩ := by decide
  have hbinding : (tableWith 3).binding 3 = some ⟨20, .file, 0⟩ := by decide
  refine ⟨?_, fun _ => ⟨?_, fun _ => trivial⟩⟩
  · simp only [Agrees, hlookup, hbinding]
  · simp only [Agrees, perform, hlookup, hbinding, FdMap.bind]
    rw [Function.update_of_ne (by decide), hbinding]

/-- `dup2(5, 1)` behind an `open` of 5 fails with `EBADF`. -/
theorem not_composes : ∃ info, initializeInheritInformation true (tableWith 3) 5 = some (.ok info) ∧
    ¬ Composes (tableWith 3) ⟨0, .invalid, 0, 0⟩ ⟨info, []⟩ (tableWith 3).binding
      [(.openFd 5 0 0 [], ⟨24, .file, true⟩), (.dup2 5 1, ⟨4, .file, true⟩)] := by
  refine ⟨_, rfl, fun h => ?_⟩
  have hebadf := ((h 1 _ rfl).2 _ rfl).mp ⟨_, rfl⟩
  simp only [List.take_succ_cons, List.take_zero, List.foldl_cons, List.foldl_nil, perform, Unbound,
    FdMap.bind, Function.update_self] at hebadf
  cases hebadf

end WindowsLibc.Spawn
