import Mathlib.Data.List.TakeWhile
import WindowsLibc.Lib.LastWrite
import WindowsLibc.Spawn.Actions

/-!
# What spawn leaves behind (`spawn/spawn.c`)

Wherever `wlibc_common_spawn` ends, `cleanup_inherit_information` closes a handle for every `open` in the list
of actions: the one that the copy has for its descriptor at that time. And what `close` and `dup2` have done
to the inheritability of the parent's handles is not undone.

* `commonSpawn` is the call as far as handles go, with all its ways to `finish`.
* `LeavesAlone` says what the clean-up is for.
* `leavesAlone_iff`: for which lists of actions, and which of them performed, it does that.
-/

namespace WindowsLibc.Spawn

open WindowsLibc.Lib WindowsLibc.Fcntl

/-! ## The model -/

/-- A turn of the loop of the clean-up. -/
def cleanupAction (info : InheritInformation) (effects : List Effect) (a : SpawnAction) :
    Option (List Effect) :=
  match a with
  | .openFd fd _ _ _ =>
    if 0 ≤ fd ∧ fd < info.length then some (effects ++ [.closed (info.getD fd.toNat .none).handle])
    else none
  | _ => some effects

/-- `cleanup_inherit_information`. -/
def cleanupInheritInformation (info : Option InheritInformation) (actions : List SpawnAction) :
    Option (List Effect) :=
  match info with
  | none => some []
  | some info => actions.foldlM (cleanupAction info) []

/-- The answers in the other parts of the call: whether the path, the arguments and the environment can be
converted, whether there is memory for the copy, what the heap has at the place of the block (if there is memory
for it), and whether everything behind it succeeds (`CreateProcessW`, with a shebang if need be, the memory of
the child, `add_child` and `NtResumeProcess`). -/
structure SpawnEnv where
  before : Bool
  alloc : Bool
  heap : Option (Nat → UInt8)
  created : Bool

/-- `wlibc_common_spawn`: whether it succeeds, and what it does to handles. -/
def commonSpawn (env : SpawnEnv) (t : FdTable) (fdinfo : FdInfo) (attempts : List Attempt) :
    Option (Bool × List Effect) :=
  let actions := attempts.map Prod.fst
  let finish := fun (result : Bool) (info : Option InheritInformation) (effects : List Effect) =>
    (cleanupInheritInformation info actions).map fun closes => (result, effects ++ closes)
  if env.before = false then finish false none []
  else
    match countActions {} actions with
    | .error _ => finish false none []
    | .ok counts =>
      (initializeInheritInformation env.alloc t (counts.maxFd t)).bind fun
        | .error _ => finish false none []
        | .ok info =>
          (performActions t fdinfo ⟨info, []⟩ attempts).bind fun
            | (.error _, s) => finish false (some s.info) s.effects
            | (.ok (), s) =>
              (giveInheritInformationToStartupinfo env.heap s.info).bind fun
                | .error _ => finish false (some s.info) s.effects
                | .ok _ => finish env.created (some s.info) s.effects

/-! ## What it is for -/

/-- The handles that have been opened. -/
def openedHandles (effects : List Effect) : List UInt64 :=
  effects.filterMap fun
    | .opened h => some h
    | _ => none

/-- The handles that have been closed. Closing NULL closes nothing. -/
def closedHandles (effects : List Effect) : List UInt64 :=
  effects.filterMap fun
    | .closed h => if h = 0 then none else some h
    | _ => none

/-- Which handles are inheritable in the end. -/
def inheritAfter (inherit : UInt64 → Bool) (effects : List Effect) : UInt64 → Bool :=
  effects.foldl (fun inherit e =>
    match e with
    | .setInherit h b => Function.update inherit h b
    | _ => inherit) inherit

/-- **The parent's descriptors are left alone.** What was opened is closed, once; no handle in the table of the
parent is closed, and every one is as inheritable as before. -/
structure LeavesAlone (t : FdTable) (inherit : UInt64 → Bool) (effects : List Effect) : Prop where
  closes : (closedHandles effects).Perm (openedHandles effects)
  parent : ∀ fd b, t.binding fd = some b → b.handle ∉ closedHandles effects
  inherits : ∀ fd b, t.binding fd = some b → inheritAfter inherit effects b.handle = inherit b.handle

/-! ## When it does that -/

/-- The descriptor that an action opens. -/
def SpawnAction.opens : SpawnAction → Option Int
  | .openFd fd _ _ _ => some fd
  | _ => none

/-- The action frees its descriptor. -/
def SpawnAction.frees : SpawnAction → Bool
  | .closeFd _ => true
  | _ => false

/-- Whether a descriptor is bound in the copy behind `actions`, all of them performed. -/
def boundAfter (t : FdTable) (actions : List Attempt) (fd : Int) : Bool :=
  lastWrite (fun a : Attempt => a.1.target.map fun fd => (fd, !a.1.frees)) fd (t.binding fd).isSome actions

/-- What is asked of the actions that are performed, and of those that are not: a descriptor that has been
opened is not written again; one that has not been opened is not bound in the end; no `close` takes the
inheritability of a handle away, and no `dup2` gives it. -/
structure Careful (t : FdTable) (inherit : UInt64 → Bool) (done rest : List Attempt) : Prop where
  kept : done.Pairwise fun a b => ∀ fd, a.1.opens = some fd → b.1.target ≠ some fd
  unbound : ∀ a ∈ rest, ∀ fd, a.1.opens = some fd → boundAfter t done fd = false
  closes : ∀ a ∈ done, ∀ fd b, a.1 = .closeFd fd → lookup t fd = some b →
    b.flags &&& oNoinherit = 0 → inherit b.handle = false
  dups : ∀ a ∈ done, ∀ oldfd newfd b, a.1 = .dup2 oldfd newfd → lookup t oldfd = some b →
    b.flags &&& oNoinherit ≠ 0 → inherit b.handle = true

/-- The call comes to its actions. -/
def SpawnEnv.Starts (env : SpawnEnv) (attempts : List Attempt) : Prop :=
  env.before = true ∧ env.alloc = true ∧ ∃ c, countActions {} (attempts.map Prod.fst) = .ok c

/-- What the kernel guarantees of the handles that are opened: they are not in the table of the parent, and
pairwise distinct. -/
structure FreshHandles (t : FdTable) (done : List Attempt) : Prop where
  parent : ∀ a ∈ done, ∀ fd, a.1.opens = some fd → ∀ fd' b, t.binding fd' = some b → b.handle ≠ a.2.handle
  distinct : done.Pairwise fun a b => ∀ fd fd', a.1.opens = some fd → b.1.opens = some fd' →
    a.2.handle ≠ b.2.handle

/-! ## The effects of a call -/

variable {env : SpawnEnv} {t : FdTable} {fdinfo : FdInfo} {attempts done rest : List Attempt}

/-- The handle that the clean-up finds for an action, and closes. -/
def foundHandle (info : InheritInformation) (a : SpawnAction) : Option UInt64 :=
  a.opens.map fun fd => (info.getD fd.toNat .none).handle

theorem cleanupAction_eq {info : InheritInformation} {a : SpawnAction}
    (h : ∀ fd, a.opens = some fd → 0 ≤ fd ∧ fd < info.length) (effects : List Effect) :
    cleanupAction info effects a = some (effects ++ ((foundHandle info a).map .closed).toList) := by
  cases a with
  | openFd fd oflag mode path => exact if_pos (h fd rfl)
  | _ => exact congrArg some (List.append_nil effects).symm

theorem cleanupActions_eq {info : InheritInformation} {actions : List SpawnAction}
    (h : ∀ a ∈ actions, ∀ fd, a.opens = some fd → 0 ≤ fd ∧ fd < info.length) (effects : List Effect) :
    actions.foldlM (cleanupAction info) effects =
      some (effects ++ (actions.filterMap (foundHandle info)).map .closed) := by
  induction actions generalizing effects with
  | nil => exact congrArg some (List.append_nil effects).symm
  | cons a actions ih =>
    rw [List.foldlM_cons, cleanupAction_eq (h a List.mem_cons_self)]
    refine (ih (fun b hb => h b (List.mem_cons_of_mem _ hb)) _).trans ?_
    rw [List.append_assoc]
    cases hfound : foundHandle info a with
    | none => rw [List.filterMap_cons_none hfound]; rfl
    | some handle => rw [List.filterMap_cons_some hfound]; rfl

theorem effects_foldl (t : FdTable) (s : SpawnState) (done : List Attempt) :
    (done.foldl (SpawnState.after t) s).effects = s.effects ++ done.flatMap (effectsOf t) := by
  induction done generalizing s with
  | nil => simp
  | cons a done ih =>
    rw [List.foldl_cons, ih, List.flatMap_cons, ← List.append_assoc]
    rfl

theorem length_foldl (t : FdTable) (s : SpawnState) (done : List Attempt) :
    (done.foldl (SpawnState.after t) s).info.length = s.info.length := by
  induction done generalizing s with
  | nil => rfl
  | cons a done ih => rw [List.foldl_cons, ih, length_after]

/-- The copy behind the actions that are performed. -/
def finalInfo (t : FdTable) (info : InheritInformation) (attempts : List Attempt) :
    InheritInformation :=
  ((performed t attempts).foldl (SpawnState.after t) ⟨info, []⟩).info

/-- The effects of a call that comes to its actions. -/
def effectsWith (t : FdTable) (info : InheritInformation) (attempts : List Attempt) : List Effect :=
  (performed t attempts).flatMap (effectsOf t) ++
    ((attempts.map Prod.fst).filterMap (foundHandle (finalInfo t info attempts))).map .closed

/-- **The ways of a call**: it does nothing, or it performs the actions that succeed and then closes. -/
theorem commonSpawn_cases (hw : WellFormed t) (hvalid : ∀ a ∈ attempts, a.1.Valid) {result : Bool}
    {effects : List Effect} (h : commonSpawn env t fdinfo attempts = some (result, effects)) :
    (¬ env.Starts attempts ∧ effects = []) ∨
      (env.Starts attempts ∧ ∃ c info,
        initializeInheritInformation true t (ActionCounts.maxFd c t) = some (.ok info) ∧
        (∀ a ∈ attempts, Roomy t info a.1) ∧ effects = effectsWith t info attempts) := by
  unfold commonSpawn at h
  dsimp only at h
  split at h
  · next hbefore =>
    cases h
    refine .inl ⟨fun hstarts => ?_, rfl⟩
    rw [SpawnEnv.Starts, hbefore] at hstarts
    cases hstarts.1
  · next hbefore =>
    cases hcount : countActions {} (attempts.map Prod.fst) with
    | error e =>
      rw [hcount] at h
      cases h
      refine .inl ⟨fun hstarts => ?_, rfl⟩
      obtain ⟨-, -, c, hc⟩ := hstarts
      rw [hcount] at hc
      cases hc
    | ok c =>
      rw [hcount] at h
      obtain ⟨copy, hcopy, h⟩ := Option.bind_eq_some_iff.mp h
      cases halloc : env.alloc with
      | false =>
        have herror : copy = .error .enomem := by
          rw [halloc, initializeInheritInformation] at hcopy
          split at hcopy
          · exact (Option.some.inj hcopy).symm
          · cases hcopy
        subst herror
        cases h
        refine .inl ⟨fun hstarts => ?_, rfl⟩
        rw [SpawnEnv.Starts, halloc] at hstarts
        cases hstarts.2.1
      | true =>
        rw [halloc] at hcopy
        have hstarts : env.Starts attempts := ⟨Bool.not_eq_false _ ▸ hbefore, halloc, c, hcount⟩
        obtain ⟨info, rfl⟩ : ∃ info, copy = .ok info := by
          rw [initializeInheritInformation] at hcopy
          split at hcopy
          · exact ⟨_, (Option.some.inj hcopy).symm⟩
          · cases hcopy
        have hroom : ∀ a ∈ attempts, Roomy t info a.1 := fun a ha =>
          roomy_of_count hcount hw.size_pos hw.size_lt hcopy a.1 (List.mem_map_of_mem ha)
        refine .inr ⟨hstarts, c, info, hcopy, hroom, ?_⟩
        -- all the ways that are left lead to the same clean-up
        have hclean : cleanupInheritInformation (some (finalInfo t info attempts)) (attempts.map Prod.fst) =
            some (((attempts.map Prod.fst).filterMap (foundHandle (finalInfo t info attempts))).map .closed) := by
          refine cleanupActions_eq ?_ []
          intro action haction fd hfd
          obtain ⟨a, ha, rfl⟩ := List.mem_map.mp haction
          rw [finalInfo, length_foldl]
          cases hact : a.1 with
          | openFd fd' oflag mode path =>
            rw [hact] at hfd
            cases hfd
            have hnonneg := hvalid a ha
            rw [hact] at hnonneg
            refine ⟨hnonneg, ?_⟩
            have hbound := (hroom a ha).bound
            rw [hact] at hbound
            rcases hbound with hnone | ⟨_, hclose⟩ | hlt
            · cases hnone
            · cases hclose
            · exact hlt fd rfl
          | _ =>
            rw [hact] at hfd
            cases hfd
        have hstate : (performed t attempts).foldl (SpawnState.after t) ⟨info, []⟩ =
            ⟨finalInfo t info attempts, (performed t attempts).flatMap (effectsOf t)⟩ := by
          rw [← List.nil_append ((performed t attempts).flatMap (effectsOf t)),
            ← effects_foldl t ⟨info, []⟩]
          rfl
        dsimp only at h
        rw [performActions_eq hvalid hroom, hstate] at h
        cases houtcome : outcomeOf t attempts with
        | error e =>
          rw [houtcome, Option.bind_some] at h
          dsimp only at h
          rw [hclean] at h
          exact (Prod.mk.inj (Option.some.inj h)).2.symm
        | ok =>
          rw [houtcome, Option.bind_some] at h
          obtain ⟨given, -, h⟩ := Option.bind_eq_some_iff.mp h
          cases given with
          | error e =>
            dsimp only at h
            rw [hclean] at h
            exact (Prod.mk.inj (Option.some.inj h)).2.symm
          | ok startup =>
            dsimp only at h
            rw [hclean] at h
            exact (Prod.mk.inj (Option.some.inj h)).2.symm

/-! ## Which handles are opened and closed -/

/-- The handle that an action opens. -/
def openedHandle (a : Attempt) : Option UInt64 := a.1.opens.map fun _ => a.2.handle

theorem openedHandles_effectsOf (t : FdTable) (a : Attempt) :
    openedHandles (effectsOf t a) = (openedHandle a).toList ∧ closedHandles (effectsOf t a) = [] := by
  obtain ⟨action, answer⟩ := a
  cases action with
  | openFd fd oflag mode path => exact ⟨rfl, rfl⟩
  | closeFd fd =>
    simp only [effectsOf]
    cases lookup t fd with
    | none => exact ⟨rfl, rfl⟩
    | some b =>
      dsimp only
      split <;> exact ⟨rfl, rfl⟩
  | dup2 oldfd newfd =>
    simp only [effectsOf]
    cases lookup t oldfd with
    | none => exact ⟨rfl, rfl⟩
    | some b =>
      dsimp only
      split <;> exact ⟨rfl, rfl⟩
  | _ => exact ⟨rfl, rfl⟩

theorem handles_append (xs ys : List Effect) :
    openedHandles (xs ++ ys) = openedHandles xs ++ openedHandles ys ∧
      closedHandles (xs ++ ys) = closedHandles xs ++ closedHandles ys :=
  ⟨List.filterMap_append, List.filterMap_append⟩

theorem handles_flatMap (t : FdTable) (done : List Attempt) :
    openedHandles (done.flatMap (effectsOf t)) = done.filterMap openedHandle ∧
      closedHandles (done.flatMap (effectsOf t)) = [] := by
  induction done with
  | nil => exact ⟨rfl, rfl⟩
  | cons a done ih =>
    obtain ⟨hopened, hclosed⟩ := openedHandles_effectsOf t a
    rw [List.flatMap_cons, (handles_append _ _).1, (handles_append _ _).2, hopened, hclosed, ih.1, ih.2]
    refine ⟨?_, rfl⟩
    cases hhandle : openedHandle a with
    | none => rw [List.filterMap_cons_none hhandle]; rfl
    | some h => rw [List.filterMap_cons_some hhandle]; rfl

theorem handles_closed (handles : List UInt64) :
    openedHandles (handles.map .closed) = [] ∧
      closedHandles (handles.map .closed) = handles.filter (· ≠ 0) := by
  induction handles with
  | nil => exact ⟨rfl, rfl⟩
  | cons h handles ih =>
    refine ⟨ih.1, ?_⟩
    by_cases hzero : h = 0
    · rw [List.filter_cons_of_neg (by simp [hzero]), ← ih.2, hzero]
      rfl
    · rw [List.filter_cons_of_pos (by simp [hzero]), ← ih.2]
      exact List.filterMap_cons_some (if_neg hzero)

/-- **What a call opens and what it closes.** -/
theorem handles_effectsWith (t : FdTable) (info : InheritInformation) (attempts : List Attempt) :
    openedHandles (effectsWith t info attempts) = (performed t attempts).filterMap openedHandle ∧
      closedHandles (effectsWith t info attempts) =
        (attempts.filterMap fun a => foundHandle (finalInfo t info attempts) a.1).filter (· ≠ 0) := by
  obtain ⟨hopened, hclosed⟩ := handles_flatMap t (performed t attempts)
  obtain ⟨hopened', hclosed'⟩ := handles_closed
    ((attempts.map Prod.fst).filterMap (foundHandle (finalInfo t info attempts)))
  rw [effectsWith, (handles_append _ _).1, (handles_append _ _).2, hopened, hopened', hclosed, hclosed',
    List.append_nil, List.nil_append, List.filterMap_map]
  exact ⟨rfl, rfl⟩

/-! ## What the copy has in the end -/

theorem lookup_binding (hw : WellFormed t) {fd : Int} {b : Binding} (h : lookup t fd = some b) :
    t.binding fd = some b := by
  unfold lookup at h
  cases hbinding : t.binding fd with
  | none =>
    rw [getFdinfo_unbound hw hbinding] at h
    cases h
  | some b' =>
    obtain ⟨hhandle, htype, hflags⟩ := getFdinfo_bound hw hbinding ⟨0, .invalid, 0, 0⟩
    dsimp only at h
    rw [hhandle, htype, hflags] at h
    split at h
    · cases h
    · exact h

/-- What an action that succeeds writes. -/
theorem written_cases (hw : WellFormed t) {a : Attempt} {fd : Int} {e : InheritFdinfo} (hsucceeds : Succeeds t a = true)
    (h : written t a = some (fd, e)) :
    a.1.target = some fd ∧
      ((a.1.opens = some fd ∧ e.handle = a.2.handle ∧ e.handle ≠ 0 ∧ a.1.frees = false) ∨
        (e.handle = 0 ∧ a.1.frees = true) ∨
        (∃ fd' b, t.binding fd' = some b ∧ e.handle = b.handle ∧ e.handle ≠ 0 ∧ a.1.frees = false)) := by
  obtain ⟨action, answer⟩ := a
  cases action with
  | openFd fd' oflag mode path =>
    cases h
    exact ⟨rfl, .inl ⟨rfl, rfl, by simpa [Succeeds] using hsucceeds, rfl⟩⟩
  | closeFd fd' =>
    cases h
    exact ⟨rfl, .inr (.inl ⟨rfl, rfl⟩)⟩
  | dup2 oldfd newfd =>
    obtain ⟨b, hlookup, hwritten⟩ := Option.map_eq_some_iff.mp h
    cases hwritten
    exact ⟨rfl, .inr (.inr ⟨oldfd, b, lookup_binding hw hlookup, rfl, (lookup_some hlookup).2.2.1, rfl⟩)⟩
  | chdir path => cases h
  | fchdir fd' => cases h
  | vmAlloc => cases h
  | vmWrite => cases h

theorem written_target {a : Attempt} {fd : Int} (hsucceeds : Succeeds t a = true)
    (h : a.1.target = some fd) : ∃ e, written t a = some (fd, e) := by
  obtain ⟨action, answer⟩ := a
  cases action with
  | openFd fd' oflag mode path =>
    cases h
    exact ⟨_, rfl⟩
  | closeFd fd' =>
    cases h
    exact ⟨_, rfl⟩
  | dup2 oldfd newfd =>
    cases h
    cases hlookup : lookup t oldfd with
    | none => simp [Succeeds, hlookup] at hsucceeds
    | some b => exact ⟨.ofBinding (inheritable b), by simp [written, hlookup]⟩
  | chdir path => cases h
  | fchdir fd' => cases h
  | vmAlloc => cases h
  | vmWrite => cases h

theorem target_nonneg {a : SpawnAction} {fd : Int} (hvalid : a.Valid) (h : a.target = some fd) : 0 ≤ fd := by
  cases a with
  | openFd fd' oflag mode path =>
    cases h
    exact hvalid
  | closeFd fd' =>
    cases h
    exact hvalid
  | dup2 oldfd newfd =>
    cases h
    exact hvalid.2
  | chdir path => cases h
  | fchdir fd' => cases h
  | vmAlloc => cases h
  | vmWrite => cases h

/-- **The entry of a descriptor is what was written last.** -/
theorem entry_foldl (hw : WellFormed t) {s : SpawnState} {fd : Int} (hsucceeds : ∀ a ∈ done, Succeeds t a = true)
    (hvalid : ∀ a ∈ done, a.1.Valid) (hfd : 0 ≤ fd) (hlt : fd < s.info.length) :
    (done.foldl (SpawnState.after t) s).info.getD fd.toNat .none =
      lastWrite (written t) fd (s.info.getD fd.toNat .none) done := by
  induction done generalizing s with
  | nil => rfl
  | cons a done ih =>
    rw [List.foldl_cons, lastWrite_cons, ih (fun b hb => hsucceeds b (List.mem_cons_of_mem _ hb))
      (fun b hb => hvalid b (List.mem_cons_of_mem _ hb)) (by rwa [length_after])]
    congr 1
    unfold SpawnState.after
    cases hwritten : written t a with
    | none =>
      rw [lastWrite_other (fun e h => by rw [hwritten] at h; cases h)]
    | some w =>
      obtain ⟨fd', e⟩ := w
      have htarget := (written_cases hw (hsucceeds a List.mem_cons_self) hwritten).1
      have hfd' := target_nonneg (hvalid a List.mem_cons_self) htarget
      dsimp only
      rw [List.getD_eq_getElem?_getD, List.getD_eq_getElem?_getD]
      by_cases heq : fd' = fd
      · subst heq
        rw [lastWrite_self hwritten, List.getElem?_set_self (by omega)]
        rfl
      · rw [lastWrite_other (fun e' h => by rw [hwritten] at h; cases h; exact heq rfl),
          List.getElem?_set_ne (by omega)]

/-- The handle of a descriptor in a copy. -/
theorem handle_bindingsOf (info : InheritInformation) {fd : Int} (hfd : 0 ≤ fd) :
    (info.getD fd.toNat .none).handle = ((bindingsOf info fd).map Binding.handle).getD 0 := by
  rw [bindingsOf, if_neg (Int.not_lt.mpr hfd), List.getD_eq_getElem?_getD]
  cases info[fd.toNat]? with
  | none => rfl
  | some e =>
    rw [Option.bind_some, InheritFdinfo.binding]
    split
    · next hzero => exact hzero
    · rfl

/-- What is known of a call that has come to its actions. -/
structure Ran (t : FdTable) (info : InheritInformation) (attempts : List Attempt) : Prop where
  wellFormed : WellFormed t
  valid : ∀ a ∈ attempts, a.1.Valid
  copy : bindingsOf info = t.binding
  room : ∀ a ∈ attempts, Roomy t info a.1
  fresh : FreshHandles t (performed t attempts)

variable {info : InheritInformation}

theorem mem_performed {a : Attempt} (h : a ∈ performed t attempts) :
    a ∈ attempts ∧ Succeeds t a = true :=
  ⟨(List.takeWhile_prefix _).mem h, List.mem_takeWhile_imp h⟩

/-- The handle that the clean-up finds for a descriptor. -/
def finalHandle (t : FdTable) (info : InheritInformation) (attempts : List Attempt) (fd : Int) : UInt64 :=
  (lastWrite (written t) fd (info.getD fd.toNat .none) (performed t attempts)).handle

theorem opens_target {a : SpawnAction} {fd : Int} (h : a.opens = some fd) : a.target = some fd := by
  cases a <;> first | exact h | cases h

theorem Ran.found (h : Ran t info attempts) {a : Attempt} (ha : a ∈ attempts) :
    foundHandle (finalInfo t info attempts) a.1 = a.1.opens.map (finalHandle t info attempts) := by
  unfold foundHandle
  cases hopens : a.1.opens with
  | none => rfl
  | some fd =>
    have htarget := opens_target hopens
    have hnonneg := target_nonneg (h.valid a ha) htarget
    have hlt : fd < info.length := by
      rcases (h.room a ha).bound with hnone | ⟨fd', hclose⟩ | hlt
      · rw [htarget] at hnone
        cases hnone
      · rw [hclose] at hopens
        cases hopens
      · exact hlt fd htarget
    rw [Option.map_some, Option.map_some, finalHandle, finalInfo]
    rw [entry_foldl h.wellFormed (fun b hb => (mem_performed hb).2)
      (fun b hb => h.valid b (mem_performed hb).1) hnonneg hlt]

/-- The handle is the parent's, or an action that was performed has written it last. -/
theorem Ran.final_cases (h : Ran t info attempts) {fd : Int} (hfd : 0 ≤ fd)
    (hne : finalHandle t info attempts fd ≠ 0) :
    (∃ fd' b, t.binding fd' = some b ∧ finalHandle t info attempts fd = b.handle) ∨
      ∃ l a r, performed t attempts = l ++ a :: r ∧ a.1.opens = some fd ∧
        finalHandle t info attempts fd = a.2.handle ∧ ∀ b ∈ r, b.1.target ≠ some fd := by
  unfold finalHandle at hne ⊢
  rcases lastWrite_cases (written t) fd (info.getD fd.toNat .none) (performed t attempts) with
    ⟨hinit, -⟩ | ⟨l, a, r, e, hsplit, hwritten, hlast, hrest⟩
  · rw [hinit, handle_bindingsOf info hfd, h.copy] at hne ⊢
    cases hbinding : t.binding fd with
    | none =>
      rw [hbinding] at hne
      exact absurd rfl hne
    | some b => exact .inl ⟨fd, b, hbinding, rfl⟩
  · have hmem : a ∈ performed t attempts := by
      rw [hsplit]
      exact List.mem_append_right _ List.mem_cons_self
    rw [hlast] at hne ⊢
    rcases (written_cases h.wellFormed (mem_performed hmem).2 hwritten).2 with
      ⟨hopens, hhandle, -⟩ | ⟨hzero, -⟩ | ⟨fd', b, hb, hhandle, -⟩
    · refine .inr ⟨l, a, r, hsplit, hopens, hhandle, ?_⟩
      intro b hb htarget
      have hb' : b ∈ performed t attempts := by
        rw [hsplit]
        exact List.mem_append_right _ (List.mem_cons_of_mem _ hb)
      obtain ⟨e', he'⟩ := written_target (mem_performed hb').2 htarget
      exact hrest b hb e' he'
    · exact absurd hzero hne
    · exact .inl ⟨fd', b, hb, hhandle⟩

/-- A descriptor that is opened and not written again keeps its handle. -/
theorem finalHandle_opened {l r : List Attempt} {a : Attempt} {fd : Int}
    (hsplit : performed t attempts = l ++ a :: r) (hw : WellFormed t) (hopens : a.1.opens = some fd)
    (hlast : ∀ b ∈ r, b.1.target ≠ some fd) : finalHandle t info attempts fd = a.2.handle := by
  have hmem {b : Attempt} (hb : b ∈ a :: r) : b ∈ performed t attempts := by
    rw [hsplit]
    exact List.mem_append_right _ hb
  have hsucceeds := (mem_performed (hmem List.mem_cons_self)).2
  obtain ⟨e, he⟩ := written_target hsucceeds (opens_target hopens)
  rw [finalHandle, hsplit, lastWrite_last he]
  · rcases (written_cases hw hsucceeds he).2 with ⟨-, hhandle, -⟩ | ⟨-, hfrees⟩ | ⟨fd', b, -, -, -, -⟩
    · exact hhandle
    · cases haction : a.1 <;> rw [haction] at hopens hfrees <;> cases hopens
      cases hfrees
    · cases haction : a.1 <;> rw [haction] at hopens <;> cases hopens
      rw [written, haction] at he
      cases he
      rfl
  · intro b hb e' he'
    exact hlast b hb (written_cases hw (mem_performed (hmem (List.mem_cons_of_mem _ hb))).2 he').1

/-- A descriptor is bound in the end if its handle is not NULL. -/
theorem Ran.boundAfter_eq (h : Ran t info attempts) {fd : Int} (hfd : 0 ≤ fd) :
    boundAfter t (performed t attempts) fd = true ↔ finalHandle t info attempts fd ≠ 0 := by
  have hinit : decide ((info.getD fd.toNat .none).handle ≠ 0) = (t.binding fd).isSome := by
    rw [handle_bindingsOf info hfd, h.copy]
    cases hbinding : t.binding fd with
    | none => rfl
    | some b =>
      have hne := (h.wellFormed.handles fd b hbinding).1
      simpa using hne
  have hmap := @lastWrite_map _ _ _ _ _ (written t) fd (performed t attempts)
    (fun e : InheritFdinfo => decide (e.handle ≠ 0))
    (fun a : Attempt => a.1.target.map fun fd => (fd, !a.1.frees)) (by
      intro a ha
      have hsucceeds := (mem_performed ha).2
      cases hwritten : written t a with
      | none =>
        cases htarget : a.1.target with
        | none => rfl
        | some fd' =>
          obtain ⟨e, he⟩ := written_target hsucceeds htarget
          rw [hwritten] at he
          cases he
      | some w =>
        obtain ⟨fd', e⟩ := w
        obtain ⟨htarget, hcases⟩ := written_cases h.wellFormed hsucceeds hwritten
        rw [htarget, Option.map_some, Option.map_some]
        rcases hcases with ⟨-, -, hne, hfrees⟩ | ⟨hzero, hfrees⟩ | ⟨_, _, -, -, hne, hfrees⟩
        · simp [hne, hfrees]
        · simp [hzero, hfrees]
        · simp [hne, hfrees]) (info.getD fd.toNat .none)
  rw [boundAfter, ← hinit, ← hmap, finalHandle, decide_eq_true_iff]

/-! ## What is opened is closed -/

/-- What the clean-up closes: for the actions that were performed, and for those that were not. -/
theorem Ran.closed_eq (h : Ran t info attempts) :
    closedHandles (effectsWith t info attempts) =
      ((performed t attempts).filterMap fun a => a.1.opens.map (finalHandle t info attempts)).filter
          (· ≠ 0) ++
        ((unperformed t attempts).filterMap fun a => a.1.opens.map (finalHandle t info attempts)).filter
          (· ≠ 0) := by
  have hsplit : performed t attempts ++ unperformed t attempts = attempts :=
    List.takeWhile_append_dropWhile
  rw [(handles_effectsWith t info attempts).2, ← List.filter_append, ← List.filterMap_append, hsplit]
  exact congrArg _ (List.filterMap_congr fun a ha => h.found ha)

theorem opened_ne_zero {a : Attempt} {fd : Int} (h : a ∈ performed t attempts)
    (hopens : a.1.opens = some fd) : a.2.handle ≠ 0 := by
  have hsucceeds := (mem_performed h).2
  obtain ⟨action, answer⟩ := a
  cases action with
  | openFd fd' oflag mode path => simpa [Succeeds] using hsucceeds
  | _ => cases hopens

/-- With the descriptors kept, the clean-up finds what was opened. -/
theorem Ran.kept_eq (h : Ran t info attempts) (hkept : (performed t attempts).Pairwise
      fun a b => ∀ fd, a.1.opens = some fd → b.1.target ≠ some fd) :
    ((performed t attempts).filterMap fun a => a.1.opens.map (finalHandle t info attempts)).filter
      (· ≠ 0) = (performed t attempts).filterMap openedHandle := by
  have heq : ((performed t attempts).filterMap fun a => a.1.opens.map (finalHandle t info attempts)) =
      (performed t attempts).filterMap openedHandle := by
    refine List.filterMap_congr fun a ha => ?_
    unfold openedHandle
    cases hopens : a.1.opens with
    | none => rfl
    | some fd =>
      obtain ⟨l, r, hsplit⟩ := List.append_of_mem ha
      have hafter : ∀ b ∈ r, b.1.target ≠ some fd := by
        rw [hsplit, List.pairwise_append, List.pairwise_cons] at hkept
        exact fun b hb => hkept.2.1.1 b hb fd hopens
      rw [Option.map_some, Option.map_some, finalHandle_opened hsplit h.wellFormed hopens hafter]
  rw [heq, List.filter_eq_self]
  intro handle hhandle
  obtain ⟨a, ha, hopened⟩ := List.mem_filterMap.mp hhandle
  obtain ⟨fd, hopens, rfl⟩ := Option.map_eq_some_iff.mp hopened
  exact decide_eq_true (opened_ne_zero ha hopens)

/-- A handle that is opened and closed is still in its place. -/
theorem Ran.still_there (h : Ran t info attempts) {i : Nat} (hi : i < (performed t attempts).length)
    {fd : Int} (hopens : ((performed t attempts)[i]).1.opens = some fd)
    (hmem : ((performed t attempts)[i]).2.handle ∈ closedHandles (effectsWith t info attempts)) :
    ∀ b ∈ (performed t attempts).drop (i + 1), b.1.target ≠ some fd := by
  have hi' := List.getElem_mem hi
  -- the clean-up has found the handle for some descriptor
  have hfound : ∃ a ∈ attempts, ∃ fd', a.1.opens = some fd' ∧
      finalHandle t info attempts fd' = ((performed t attempts)[i]).2.handle := by
    rw [(handles_effectsWith t info attempts).2] at hmem
    obtain ⟨a, ha, hfound⟩ := List.mem_filterMap.mp (List.mem_of_mem_filter hmem)
    rw [h.found ha] at hfound
    obtain ⟨fd', hfd', heq⟩ := Option.map_eq_some_iff.mp hfound
    exact ⟨a, ha, fd', hfd', heq⟩
  obtain ⟨a, ha, fd', hfd', heq⟩ := hfound
  have hnonneg := target_nonneg (h.valid a ha) (opens_target hfd')
  rcases h.final_cases hnonneg (by rw [heq]; exact opened_ne_zero hi' hopens) with
    ⟨fd'', b, hb, hparent⟩ | ⟨l, c, r, hsplit, hc, hhandle, hlast⟩
  · -- not the parent's
    exact absurd (hparent.symm.trans heq) (h.fresh.parent _ hi' fd hopens fd'' b hb)
  · -- the action that has written it last is the one that opened it
    have hdistinct := List.pairwise_iff_getElem.mp h.fresh.distinct
    have hlength : l.length < (performed t attempts).length := by
      rw [hsplit, List.length_append, List.length_cons]
      omega
    have hget : (performed t attempts)[l.length] = c := by
      simp [hsplit]
    have hindex : l.length = i := by
      rcases Nat.lt_trichotomy l.length i with hlt | hindex | hgt
      · exact absurd (by rw [hget, ← hhandle, heq])
          (hdistinct l.length i hlength hi hlt fd' fd (by rw [hget]; exact hc) hopens)
      · exact hindex
      · exact absurd (by rw [hget, ← hhandle, heq])
          (hdistinct i l.length hi hlength hgt fd fd' hopens (by rw [hget]; exact hc))
    subst hindex
    rw [hget, hc] at hopens
    cases hopens
    intro b hb
    refine hlast b ?_
    rw [hsplit] at hb
    simpa using hb

/-- **Everything that was opened is closed, once**, exactly if no descriptor is written again and none that was
not opened is bound. -/
theorem Ran.closes_iff (h : Ran t info attempts) :
    (closedHandles (effectsWith t info attempts)).Perm (openedHandles (effectsWith t info attempts)) ↔
      ((performed t attempts).Pairwise fun a b => ∀ fd, a.1.opens = some fd → b.1.target ≠ some fd) ∧
        ∀ a ∈ unperformed t attempts, ∀ fd, a.1.opens = some fd →
          boundAfter t (performed t attempts) fd = false := by
  have hmem {a : Attempt} (ha : a ∈ unperformed t attempts) : a ∈ attempts :=
    (List.dropWhile_suffix _).mem ha
  have hunbound {a : Attempt} {fd : Int} (ha : a ∈ unperformed t attempts) (hopens : a.1.opens = some fd) :
      boundAfter t (performed t attempts) fd = false ↔ finalHandle t info attempts fd = 0 := by
    rw [← Bool.not_eq_true, h.boundAfter_eq (target_nonneg (h.valid a (hmem ha)) (opens_target hopens)),
      not_not]
  have hrest : ((unperformed t attempts).filterMap
      fun a => a.1.opens.map (finalHandle t info attempts)).filter (· ≠ 0) = [] ↔
      ∀ a ∈ unperformed t attempts, ∀ fd, a.1.opens = some fd →
        boundAfter t (performed t attempts) fd = false := by
    rw [List.filter_eq_nil_iff]
    constructor
    · intro hzero a ha fd hopens
      rw [hunbound ha hopens]
      have := hzero _ (List.mem_filterMap.mpr ⟨a, ha, by rw [hopens]; rfl⟩)
      simpa using this
    · intro hbound handle hhandle
      obtain ⟨a, ha, hopened⟩ := List.mem_filterMap.mp hhandle
      obtain ⟨fd, hopens, rfl⟩ := Option.map_eq_some_iff.mp hopened
      have := (hunbound ha hopens).mp (hbound a ha fd hopens)
      simpa using this
  rw [← hrest]
  have hopened := (handles_effectsWith t info attempts).1
  constructor
  · intro hperm
    have hkept : (performed t attempts).Pairwise
        fun a b => ∀ fd, a.1.opens = some fd → b.1.target ≠ some fd := by
      rw [List.pairwise_iff_getElem]
      intro i j hi hj hij fd hopens
      refine h.still_there hi hopens ?_ _ ?_
      · rw [hperm.mem_iff, hopened]
        exact List.mem_filterMap.mpr ⟨_, List.getElem_mem hi, by rw [openedHandle, hopens]; rfl⟩
      · rw [List.mem_drop_iff_getElem]
        exact ⟨j - (i + 1), by omega, by congr 1; omega⟩
    refine ⟨hkept, ?_⟩
    have hlength := hperm.length_eq
    rw [h.closed_eq, hopened, h.kept_eq hkept, List.length_append] at hlength
    exact List.length_eq_zero_iff.mp (by omega)
  · rintro ⟨hkept, hnil⟩
    rw [h.closed_eq, hopened, h.kept_eq hkept, hnil, List.append_nil]

/-! ## What is inheritable -/

theorem inheritAfter_untouched {inherit : UInt64 → Bool} {effects : List Effect} {handle : UInt64}
    (h : ∀ v, .setInherit handle v ∉ effects) : inheritAfter inherit effects handle = inherit handle := by
  induction effects generalizing inherit with
  | nil => rfl
  | cons e effects ih =>
    have hrest := fun f : UInt64 → Bool =>
      @ih f fun v hv => h v (List.mem_cons_of_mem _ hv)
    cases e with
    | setInherit handle' v =>
      refine (hrest _).trans (Function.update_of_ne ?_ _ _)
      rintro rfl
      exact h v List.mem_cons_self
    | opened handle' => exact hrest inherit
    | closed handle' => exact hrest inherit

/-- A handle that is always set to the same. -/
theorem inheritAfter_set {inherit : UInt64 → Bool} {effects : List Effect} {handle : UInt64} {c : Bool}
    (hconst : ∀ v, .setInherit handle v ∈ effects → v = c) (h : ∃ v, .setInherit handle v ∈ effects) :
    inheritAfter inherit effects handle = c := by
  induction effects generalizing inherit with
  | nil =>
    obtain ⟨v, hv⟩ := h
    cases hv
  | cons e effects ih =>
    have hrest := fun v hv => hconst v (List.mem_cons_of_mem _ hv)
    by_cases hlater : ∃ v, .setInherit handle v ∈ effects
    · exact ih hrest hlater
    · obtain ⟨v, hv⟩ := h
      have hfirst : e = .setInherit handle v := by
        rcases List.mem_cons.mp hv with heq | hv
        · exact heq.symm
        · exact absurd ⟨v, hv⟩ hlater
      subst hfirst
      refine (inheritAfter_untouched fun v hv => hlater ⟨v, hv⟩).trans ?_
      exact (Function.update_self handle v inherit).trans (hconst v List.mem_cons_self)

/-- Where the inheritability of a handle is set. -/
theorem mem_setInherit {handle : UInt64} {v : Bool} :
    .setInherit handle v ∈ effectsWith t info attempts ↔
      ∃ a ∈ performed t attempts,
        (∃ fd b, a.1 = .closeFd fd ∧ lookup t fd = some b ∧ b.flags &&& oNoinherit = 0 ∧
          handle = b.handle ∧ v = false) ∨
        ∃ oldfd newfd b, a.1 = .dup2 oldfd newfd ∧ lookup t oldfd = some b ∧
          b.flags &&& oNoinherit ≠ 0 ∧ handle = b.handle ∧ v = true := by
  have hclosed : .setInherit handle v ∉ ((attempts.map Prod.fst).filterMap
      (foundHandle (finalInfo t info attempts))).map Effect.closed := by
    intro hmem
    obtain ⟨_, -, heq⟩ := List.mem_map.mp hmem
    cases heq
  rw [effectsWith, List.mem_append, or_iff_left hclosed, List.mem_flatMap]
  refine exists_congr fun a => and_congr_right fun _ => ?_
  obtain ⟨action, answer⟩ := a
  cases action with
  | closeFd fd =>
    simp only [effectsOf]
    cases hlookup : lookup t fd with
    | none => simp [hlookup]
    | some b =>
      by_cases hflags : b.flags &&& oNoinherit = 0 <;> simp [hlookup, hflags]
  | dup2 oldfd newfd =>
    simp only [effectsOf]
    cases hlookup : lookup t oldfd with
    | none => simp [hlookup]
    | some b =>
      by_cases hflags : b.flags &&& oNoinherit = 0 <;> simp [hlookup, hflags]
  | openFd fd oflag mode path => simp [effectsOf]
  | chdir path => simp [effectsOf]
  | fchdir fd => simp [effectsOf]
  | vmAlloc => simp [effectsOf]
  | vmWrite => simp [effectsOf]

/-- **Every handle of the parent is as inheritable as before**, exactly if no `close` and no `dup2` has changed
it. -/
theorem inherits_iff_untouched (hw : WellFormed t) (inherit : UInt64 → Bool) :
    (∀ fd b, t.binding fd = some b →
        inheritAfter inherit (effectsWith t info attempts) b.handle = inherit b.handle) ↔
      (∀ a ∈ performed t attempts, ∀ fd b, a.1 = .closeFd fd → lookup t fd = some b →
        b.flags &&& oNoinherit = 0 → inherit b.handle = false) ∧
      ∀ a ∈ performed t attempts, ∀ oldfd newfd b, a.1 = .dup2 oldfd newfd → lookup t oldfd = some b →
        b.flags &&& oNoinherit ≠ 0 → inherit b.handle = true := by
  -- a handle is looked up under one descriptor only, so it is always set to the same
  have hunique {fd fd' : Int} {b b' : Binding} (hb : lookup t fd = some b) (hb' : lookup t fd' = some b')
      (heq : b.handle = b'.handle) : b = b' := by
    have hfd := hw.distinct fd fd' b b' (lookup_binding hw hb) (lookup_binding hw hb') heq
    rw [hfd, hb'] at hb
    exact (Option.some.inj hb).symm
  have hconst {fd : Int} {b : Binding} (hb : lookup t fd = some b) (v : Bool)
      (hv : .setInherit b.handle v ∈ effectsWith t info attempts) :
      v = decide (b.flags &&& oNoinherit ≠ 0) := by
    obtain ⟨_, -, ⟨_, b', -, hb', hflags, heq, rfl⟩ | ⟨_, _, b', -, hb', hflags, heq, rfl⟩⟩ :=
      mem_setInherit.mp hv
    · rw [hunique hb hb' heq]
      exact (decide_eq_false (not_not.mpr hflags)).symm
    · rw [hunique hb hb' heq]
      exact (decide_eq_true hflags).symm
  constructor
  · intro h
    refine ⟨?_, ?_⟩
    · intro a ha fd b hact hb hflags
      have hmem : .setInherit b.handle false ∈ effectsWith t info attempts :=
        mem_setInherit.mpr ⟨a, ha, .inl ⟨fd, b, hact, hb, hflags, rfl, rfl⟩⟩
      rw [← h fd b (lookup_binding hw hb), inheritAfter_set (hconst hb) ⟨false, hmem⟩]
      exact decide_eq_false (not_not.mpr hflags)
    · intro a ha oldfd newfd b hact hb hflags
      have hmem : .setInherit b.handle true ∈ effectsWith t info attempts :=
        mem_setInherit.mpr ⟨a, ha, .inr ⟨oldfd, newfd, b, hact, hb, hflags, rfl, rfl⟩⟩
      rw [← h oldfd b (lookup_binding hw hb), inheritAfter_set (hconst hb) ⟨true, hmem⟩]
      exact decide_eq_true hflags
  · rintro ⟨hcloses, hdups⟩ fd b -
    by_cases htouched : ∃ v, .setInherit b.handle v ∈ effectsWith t info attempts
    · obtain ⟨v, hv⟩ := htouched
      obtain ⟨a, ha, ⟨fd', b', hact, hb', hflags, heq, -⟩ | ⟨oldfd, newfd, b', hact, hb', hflags, heq, -⟩⟩ :=
        mem_setInherit.mp hv
      · rw [heq] at hv ⊢
        rw [inheritAfter_set (hconst hb') ⟨v, hv⟩, hcloses a ha fd' b' hact hb' hflags]
        exact decide_eq_false (not_not.mpr hflags)
      · rw [heq] at hv ⊢
        rw [inheritAfter_set (hconst hb') ⟨v, hv⟩, hdups a ha oldfd newfd b' hact hb' hflags]
        exact decide_eq_true hflags
    · exact inheritAfter_untouched fun v hv => htouched ⟨v, hv⟩

/-! ## The call -/

/-- **Spawn leaves the parent's descriptors alone** exactly if it does not come to its actions, or if these are
careful. -/
theorem leavesAlone_iff (hw : WellFormed t) (hvalid : ∀ a ∈ attempts, a.1.Valid)
    (hfresh : FreshHandles t (performed t attempts)) (inherit : UInt64 → Bool)
    {result : Bool} {effects : List Effect}
    (h : commonSpawn env t fdinfo attempts = some (result, effects)) :
    LeavesAlone t inherit effects ↔
      (env.Starts attempts → Careful t inherit (performed t attempts) (unperformed t attempts)) := by
  rcases commonSpawn_cases hw hvalid h with ⟨hstarts, rfl⟩ | ⟨hstarts, c, info, hcopy, hroom, rfl⟩
  · exact ⟨fun _ hs => absurd hs hstarts,
      fun _ => ⟨List.Perm.refl _, fun _ _ _ => List.not_mem_nil, fun _ _ _ => rfl⟩⟩
  · have hmax : (t.size : Int) ≤ c.maxFd t + 1 := by
      rw [ActionCounts.maxFd, maxFd_parent hw.size_pos hw.size_lt]
      omega
    have hran : Ran t info attempts := ⟨hw, hvalid, bindingsOf_copy hw.size_lt hmax hcopy, hroom, hfresh⟩
    have hcloses := hran.closes_iff
    have hinherits := @inherits_iff_untouched t attempts info hw inherit
    constructor
    · rintro ⟨hperm, -, huntouched⟩ -
      obtain ⟨hkept, hunbound⟩ := hcloses.mp hperm
      obtain ⟨hclose, hdup⟩ := hinherits.mp huntouched
      exact ⟨hkept, hunbound, hclose, hdup⟩
    · intro hcareful
      obtain ⟨hkept, hunbound, hclose, hdup⟩ := hcareful hstarts
      have hperm := hcloses.mpr ⟨hkept, hunbound⟩
      refine ⟨hperm, ?_, hinherits.mpr ⟨hclose, hdup⟩⟩
      -- what is closed was opened, so it is not the parent's
      intro fd b hb hmem
      rw [hperm.mem_iff, (handles_effectsWith t info attempts).1] at hmem
      obtain ⟨a, ha, hopened⟩ := List.mem_filterMap.mp hmem
      obtain ⟨fd', hopens, heq⟩ := Option.map_eq_some_iff.mp hopened
      exact hfresh.parent a ha fd' hopens fd b hb heq.symm

theorem wellFormed_tableWith {n : Nat} (hn : n + 1 < 2 ^ 31) : WellFormed (tableWith n) := by
  refine ⟨?_, ?_, ?_, ?_⟩
  · rw [size_tableWith]
    exact Nat.succ_pos n
  · rwa [size_tableWith]
  · intro fd b hb
    rw [binding_tableWith] at hb
    split at hb
    · cases hb
      decide
    · cases hb
  · intro fd fd' b b' hb hb' _
    rw [binding_tableWith] at hb hb'
    split at hb <;> split at hb'
    · omega
    · cases hb'
    · cases hb
    · cases hb

/-- Nothing fails. -/
def plainSpawn : SpawnEnv := ⟨true, true, some fun _ => 0, true⟩

/-- `open` of 5 and `dup2(3, 1)`. -/
theorem leavesAlone_open : commonSpawn plainSpawn (tableWith 3) ⟨0, .invalid, 0, 0⟩
      [(.openFd 5 0 0 [], ⟨24, .file, true⟩), (.dup2 3 1, ⟨4, .file, true⟩)] =
        some (true, [.opened 24, .closed 24]) ∧
    LeavesAlone (tableWith 3) (fun _ => true) [.opened 24, .closed 24] := by
  have hrun : commonSpawn plainSpawn (tableWith 3) ⟨0, .invalid, 0, 0⟩
      [(.openFd 5 0 0 [], ⟨24, .file, true⟩), (.dup2 3 1, ⟨4, .file, true⟩)] =
      some (true, [.opened 24, .closed 24]) := by decide +kernel
  have hbinding : ∀ fd b, (tableWith 3).binding fd = some b → b = ⟨20, .file, 0⟩ := by
    intro fd b hb
    rw [binding_tableWith] at hb
    split at hb
    · exact (Option.some.inj hb).symm
    · cases hb
  refine ⟨hrun, (leavesAlone_iff (wellFormed_tableWith (by decide)) (by decide) ⟨?_, ?_⟩ _ hrun).mpr ?_⟩
  · intro a ha fd hopens fd' b hb
    rw [hbinding fd' b hb]
    rcases List.mem_cons.mp ha with rfl | ha
    · decide
    · rcases List.mem_singleton.mp ha with rfl
      cases hopens
  · refine List.pairwise_cons.mpr ⟨?_, List.pairwise_singleton _ _⟩
    intro b hb fd fd' _ hopens
    rcases List.mem_singleton.mp hb with rfl
    cases hopens
  · intro _
    refine ⟨?_, ?_, ?_, ?_⟩
    · refine List.pairwise_cons.mpr ⟨?_, List.pairwise_singleton _ _⟩
      intro b hb fd hopens
      cases hopens
      rcases List.mem_singleton.mp hb with rfl
      decide
    · intro a ha
      cases ha
    · intro a ha fd b hact
      rcases List.mem_cons.mp ha with rfl | ha
      · cases hact
      · rcases List.mem_singleton.mp ha with rfl
        cases hact
    · intro a ha oldfd newfd b _ _ _
      rfl

/-- `dup2(7, 1)` fails, and then the parent's handle is closed for an `open` that was never performed. -/
theorem not_leavesAlone : commonSpawn plainSpawn (tableWith 3) ⟨0, .invalid, 0, 0⟩
      [(.dup2 7 1, ⟨4, .file, true⟩), (.openFd 3 0 0 [], ⟨24, .file, true⟩)] =
        some (false, [.closed 20]) ∧
    ¬ LeavesAlone (tableWith 3) (fun _ => true) [.closed 20] := by
  refine ⟨by decide +kernel, fun h => ?_⟩
  have hparent := h.parent 3 ⟨20, .file, 0⟩ rfl
  exact hparent (by decide)

end WindowsLibc.Spawn
