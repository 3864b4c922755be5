import WindowsLibc.Thread.Unwind.Stack

/-!
# The end of a thread

* `exit_unwinds`: a thread that exits, or is cancelled, calls its routines, the newest first, whatever the routines
  push and pop themselves.
* `cancel_follows_last`: what decides whether it is cancelled.
-/

namespace WindowsLibc.Thread.Unwind

open WindowsLibc.Lib

variable {R A V D : Type*}

/-! ## `execute_cleanup` -/

/-- The call of a routine. -/
def CleanupEntry.call (entry : CleanupEntry R A) : Option (R × A) := entry.routine.map (·, entry.arg)

def Out.call : Out R A V D → Option (R × A)
  | .called routine arg => some (routine, arg)
  | _ => none

/-- How many steps `execute_cleanup` takes, if the routines do nothing: one is called and returns, NULL is passed
over. -/
def ticks (stack : List (CleanupEntry R A)) : Nat :=
  (stack.map fun entry => if entry.routine.isSome then 2 else 1).sum

theorem ticks_cons (entry : CleanupEntry R A) (rest : List (CleanupEntry R A)) :
    ticks (entry :: rest) = (if entry.routine.isSome then 2 else 1) + ticks rest := by
  rw [ticks, List.map_cons, List.sum_cons, ticks]

/-- `execute_cleanup` is at work. -/
def Place.unwinding {G F : Type*} : Place G F → Bool
  | .loop | .routine _ => true
  | .growing _ back | .popping _ back => back.unwinding
  | _ => false

/-- The entries that `execute_cleanup` has not come to. -/
def Place.left : Place (CleanupEntry R A) (List (CleanupEntry R A)) → List (CleanupEntry R A) → List (CleanupEntry R A)
  | .loop, stack => stack
  | .routine rest, _ => rest
  | .growing _ back, _ | .popping _ back, _ => back.left []
  | _, _ => []

def Handlers.left (a : Handlers R A V) : List (CleanupEntry R A) := a.place.left a.stack

section
variable {place : Place (CleanupEntry R A) (List (CleanupEntry R A))}

/-- Behind the routine that is running, nothing changes. -/
theorem Place.left_of_user (h : place.user = true) (stack stack' : List (CleanupEntry R A)) :
    place.left stack = place.left stack' := by
  cases place with
  | loop => cases h
  | _ => rfl

theorem Place.left_of_not_unwinding (h : place.unwinding = false) (stack : List (CleanupEntry R A)) :
    place.left stack = [] := by
  induction place generalizing stack with
  | growing entry back ih | popping rest back ih => exact ih h []
  | loop | routine => cases h
  | _ => rfl

theorem Place.unwinding_map {G G' F F' : Type*} (g : G → G') (f : F → F') (place : Place G F) :
    (place.map g f).unwinding = place.unwinding := by
  induction place with
  | growing pending back ih | popping frame back ih => exact ih
  | _ => rfl

end

section
variable {t : ThreadInfo R A V} {a : Handlers R A V}

theorem Handlers.step_of_strikes (h : Stands t a) {e : Event R A V D} (hstrikes : Strikes t e) :
    a.step e = ({ a with place := .loop }, (.nothing : Out R A V D)) := by
  have huser := h.user_eq
  have hstate : t.cancelstate = a.cancelstate := congrArg Control.cancelstate h.control
  have hstrike (hne : t.cancelstate ≠ cancelDisable) : a.strike = { a with place := .loop } := by
    rw [strike, if_neg (hstate ▸ hne)]
  cases e with
  | exit =>
    have hexits : t.place.user = true := hstrikes
    rw [step, huser, if_pos hexits]
  | testcancel => rw [step, huser, if_pos hstrikes.1, hstrike hstrikes.2]
  | cancel => rw [step_cancel fun hq => hstrikes.1 ((exited_iff h).mp hq), hstrike hstrikes.2]
  | _ => exact absurd hstrikes id

theorem step_of_strikes {e : Event R A V D} (hstrikes : Strikes t e) :
    t.step e = some ({ t with place := .loop }, (.nothing : Out R A V D)) := by
  have hstrike (hne : t.cancelstate ≠ cancelDisable) : t.strike = { t with place := .loop } := by
    rw [ThreadInfo.strike, if_neg hne]
  cases e with
  | exit =>
    have hexits : t.place.user = true := hstrikes
    rw [ThreadInfo.step, if_pos hexits]
  | testcancel => rw [ThreadInfo.step, if_pos hstrikes.1, hstrike hstrikes.2]
  | cancel => rw [ThreadInfo.step_cancel hstrikes.1, hstrike hstrikes.2]
  | _ => exact absurd hstrikes id

/-- State, type and values of the thread are not calls. -/
theorem Control.setcancelstate_call (c : Control V) (state : Int) :
    (c.setcancelstate state : _ × Out R A V D).2.call = none := by
  rw [setcancelstate]
  split <;> rfl

theorem Control.setcanceltype_call (c : Control V) (type : Int) :
    (c.setcanceltype type : _ × Out R A V D).2.call = none := by
  rw [setcanceltype]
  split <;> rfl

theorem Control.tssSet_call (key : Fin 64) (value : Option V) (bitmap : BitVec 64) (c : Control V) :
    (c.tssSet key value bitmap : _ × Out R A V D).2.call = none := by
  rw [tssSet]
  split <;> rfl

theorem Handlers.push_left (huser : a.place.user = true) (entry : CleanupEntry R A) (memory : Memory) :
    (a.push entry memory).left = a.left := by
  rw [push]
  split
  · split
    · exact Place.left_of_user huser [] a.stack
    · rfl
  · exact Place.left_of_user huser (entry :: a.stack) a.stack

theorem Handlers.pop_left (huser : a.place.user = true) (execute : Bool) :
    (a.pop execute : _ × Out R A V D).1.left = a.left ∧ (a.pop execute : _ × Out R A V D).2.call = none := by
  have hplace (stack : List (CleanupEntry R A)) : a.place.left stack = a.left :=
    Place.left_of_user huser stack a.stack
  cases execute with
  | false => exact ⟨hplace a.stack.tail, rfl⟩
  | true =>
    rw [pop, if_pos rfl, callTop]
    split
    · exact ⟨rfl, rfl⟩
    · next entry rest _ =>
      split
      · exact ⟨hplace [], rfl⟩
      · exact ⟨hplace rest, rfl⟩

/-- The thread goes on: the routine that is called is the newest of those that are left. -/
theorem Handlers.progress_left (hnested : Nested a.stack a.place) (bitmap : BitVec 64)
    (destructors : Fin 64 → Option D) :
    a.left.filterMap CleanupEntry.call =
      [(a.progress bitmap destructors).2].filterMap Out.call ++
        (a.progress bitmap destructors).1.left.filterMap CleanupEntry.call := by
  rw [left]
  cases hq : a.place with
  | program | exited => rw [progress, hq, left, hq]; rfl
  | growing entry back =>
    rw [hq] at hnested
    have hback := Place.left_of_user hnested.1 [] (entry :: a.stack)
    rw [progress, hq, left, Place.left, hback]
    rfl
  | popping rest back =>
    rw [hq] at hnested
    have hback := Place.left_of_user hnested.2.1 [] rest
    rw [progress, hq, left, Place.left, hback]
    rfl
  | loop =>
    have hloop : a.progress bitmap destructors =
        if a.stack = [] then ({ a with place := .tls 0 }, (.nothing : Out R A V D))
        else a.callTop .routine .called := by
      rw [progress, hq]
    rw [hloop]
    cases hstack : a.stack with
    | nil => rfl
    | cons entry rest =>
      rw [if_neg (List.cons_ne_nil _ _), Place.left]
      cases hroutine : entry.routine with
      | none =>
        have hcall : a.callTop .routine .called = ({ a with stack := rest }, (.nothing : Out R A V D)) := by
          simp only [callTop, hstack, hroutine]
        have hpassed : entry.call = none := by
          rw [CleanupEntry.call, hroutine]
          rfl
        rw [hcall, List.filterMap_cons_none hpassed, left, hq]
        rfl
      | some routine =>
        have hcall : a.callTop .routine .called =
            ({ a with place := .routine rest }, (.called routine entry.arg : Out R A V D)) := by
          simp only [callTop, hstack, hroutine]
        have hcalled : entry.call = some (routine, entry.arg) := by
          rw [CleanupEntry.call, hroutine]
          rfl
        rw [hcall, List.filterMap_cons_some hcalled]
        rfl
  | routine rest => rw [progress, hq]; rfl
  | tls i =>
    rw [progress, hq]
    simp only
    split
    · next hi =>
      rcases cleanupSlot_cases (R := R) (A := A) a.toControl ⟨i, hi⟩ bitmap destructors with
        ⟨value, destructor, -, hspec⟩ | ⟨-, hspec⟩
      · rw [hspec]
        rfl
      · rw [hspec]
        rfl
    · rfl
  | destructor i => rw [progress, hq]; rfl

/-- One event that does not strike. -/
theorem Stands.step_left (h : Stands t a) {e : Event R A V D} (hgoes : ¬ Strikes t e) :
    a.left.filterMap CleanupEntry.call =
      [(a.step e).2].filterMap Out.call ++ (a.step e).1.left.filterMap CleanupEntry.call := by
  have huser := h.user_eq
  have hstate : t.cancelstate = a.cancelstate := congrArg Control.cancelstate h.control
  have hstrike (hdisabled : t.cancelstate = cancelDisable) : a.strike = a := by
    rw [Handlers.strike, if_pos (hstate ▸ hdisabled)]
  have hcontrol (r : Control V × Out R A V D) (hcall : r.2.call = none) :
      a.left.filterMap CleanupEntry.call =
        [r.2].filterMap Out.call ++ a.left.filterMap CleanupEntry.call := by
    rw [List.filterMap_cons_none hcall]
    rfl
  cases e with
  | push entry memory =>
    rw [Handlers.step]
    split
    · next hu => rw [Handlers.push_left hu]; rfl
    · rfl
  | pop execute =>
    rw [Handlers.step]
    split
    · next hu =>
      obtain ⟨hleft, hcall⟩ := Handlers.pop_left (D := D) hu execute
      rw [hleft, List.filterMap_cons_none hcall]
      rfl
    · rfl
  | setcancelstate state =>
    rw [Handlers.step]
    split
    · exact hcontrol _ (Control.setcancelstate_call a.toControl state)
    · rfl
  | setcanceltype type =>
    rw [Handlers.step]
    split
    · exact hcontrol _ (Control.setcanceltype_call a.toControl type)
    · rfl
  | tssSet key value bitmap =>
    rw [Handlers.step]
    split
    · exact hcontrol _ (Control.tssSet_call key value bitmap a.toControl)
    · rfl
  | testcancel =>
    rw [Handlers.step]
    split
    · next hu =>
      have hdisabled : t.cancelstate = cancelDisable := by
        by_contra hne
        exact hgoes ⟨huser ▸ hu, hne⟩
      rw [hstrike hdisabled]
      rfl
    · rfl
  | exit =>
    have hu : ¬ a.place.user = true := by
      rw [huser]
      exact hgoes
    rw [Handlers.step, if_neg hu]
    rfl
  | cancel =>
    by_cases hexited : a.place = .exited
    · rw [Handlers.step, hexited]
      rfl
    · have hdisabled : t.cancelstate = cancelDisable := by
        by_contra hne
        exact hgoes ⟨fun hp => hexited ((exited_iff h).mpr hp), hne⟩
      rw [Handlers.step_cancel hexited, hstrike hdisabled]
      rfl
  | progress bitmap destructors => exact Handlers.progress_left h.nested bitmap destructors

/-! ## What has been given back -/

/-- Before the first slot, no routine is left, and no block. -/
def Drained (t : ThreadInfo R A V) : Prop := t.place = .tls 0 → t.used = 0 ∧ ∀ cells, t.entries ≠ .live cells

theorem drained_of_user (h : t.place.user = true) : Drained t := by
  intro hplace
  rw [hplace] at h
  cases h

theorem store_place {entry : CleanupEntry R A} {t' : ThreadInfo R A V} (h : t.store entry = some t') :
    t'.place = t.place := by
  rw [ThreadInfo.store] at h
  split at h
  · split at h
    · cases h
      rfl
    · cases h
  · cases h

theorem push_place {entry : CleanupEntry R A} {memory : Memory} {t' : ThreadInfo R A V}
    (h : t.push entry memory = some t') : t'.place = t.place ∨ ∃ pending, t'.place = .growing pending t.place := by
  unfold ThreadInfo.push at h
  split at h
  · cases h
    rw [ThreadInfo.firstBlock]
    split
    · exact .inr ⟨_, rfl⟩
    · exact .inl rfl
  · split at h
    · split at h
      · cases h
        exact .inl rfl
      · cases h
        exact .inr ⟨_, rfl⟩
      · cases h
        exact .inr ⟨_, rfl⟩
      · cases h
    · exact .inl (store_place h)

/-- A routine is called, or left out. -/
theorem callTop_cases {place : Place (Pending R A) Nat} {out : R → A → Out R A V D} {t' : ThreadInfo R A V}
    {o : Out R A V D} (h : t.callTop place out = some (t', o)) :
    t' = { t with place := place } ∨ t' = { t with used := decrement t.used } := by
  rw [ThreadInfo.callTop] at h
  split at h
  · cases h
  · split at h
    · cases h
      exact .inl rfl
    · cases h
      exact .inr rfl

theorem strike_drained (h : Drained t) : Drained t.strike := by
  rw [ThreadInfo.strike]
  split
  · exact h
  · intro hplace
    cases hplace

theorem progress_drained (hstands : Stands t a) (h : Drained t) {bitmap : BitVec 64}
    {destructors : Fin 64 → Option D} {t' : ThreadInfo R A V} {o : Out R A V D}
    (hstep : t.progress bitmap destructors = some (t', o)) : Drained t' := by
  have hmap := hstands.place
  have hnested := hstands.nested
  rw [ThreadInfo.progress] at hstep
  split at hstep
  · cases hstep
    exact h
  · next pending back hp =>
    obtain ⟨t₁, hgrown, hsome⟩ := Option.map_eq_some_iff.mp hstep
    cases hsome
    rw [ThreadInfo.grown] at hgrown
    apply drained_of_user
    rw [store_place hgrown]
    cases hq : a.place with
    | growing entry back' =>
      rw [hp, hq] at hmap
      rw [hq] at hnested
      change back.user = true
      rw [← Place.user_map Pending.entry id back, (Place.growing.inj hmap).2, Place.user_map]
      exact hnested.1
    | _ =>
      rw [hp, hq] at hmap
      cases hmap
  · next frame back hp =>
    cases hstep
    apply drained_of_user
    cases hq : a.place with
    | popping rest back' =>
      rw [hp, hq] at hmap
      rw [hq] at hnested
      change back.user = true
      rw [← Place.user_map Pending.entry id back, (Place.popping.inj hmap).2, Place.user_map]
      exact hnested.2.1
    | _ =>
      rw [hp, hq] at hmap
      cases hmap
  · next hp =>
    intro hplace
    split at hstep
    · rcases callTop_cases hstep with rfl | rfl
      · cases hplace
      · cases hp.symm.trans hplace
    · next hused =>
      obtain ⟨t₁, hrelease, hsome⟩ := Option.map_eq_some_iff.mp hstep
      cases hsome
      rw [ThreadInfo.release] at hrelease
      split at hrelease
      · next hnull =>
        cases hrelease
        exact ⟨not_not.mp hused, fun cells hlive => (by cases hnull.symm.trans hlive)⟩
      · cases hrelease
        exact ⟨not_not.mp hused, fun cells hlive => (by cases hlive)⟩
      · cases hrelease
  · cases hstep
    intro hplace
    cases hplace
  · split at hstep
    · next i _ hi =>
      intro hplace
      rcases cleanupSlot_cases (R := R) (A := A) t.toControl ⟨i, hi⟩ bitmap destructors with
        ⟨value, destructor, hslot, -⟩ | ⟨hslot, -⟩
      · rw [hslot] at hstep
        cases hstep
        cases hplace
      · rw [hslot] at hstep
        cases hstep
        exact absurd (Place.tls.inj hplace) (Nat.succ_ne_zero i)
    · cases hstep
      intro hplace
      cases hplace
  · next i _ =>
    cases hstep
    intro hplace
    exact absurd (Place.tls.inj hplace) (Nat.succ_ne_zero i)
  · cases hstep
    exact h

theorem step_drained (hstands : Stands t a) (h : Drained t) {e : Event R A V D} {t' : ThreadInfo R A V}
    {o : Out R A V D} (hstep : t.step e = some (t', o)) : Drained t' := by
  cases e with
  | push entry memory =>
    rw [ThreadInfo.step] at hstep
    split at hstep
    · next hu =>
      obtain ⟨t₁, hpush, hsome⟩ := Option.map_eq_some_iff.mp hstep
      cases hsome
      rcases push_place hpush with hsame | ⟨pending, hgrowing⟩
      · exact drained_of_user (hsame ▸ hu)
      · intro hplace
        rw [hgrowing] at hplace
        cases hplace
    · cases hstep
      exact h
  | pop execute =>
    rw [ThreadInfo.step] at hstep
    split at hstep
    · next hu =>
      rw [ThreadInfo.pop] at hstep
      split at hstep
      · cases hstep
        exact h
      · split at hstep
        · rcases callTop_cases hstep with rfl | rfl
          · exact drained_of_user rfl
          · exact drained_of_user hu
        · cases hstep
          exact drained_of_user hu
    · cases hstep
      exact h
  | setcancelstate | setcanceltype | tssSet =>
    rw [ThreadInfo.step] at hstep
    split at hstep
    · cases hstep
      exact h
    · cases hstep
      exact h
  | testcancel =>
    rw [ThreadInfo.step] at hstep
    cases hstep
    split
    · exact strike_drained h
    · exact h
  | exit =>
    rw [ThreadInfo.step] at hstep
    cases hstep
    split
    · intro hplace
      cases hplace
    · exact h
  | cancel =>
    rw [ThreadInfo.step] at hstep
    split at hstep
    · cases hstep
      exact h
    · cases hstep
      exact strike_drained h
  | progress bitmap destructors => exact progress_drained hstands h hstep

/-! ## Runs -/

/-- A run that nothing strikes. -/
theorem Stands.run_left (h : Stands t a) (hdrained : Drained t) (es : List (Event R A V D))
    (halong : (threadMachine : Machine (ThreadInfo R A V) _ _).Along
      (fun t e => (Harmless t e ∧ Fits t e ∧ Paired t e) ∧ ¬ Strikes t e) t es) :
    ∃ t' a' os, (threadMachine : Machine (ThreadInfo R A V) _ _).run t es = some (t', os) ∧ Stands t' a' ∧
      Drained t' ∧
      a.left.filterMap CleanupEntry.call = os.filterMap Out.call ++ a'.left.filterMap CleanupEntry.call := by
  induction es generalizing t a with
  | nil => exact ⟨t, a, [], rfl, h, hdrained, rfl⟩
  | cons e es ih =>
    obtain ⟨⟨⟨hharmless, hfits, hpaired⟩, hgoes⟩, hrest⟩ := halong
    obtain ⟨t₁, hstep, h₁⟩ := step_stands h hharmless hfits hpaired
    have hmachine : (threadMachine : Machine (ThreadInfo R A V) _ _).step t e = some (t₁, (a.step e).2) := hstep
    obtain ⟨t', a', os, hrun, h', hdrained', hleft⟩ :=
      ih h₁ (step_drained h hdrained hstep) (hrest t₁ _ hmachine)
    refine ⟨t', a', (a.step e).2 :: os, ?_, h', hdrained', ?_⟩
    · rw [Machine.run_cons hmachine, hrun]
      rfl
    · rw [h.step_left hgoes, hleft, ← List.append_assoc, ← List.filterMap_append]
      rfl

/-- `execute_cleanup` takes the whole stack down. -/
theorem Handlers.run_loop (stack : List (CleanupEntry R A)) (bitmap : BitVec 64)
    (destructors : Fin 64 → Option D) (hplace : a.place = .loop) (hstack : a.stack = stack) :
    ∃ os : List (Out R A V D), machine.run a (List.replicate (ticks stack + 1) (.progress bitmap destructors)) =
        some ({ a with stack := [], place := .tls 0 }, os) := by
  induction stack generalizing a with
  | nil =>
    have hstep : (machine : Machine (Handlers R A V) _ _).step a (.progress bitmap destructors) =
        some ({ a with stack := [], place := .tls 0 }, .nothing) := by
      simp only [machine, step, progress, hplace, hstack, if_true]
    refine ⟨[.nothing], ?_⟩
    change (machine : Machine (Handlers R A V) _ _).run a [.progress bitmap destructors] = _
    rw [Machine.run_cons hstep]
    rfl
  | cons entry rest ih =>
    have hcall : a.progress bitmap destructors = (a.callTop .routine .called : _ × Out R A V D) := by
      rw [progress, hplace]
      simp only
      rw [hstack, if_neg (List.cons_ne_nil _ _)]
    cases hroutine : entry.routine with
    | none =>
      have hstep : (machine : Machine (Handlers R A V) _ _).step a (.progress bitmap destructors) =
          some ({ a with stack := rest }, .nothing) := by
        simp only [machine, step, hcall, callTop, hstack, hroutine]
      obtain ⟨os, hrun⟩ := ih (a := { a with stack := rest }) hplace rfl
      have hticks : ticks (entry :: rest) + 1 = (ticks rest + 1) + 1 := by
        rw [ticks_cons, hroutine, Option.isSome_none, if_neg Bool.false_ne_true]
        omega
      refine ⟨.nothing :: os, ?_⟩
      rw [hticks, List.replicate_succ, Machine.run_cons hstep, hrun]
      rfl
    | some routine =>
      have hstep : (machine : Machine (Handlers R A V) _ _).step a (.progress bitmap destructors) =
          some ({ a with place := .routine rest }, .called routine entry.arg) := by
        simp only [machine, step, hcall, callTop, hstack, hroutine]
      have hstep' : (machine : Machine (Handlers R A V) _ _).step { a with place := .routine rest }
          (.progress bitmap destructors) = some ({ a with stack := rest, place := .loop }, .nothing) := rfl
      obtain ⟨os, hrun⟩ := ih (a := { a with stack := rest, place := .loop }) rfl rfl
      have hticks : ticks (entry :: rest) + 1 = (ticks rest + 1) + 1 + 1 := by
        rw [ticks_cons, hroutine, Option.isSome_some, if_pos rfl]
        omega
      refine ⟨.called routine entry.arg :: .nothing :: os, ?_⟩
      rw [hticks, List.replicate_succ, Machine.run_cons hstep, List.replicate_succ, Machine.run_cons hstep', hrun]
      rfl

/-- No code of the user is in between, and a routine that is running has pushed nothing. -/
def Idle (t : ThreadInfo R A V) : Prop :=
  match t.place with
  | .growing _ _ | .popping _ _ => False
  | .routine level => t.used = level
  | _ => True

theorem Idle.paired (h : Idle t) : ∀ level ∈ t.place.frame, t.used = level := by
  intro level hlevel
  unfold Idle at h
  cases hp : t.place with
  | popping =>
    rw [hp] at h
    exact h.elim
  | routine frame =>
    rw [hp] at h hlevel
    cases hlevel
    exact h
  | _ =>
    rw [hp] at hlevel
    cases hlevel

theorem Idle.progress (h : Idle t) {bitmap : BitVec 64} {destructors : Fin 64 → Option D} {t' : ThreadInfo R A V}
    {o : Out R A V D} (hstep : t.progress bitmap destructors = some (t', o)) : Idle t' := by
  rw [ThreadInfo.progress] at hstep
  split at hstep
  · cases hstep
    exact h
  · next hp =>
    rw [Idle, hp] at h
    exact h.elim
  · next hp =>
    rw [Idle, hp] at h
    exact h.elim
  · next hp =>
    split at hstep
    · rcases callTop_cases hstep with rfl | rfl
      · exact rfl
      · rw [Idle]
        simp only [hp]
    · obtain ⟨t₁, hrelease, hsome⟩ := Option.map_eq_some_iff.mp hstep
      cases hsome
      rw [ThreadInfo.release] at hrelease
      split at hrelease <;> cases hrelease <;> trivial
  · cases hstep
    trivial
  · split at hstep
    · next i _ hi =>
      rcases cleanupSlot_cases (R := R) (A := A) t.toControl ⟨i, hi⟩ bitmap destructors with
        ⟨value, destructor, hslot, -⟩ | ⟨hslot, -⟩
      · rw [hslot] at hstep
        cases hstep
        trivial
      · rw [hslot] at hstep
        cases hstep
        trivial
    · cases hstep
      trivial
  · cases hstep
    trivial
  · cases hstep
    exact h

/-- Going on is in order, and does not strike. -/
theorem Idle.along (h : Idle t) (n : Nat) (bitmap : BitVec 64) (destructors : Fin 64 → Option D) :
    (threadMachine : Machine (ThreadInfo R A V) _ _).Along
      (fun t e => (Harmless t e ∧ Fits t e ∧ Paired t e) ∧ ¬ Strikes t e) t
      (List.replicate n (.progress bitmap destructors)) := by
  induction n generalizing t with
  | zero => trivial
  | succ n ih =>
    refine ⟨⟨⟨fun hcause => ?_, trivial, h.paired⟩, id⟩, fun t' o hstep => ih (h.progress hstep)⟩
    rcases hcause with hstrikes | ⟨hpushes, -⟩
    · exact hstrikes.elim
    · exact hpushes.elim

end

/-- **The end of a thread.** A thread that exits or is cancelled, where that is harmless, calls every routine that
has been pushed and not popped, the newest first, each once, whatever the routines push and pop while they run,
as long as nothing strikes again. When it comes to its storage, no routine is left and the block has been given
back; where the routines push nothing, it comes there. -/
theorem exit_unwinds (es : List (Event R A V D))
    (h : (threadMachine : Machine (ThreadInfo R A V) _ _).Along
      (fun t e => Harmless t e ∧ Fits t e ∧ Paired t e) newThread es)
    {t : ThreadInfo R A V} {os : List (Out R A V D)} (hrun : threadMachine.run newThread es = some (t, os))
    {e : Event R A V D} (hstrikes : Strikes t e) (hharmless : Harmless t e) :
    ∃ a, (Handlers.machine : Machine (Handlers R A V) _ _).run .new es = some (a, os) ∧
      (∀ es', (threadMachine : Machine (ThreadInfo R A V) _ _).Along
          (fun t e => (Harmless t e ∧ Fits t e ∧ Paired t e) ∧ ¬ Strikes t e) { t with place := .loop } es' →
        ∃ t' rest os', threadMachine.run t (e :: es') = some (t', os') ∧
          a.stack.filterMap CleanupEntry.call = os'.filterMap Out.call ++ rest ∧
          (t'.place.unwinding = false → rest = []) ∧
          (t'.place = .tls 0 → t'.used = 0 ∧ ∀ cells, t'.entries ≠ .live cells)) ∧
      ∀ bitmap destructors, ∃ t' os',
        threadMachine.run t (e :: List.replicate (ticks a.stack + 1) (.progress bitmap destructors)) =
          some (t', os') ∧ t'.place = .tls 0 := by
  obtain ⟨t', a, os', hrun', hspec, hstands⟩ := unwind_refines es h
  cases hrun.symm.trans hrun'
  have hfits : Fits t e := by
    cases e with
    | push => exact absurd hstrikes id
    | _ => trivial
  have hpaired : Paired t e := by
    cases e with
    | pop | progress => exact absurd hstrikes id
    | _ => trivial
  have hspec₁ := Handlers.step_of_strikes hstands hstrikes
  have hstep₁ := step_of_strikes hstrikes
  obtain ⟨t₁, hstep, hstands₁⟩ := step_stands hstands hharmless hfits hpaired
  obtain ⟨rfl, -⟩ := Prod.mk.inj (Option.some.inj (hstep₁.symm.trans hstep))
  rw [hspec₁] at hstands₁
  have hmachine : (threadMachine : Machine (ThreadInfo R A V) _ _).step t e =
    some ({ t with place := .loop }, .nothing) := hstep₁
  have hdrained : Drained ({ t with place := .loop } : ThreadInfo R A V) := fun hplace => (by cases hplace)
  refine ⟨a, hspec, fun es' halong => ?_, fun bitmap destructors => ?_⟩
  · obtain ⟨t', a', os₁, hrun₁, h', hdrained', hleft⟩ := hstands₁.run_left hdrained es' halong
    refine ⟨t', a'.left.filterMap CleanupEntry.call, .nothing :: os₁, ?_, hleft, fun hover => ?_, hdrained'⟩
    · rw [Machine.run_cons hmachine, hrun₁]
      rfl
    · have hplace := congrArg Place.unwinding h'.place
      rw [Place.unwinding_map, Place.unwinding_map, hover] at hplace
      rw [Handlers.left, Place.left_of_not_unwinding hplace.symm]
      rfl
  · have hidle : Idle ({ t with place := .loop } : ThreadInfo R A V) := trivial
    obtain ⟨os₁, hloop⟩ := Handlers.run_loop (a := { a with place := .loop }) a.stack bitmap destructors rfl rfl
    obtain ⟨t₂, a₂, os₂, hrun₂, hspec₂, hstands₂⟩ := hstands₁.run _
      (Machine.along_of_along (I := fun _ => True) (fun _ _ _ hgoes => ⟨hgoes.1, fun _ _ _ => trivial⟩) _ trivial
        (hidle.along (ticks a.stack + 1) bitmap destructors))
    cases hloop.symm.trans hspec₂
    refine ⟨t₂, .nothing :: os₁, ?_, ?_⟩
    · rw [Machine.run_cons hmachine, hrun₂]
      rfl
    · have hplace := hstands₂.place
      cases hp : t₂.place with
      | tls i =>
        rw [hp] at hplace
        cases hplace
        rfl
      | _ =>
        rw [hp] at hplace
        cases hplace

/-- A routine is called, and pushes and pops one itself. -/
def pushedWhile : List (Event Nat Nat Nat (Fin 64)) :=
  [.progress 1 some, .push ⟨some 4, 40⟩ .moved, .pop false, .progress 1 some, .progress 1 some]

theorem exit_unwinds_pushedInside :
    ∃ (t t' : ThreadInfo Nat Nat Nat) (os os' : List (Out Nat Nat Nat (Fin 64))),
      threadMachine.run newThread pushedInside = some (t, os) ∧
      threadMachine.run t (.exit :: pushedWhile) = some (t', os') ∧
      os'.filterMap Out.call = [(1, 10)] ∧ t'.place = .tls 0 ∧ t'.used = 0 := by
  obtain ⟨t, os, hrun, rfl⟩ : ∃ (t : ThreadInfo Nat Nat Nat) (os : List (Out Nat Nat Nat (Fin 64))),
      threadMachine.run newThread pushedInside = some (t, os) ∧
        t = ⟨⟨0, 0, Function.update (fun _ => none) 0 (some 7)⟩, 8, 1,
          .live (some ⟨some 1, 10⟩ :: some ⟨some 2, 20⟩ :: some ⟨some 3, 30⟩ :: List.replicate 5 none), .program⟩ :=
    ⟨_, _, rfl, rfl⟩
  obtain ⟨a, hspec, hcalls, -⟩ := exit_unwinds pushedInside (pushedInside_harmless.and pushedInside_paired) hrun
    (e := .exit) rfl fun _ hfreed => (by cases hfreed)
  obtain ⟨t', rest, os', hrun', hleft, hover, hdrained⟩ := hcalls pushedWhile (by
    refine ⟨⟨⟨fun _ hfreed => (by cases hfreed), trivial, fun level hlevel => (by cases hlevel)⟩, id⟩, ?_⟩
    rintro t o ⟨⟩
    refine ⟨⟨⟨fun _ hfreed => (by cases hfreed), (by decide : 1 < 2 ^ 31), trivial⟩, id⟩, ?_⟩
    rintro t o ⟨⟩
    refine ⟨⟨⟨fun _ hfreed => (by cases hfreed), trivial, fun level hlevel => ?_⟩, id⟩, ?_⟩
    · cases hlevel
      exact (by decide : 1 < 2)
    rintro t o ⟨⟩
    refine ⟨⟨⟨fun _ hfreed => (by cases hfreed), trivial, fun level hlevel => ?_⟩, id⟩, ?_⟩
    · cases hlevel
      rfl
    rintro t o ⟨⟩
    exact ⟨⟨⟨fun _ hfreed => (by cases hfreed), trivial, fun level hlevel => (by cases hlevel)⟩, id⟩,
      fun _ _ _ => trivial⟩)
  have hplace : t'.place = .tls 0 := by
    cases hrun'
    rfl
  have hstack : a.stack = [⟨some 1, 10⟩] := by
    cases hspec
    rfl
  rw [hover (by rw [hplace]; rfl), List.append_nil, hstack] at hleft
  exact ⟨_, t', os, os', hrun, hrun', hleft.symm, hplace, (hdrained hplace).1⟩

/-! ## Who can be cancelled -/

/-- What `cancelstate` is after a call: the value that `setcancelstate` or `setcanceltype` has accepted. -/
def accepted (state : Int) : Event R A V D × Out R A V D → Int
  | (.setcancelstate value, .old _) => value
  | (.setcanceltype value, .old _) => value
  | _ => state

section
variable {t t' : ThreadInfo R A V}

theorem store_control {entry : CleanupEntry R A} (h : t.store entry = some t') : t'.toControl = t.toControl := by
  rw [ThreadInfo.store] at h
  split at h
  · split at h
    · cases h
      rfl
    · cases h
  · cases h

theorem push_control {entry : CleanupEntry R A} {memory : Memory} (h : t.push entry memory = some t') :
    t'.toControl = t.toControl := by
  unfold ThreadInfo.push at h
  split at h
  · cases h
    rw [ThreadInfo.firstBlock]
    split <;> rfl
  · split at h
    · split at h
      · cases h
        rfl
      · cases h
        rfl
      · cases h
        rfl
      · cases h
    · exact store_control h

theorem callTop_control {place : Place (Pending R A) Nat} {out : R → A → Out R A V D} {o : Out R A V D}
    (h : t.callTop place out = some (t', o)) : t'.toControl = t.toControl := by
  rcases callTop_cases h with rfl | rfl
  · rfl
  · rfl

theorem cleanupSlot_cancelstate {G F : Type*} (c : Control V) (i : Fin 64) (bitmap : BitVec 64)
    (destructors : Fin 64 → Option D) {c' : Control V} {place : Place G F} {o : Out R A V D}
    (h : c.cleanupSlot i bitmap destructors = (c', place, o)) :
    c'.cancelstate = c.cancelstate ∧ c'.canceltype = c.canceltype := by
  rw [Control.cleanupSlot] at h
  split at h <;> cases h <;> exact ⟨rfl, rfl⟩

/-- The rest of the thread does not touch the state and the type. -/
theorem progress_cancelstate {bitmap : BitVec 64} {destructors : Fin 64 → Option D} {o : Out R A V D}
    (h : t.progress bitmap destructors = some (t', o)) :
    t'.cancelstate = t.cancelstate ∧ t'.canceltype = t.canceltype := by
  have hcontrol (hc : t'.toControl = t.toControl) :
      t'.cancelstate = t.cancelstate ∧ t'.canceltype = t.canceltype :=
    ⟨congrArg Control.cancelstate hc, congrArg Control.canceltype hc⟩
  rw [ThreadInfo.progress] at h
  split at h
  · cases h
    exact ⟨rfl, rfl⟩
  · next pending _ =>
    obtain ⟨t₁, hgrown, hsome⟩ := Option.map_eq_some_iff.mp h
    cases hsome
    rw [ThreadInfo.grown] at hgrown
    have hstored := store_control hgrown
    exact hcontrol hstored
  · cases h
    exact ⟨rfl, rfl⟩
  · split at h
    · exact hcontrol (callTop_control h)
    · obtain ⟨t₁, hrelease, hsome⟩ := Option.map_eq_some_iff.mp h
      cases hsome
      rw [ThreadInfo.release] at hrelease
      split at hrelease <;> cases hrelease <;> exact ⟨rfl, rfl⟩
  · cases h
    exact ⟨rfl, rfl⟩
  · split at h
    · next i _ hi =>
      generalize hslot : t.toControl.cleanupSlot ⟨i, hi⟩ bitmap destructors = slot at h
      obtain ⟨c, place, o'⟩ := slot
      cases h
      exact cleanupSlot_cancelstate t.toControl ⟨i, hi⟩ bitmap destructors hslot
    · cases h
      exact ⟨rfl, rfl⟩
  · cases h
    exact ⟨rfl, rfl⟩
  · cases h
    exact ⟨rfl, rfl⟩

theorem strike_control : t.strike.toControl = t.toControl := by
  rw [ThreadInfo.strike]
  split <;> rfl

theorem setcancelstate_cases (c : Control V) (state : Int) :
    (c.setcancelstate state : _ × Out R A V D) = (c, .failed) ∨
      (c.setcancelstate state : _ × Out R A V D) = ({ c with cancelstate := state }, .old c.cancelstate) ∧
        (state = cancelEnable ∨ state = cancelDisable) := by
  rw [Control.setcancelstate]
  by_cases hvalid : state ≠ cancelEnable ∧ state ≠ cancelDisable
  · exact .inl (if_pos hvalid)
  · refine .inr ⟨if_neg hvalid, ?_⟩
    by_cases henable : state = cancelEnable
    · exact .inl henable
    · exact .inr (not_not.mp fun hdisable => hvalid ⟨henable, hdisable⟩)

theorem tssSet_cancelstate (c : Control V) (key : Fin 64) (value : Option V) (bitmap : BitVec 64) :
    (c.tssSet key value bitmap : _ × Out R A V D).1.cancelstate = c.cancelstate ∧
      (c.tssSet key value bitmap : _ × Out R A V D).1.canceltype = c.canceltype := by
  rw [Control.tssSet]
  split
  · exact ⟨rfl, rfl⟩
  · exact ⟨rfl, rfl⟩

theorem setcanceltype_cases (c : Control V) (type : Int) :
    (c.setcanceltype type : _ × Out R A V D) = (c, .failed) ∨
      (c.setcanceltype type : _ × Out R A V D) = ({ c with cancelstate := type }, .old c.canceltype) ∧
        (type = cancelEnable ∨ type = cancelDisable) := by
  rw [Control.setcanceltype]
  by_cases hvalid : type ≠ cancelEnable ∧ type ≠ cancelDisable
  · exact .inl (if_pos hvalid)
  · refine .inr ⟨if_neg hvalid, ?_⟩
    by_cases henable : type = cancelEnable
    · exact .inl henable
    · exact .inr (not_not.mp fun hdisable => hvalid ⟨henable, hdisable⟩)

/-- One event: the state is what has been accepted, one of the two, and the type is never stored. -/
theorem step_cancelstate {e : Event R A V D} {o : Out R A V D} (h : t.step e = some (t', o)) :
    t'.cancelstate = accepted t.cancelstate (e, o) ∧ t'.canceltype = t.canceltype ∧
      (t'.cancelstate ≠ t.cancelstate → t'.cancelstate = cancelEnable ∨ t'.cancelstate = cancelDisable) := by
  have hsame (hc : t'.cancelstate = t.cancelstate ∧ t'.canceltype = t.canceltype)
      (haccepted : accepted t.cancelstate (e, o) = t.cancelstate) :
      t'.cancelstate = accepted t.cancelstate (e, o) ∧ t'.canceltype = t.canceltype ∧
        (t'.cancelstate ≠ t.cancelstate → t'.cancelstate = cancelEnable ∨ t'.cancelstate = cancelDisable) :=
    ⟨hc.1.trans haccepted.symm, hc.2, fun hne => absurd hc.1 hne⟩
  have hcontrol (hc : t'.toControl = t.toControl) :
      t'.cancelstate = t.cancelstate ∧ t'.canceltype = t.canceltype :=
    ⟨congrArg Control.cancelstate hc, congrArg Control.canceltype hc⟩
  cases e with
  | push entry memory =>
    refine hsame ?_ rfl
    rw [ThreadInfo.step] at h
    split at h
    · obtain ⟨t₁, hpush, hsome⟩ := Option.map_eq_some_iff.mp h
      cases hsome
      exact hcontrol (push_control hpush)
    · cases h
      exact ⟨rfl, rfl⟩
  | pop execute =>
    refine hsame ?_ rfl
    rw [ThreadInfo.step] at h
    split at h
    · rw [ThreadInfo.pop] at h
      split at h
      · cases h
        exact ⟨rfl, rfl⟩
      · split at h
        · exact hcontrol (callTop_control h)
        · cases h
          exact ⟨rfl, rfl⟩
    · cases h
      exact ⟨rfl, rfl⟩
  | setcancelstate state =>
    rw [ThreadInfo.step] at h
    rcases setcancelstate_cases (R := R) (A := A) (D := D) t.toControl state with
      hcase | ⟨hcase, hvalid⟩ <;> rw [hcase] at h
    · split at h <;> cases h <;> exact hsame ⟨rfl, rfl⟩ rfl
    · split at h
      · cases h
        exact ⟨rfl, rfl, fun _ => hvalid⟩
      · cases h
        exact hsame ⟨rfl, rfl⟩ rfl
  | setcanceltype type =>
    rw [ThreadInfo.step] at h
    rcases setcanceltype_cases (R := R) (A := A) (D := D) t.toControl type with
      hcase | ⟨hcase, hvalid⟩ <;> rw [hcase] at h
    · split at h <;> cases h <;> exact hsame ⟨rfl, rfl⟩ rfl
    · split at h
      · cases h
        exact ⟨rfl, rfl, fun _ => hvalid⟩
      · cases h
        exact hsame ⟨rfl, rfl⟩ rfl
  | tssSet key value bitmap =>
    refine hsame ?_ rfl
    rw [ThreadInfo.step] at h
    split at h
    · cases h
      exact tssSet_cancelstate (R := R) (A := A) (D := D) t.toControl key value bitmap
    · cases h
      exact ⟨rfl, rfl⟩
  | testcancel =>
    refine hsame ?_ rfl
    rw [ThreadInfo.step] at h
    split at h
    · cases h
      exact hcontrol strike_control
    · cases h
      exact ⟨rfl, rfl⟩
  | exit =>
    refine hsame ?_ rfl
    cases h
    split <;> exact ⟨rfl, rfl⟩
  | cancel =>
    refine hsame ?_ rfl
    rw [ThreadInfo.step] at h
    split at h
    · cases h
      exact ⟨rfl, rfl⟩
    · cases h
      exact hcontrol strike_control
  | progress bitmap destructors =>
    exact hsame (progress_cancelstate h) rfl

theorem run_cancelstate (es : List (Event R A V D)) {os : List (Out R A V D)}
    (hrun : threadMachine.run t es = some (t', os))
    (hstate : t.cancelstate = cancelEnable ∨ t.cancelstate = cancelDisable) :
    t'.cancelstate = (es.zip os).foldl accepted t.cancelstate ∧ t'.canceltype = t.canceltype ∧
      (t'.cancelstate = cancelEnable ∨ t'.cancelstate = cancelDisable) := by
  induction es generalizing t os with
  | nil =>
    cases hrun
    exact ⟨rfl, rfl, hstate⟩
  | cons e es ih =>
    rw [Machine.run] at hrun
    split at hrun
    · cases hrun
    · next t₁ o hstep =>
      obtain ⟨hcancelstate, hcanceltype, hchanged⟩ := step_cancelstate hstep
      obtain ⟨⟨t₂, os'⟩, hrest, hsome⟩ := Option.map_eq_some_iff.mp hrun
      cases hsome
      have hstate₁ : t₁.cancelstate = cancelEnable ∨ t₁.cancelstate = cancelDisable := by
        by_cases hne : t₁.cancelstate = t.cancelstate
        · rw [hne]
          exact hstate
        · exact hchanged hne
      obtain ⟨hfold, htype, hlast⟩ := ih hrest hstate₁
      refine ⟨?_, htype.trans hcanceltype, hlast⟩
      rw [hfold, hcancelstate]
      rfl

end

/-- **State and type of cancellation.** A cancellation reaches a thread that runs exactly if the last call of
`setcancelstate` or `setcanceltype` that has been accepted asked for 0: a thread that asks for deferred
cancellation is not cancelled at all, one that asks for asynchronous cancellation enables it, and the type that is
reported is always the first one. -/
theorem cancel_follows_last (es : List (Event R A V D)) {t : ThreadInfo R A V} {os : List (Out R A V D)}
    (hrun : threadMachine.run newThread es = some (t, os)) (hplace : t.place ≠ .exited) :
    (t.step .cancel : Option (_ × Out R A V D)) =
        some (if (es.zip os).foldl accepted cancelEnable = cancelEnable then { t with place := .loop } else t,
          .nothing) ∧
      t.canceltype = 0 := by
  obtain ⟨hstate, htype, hboth⟩ := run_cancelstate es hrun (.inl rfl)
  refine ⟨?_, htype⟩
  have hfold : (es.zip os).foldl accepted cancelEnable = t.cancelstate := hstate.symm
  have hstrike : t.strike = if t.cancelstate = cancelEnable then { t with place := .loop } else t := by
    rw [ThreadInfo.strike]
    rcases hboth with henable | hdisable
    · rw [henable, if_neg (by decide), if_pos rfl]
    · rw [hdisable, if_pos rfl, if_neg (by decide)]
  rw [ThreadInfo.step, hfold, hstrike]
  split
  · next hexited => exact absurd hexited hplace
  · rfl

theorem cancel_follows_last_pushedInside :
    ∃ (t : ThreadInfo Nat Nat Nat) (os : List (Out Nat Nat Nat (Fin 64))),
      threadMachine.run newThread pushedInside = some (t, os) ∧
      (t.step .cancel : Option (_ × Out Nat Nat Nat (Fin 64))) =
        some (if (pushedInside.zip os).foldl accepted cancelEnable = cancelEnable then { t with place := .loop } else t,
          .nothing) ∧
      t.canceltype = 0 := by
  obtain ⟨t, os, hrun, hplace⟩ : ∃ (t : ThreadInfo Nat Nat Nat) (os : List (Out Nat Nat Nat (Fin 64))),
      threadMachine.run newThread pushedInside = some (t, os) ∧ t.place = .program := ⟨_, _, rfl, rfl⟩
  have hrunning : t.place ≠ .exited := by
    rw [hplace]
    exact fun hexited => (by cases hexited)
  exact ⟨t, os, hrun, cancel_follows_last pushedInside hrun hrunning⟩

end WindowsLibc.Thread.Unwind
