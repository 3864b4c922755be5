import WindowsLibc.Lib.Machine
import WindowsLibc.Lib.WordSet

/-!
# Thread-specific storage (`thread/key.c`, `thread/internal.c`)

A key is a bit of a global bitmap with an entry in a global table of destructors. Every thread has an array
of 64 values of its own, which is zeroed when the thread starts.

* A key that is not below 64 is outside of the arrays; an access there is a fault, `none`. The shift by such
  a key takes it modulo 64, as the processor does.
* The destructor pass of a thread that exits is a step for each slot, since destructors are code of the user
  and the other threads do not wait.
* `Spec` is what the storage is for: the keys that are live with their destructors, and the values that the
  threads have under the current creation of each key.
* Deleting a key leaves the values of the threads. `keyMachine_lawful_iff`: the storage is as it should be
  along a run exactly if every key that is created finds its slots empty.
-/

namespace WindowsLibc.Thread

open WindowsLibc.Lib WindowsLibc.Lib.WordSet

variable {V D : Type*}

/-- `threadinfo`: the values, and the slot that the destructor pass has come to. -/
structure Info (V : Type*) where
  slots : Fin 64 → Option V
  next : Option Nat

/-- The globals, and the threads there are. -/
structure State (V D : Type*) where
  bitmap : BitVec 64
  destructors : Fin 64 → Option D
  threads : Nat → Option (Info V)

inductive Op (V D : Type*) where
  | create (destructor : Option D)
  | get (t : Nat) (key : Nat)
  | set (t : Nat) (key : Nat) (data : Option V)
  | delete (key : Nat)
  /-- A thread starts. -/
  | start (t : Nat)
  /-- A thread exits and goes into its destructor pass. -/
  | exit (t : Nat)
  /-- The next slot of the pass. -/
  | cleanup (t : Nat)

inductive Out (V D : Type*) where
  | created (key : Nat)
  | value (data : Option V)
  | done
  | failed
  /-- A destructor is called. -/
  | called (key : Nat) (destructor : D) (data : V)

/-- `_BitScanForward64` on the complement of the bitmap. -/
def firstFree (bitmap : BitVec 64) : Option (Fin 64) :=
  (List.finRange 64).find? fun i => !bitmap.getLsbD i

/-- `wlibc_tss_create`. -/
def tssCreate (destructor : Option D) (s : State V D) : State V D × Out V D :=
  match firstFree s.bitmap with
  | some i =>
    ({ s with
        bitmap := s.bitmap ||| bit i
        destructors := Function.update s.destructors i destructor }, .created i)
  | none => (s, .failed)

/-- `VALIDATE_TLS_ENTRY` passes. -/
def active (s : State V D) (key : Nat) : Prop := s.bitmap &&& bit key ≠ 0

instance (s : State V D) (key : Nat) : Decidable (active s key) := inferInstanceAs (Decidable (_ ≠ _))

/-- `wlibc_tss_get`. -/
def tssGet (key : Nat) (info : Info V) (s : State V D) : Option (State V D × Out V D) :=
  if ¬ active s key then some (s, .value none)
  else if h : key < 64 then some (s, .value (info.slots ⟨key, h⟩))
  else none

/-- `wlibc_tss_set`. -/
def tssSet (t key : Nat) (data : Option V) (info : Info V) (s : State V D) :
    Option (State V D × Out V D) :=
  if ¬ active s key then some (s, .failed)
  else if h : key < 64 then
    let info := { info with slots := Function.update info.slots ⟨key, h⟩ data }
    some ({ s with threads := Function.update s.threads t (some info) }, .done)
  else none

/-- `wlibc_tss_delete`. -/
def tssDelete (key : Nat) (s : State V D) : Option (State V D × Out V D) :=
  if ¬ active s key then some (s, .failed)
  else if h : key < 64 then
    some ({ s with
      bitmap := s.bitmap &&& ~~~bit key
      destructors := Function.update s.destructors ⟨key, h⟩ none }, .done)
  else none

/-- The body of the loop of `cleanup_tls`. -/
def cleanupSlot (t : Nat) (i : Fin 64) (info : Info V) (s : State V D) : State V D × Out V D :=
  let info := { info with next := some (i + 1) }
  let keep := ({ s with threads := Function.update s.threads t (some info) }, .done)
  if active s i then
    match info.slots i with
    | none => keep
    | some value =>
      match s.destructors i with
      | none => keep
      | some destructor =>
        let info := { info with slots := Function.update info.slots i none }
        ({ s with threads := Function.update s.threads t (some info) }, .called i destructor value)
  else keep

/-- The thread is gone. -/
def State.remove (s : State V D) (t : Nat) : State V D :=
  { s with threads := Function.update s.threads t none }

/-- A new thread, with `HEAP_ZERO_MEMORY`. -/
def State.start (s : State V D) (t : Nat) : State V D :=
  { s with threads := Function.update s.threads t (some ⟨fun _ => none, none⟩) }

/-- One call. A thread that does not exist does nothing. -/
def keyStep (s : State V D) : Op V D → Option (State V D × Out V D)
  | .create destructor => some (tssCreate destructor s)
  | .get t key =>
    match s.threads t with
    | none => some (s, .failed)
    | some info => tssGet key info s
  | .set t key data =>
    match s.threads t with
    | none => some (s, .failed)
    | some info => tssSet t key data info s
  | .delete key => tssDelete key s
  | .start t =>
    match s.threads t with
    | none => some (s.start t, .done)
    | some _ => some (s, .failed)
  | .exit t =>
    match s.threads t with
    | none => some (s, .failed)
    | some info =>
      -- quick return if no key is active
      if s.bitmap = 0 then some (s.remove t, .done)
      else
        let info := { info with next := some 0 }
        some ({ s with threads := Function.update s.threads t (some info) }, .done)
  | .cleanup t =>
    match s.threads t with
    | none => some (s, .failed)
    | some info =>
      match info.next with
      | none => some (s, .failed)
      | some i => if h : i < 64 then some (cleanupSlot t ⟨i, h⟩ info s) else some (s.remove t, .done)

/-! ## What the storage is for -/

/-- The destructors of the keys that are live, and what each thread has under the current creation of a key:
the last value that it has set, unless its destructor pass has taken it. -/
structure Spec (V D : Type*) where
  live : Nat → Option (Option D)
  value : Nat → Nat → Option V

/-- What has happened, put down. -/
def Spec.absorb (a : Spec V D) : Op V D → Out V D → Spec V D
  | .create destructor, .created key =>
    { live := Function.update a.live key (some destructor)
      value := fun t => Function.update (a.value t) key none }
  | .delete key, .done => { a with live := Function.update a.live key none }
  | .set t key data, .done =>
    { a with value := Function.update a.value t (Function.update (a.value t) key data) }
  | .start t, .done => { a with value := Function.update a.value t fun _ => none }
  | .cleanup t, .called key _ _ =>
    { a with value := Function.update a.value t (Function.update (a.value t) key none) }
  | _, _ => a

/-- What a thread has to see under a key. -/
def Spec.get (a : Spec V D) (t key : Nat) : Option V := (a.live key).bind fun _ => a.value t key

/-- The storage, and what it is for. -/
def keyMachine : Machine (State V D × Spec V D) (Op V D) (Out V D) where
  step := fun c op => (keyStep c.1 op).map fun r => ((r.1, c.2.absorb op r.2), r.2)

/-- The main thread, and no keys. -/
def init : State V D × Spec V D :=
  (⟨0, fun _ => none, Function.update (fun _ => none) 0 (some ⟨fun _ => none, none⟩)⟩,
    ⟨fun _ => none, fun _ _ => none⟩)

/-- What a call gives is right. -/
def RightOut (a : Spec V D) : Op V D → Out V D → Prop
  | .create _, .created key => a.live key = none
  | .get t key, .value data => data = a.get t key
  | .cleanup t, .called key destructor data =>
    a.live key = some (some destructor) ∧ a.get t key = some data
  | _, _ => True

/-- Every thread sees what it has. -/
def Seen (c : State V D × Spec V D) : Prop :=
  ∀ t info key, c.1.threads t = some info → key < 64 →
    keyStep c.1 (.get t key) = some (c.1, .value (c.2.get t key))

/-- The call gives what it should and leaves everything as it should be. -/
def LawfulStep (c : State V D × Spec V D) (op : Op V D) : Prop :=
  ∃ c' out, keyMachine.step c op = some (c', out) ∧ RightOut c.2 op out ∧ Seen c'

/-- A key that is created finds its slots empty. Other keys are below 64, or not active even modulo 64. -/
def Apt (c : State V D × Spec V D) : Op V D → Prop
  | .create _ => ∀ i, firstFree c.1.bitmap = some i →
    ∀ t info, c.1.threads t = some info → info.slots i = none
  | .get t key => c.1.threads t ≠ none → active c.1 key → key < 64
  | .set t key _ => c.1.threads t ≠ none → active c.1 key → key < 64
  | .delete key => active c.1 key → key < 64
  | _ => True

/-! ## The bitmap -/

theorem active_iff (s : State V D) (key : Nat) : active s key ↔ s.bitmap.getLsbD (key % 64) = true :=
  and_bit_ne_zero s.bitmap key

theorem active_fin (s : State V D) (i : Fin 64) : active s i ↔ s.bitmap.getLsbD i = true := by
  rw [active_iff, Nat.mod_eq_of_lt i.isLt]

theorem firstFree_spec {bitmap : BitVec 64} {i : Fin 64} (h : firstFree bitmap = some i) :
    bitmap.getLsbD i = false := by
  have hfound := List.find?_some h
  simpa using hfound

theorem getLsbD_or_bit (bitmap : BitVec 64) (i j : Fin 64) :
    (bitmap ||| bit i).getLsbD j = (bitmap.getLsbD j || decide (j = i)) := by
  rw [BitVec.getLsbD_or, getLsbD_bit j.isLt, Nat.mod_eq_of_lt i.isLt]
  simp only [Fin.ext_iff]

theorem getLsbD_and_not_bit (bitmap : BitVec 64) (i j : Fin 64) :
    (bitmap &&& ~~~bit i).getLsbD j = (bitmap.getLsbD j && !decide (j = i)) := by
  rw [BitVec.getLsbD_and, BitVec.getLsbD_not, getLsbD_bit j.isLt, Nat.mod_eq_of_lt i.isLt]
  simp only [Fin.ext_iff, j.isLt, decide_true, Bool.true_and]

/-! ## Invariant -/

/-- The tables have the keys that are live, and the slots of these have the values. -/
structure Inv (c : State V D × Spec V D) : Prop where
  live : ∀ i : Fin 64, c.2.live i = if c.1.bitmap.getLsbD i then some (c.1.destructors i) else none
  above : ∀ key, 64 ≤ key → c.2.live key = none
  value : ∀ t info (i : Fin 64), c.1.threads t = some info → c.1.bitmap.getLsbD i = true →
    info.slots i = c.2.value t i

theorem init_inv : Inv (init : State V D × Spec V D) := by
  constructor
  · intro i
    simp [init]
  · exact fun _ _ => rfl
  · intro t info i _ hbit
    simp [init] at hbit

variable {s : State V D} {a : Spec V D}

theorem Inv.get_active (h : Inv (s, a)) {t : Nat} {info : Info V} {i : Fin 64}
    (ht : s.threads t = some info) (hactive : active s i) : a.get t i = info.slots i := by
  rw [active_fin] at hactive
  rw [Spec.get, h.live i, if_pos hactive, h.value t info i ht hactive]
  rfl

theorem Inv.get_not_active (h : Inv (s, a)) {t key : Nat} (hactive : ¬ active s key) :
    a.get t key = none := by
  rw [Spec.get]
  by_cases hkey : key < 64
  · rw [active_fin s ⟨key, hkey⟩] at hactive
    rw [h.live ⟨key, hkey⟩, if_neg hactive]
    rfl
  · rw [h.above key (Nat.le_of_not_lt hkey)]
    rfl

theorem keyStep_get {t key : Nat} {info : Info V} (ht : s.threads t = some info) :
    keyStep s (.get t key) = tssGet key info s := by
  simp only [keyStep, ht]

theorem tssGet_active {info : Info V} {i : Fin 64} (hactive : active s i) :
    tssGet i info s = some (s, .value (info.slots i)) := by
  rw [tssGet, if_neg (not_not.mpr hactive), dif_pos i.isLt]

/-- A key that is below 64, or not active, gives what the thread has. -/
theorem Inv.tssGet_eq (h : Inv (s, a)) {t key : Nat} {info : Info V} (ht : s.threads t = some info)
    (hkey : active s key → key < 64) : tssGet key info s = some (s, .value (a.get t key)) := by
  rw [tssGet]
  by_cases hactive : active s key
  · have hlt := hkey hactive
    rw [if_neg (not_not.mpr hactive), dif_pos hlt, ← h.get_active (i := ⟨key, hlt⟩) ht hactive]
  · rw [if_pos hactive, h.get_not_active hactive]

theorem Seen.slots_eq (h : Seen (s, a)) {t : Nat} {info : Info V} {i : Fin 64}
    (ht : s.threads t = some info) (hactive : active s i) : info.slots i = a.get t i := by
  have hget := h t info i ht i.isLt
  rw [keyStep_get ht, tssGet_active hactive] at hget
  simpa using hget

theorem Inv.seen {c : State V D × Spec V D} (h : Inv c) : Seen c := by
  intro t info key ht hkey
  rw [keyStep_get ht]
  exact h.tssGet_eq ht fun _ => hkey

/-! ## Steps -/

/-- The threads change, but none of them gets a value under an active key that it does not have. -/
theorem Inv.threads (h : Inv (s, a)) {threads : Nat → Option (Info V)} {value : Nat → Nat → Option V}
    (hthreads : ∀ t info (i : Fin 64), threads t = some info → s.bitmap.getLsbD i = true →
      info.slots i = value t i) :
    Inv ({ s with threads := threads }, { a with value := value }) :=
  ⟨h.live, h.above, hthreads⟩

/-- One thread changes. -/
theorem Inv.update (h : Inv (s, a)) {t : Nat} {info' : Option (Info V)} {value : Nat → Option V}
    (hinfo : ∀ info (i : Fin 64), info' = some info → s.bitmap.getLsbD i = true →
      info.slots i = value i) :
    Inv ({ s with threads := Function.update s.threads t info' },
      { a with value := Function.update a.value t value }) := by
  apply h.threads
  intro t' info i ht' hbit
  by_cases heq : t' = t
  · subst heq
    rw [Function.update_self] at ht' ⊢
    exact hinfo info i ht' hbit
  · rw [Function.update_of_ne heq] at ht' ⊢
    exact h.value t' info i ht' hbit

/-- One thread changes, and has what it had. -/
theorem Inv.update_same (h : Inv (s, a)) {t : Nat} {info' : Option (Info V)}
    (hinfo : ∀ info (i : Fin 64), info' = some info → s.bitmap.getLsbD i = true →
      info.slots i = a.value t i) :
    Inv ({ s with threads := Function.update s.threads t info' }, a) := by
  have hupdate := h.update (t := t) hinfo
  rwa [Function.update_eq_self] at hupdate

theorem Inv.create (h : Inv (s, a)) {i : Fin 64} (hi : s.bitmap.getLsbD i = false)
    (hempty : ∀ t info, s.threads t = some info → info.slots i = none) (destructor : Option D) :
    Inv ({ s with
        bitmap := s.bitmap ||| bit i
        destructors := Function.update s.destructors i destructor },
      a.absorb (.create destructor) (.created i)) := by
  refine ⟨fun j => ?_, fun key hkey => ?_, fun t info j ht hbit => ?_⟩
  · simp only [Spec.absorb, getLsbD_or_bit]
    by_cases hj : j = i
    · subst hj
      simp
    · have hne : (j : Nat) ≠ i := fun heq => hj (Fin.ext heq)
      rw [Function.update_of_ne hne, Function.update_of_ne hj, h.live j]
      simp [hj]
  · have hne : key ≠ i := fun heq => absurd i.isLt (by omega)
    simp only [Spec.absorb]
    rw [Function.update_of_ne hne]
    exact h.above key hkey
  · simp only [Spec.absorb]
    by_cases hj : j = i
    · subst hj
      rw [Function.update_self]
      exact hempty t info ht
    · have hne : (j : Nat) ≠ i := fun heq => hj (Fin.ext heq)
      rw [Function.update_of_ne hne]
      simp only [getLsbD_or_bit, hj, decide_false, Bool.or_false] at hbit
      exact h.value t info j ht hbit

theorem Inv.delete (h : Inv (s, a)) (i : Fin 64) :
    Inv ({ s with
        bitmap := s.bitmap &&& ~~~bit i
        destructors := Function.update s.destructors i none },
      a.absorb (.delete i) .done) := by
  refine ⟨fun j => ?_, fun key hkey => ?_, fun t info j ht hbit => ?_⟩
  · simp only [Spec.absorb, getLsbD_and_not_bit]
    by_cases hj : j = i
    · subst hj
      simp
    · have hne : (j : Nat) ≠ i := fun heq => hj (Fin.ext heq)
      rw [Function.update_of_ne hne, Function.update_of_ne hj, h.live j]
      simp [hj]
  · have hne : key ≠ i := fun heq => absurd i.isLt (by omega)
    simp only [Spec.absorb]
    rw [Function.update_of_ne hne]
    exact h.above key hkey
  · simp only [getLsbD_and_not_bit, Bool.and_eq_true] at hbit
    exact h.value t info j ht hbit.1

/-- A slot of the destructor pass. -/
theorem Inv.cleanupSlot (h : Inv (s, a)) {t : Nat} {info : Info V} (ht : s.threads t = some info)
    (i : Fin 64) :
    RightOut a (.cleanup t) (cleanupSlot t i info s).2 ∧
      Inv ((cleanupSlot t i info s).1, a.absorb (.cleanup t) (cleanupSlot t i info s).2) := by
  -- the pass goes on
  have hkeep : ∀ next, Inv ({ s with threads := Function.update s.threads t (some ⟨info.slots, next⟩) }, a) := by
    intro next
    apply h.update_same
    rintro _ j ⟨⟩ hbit
    exact h.value t info j ht hbit
  rw [Thread.cleanupSlot]
  by_cases hactive : active s i
  · simp only [if_pos hactive]
    have hget := h.get_active ht hactive
    cases hslot : info.slots i with
    | none => exact ⟨trivial, hkeep _⟩
    | some value =>
      cases hdestructor : s.destructors i with
      | none => exact ⟨trivial, hkeep _⟩
      | some destructor =>
        refine ⟨⟨?_, hget.trans hslot⟩, ?_⟩
        · rw [h.live i, if_pos ((active_fin s i).mp hactive), hdestructor]
        · apply h.update
          rintro _ j ⟨⟩ hbit
          by_cases hj : j = i
          · subst hj
            simp
          · have hne : (j : Nat) ≠ i := fun heq => hj (Fin.ext heq)
            simp only [Function.update_of_ne hj, Function.update_of_ne hne]
            exact h.value t info j ht hbit
  · simp only [if_neg hactive]
    exact ⟨trivial, hkeep _⟩

/-- **One step.** Where it is apt, it gives what it should and keeps the invariant. -/
theorem Inv.step (h : Inv (s, a)) {op : Op V D} (hapt : Apt (s, a) op) :
    ∃ s' out, keyStep s op = some (s', out) ∧ RightOut a op out ∧ Inv (s', a.absorb op out) := by
  cases op with
  | create destructor =>
    simp only [keyStep, tssCreate]
    cases hfree : firstFree s.bitmap with
    | none => exact ⟨s, .failed, rfl, trivial, h⟩
    | some i =>
      have hi := firstFree_spec hfree
      refine ⟨_, .created i, rfl, ?_, h.create hi (hapt i hfree) destructor⟩
      rw [RightOut, h.live i, hi]
      rfl
  | get t key =>
    cases ht : s.threads t with
    | none => exact ⟨s, .failed, by simp only [keyStep, ht], trivial, h⟩
    | some info =>
      have hkey : active s key → key < 64 := hapt (by rw [ht]; exact Option.some_ne_none _)
      exact ⟨s, .value (a.get t key), by rw [keyStep_get ht, h.tssGet_eq ht hkey], rfl, h⟩
  | set t key data =>
    cases ht : s.threads t with
    | none => exact ⟨s, .failed, by simp only [keyStep, ht], trivial, h⟩
    | some info =>
      by_cases hactive : active s key
      · have hkey : key < 64 := hapt (by rw [ht]; exact Option.some_ne_none _) hactive
        have hstep : keyStep s (.set t key data) = some ({ s with
            threads := Function.update s.threads t
              (some { info with slots := Function.update info.slots ⟨key, hkey⟩ data }) }, .done) := by
          simp only [keyStep, ht, tssSet, if_neg (not_not.mpr hactive), dif_pos hkey]
        refine ⟨_, .done, hstep, trivial, ?_⟩
        apply h.update
        rintro _ j ⟨⟩ hbit
        by_cases hj : j = ⟨key, hkey⟩
        · subst hj
          simp
        · have hne : (j : Nat) ≠ key := fun heq => hj (Fin.ext heq)
          simp only [Function.update_of_ne hj, Function.update_of_ne hne]
          exact h.value t info j ht hbit
      · exact ⟨s, .failed, by simp only [keyStep, ht, tssSet, if_pos hactive], trivial, h⟩
  | delete key =>
    by_cases hactive : active s key
    · have hkey : key < 64 := hapt hactive
      exact ⟨_, .done, by simp only [keyStep, tssDelete, if_neg (not_not.mpr hactive), dif_pos hkey],
        trivial, h.delete ⟨key, hkey⟩⟩
    · exact ⟨s, .failed, by simp only [keyStep, tssDelete, if_pos hactive], trivial, h⟩
  | start t =>
    cases ht : s.threads t with
    | none =>
      refine ⟨s.start t, .done, by simp only [keyStep, ht], trivial, ?_⟩
      apply h.update
      rintro _ j ⟨⟩ _
      rfl
    | some info => exact ⟨s, .failed, by simp only [keyStep, ht], trivial, h⟩
  | exit t =>
    cases ht : s.threads t with
    | none => exact ⟨s, .failed, by simp only [keyStep, ht], trivial, h⟩
    | some info =>
      by_cases hzero : s.bitmap = 0
      · refine ⟨s.remove t, .done, by simp only [keyStep, ht, if_pos hzero], trivial, ?_⟩
        exact h.update_same fun _ _ hnone => by cases hnone
      · have hstep : keyStep s (.exit t) = some ({ s with
            threads := Function.update s.threads t (some { info with next := some 0 }) }, .done) := by
          simp only [keyStep, ht, if_neg hzero]
        refine ⟨_, .done, hstep, trivial, ?_⟩
        apply h.update_same
        rintro _ j ⟨⟩ hbit
        exact h.value t info j ht hbit
  | cleanup t =>
    cases ht : s.threads t with
    | none => exact ⟨s, .failed, by simp only [keyStep, ht], trivial, h⟩
    | some info =>
      cases hnext : info.next with
      | none => exact ⟨s, .failed, by simp only [keyStep, ht, hnext], trivial, h⟩
      | some i =>
        by_cases hi : i < 64
        · obtain ⟨hright, hinv⟩ := h.cleanupSlot ht ⟨i, hi⟩
          exact ⟨_, _, by simp only [keyStep, ht, hnext, dif_pos hi], hright, hinv⟩
        · refine ⟨s.remove t, .done, by simp only [keyStep, ht, hnext, dif_neg hi], trivial, ?_⟩
          exact h.update_same fun _ _ hnone => by cases hnone

/-- Where it is not apt, something goes wrong. -/
theorem apt_of_lawfulStep {op : Op V D} (hlawful : LawfulStep (s, a) op) : Apt (s, a) op := by
  obtain ⟨c', out, hstep, -, hseen⟩ := hlawful
  obtain ⟨⟨s', out'⟩, hkey, heq⟩ := Option.map_eq_some_iff.mp hstep
  cases heq
  cases op with
  | create destructor =>
    intro i hfree t info ht
    simp only [keyStep, tssCreate, hfree] at hkey
    cases hkey
    -- the thread still has its old value, and should have none
    have hactive : active ({ s with
        bitmap := s.bitmap ||| bit i
        destructors := Function.update s.destructors i destructor } : State V D) i := by
      rw [active_fin, getLsbD_or_bit]
      simp
    refine (Seen.slots_eq hseen ht hactive).trans ?_
    simp [Spec.get, Spec.absorb]
  | get t key =>
    intro ht hactive
    obtain ⟨info, hinfo⟩ := Option.ne_none_iff_exists'.mp ht
    change s.threads t = some info at hinfo
    change active s key at hactive
    by_contra hlt
    simp only [keyStep, hinfo, tssGet, if_neg (not_not.mpr hactive), dif_neg hlt] at hkey
    cases hkey
  | set t key data =>
    intro ht hactive
    obtain ⟨info, hinfo⟩ := Option.ne_none_iff_exists'.mp ht
    change s.threads t = some info at hinfo
    change active s key at hactive
    by_contra hlt
    simp only [keyStep, hinfo, tssSet, if_neg (not_not.mpr hactive), dif_neg hlt] at hkey
    cases hkey
  | delete key =>
    intro hactive
    by_contra hlt
    simp only [keyStep, tssDelete, if_neg (not_not.mpr hactive), dif_neg hlt] at hkey
    cases hkey
  | _ => trivial

theorem lawfulStep_of_apt (h : Inv (s, a)) {op : Op V D} (hapt : Apt (s, a) op) :
    LawfulStep (s, a) op := by
  obtain ⟨s', out, hstep, hright, hinv⟩ := h.step hapt
  refine ⟨(s', a.absorb op out), out, ?_, hright, hinv.seen⟩
  simp only [keyMachine, hstep, Option.map_some]

/-- **The storage is as it should be exactly if every key is created over empty slots** (and keys that are
not below 64 do not name an active one). -/
theorem keyMachine_lawful_iff (ops : List (Op V D)) :
    keyMachine.Along LawfulStep init ops ↔ keyMachine.Along Apt init ops := by
  apply Machine.along_iff (I := Inv)
  · rintro ⟨s, a⟩ op h
    exact ⟨apt_of_lawfulStep, lawfulStep_of_apt h⟩
  · rintro ⟨s, a⟩ op c' out h hapt hstep
    obtain ⟨s', out', hstep', -, hinv⟩ := h.step hapt
    simp only [keyMachine, hstep', Option.map_some] at hstep
    cases hstep
    exact hinv
  · exact init_inv

/-- A value that is set under a key is there again when the key is deleted and created. -/
theorem not_keyMachine_lawful : ¬ keyMachine.Along LawfulStep (init : State Nat Nat × Spec Nat Nat)
    [.create none, .set 0 0 (some 5), .delete 0, .create none] := by
  intro h
  have hlawful := (h.2 _ _ rfl).2 _ _ rfl |>.2 _ _ rfl |>.1
  obtain ⟨c', out, hstep, -, hseen⟩ := hlawful
  cases hstep
  have hget := hseen 0 _ 0 rfl (by decide)
  cases hget

end WindowsLibc.Thread
