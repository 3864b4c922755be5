import WindowsLibc.Thread.Lifecycle

/-!
# What one piece of a call does to a thread

* `Describes.setRequest`, `Describes.leave`, `Describes.start`, `Describes.setStage` and `Describes.store` say what a
  step leaves of the relation between the process and the registry.
* `lifecycle_refines`: as long as the rules are kept, the blocks and handles do not show.
-/

namespace WindowsLibc.Thread.Lifecycle

open WindowsLibc.Lib

variable {V : Type*}

/-! ## What a step leaves -/

section
variable {s s' : Process V} {a a' : Registry V}

theorem stands_joinable {t : Nat} (h : a.claim t = .joinable) :
    Stands s a t ↔ ∃ handle, handle ≠ 0 ∧ s.info t = some ⟨handle, a.result t⟩ ∧ s.handles handle = some t := by
  rw [Stands, h]

theorem stands_busy {c t : Nat} {request : Request} (h : a.claim t = .busy c request) :
    Stands s a t ↔ ∃ handle, handle ≠ 0 ∧ s.info t = some ⟨handle, a.result t⟩ ∧
      s.call c = request.call t handle ∧ (request.isOpen = true → s.handles handle = some t) ∧
      (request.isLate = true → a.stage t = .ended) := by
  rw [Stands, h]

theorem stands_detached {t : Nat} (h : a.claim t = .detached) : Stands s a t ↔ s.info t = some ⟨0, a.result t⟩ := by
  rw [Stands, h]

theorem stands_gone {t : Nat} (h : a.claim t = .gone) :
    Stands s a t ↔ s.info t = none ∧ (t < a.count → a.stage t = .ended) := by
  rw [Stands, h]

/-- A thread that a step is not about. -/
theorem Stands.frame {t : Nat} (h : Stands s a t) (hclaim : a'.claim t = a.claim t)
    (hresult : a'.result t = a.result t) (hinfo : s'.info t = s.info t)
    (hhandles : ∀ handle, s.handles handle = some t → s'.handles handle = some t)
    (hcall : ∀ c request, a.claim t = .busy c request → s'.call c = s.call c)
    (hended : a.stage t = .ended → a'.stage t = .ended)
    (hcount : a.claim t = .gone → t < a'.count → t < a.count) : Stands s' a' t := by
  cases hc : a.claim t with
  | joinable =>
    obtain ⟨handle, hne, hi, hopen⟩ := (stands_joinable hc).mp h
    refine (stands_joinable (hclaim.trans hc)).mpr ⟨handle, hne, ?_, hhandles handle hopen⟩
    rw [hinfo, hresult, hi]
  | busy c request =>
    obtain ⟨handle, hne, hi, hcalls, hopen, hlate⟩ := (stands_busy hc).mp h
    refine (stands_busy (hclaim.trans hc)).mpr ⟨handle, hne, ?_, (hcall c request hc).trans hcalls,
      fun ho => hhandles handle (hopen ho), fun hl => hended (hlate hl)⟩
    rw [hinfo, hresult, hi]
  | detached =>
    rw [stands_detached (hclaim.trans hc), hinfo, hresult]
    exact (stands_detached hc).mp h
  | gone =>
    have hold := (stands_gone hc).mp h
    rw [stands_gone (hclaim.trans hc), hinfo]
    exact ⟨hold.1, fun hlt => hended (hold.2 (hcount hc hlt))⟩

/-- The thread that a call is about. -/
theorem Describes.target (h : Describes s a) {c t : Nat} (hcall : a.call c = some t) :
    ∃ request handle, a.claim t = .busy c request ∧ handle ≠ 0 ∧ s.info t = some ⟨handle, a.result t⟩ ∧
      s.call c = request.call t handle ∧ (request.isOpen = true → s.handles handle = some t) ∧
      (request.isLate = true → a.stage t = .ended) := by
  obtain ⟨request, hclaim⟩ := (h.called c t).mp hcall
  obtain ⟨handle, hrest⟩ := (stands_busy hclaim).mp (h.stands t)
  exact ⟨request, handle, hclaim, hrest⟩

/-- A thread that has no call of another thread at it. -/
def Free (a : Registry V) (c t : Nat) : Prop :=
  a.claim t = .joinable ∧ a.call c = none ∨ ∃ request, a.claim t = .busy c request

theorem Describes.called_of_ne (h : Describes s a) {c t u : Nat} (hfree : Free a c t) (hu : u ≠ t) :
    ∀ request, a.claim u ≠ .busy c request := by
  intro request hclaim
  have hcall := (h.called c u).mpr ⟨request, hclaim⟩
  rcases hfree with ⟨-, hnone⟩ | hbusy
  · rw [hnone] at hcall
    cases hcall
  · rw [(h.called c t).mpr hbusy] at hcall
    exact hu (Option.some.inj hcall).symm

/-- Only `c` calls something about the thread. -/
theorem Describes.call_of_ne (h : Describes s a) {c d t : Nat} (hfree : Free a c t) (hd : d ≠ c) :
    a.call d ≠ some t := by
  intro hcall
  obtain ⟨request, hclaim⟩ := (h.called d t).mp hcall
  rcases hfree with ⟨hjoinable, -⟩ | ⟨request', hbusy⟩
  · rw [hjoinable] at hclaim
    cases hclaim
  · rw [hbusy] at hclaim
    exact hd (Claim.busy.inj hclaim).1.symm

/-- **A call goes on.** The handle is closed, if it should not be open any more. -/
theorem Describes.setRequest (h : Describes s a) {c t handle : Nat} (hfree : Free a c t) (hne : handle ≠ 0)
    (hinfo : s.info t = some ⟨handle, a.result t⟩) (hopen : s.handles handle = some t) (request : Request)
    (hlate : request.isLate = true → a.stage t = .ended) :
    Describes
      (({ s with handles := if request.isOpen then s.handles else Function.update s.handles handle none } :
        Process V).setCall c (request.call t handle))
      (a.setRequest c t request) := by
  have hhandles {u other : Nat} (hu : u ≠ t) (hother : s.handles other = some u) :
      (if request.isOpen then s.handles else Function.update s.handles handle none) other = some u := by
    split
    · exact hother
    · rw [Function.update_of_ne, hother]
      rintro rfl
      rw [hopen] at hother
      exact hu (Option.some.inj hother).symm
  have hsome {u other : Nat}
      (hother : (if request.isOpen then s.handles else Function.update s.handles handle none) other = some u) :
      s.handles other = some u ∧ (request.isOpen = true ∨ other ≠ handle) := by
    split at hother
    · next ho => exact ⟨hother, .inl ho⟩
    · by_cases heq : other = handle
      · rw [heq, Function.update_self] at hother
        cases hother
      · rw [Function.update_of_ne heq] at hother
        exact ⟨hother, .inr heq⟩
  refine ⟨h.count, h.stage, ?_, ?_, ?_, ?_, ?_, ?_, h.positive, ?_⟩
  · intro d u
    change Function.update a.call c (some t) d = some u ↔
      ∃ r, Function.update a.claim t (.busy c request) u = .busy d r
    by_cases hd : d = c
    · subst hd
      rw [Function.update_self]
      by_cases hu : u = t
      · subst hu
        rw [Function.update_self]
        exact ⟨fun _ => ⟨request, rfl⟩, fun _ => rfl⟩
      · rw [Function.update_of_ne hu]
        refine ⟨fun heq => absurd (Option.some.inj heq).symm hu, ?_⟩
        rintro ⟨r, hr⟩
        exact absurd hr (h.called_of_ne hfree hu r)
    · rw [Function.update_of_ne hd]
      by_cases hu : u = t
      · subst hu
        rw [Function.update_self]
        refine ⟨fun heq => absurd heq (h.call_of_ne hfree hd), ?_⟩
        rintro ⟨r, hr⟩
        exact absurd (Claim.busy.inj hr).1.symm hd
      · rw [Function.update_of_ne hu]
        exact h.called d u
  · intro d hd
    change Function.update s.call c (request.call t handle) d = .idle
    change Function.update a.call c (some t) d = none at hd
    by_cases hdc : d = c
    · rw [hdc, Function.update_self] at hd
      cases hd
    · rw [Function.update_of_ne hdc] at hd ⊢
      exact h.idle d hd
  · intro u
    by_cases hu : u = t
    · subst hu
      have hclaim : (a.setRequest c u request).claim u = .busy c request := Function.update_self ..
      refine (stands_busy hclaim).mpr ⟨handle, hne, hinfo, Function.update_self .., fun ho => ?_, hlate⟩
      change (if request.isOpen then s.handles else Function.update s.handles handle none) handle = some u
      rw [if_pos ho, hopen]
    · refine (h.stands u).frame (Function.update_of_ne hu _ _) rfl rfl (fun other hother => hhandles hu hother) ?_ id
        fun _ => id
      intro d r hr
      refine Function.update_of_ne ?_ _ _
      rintro rfl
      exact h.called_of_ne hfree hu r hr
  · intro other u hother
    obtain ⟨hold, hcase⟩ := hsome hother
    obtain ⟨ho, info, hi, hhandle⟩ := h.owned other u hold
    refine ⟨?_, info, hi, hhandle⟩
    change (Function.update a.claim t (.busy c request) u).isOpen = true
    by_cases hu : u = t
    · rw [hu, Function.update_self]
      refine hcase.resolve_right fun hnot => ?_
      rw [hu, hinfo] at hi
      rw [← Option.some.inj hi] at hhandle
      exact hnot hhandle.symm
    · rw [Function.update_of_ne hu]
      exact ho
  · change (if request.isOpen then s.handles else Function.update s.handles handle none) 0 = none
    split
    · exact h.zero
    · rw [Function.update_of_ne hne.symm, h.zero]
  · intro other hother
    change (if request.isOpen then s.handles else Function.update s.handles handle none) other = none
    split
    · exact h.limit other hother
    · by_cases heq : other = handle
      · rw [heq, Function.update_self]
      · rw [Function.update_of_ne heq, h.limit other hother]
  · intro u hu
    refine ⟨?_, (h.next u hu).2⟩
    change Function.update a.claim t (.busy c request) u = .gone
    rw [Function.update_of_ne, (h.next u hu).1]
    rintro rfl
    have hgone := (h.next u hu).1
    rcases hfree with ⟨hjoinable, -⟩ | ⟨r, hbusy⟩
    · rw [hgone] at hjoinable
      cases hjoinable
    · rw [hgone] at hbusy
      cases hbusy

/-- The block of a thread that has this claim, with the call at it over. -/
def Left (s : Process V) (a : Registry V) (t : Nat) (request : Request) (info : Option (ThreadInfo V)) : Claim → Prop
  | .joinable => request.isOpen = true ∧ info = s.info t
  | .busy _ _ => False
  | .detached => request.isOpen = false ∧ info = some ⟨0, a.result t⟩
  | .gone => request.isOpen = false ∧ info = none ∧ a.stage t = .ended

/-- **A call is over.** -/
theorem Describes.leave (h : Describes s a) {c t : Nat} {request : Request} (hclaim : a.claim t = .busy c request)
    {info : Option (ThreadInfo V)} (claim : Claim) (hleft : Left s a t request info claim) :
    Describes ((s.setInfo t info).setCall c .idle) (a.leave c t claim) := by
  have hfree : Free a c t := .inr ⟨request, hclaim⟩
  have hnot (d : Nat) (r : Request) : claim ≠ .busy d r := by
    rintro rfl
    exact hleft
  obtain ⟨handle, hne, hinfo, -, hopen, -⟩ := (stands_busy hclaim).mp (h.stands t)
  have hcount : t < a.count := by
    by_contra hge
    rw [(h.next t (Nat.le_of_not_lt hge)).1] at hclaim
    cases hclaim
  refine ⟨h.count, h.stage, ?_, ?_, ?_, ?_, h.zero, h.limit, h.positive, ?_⟩
  · intro d u
    change Function.update a.call c none d = some u ↔ ∃ r, Function.update a.claim t claim u = .busy d r
    by_cases hd : d = c
    · subst hd
      rw [Function.update_self]
      refine ⟨fun heq => (by cases heq), ?_⟩
      rintro ⟨r, hr⟩
      by_cases hu : u = t
      · rw [hu, Function.update_self] at hr
        exact absurd hr (hnot d r)
      · rw [Function.update_of_ne hu] at hr
        exact absurd hr (h.called_of_ne hfree hu r)
    · rw [Function.update_of_ne hd]
      by_cases hu : u = t
      · rw [hu, Function.update_self]
        refine ⟨fun heq => absurd heq (h.call_of_ne hfree hd), ?_⟩
        rintro ⟨r, hr⟩
        exact absurd hr (hnot d r)
      · rw [Function.update_of_ne hu]
        exact h.called d u
  · intro d hd
    change Function.update s.call c .idle d = .idle
    change Function.update a.call c none d = none at hd
    by_cases hdc : d = c
    · rw [hdc, Function.update_self]
    · rw [Function.update_of_ne hdc] at hd ⊢
      exact h.idle d hd
  · intro u
    by_cases hu : u = t
    · subst hu
      have hnew : (a.leave c u claim).claim u = claim := Function.update_self ..
      have hblock : ((s.setInfo u info).setCall c .idle).info u = info := Function.update_self ..
      cases claim with
      | joinable => exact (stands_joinable hnew).mpr ⟨handle, hne, hblock.trans (hleft.2.trans hinfo), hopen hleft.1⟩
      | busy d r => exact absurd rfl (hnot d r)
      | detached => exact (stands_detached hnew).mpr (hblock.trans hleft.2)
      | gone => exact (stands_gone hnew).mpr ⟨hblock.trans hleft.2.1, fun _ => hleft.2.2⟩
    · refine (h.stands u).frame (Function.update_of_ne hu _ _) rfl (Function.update_of_ne hu _ _)
        (fun other hother => hother) ?_ id fun _ => id
      intro d r hr
      refine Function.update_of_ne ?_ _ _
      rintro rfl
      exact h.called_of_ne hfree hu r hr
  · intro other u hother
    obtain ⟨ho, i, hi, hhandle⟩ := h.owned other u hother
    change (Function.update a.claim t claim u).isOpen = true ∧
      ∃ i, Function.update s.info t info u = some i ∧ i.handle = other
    by_cases hu : u = t
    · rw [hu, Function.update_self, Function.update_self]
      rw [hu, hclaim] at ho
      have hopened : request.isOpen = true := ho
      cases claim with
      | joinable =>
        rw [hleft.2, ← hu]
        exact ⟨rfl, i, hi, hhandle⟩
      | busy d r => exact absurd rfl (hnot d r)
      | detached =>
        rw [hleft.1] at hopened
        cases hopened
      | gone =>
        rw [hleft.1] at hopened
        cases hopened
    · rw [Function.update_of_ne hu, Function.update_of_ne hu]
      exact ⟨ho, i, hi, hhandle⟩
  · intro u hu
    refine ⟨?_, (h.next u hu).2⟩
    change Function.update a.claim t claim u = .gone
    rw [Function.update_of_ne, (h.next u hu).1]
    rintro rfl
    exact absurd hcount (Nat.not_lt.mpr hu)

/-- A thread that exists has a block, unless it has ended. -/
theorem Describes.exists_info (h : Describes s a) {t : Nat} (hclaim : a.claim t ≠ .gone) :
    t < a.count ∧ ∃ handle, s.info t = some ⟨handle, a.result t⟩ := by
  refine ⟨?_, ?_⟩
  · by_contra hge
    exact hclaim (h.next t (Nat.le_of_not_lt hge)).1
  · have hstands := h.stands t
    cases hc : a.claim t with
    | joinable =>
      obtain ⟨handle, -, hinfo, -⟩ := (stands_joinable hc).mp hstands
      exact ⟨handle, hinfo⟩
    | busy c request =>
      obtain ⟨handle, -, hinfo, -⟩ := (stands_busy hc).mp hstands
      exact ⟨handle, hinfo⟩
    | detached => exact ⟨0, (stands_detached hc).mp hstands⟩
    | gone => exact absurd hc hclaim

/-- A thread that runs has not been joined. -/
theorem Describes.claim_of_stage (h : Describes s a) {t : Nat} (hstage : a.stage t = .running ∨ a.stage t = .exiting) :
    a.claim t ≠ .gone := by
  intro hgone
  have hstands := (stands_gone hgone).mp (h.stands t)
  by_cases hlt : t < a.count
  · rw [hstands.2 hlt] at hstage
    rcases hstage with hstage | hstage <;> cases hstage
  · rw [(h.next t (Nat.le_of_not_lt hlt)).2] at hstage
    rcases hstage with hstage | hstage <;> cases hstage

/-- Another stage. -/
theorem Describes.setStage (h : Describes s a) {t : Nat} (hclaim : a.claim t ≠ .gone) (stage : Stage)
    (hended : a.stage t = .ended → stage = .ended) :
    Describes (s.setStage t stage) (a.setStage t stage) := by
  refine ⟨h.count, ?_, h.called, h.idle, ?_, h.owned, h.zero, h.limit, h.positive, ?_⟩
  · change Function.update s.stage t stage = Function.update a.stage t stage
    rw [h.stage]
  · intro u
    refine (h.stands u).frame rfl rfl rfl (fun _ => id) (fun _ _ _ => rfl) ?_ fun _ => id
    intro he
    change Function.update a.stage t stage u = .ended
    by_cases hu : u = t
    · rw [hu, Function.update_self]
      rw [hu] at he
      exact hended he
    · rw [Function.update_of_ne hu, he]
  · intro u hu
    refine ⟨(h.next u hu).1, ?_⟩
    change Function.update a.stage t stage u = .suspended
    rw [Function.update_of_ne, (h.next u hu).2]
    rintro rfl
    exact hclaim (h.next u hu).1

/-- A result is stored. -/
theorem Describes.store (h : Describes s a) {t : Nat} (hstage : a.stage t = .running ∨ a.stage t = .exiting)
    {handle : Nat} {old : Option V} (hinfo : s.info t = some ⟨handle, old⟩) (result : Option V) :
    Describes ((s.setInfo t (some ⟨handle, result⟩)).setStage t .exiting)
      { a.setStage t .exiting with result := Function.update a.result t result } := by
  have hended : a.stage t ≠ .ended := by
    intro he
    rw [he] at hstage
    rcases hstage with hstage | hstage <;> cases hstage
  have hclaim := h.claim_of_stage hstage
  have hset := h.setStage hclaim .exiting fun he => absurd he hended
  refine ⟨h.count, hset.stage, h.called, h.idle, ?_, ?_, h.zero, h.limit, h.positive, hset.next⟩
  · intro u
    by_cases hu : u = t
    · subst hu
      have hstands := h.stands u
      have hblock : ((s.setInfo u (some ⟨handle, result⟩)).setStage u .exiting).info u = some ⟨handle, result⟩ :=
        Function.update_self ..
      have hresult :
          ({ a.setStage u .exiting with result := Function.update a.result u result } : Registry V).result u = result :=
        Function.update_self ..
      have hkept : ({ a.setStage u .exiting with result := Function.update a.result u result } : Registry V).claim u =
          a.claim u := rfl
      cases hc : a.claim u with
      | joinable =>
        obtain ⟨handle', hne, hi, hopen⟩ := (stands_joinable hc).mp hstands
        rw [hinfo] at hi
        obtain ⟨rfl, -⟩ := ThreadInfo.mk.inj (Option.some.inj hi)
        refine (stands_joinable (hkept.trans hc)).mpr ⟨handle, hne, ?_, hopen⟩
        rw [hblock, hresult]
      | busy c request =>
        obtain ⟨handle', hne, hi, hcalls, hopen, hlate⟩ := (stands_busy hc).mp hstands
        rw [hinfo] at hi
        obtain ⟨rfl, -⟩ := ThreadInfo.mk.inj (Option.some.inj hi)
        refine (stands_busy (hkept.trans hc)).mpr ⟨handle, hne, ?_, hcalls, hopen, fun hl => ?_⟩
        · rw [hblock, hresult]
        · exact absurd (hlate hl) hended
      | detached =>
        have hi := (stands_detached hc).mp hstands
        rw [hinfo] at hi
        obtain ⟨rfl, -⟩ := ThreadInfo.mk.inj (Option.some.inj hi)
        refine (stands_detached (hkept.trans hc)).mpr ?_
        rw [hblock, hresult]
      | gone => exact absurd hc hclaim
    · refine (h.stands u).frame rfl (Function.update_of_ne hu _ _) (Function.update_of_ne hu _ _) (fun _ => id)
        (fun _ _ _ => rfl) ?_ fun _ => id
      intro he
      change Function.update a.stage t .exiting u = .ended
      rw [Function.update_of_ne hu, he]
  · intro other u hother
    obtain ⟨ho, i, hi, hhandle⟩ := h.owned other u hother
    refine ⟨ho, ?_⟩
    change ∃ i, Function.update s.info t (some ⟨handle, result⟩) u = some i ∧ i.handle = other
    by_cases hu : u = t
    · rw [hu, hinfo] at hi
      rw [hu, Function.update_self]
      refine ⟨_, rfl, ?_⟩
      rw [← hhandle, ← Option.some.inj hi]
    · rw [Function.update_of_ne hu]
      exact ⟨i, hi, hhandle⟩

theorem Describes.grant (h : Describes s a) (wish : Nat) : s.grant wish ≠ 0 ∧ s.handles (s.grant wish) = none := by
  rw [Process.grant]
  by_cases hfree : wish ≠ 0 ∧ s.handles wish = none
  · rw [if_pos hfree]
    exact hfree
  · rw [if_neg hfree]
    exact ⟨Nat.pos_iff_ne_zero.mp h.positive, h.limit s.limit (Nat.le_refl _)⟩

/-- A new thread. -/
theorem Describes.start (h : Describes s a) {handle : Nat} (hne : handle ≠ 0) (hfree : s.handles handle = none) :
    Describes (s.start handle) a.start := by
  have hgone := (h.next a.count (Nat.le_refl _)).1
  have hcount := h.count
  refine ⟨congrArg (· + 1) hcount, ?_, ?_, h.idle, ?_, ?_, ?_, ?_, ?_, ?_⟩
  · change Function.update s.stage s.count .suspended = Function.update a.stage a.count .suspended
    rw [h.stage, hcount]
  · intro d u
    change a.call d = some u ↔ ∃ r, Function.update a.claim a.count .joinable u = .busy d r
    by_cases hu : u = a.count
    · rw [hu, Function.update_self, h.called, hgone]
      constructor
      · rintro ⟨r, hr⟩
        cases hr
      · rintro ⟨r, hr⟩
        cases hr
    · rw [Function.update_of_ne hu]
      exact h.called d u
  · intro u
    by_cases hu : u = a.count
    · subst hu
      have hnew : a.start.claim a.count = .joinable := Function.update_self ..
      have hblock : (s.start handle).info a.count = some ⟨handle, none⟩ := by
        rw [← hcount]
        exact Function.update_self ..
      have hresult : a.start.result a.count = none := Function.update_self ..
      have hopen : (s.start handle).handles handle = some a.count := by
        rw [← hcount]
        exact Function.update_self ..
      refine (stands_joinable hnew).mpr ⟨handle, hne, ?_, hopen⟩
      rw [hblock, hresult]
    · have hu' : u ≠ s.count := by
        rw [hcount]
        exact hu
      refine (h.stands u).frame (Function.update_of_ne hu _ _) (Function.update_of_ne hu _ _)
        (Function.update_of_ne hu' _ _) ?_ (fun _ _ _ => rfl) ?_ ?_
      · intro other hother
        change Function.update s.handles handle (some s.count) other = some u
        rw [Function.update_of_ne, hother]
        rintro rfl
        rw [hfree] at hother
        cases hother
      · intro he
        change Function.update a.stage a.count .suspended u = .ended
        rw [Function.update_of_ne hu, he]
      · intro _ hlt
        change u < a.count + 1 at hlt
        omega
  · intro other u hother
    change Function.update s.handles handle (some s.count) other = some u at hother
    change (Function.update a.claim a.count .joinable u).isOpen = true ∧
      ∃ i, Function.update s.info s.count (some ⟨handle, none⟩) u = some i ∧ i.handle = other
    by_cases heq : other = handle
    · rw [heq, Function.update_self] at hother
      obtain rfl := Option.some.inj hother
      rw [Function.update_self, hcount, Function.update_self]
      exact ⟨rfl, _, rfl, heq.symm⟩
    · rw [Function.update_of_ne heq] at hother
      have hu : u ≠ a.count := by
        rintro rfl
        have ho := (h.owned other a.count hother).1
        rw [hgone] at ho
        cases ho
      rw [Function.update_of_ne hu, hcount, Function.update_of_ne hu]
      exact h.owned other u hother
  · change Function.update s.handles handle (some s.count) 0 = none
    rw [Function.update_of_ne hne.symm, h.zero]
  · intro other hother
    change max s.limit (handle + 1) ≤ other at hother
    change Function.update s.handles handle (some s.count) other = none
    rw [Function.update_of_ne (by omega), h.limit other (by omega)]
  · exact Nat.lt_of_lt_of_le h.positive (Nat.le_max_left _ _)
  · intro u hu
    change a.count + 1 ≤ u at hu
    change Function.update a.claim a.count .joinable u = .gone ∧ Function.update a.stage a.count .suspended u = _
    rw [Function.update_of_ne (by omega), Function.update_of_ne (by omega)]
    exact h.next u (by omega)

end

/-! ## One event -/

section
variable {s : Process V} {a : Registry V}

theorem Request.call_ne_idle (t handle : Nat) (request : Request) : request.call t handle ≠ .idle := by
  intro h
  cases request <;> cases h

/-- A thread that begins a call. -/
theorem Registry.free_iff (a : Registry V) (c : Nat) :
    a.free c = true ↔ a.call c = none ∧ (a.stage c = .running ∨ a.stage c = .exiting) := by
  rw [free]
  cases a.stage c <;> cases a.call c <;> simp

theorem Describes.free (h : Describes s a) (c : Nat) : s.free c = a.free c := by
  rw [Process.free, Registry.free, h.stage]
  cases hcall : a.call c with
  | none =>
    rw [h.idle c hcall]
    cases a.stage c <;> rfl
  | some t =>
    obtain ⟨request, handle, -, -, -, hcalls, -⟩ := h.target hcall
    have hne := request.call_ne_idle t handle
    rw [hcalls]
    cases hrequest : request.call t handle with
    | idle => exact absurd hrequest hne
    | _ => cases a.stage c <;> rfl

theorem create_describes (h : Describes s a) {c : Nat} (hcall : a.call c = none) (wish : Nat)
    (suspended detached : Bool) : Describes (s.create c wish suspended detached) (a.create c suspended detached) := by
  obtain ⟨hne, hfree⟩ := h.grant wish
  have hstart := h.start hne hfree
  have hnew : Free a.start c a.count := .inl ⟨Function.update_self .., hcall⟩
  have hinfo : (s.start (s.grant wish)).info a.count = some ⟨s.grant wish, a.start.result a.count⟩ := by
    change Function.update s.info s.count _ a.count = some ⟨_, Function.update a.result a.count none a.count⟩
    rw [h.count, Function.update_self, Function.update_self]
  have hopen : (s.start (s.grant wish)).handles (s.grant wish) = some a.count := by
    change Function.update s.handles (s.grant wish) (some s.count) (s.grant wish) = _
    rw [Function.update_self, h.count]
  rw [Process.create, Registry.create, h.count]
  cases suspended with
  | true =>
    cases detached with
    | true => exact hstart.setRequest hnew hne hinfo hopen .closing (fun h => (by cases h))
    | false =>
      have hidle : (s.start (s.grant wish)).setCall c .idle = s.start (s.grant wish) := by
        have hupdate : Function.update s.call c .idle = s.call := by
          rw [← h.idle c hcall, Function.update_eq_self]
        rw [Process.setCall]
        change { s.start (s.grant wish) with call := Function.update s.call c .idle } = _
        rw [hupdate]
        rfl
      simp only [if_true, Bool.false_eq_true, if_false]
      rw [hidle]
      exact hstart
  | false => exact hstart.setRequest hnew hne hinfo hopen (.resuming detached) (fun h => (by cases h))

theorem resume_describes (h : Describes s a) {t handle : Nat} (hclaim : a.claim t ≠ .gone)
    (hopen : s.handles handle = some t) :
    Describes (s.resume handle) (a.setStage t (a.stage t).resumed) := by
  rw [Process.resume, hopen, h.stage]
  refine h.setStage hclaim _ fun he => ?_
  rw [he]
  rfl

/-- The next piece of a call. -/
theorem progress_describes (h : Describes s a) (c : Nat) :
    ∃ s', s.progress c = some (s', (a.progress c).2) ∧ Describes s' (a.progress c).1 := by
  cases hcall : a.call c with
  | none =>
    rw [Process.progress, Registry.progress, hcall, h.idle c hcall]
    exact ⟨s, rfl, h⟩
  | some t =>
    obtain ⟨request, handle, hclaim, hne, hinfo, hcalls, hopen, hlate⟩ := h.target hcall
    have hfree : Free a c t := .inr ⟨request, hclaim⟩
    rw [Process.progress, Registry.progress, hcall, hcalls]
    simp only [hclaim]
    cases request with
    | resuming detach =>
      have hresumed := resume_describes h (by rw [hclaim]; intro h; cases h) (hopen rfl)
      have hhandles : (s.resume handle).handles handle = some t ∧ (s.resume handle).info = s.info := by
        rw [Process.resume, hopen rfl]
        exact ⟨hopen rfl, rfl⟩
      have hinfo' : (s.resume handle).info t = some ⟨handle, a.result t⟩ := by rw [hhandles.2, hinfo]
      refine ⟨_, rfl, ?_⟩
      cases detach with
      | true => exact hresumed.setRequest (.inr ⟨_, hclaim⟩) hne hinfo' hhandles.1 .closing (fun h => (by cases h))
      | false =>
        have hleft := hresumed.leave hclaim .joinable ⟨rfl, rfl⟩
        have hsame : (s.resume handle).setInfo t ((s.resume handle).info t) = s.resume handle := by
          rw [Process.setInfo, Function.update_eq_self]
        rw [hsame] at hleft
        exact hleft
    | closing =>
      refine ⟨_, rfl, ?_⟩
      rw [Process.close, hopen rfl]
      exact h.setRequest hfree hne hinfo (hopen rfl) .forgetting (fun h => (by cases h))
    | forgetting =>
      simp only [Request.call, hinfo, Option.map_some]
      exact ⟨_, rfl, h.leave hclaim .detached ⟨rfl, rfl⟩⟩
    | detaching =>
      simp only [Request.call, hinfo, Option.map_some, Process.close, hopen rfl]
      exact ⟨_, rfl, h.setRequest hfree hne hinfo (hopen rfl) .forgetting (fun h => (by cases h))⟩
    | waiting wait =>
      simp only [Request.call, h.stage]
      by_cases hended : a.stage t = .ended
      · rw [if_pos hended, if_pos hended]
        exact ⟨_, rfl, h.setRequest hfree hne hinfo (hopen rfl) .leaving fun _ => hended⟩
      · rw [if_neg hended, if_neg hended]
        by_cases himmediate : wait = .immediate
        · rw [if_pos himmediate, if_pos himmediate]
          have hleft := h.leave hclaim .joinable ⟨rfl, rfl⟩
          have hsame : s.setInfo t (s.info t) = s := by rw [Process.setInfo, Function.update_eq_self]
          rw [hsame] at hleft
          exact ⟨_, rfl, hleft⟩
        · rw [if_neg himmediate, if_neg himmediate]
          exact ⟨_, rfl, h⟩
    | leaving =>
      simp only [Request.call, hinfo, Option.map_some, Process.close, hopen rfl]
      exact ⟨_, rfl, h.setRequest hfree hne hinfo (hopen rfl) .freeing fun _ => hlate rfl⟩
    | freeing =>
      simp only [Request.call, hinfo, Option.map_some]
      exact ⟨_, rfl, h.leave hclaim .gone ⟨rfl, rfl, hlate rfl⟩⟩

/-- A thread whose handle is used by others. -/
theorem Describes.quiet (h : Describes s a) {t : Nat} {act : Act} {c : Nat} (hallowed : Allowed a (.act c t act)) :
    (a.claim t = .detached ∧ s.info t = some ⟨0, a.result t⟩) ∨
      a.claim t ≠ .detached ∧ a.claim t ≠ .gone ∧
        ∃ handle, s.info t = some ⟨handle, a.result t⟩ ∧ s.handles handle = some t := by
  have hrule := hallowed.2
  have hstands := h.stands t
  cases hc : a.claim t with
  | joinable =>
    obtain ⟨handle, -, hinfo, hopen⟩ := (stands_joinable hc).mp hstands
    exact .inr ⟨fun h => (by cases h), fun h => (by cases h), handle, hinfo, hopen⟩
  | busy d request =>
    rw [hc] at hrule
    obtain ⟨handle, -, hinfo, -, hopen, -⟩ := (stands_busy hc).mp hstands
    have ho : request.isOpen = true := by
      cases request with
      | resuming | waiting => rfl
      | closing | forgetting | detaching | leaving | freeing => cases hrule
    exact .inr ⟨fun h => (by cases h), fun h => (by cases h), handle, hinfo, hopen ho⟩
  | detached => exact .inl ⟨rfl, (stands_detached hc).mp hstands⟩
  | gone =>
    rw [hc] at hrule
    exact absurd hrule id

/-- **One event.** -/
theorem step_describes (h : Describes s a) {e : Event V} (hallowed : Allowed a e) :
    ∃ s', s.step e = some (s', (a.step e).2) ∧ Describes s' (a.step e).1 := by
  cases e with
  | create c wish suspended detached =>
    simp only [Process.step, Registry.step, h.free]
    by_cases hfree : a.free c = true
    · rw [if_pos hfree, if_pos hfree]
      cases wish with
      | none => exact ⟨s, rfl, h⟩
      | some wish =>
        rw [← h.count]
        exact ⟨_, rfl, create_describes h ((a.free_iff c).mp hfree).1 wish suspended detached⟩
    · rw [if_neg hfree, if_neg hfree]
      exact ⟨s, rfl, h⟩
  | detach c t =>
    rw [Process.step, Registry.step, h.free]
    by_cases hfree : a.free c = true
    · rw [if_pos hfree, if_pos hfree]
      rcases hallowed.2 with hclaim | hclaim
      · obtain ⟨handle, hne, hinfo, hopen⟩ := (stands_joinable hclaim).mp (h.stands t)
        simp only [hclaim, hinfo, Option.map_some]
        rw [if_pos hne]
        have hnew : Free a c t := .inl ⟨hclaim, ((a.free_iff c).mp hfree).1⟩
        exact ⟨_, rfl, h.setRequest hnew hne hinfo hopen .detaching (fun h => (by cases h))⟩
      · have hinfo := (stands_detached hclaim).mp (h.stands t)
        simp only [hclaim, hinfo, Option.map_some]
        exact ⟨s, rfl, h⟩
    · rw [if_neg hfree, if_neg hfree]
      exact ⟨s, rfl, h⟩
  | join c t abstime =>
    rw [Process.step, Registry.step, h.free]
    by_cases hfree : a.free c = true
    · rw [if_pos hfree, if_pos hfree]
      rcases hallowed.2 with hclaim | hclaim
      · obtain ⟨handle, hne, hinfo, hopen⟩ := (stands_joinable hclaim).mp (h.stands t)
        simp only [hclaim, hinfo, Option.map_some, hopen]
        exact ⟨_, rfl,
          h.setRequest (.inl ⟨hclaim, ((a.free_iff c).mp hfree).1⟩) hne hinfo hopen (.waiting (waitOf abstime))
            (fun h => (by cases h))⟩
      · have hinfo := (stands_detached hclaim).mp (h.stands t)
        simp only [hclaim, hinfo, Option.map_some, h.zero]
        exact ⟨s, rfl, h⟩
    · rw [if_neg hfree, if_neg hfree]
      exact ⟨s, rfl, h⟩
  | act c t act =>
    rw [Process.step, h.free]
    by_cases hfree : a.free c = true
    · rw [if_pos hfree]
      rcases h.quiet hallowed with ⟨hclaim, hinfo⟩ | ⟨hdetached, hgone, handle, hinfo, hopen⟩
      · have hspec : a.step (.act c t act) = (a, .failed) := by rw [Registry.step, if_pos hfree, hclaim]
        simp only [hspec, hinfo, Option.map_some, h.zero]
        exact ⟨s, rfl, h⟩
      · have hspec : a.step (.act c t act) = (a.setStage t (act.on (a.stage t)), .reached t) := by
          rw [Registry.step, if_pos hfree]
          cases hc : a.claim t with
          | detached => exact absurd hc hdetached
          | _ => rfl
        simp only [hspec, hinfo, Option.map_some, hopen, h.stage]
        refine ⟨_, rfl, h.setStage hgone _ fun he => ?_⟩
        rw [he]
        cases act <;> rfl
    · have hspec : a.step (.act c t act) = (a, .nothing) := by rw [Registry.step, if_neg hfree]
      rw [if_neg hfree, hspec]
      exact ⟨s, rfl, h⟩
  | store t result =>
    rw [Process.step, Registry.step, h.free]
    by_cases hfree : a.free t = true
    · rw [if_pos hfree, if_pos hfree]
      have hstage := ((a.free_iff t).mp hfree).2
      obtain ⟨-, handle, hinfo⟩ := h.exists_info (h.claim_of_stage hstage)
      simp only [hinfo, Option.map_some]
      exact ⟨_, rfl, h.store hstage hinfo result⟩
    · rw [if_neg hfree, if_neg hfree]
      exact ⟨s, rfl, h⟩
  | finish t =>
    simp only [Process.step, Registry.step, h.stage]
    cases hstage : a.stage t with
    | suspended | running | ended => exact ⟨s, rfl, h⟩
    | exiting =>
      have hclaim := h.claim_of_stage (.inr hstage)
      obtain ⟨-, handle, hinfo⟩ := h.exists_info hclaim
      simp only [hinfo, Option.map_some]
      exact ⟨_, rfl, h.setStage hclaim _ fun _ => rfl⟩
  | progress c => exact progress_describes h c
  | timeout c =>
    cases hcall : a.call c with
    | none =>
      simp only [Process.step, Registry.step, hcall, h.idle c hcall]
      exact ⟨s, rfl, h⟩
    | some t =>
      obtain ⟨request, handle, hclaim, -, -, hcalls, hopen, -⟩ := h.target hcall
      simp only [Process.step, Registry.step, hcall, hclaim, hcalls]
      cases request with
      | waiting wait =>
        cases wait with
        | deadline =>
          have hleft := h.leave hclaim .joinable ⟨rfl, rfl⟩
          have hsame : s.setInfo t (s.info t) = s := by rw [Process.setInfo, Function.update_eq_self]
          rw [hsame] at hleft
          exact ⟨_, rfl, hleft⟩
        | infinite | immediate => exact ⟨s, rfl, h⟩
      | resuming | closing | forgetting | detaching | leaving | freeing => exact ⟨s, rfl, h⟩

end

/-! ## Runs -/

/-- At first there is the main thread only. -/
theorem initial_of_ne {t : Nat} (ht : t ≠ 0) : (Registry.initial : Registry V).claim t = .gone ∧
    (Registry.initial : Registry V).stage t = .suspended ∧ (Process.initial : Process V).info t = none := by
  change Function.update (fun _ => Claim.gone) 0 .detached t = .gone ∧
    Function.update (fun _ => Stage.suspended) 0 .running t = .suspended ∧
    Function.update (fun _ => none) 0 (some (⟨0, none⟩ : ThreadInfo V)) t = none
  rw [Function.update_of_ne ht, Function.update_of_ne ht, Function.update_of_ne ht]
  exact ⟨rfl, rfl, rfl⟩

theorem initial_describes : Describes (.initial : Process V) .initial := by
  refine ⟨rfl, rfl, fun c t => ⟨fun h => (by cases h), ?_⟩, fun _ _ => rfl, ?_, fun _ _ h => (by cases h), rfl,
    fun _ _ => rfl, Nat.one_pos, ?_⟩
  · rintro ⟨request, hclaim⟩
    by_cases ht : t = 0
    · rw [ht] at hclaim
      cases hclaim
    · rw [(initial_of_ne ht).1] at hclaim
      cases hclaim
  · intro t
    by_cases ht : t = 0
    · subst ht
      exact (rfl : (Process.initial : Process V).info 0 = some ⟨0, none⟩)
    · refine (stands_gone (initial_of_ne ht).1).mpr ⟨(initial_of_ne ht).2.2, fun hlt => ?_⟩
      change t < 1 at hlt
      omega
  · intro t ht
    change 1 ≤ t at ht
    have hne : t ≠ 0 := by omega
    exact ⟨(initial_of_ne hne).1, (initial_of_ne hne).2.1⟩

/-- A thread is created, ends, and is joined. -/
def joinedOnce : List (Event Nat) :=
  [.create 0 (some 4) false false, .progress 0, .store 1 (some 7), .finish 1, .join 0 1 none, .progress 0, .progress 0,
    .progress 0]

theorem joinedOnce_allowed : (Registry.machine : Machine (Registry Nat) _ _).Along Allowed .initial joinedOnce := by
  refine ⟨trivial, ?_⟩
  rintro a o ⟨⟩
  refine ⟨trivial, ?_⟩
  rintro a o ⟨⟩
  refine ⟨trivial, ?_⟩
  rintro a o ⟨⟩
  refine ⟨trivial, ?_⟩
  rintro a o ⟨⟩
  refine ⟨⟨Nat.one_ne_zero, .inl rfl⟩, ?_⟩
  rintro a o ⟨⟩
  refine ⟨trivial, ?_⟩
  rintro a o ⟨⟩
  refine ⟨trivial, ?_⟩
  rintro a o ⟨⟩
  exact ⟨trivial, fun _ _ _ => trivial⟩

/-- **Threads.** As long as the rules are kept, the blocks and handles do not show: in every order of the pieces of
calls no block is used that has been freed, no handle is closed that is another thread's, every join gives what its
thread has stored last, and what is done with a thread reaches that thread. -/
theorem lifecycle_refines (es : List (Event V))
    (h : (Registry.machine : Machine (Registry V) _ _).Along Allowed .initial es) :
    ∃ s a os, (processMachine : Machine (Process V) _ _).run .initial es = some (s, os) ∧
      (Registry.machine : Machine (Registry V) _ _).run .initial es = some (a, os) ∧ Describes s a := by
  have hsim := Machine.run_sim (M := (Registry.machine : Machine (Registry V) _ _)) (N := processMachine)
    (R := fun a s => Describes s a) (P := Allowed) (fun a s e hdescribes hallowed => by
      obtain ⟨s', hstep, hdescribes'⟩ := step_describes hdescribes hallowed
      exact ⟨(a.step e).1, s', (a.step e).2, rfl, hstep, hdescribes'⟩) es initial_describes h
  obtain ⟨a, s, os, hspec, hcode, hdescribes⟩ := hsim
  exact ⟨s, a, os, hcode, hspec, hdescribes⟩

theorem lifecycle_refines_joinedOnce :
    ∃ s a os, (processMachine : Machine (Process Nat) _ _).run .initial joinedOnce = some (s, os) ∧
      (Registry.machine : Machine (Registry Nat) _ _).run .initial joinedOnce = some (a, os) ∧ Describes s a :=
  lifecycle_refines joinedOnce joinedOnce_allowed

end WindowsLibc.Thread.Lifecycle
