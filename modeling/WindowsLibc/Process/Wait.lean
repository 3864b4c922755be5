import WindowsLibc.Process.Table

/-!
# Waiting for any child (`sys/wait/waitpid.c`)

`wait_all_children` copies the handles and ids of the table into two local arrays of
`MAXIMUM_WAIT_OBJECTS` elements, waits for any of the handles, asks for the exit status of the one
that terminated and deletes its child.

The two system calls are a `Kernel`. The variable `status` carries first the index that the wait
reports and then the result of the query, so the child that is deleted is the reported one only when
these agree.
-/

namespace WindowsLibc.Process

/-- `MAXIMUM_WAIT_OBJECTS`. -/
def maximumWaitObjects : Nat := 64

/-- `STATUS_TIMEOUT`. -/
def statusTimeout : Int32 := 0x102

/-- `WNOHANG`. -/
def wnohang : UInt32 := 1

/-- The system calls of `wait_all_children`. An `NTSTATUS` is a signed 32-bit number. -/
structure Kernel where
  /-- `NtWaitForMultipleObjects(count, handles, WaitAny, …)`; the flag is for a zero timeout. -/
  waitForMultipleObjects : List UInt64 → Bool → Int32
  /-- `NtQueryInformationProcess`: its status, and the exit status it stores. -/
  queryInformationProcess : UInt64 → Int32 × Int32

/-- The local arrays `child_handles`, `child_pids` and their fill count. -/
structure Gathered where
  handles : List UInt64
  pids : List UInt32
  count : Nat

def Gathered.empty : Gathered :=
  ⟨List.replicate maximumWaitObjects 0, List.replicate maximumWaitObjects 0, 0⟩

/-- The loop over the table. A store outside the arrays is a fault. -/
def gather : List ProcessInfo → Gathered → Option Gathered
  | [], g => some g
  | p :: ps, g =>
    if p.handle ≠ 0 then
      if g.count < maximumWaitObjects then
        gather ps ⟨g.handles.set g.count p.handle, g.pids.set g.count p.id, g.count + 1⟩
      else none
    else gather ps g

/-- `array[status]`. -/
def arrayGet {α : Type} (array : List α) (status : Int32) : Option α :=
  if status < 0 then none else array[status.toInt.toNat]?

/-- What the caller sees: the returned pid, `*wstatus` (`none` for a NULL pointer), the table. -/
structure WaitResult where
  ret : Int32
  wstatus : Option Int32
  table : ProcessTable

/-- `delete_child(child_pids[status])` and the return of that pid. -/
def reap (t : ProcessTable) (g : Gathered) (wstatus : Option Int32) (status : Int32) :
    Option WaitResult :=
  match arrayGet g.pids status with
  | none => none
  | some pid => (deleteChild t pid).map (fun t' => ⟨pid.toInt32, wstatus, t'⟩)

/-- The query for the exit status, made only when `wstatus` is not NULL; its result replaces
`status`. -/
def queryAndReap (K : Kernel) (t : ProcessTable) (g : Gathered) (status : Int32) :
    Option Int32 → Option WaitResult
  | none => reap t g none status
  | some old =>
    match arrayGet g.handles status with
    | none => none
    | some handle =>
      let query := K.queryInformationProcess handle
      reap t g (some (if query.1 = 0 then query.2 else old)) query.1

/-- `wait_all_children`. The guard for a failed wait asks for a status that is below
`STATUS_WAIT_0` and above `STATUS_WAIT_63`. -/
def waitAllChildren (K : Kernel) (t : ProcessTable) (wstatus : Option Int32) (options : UInt32) :
    Option WaitResult :=
  match gather t.table .empty with
  | none => none
  | some g =>
    if g.count = 0 then some ⟨0, wstatus, t⟩
    else
      let status := K.waitForMultipleObjects (g.handles.take g.count) (options &&& wnohang != 0)
      if status = statusTimeout then some ⟨0, wstatus.map (fun _ => -1), t⟩
      else if status < 0 ∧ status > 63 then some ⟨-1, wstatus, t⟩
      else queryAndReap K t g status wstatus

/-- Child `k` of `kids` is waited for: its pid is returned, its exit status stored, and the table
holds exactly the others. -/
structure Reaps (kids : List ProcessInfo) (k : Nat) (hk : k < kids.length) (exitStatus : Int32)
    (r : WaitResult) : Prop where
  ret : r.ret = kids[k].id.toInt32
  wstatus : r.wstatus = some exitStatus
  others : Holds r.table (kids.eraseIdx k)

/-! ## What is gathered -/

/-- The arrays hold the children `kids`, then zeros. -/
structure Gathered.Of (g : Gathered) (kids : List ProcessInfo) : Prop where
  count : g.count = kids.length
  handles : g.handles = kids.map (·.handle) ++ List.replicate (maximumWaitObjects - kids.length) 0
  pids : g.pids = kids.map (·.id) ++ List.replicate (maximumWaitObjects - kids.length) 0

theorem set_filled {α : Type} (xs : List α) (x e : α) (n : Nat) (hn : xs.length < n) :
    (xs ++ List.replicate (n - xs.length) e).set xs.length x =
      (xs ++ [x]) ++ List.replicate (n - (xs.length + 1)) e := by
  obtain ⟨m, hm⟩ : ∃ m, n - xs.length = m + 1 := ⟨n - xs.length - 1, by omega⟩
  have hm' : n - (xs.length + 1) = m := by omega
  rw [hm, hm', List.set_append_right _ _ (Nat.le_refl _), Nat.sub_self, List.replicate_succ,
    List.set_cons_zero, List.append_assoc]
  rfl

theorem gather_free (m : Nat) (g : Gathered) : gather (List.replicate m .free) g = some g := by
  induction m with
  | zero => rfl
  | succ m ih => rw [List.replicate_succ, gather, if_neg (fun h => h rfl), ih]

/-- The arrays take every child as long as there are at most `MAXIMUM_WAIT_OBJECTS`. -/
theorem gather_kids (kids : List ProcessInfo) (m : Nat) (hkids : ∀ p ∈ kids, p.handle ≠ 0)
    {done : List ProcessInfo} {g : Gathered} (hg : g.Of done) :
    (done.length + kids.length ≤ maximumWaitObjects →
      ∃ g', gather (kids ++ List.replicate m .free) g = some g' ∧ g'.Of (done ++ kids)) ∧
    (done.length ≤ maximumWaitObjects → maximumWaitObjects < done.length + kids.length →
      gather (kids ++ List.replicate m .free) g = none) := by
  induction kids generalizing done g with
  | nil =>
    refine ⟨fun _ => ⟨g, gather_free m g, by rwa [List.append_nil]⟩, ?_⟩
    intro hle hlt
    rw [List.length_nil] at hlt
    omega
  | cons p kids ih =>
    have hp := hkids p List.mem_cons_self
    have hrest := fun q hq => hkids q (List.mem_cons_of_mem p hq)
    rw [List.cons_append, gather, if_pos hp, hg.count, List.length_cons]
    by_cases hroom : done.length < maximumWaitObjects
    · rw [if_pos hroom]
      have hg' : Gathered.Of ⟨g.handles.set done.length p.handle, g.pids.set done.length p.id,
          done.length + 1⟩ (done ++ [p]) := by
        have h₁ := set_filled (done.map (·.handle)) p.handle 0 maximumWaitObjects
          (by rwa [List.length_map])
        have h₂ := set_filled (done.map (·.id)) p.id 0 maximumWaitObjects
          (by rwa [List.length_map])
        rw [List.length_map] at h₁ h₂
        refine ⟨by rw [List.length_append, List.length_singleton], ?_, ?_⟩
        · rw [hg.handles, h₁, List.map_append, List.length_append]; rfl
        · rw [hg.pids, h₂, List.map_append, List.length_append]; rfl
      have h := ih hrest hg'
      rw [List.length_append, List.length_singleton, List.append_assoc, List.singleton_append] at h
      refine ⟨fun hle => h.1 (by omega), fun _ hlt => h.2 hroom (by omega)⟩
    · -- A 65th child: the store is outside the arrays.
      rw [if_neg hroom]
      refine ⟨fun hle => by omega, fun _ _ => rfl⟩

theorem of_empty : Gathered.empty.Of [] := ⟨rfl, rfl, rfl⟩

variable {t : ProcessTable} {kids : List ProcessInfo}

theorem gather_packed (h : Packed t kids) (hle : kids.length ≤ maximumWaitObjects) :
    ∃ g, gather t.table .empty = some g ∧ g.Of kids := by
  obtain ⟨m, hm⟩ := h.table
  obtain ⟨g, hg, hof⟩ := (gather_kids kids m h.handle_ne of_empty).1
    (by rwa [List.length_nil, Nat.zero_add])
  exact ⟨g, by rw [hm, hg], hof⟩

theorem gather_fault (h : Packed t kids) (hlt : maximumWaitObjects < kids.length) :
    gather t.table .empty = none := by
  obtain ⟨m, hm⟩ := h.table
  rw [hm]
  exact (gather_kids kids m h.handle_ne of_empty).2 (Nat.zero_le _)
    (by rwa [List.length_nil, Nat.zero_add])

/-! ## The child that is reaped -/

theorem toInt_ofNat {k : Nat} (hk : k < maximumWaitObjects) : (Int32.ofNat k).toInt = k := by
  apply Int32.toInt_ofNat_of_lt
  rw [maximumWaitObjects] at hk
  omega

/-- Element `k` of an array that is filled beyond `k`. -/
theorem arrayGet_filled {α : Type} (xs : List α) (e : α) (n : Nat) {k : Nat} (hk : k < xs.length)
    (hmax : k < maximumWaitObjects) :
    arrayGet (xs ++ List.replicate n e) (Int32.ofNat k) = some xs[k] := by
  have hint := toInt_ofNat hmax
  have hneg : ¬ Int32.ofNat k < 0 := by
    rw [Int32.lt_iff_toInt_lt, hint]
    exact Int.not_lt.mpr (Int.natCast_nonneg k)
  rw [arrayGet, if_neg hneg, hint, Int.toNat_natCast, List.getElem?_append_left hk,
    List.getElem?_eq_getElem hk]

/-- The query succeeds, so `status` is 0 and the first child is reaped, whatever `k` was. -/
theorem waitAllChildren_eq (h : Packed t kids) (hle : kids.length ≤ maximumWaitObjects)
    {K : Kernel} {options : UInt32} {k : Nat} (hk : k < kids.length) {old exitStatus : Int32}
    (hwait : K.waitForMultipleObjects (kids.map (·.handle)) (options &&& wnohang != 0) =
      Int32.ofNat k)
    (hquery : K.queryInformationProcess kids[k].handle = (0, exitStatus)) :
    waitAllChildren K t (some old) options =
      (deleteChild t (kids.get ⟨0, Nat.zero_lt_of_lt hk⟩).id).map (fun t' =>
        ⟨(kids.get ⟨0, Nat.zero_lt_of_lt hk⟩).id.toInt32, some exitStatus, t'⟩) := by
  obtain ⟨g, hg, hof⟩ := gather_packed h hle
  have hkmax : k < maximumWaitObjects := Nat.lt_of_lt_of_le hk hle
  have hint := toInt_ofNat hkmax
  have hhandles : g.handles.take g.count = kids.map (·.handle) := by
    rw [hof.handles, hof.count, List.take_left' (List.length_map _)]
  have hcount : g.count ≠ 0 := by
    rw [hof.count]
    omega
  have htimeout : Int32.ofNat k ≠ statusTimeout := by
    intro heq
    have h258 := congrArg Int32.toInt heq
    rw [hint, show statusTimeout.toInt = 258 by decide] at h258
    rw [maximumWaitObjects] at hkmax
    omega
  have hguard : ¬ (Int32.ofNat k < 0 ∧ Int32.ofNat k > 63) := by
    rintro ⟨hneg, _⟩
    rw [Int32.lt_iff_toInt_lt, hint] at hneg
    exact absurd hneg (Int.not_lt.mpr (Int.natCast_nonneg k))
  have hhandle : arrayGet g.handles (Int32.ofNat k) = some kids[k].handle := by
    rw [hof.handles, arrayGet_filled _ _ _ (by rwa [List.length_map]) hkmax, List.getElem_map]
  -- `status` now holds the result of the query, which is 0, and is used as the index.
  have hpid : arrayGet g.pids 0 = some (kids.get ⟨0, Nat.zero_lt_of_lt hk⟩).id := by
    rw [hof.pids]
    have h0 := arrayGet_filled (kids.map (·.id)) 0 (maximumWaitObjects - kids.length) (k := 0)
      (by rw [List.length_map]; omega) (by decide)
    rw [List.getElem_map] at h0
    exact h0
  simp only [waitAllChildren, hg, hhandles, hwait]
  rw [if_neg hcount, if_neg htimeout, if_neg hguard]
  simp only [queryAndReap, hhandle, hquery, if_true, reap, hpid]

/-- **A wait for any child reaps the reported child exactly when the children fit the arrays and the
first of them is the reported one.** -/
theorem waitAllChildren_reaps_iff (h : Packed t kids) {K : Kernel} {options : UInt32} {k : Nat}
    (hk : k < kids.length) {old exitStatus : Int32}
    (hwait : K.waitForMultipleObjects (kids.map (·.handle)) (options &&& wnohang != 0) =
      Int32.ofNat k)
    (hquery : K.queryInformationProcess kids[k].handle = (0, exitStatus)) :
    (∃ r, waitAllChildren K t (some old) options = some r ∧ Reaps kids k hk exitStatus r) ↔
      kids.length ≤ maximumWaitObjects ∧ k = 0 := by
  constructor
  · rintro ⟨r, hr, hreaps⟩
    have hle : kids.length ≤ maximumWaitObjects := by
      by_contra hgt
      rw [waitAllChildren, gather_fault h (Nat.lt_of_not_le hgt)] at hr
      cases hr
    refine ⟨hle, ?_⟩
    rw [waitAllChildren_eq h hle hk hwait hquery] at hr
    obtain ⟨t', _, rfl⟩ := Option.map_eq_some_iff.mp hr
    -- The returned pid is that of the first child, and no two children share a pid.
    have hret : (kids.get ⟨0, Nat.zero_lt_of_lt hk⟩).id = kids[k].id :=
      congrArg Int32.toUInt32 hreaps.ret
    have hlen : (kids.map (·.id)).length = kids.length := List.length_map _
    have hids : (kids.map (·.id))[0] = (kids.map (·.id))[k] := by
      rw [List.getElem_map, List.getElem_map]
      exact hret
    exact (h.nodup.getElem_inj_iff.mp hids).symm
  · rintro ⟨hle, rfl⟩
    rw [waitAllChildren_eq h hle hk hwait hquery]
    obtain ⟨p, ps, rfl⟩ := List.exists_cons_of_ne_nil (List.ne_nil_of_length_pos hk)
    have h' : Packed t ([] ++ p :: ps) := h
    obtain ⟨t', kids', hdel, hp', hperm⟩ := deleteChild_kept h' h.size
    refine ⟨⟨p.id.toInt32, some exitStatus, t'⟩, ?_, rfl, rfl, hp'.holds hperm⟩
    rw [List.get_eq_getElem, List.getElem_cons_zero, hdel]
    rfl

/-- Children 7 and 8, with the handles 100 and 104. -/
def twoChildren : ProcessTable :=
  ⟨[⟨100, 7⟩, ⟨104, 8⟩, .free, .free], 2⟩

theorem packed_twoChildren : Packed twoChildren [⟨100, 7⟩, ⟨104, 8⟩] where
  table := ⟨2, rfl⟩
  count := rfl
  id_ne := by decide
  handle_ne := by decide
  nodup := by decide
  size := by decide

/-- A kernel where the wait reports object `k`; child 7 exited with 3 and child 8 with 4. -/
def exited (k : Int32) : Kernel :=
  ⟨fun _ _ => k, fun handle => (0, if handle = 100 then 3 else 4)⟩

/-- The first child is reaped when it is the reported one. -/
theorem twoChildren_first :
    ∃ r, waitAllChildren (exited 0) twoChildren (some 0) 0 = some r ∧
      Reaps [⟨100, 7⟩, ⟨104, 8⟩] 0 (by decide) 3 r :=
  (waitAllChildren_reaps_iff packed_twoChildren (by decide) rfl rfl).mpr ⟨by decide, rfl⟩

/-- The first child is reaped when the second is the reported one. -/
theorem twoChildren_second :
    Packed twoChildren [⟨100, 7⟩, ⟨104, 8⟩] ∧
      (exited 1).waitForMultipleObjects [100, 104] false = Int32.ofNat 1 ∧
      (exited 1).queryInformationProcess 104 = (0, 4) ∧
      ¬ ∃ r, waitAllChildren (exited 1) twoChildren (some 0) 0 = some r ∧
        Reaps [⟨100, 7⟩, ⟨104, 8⟩] 1 (by decide) 4 r := by
  refine ⟨packed_twoChildren, rfl, rfl, ?_⟩
  rintro ⟨r, hr, hreaps⟩
  have hret : (waitAllChildren (exited 1) twoChildren (some 0) 0).map (·.ret) = some 7 := by decide
  rw [hr, Option.map_some, hreaps.ret] at hret
  revert hret
  decide

end WindowsLibc.Process
