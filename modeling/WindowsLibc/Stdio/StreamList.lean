import WindowsLibc.Lib.Linked
import WindowsLibc.Lib.Machine
import WindowsLibc.Stdio.Stream

/-!
# The list of all streams (`stdio/internal.c`, `common_flushall` of `stdio/fflush.c`)

Every `FILE` stands in a doubly linked list, which begins with the newest one at `_wlibc_stdio_head`.

* `StreamList` is the heap with the streams, by address, and the head. Accesses to what is not allocated
  are faults (`none`), and so is a loop that does not end.
* `Lists` says that the list is made up of certain streams, in this order; it is the invariant of
  `createFile_lists` and `deleteStream_lists`.
* `stream_list`: over any history the list has exactly the streams that are alive, the newest first, and
  `common_flushall` flushes each of them once.
-/

namespace WindowsLibc.Stdio

open WindowsLibc.Lib

/-- `FILE`: the stream, and the fields `prev` and `next`. -/
structure File where
  stream : Stream
  links : Links Nat

/-- The streams by their addresses, and `_wlibc_stdio_head`. -/
structure StreamList where
  file : Nat → Option File
  head : Option Nat

/-- No streams yet. -/
def noStreams : StreamList := ⟨fun _ => none, none⟩

namespace StreamList

/-- The fields `prev` and `next`. -/
def links (s : StreamList) (p : Nat) : Option (Links Nat) := (s.file p).map File.links

/-- A store to a stream. -/
def modify (s : StreamList) (p : Nat) (f : File → File) : Option StreamList :=
  (s.file p).map fun file => { s with file := Function.update s.file p (some (f file)) }

/-- `p->prev = v`. -/
def setPrev (p : Nat) (v : Option Nat) (s : StreamList) : Option StreamList :=
  s.modify p fun file => { file with links := { file.links with prev := v } }

/-- `p->next = v`. -/
def setNext (p : Nat) (v : Option Nat) (s : StreamList) : Option StreamList :=
  s.modify p fun file => { file with links := { file.links with next := v } }

/-- `RtlFreeHeap`. -/
def free (p : Nat) (s : StreamList) : StreamList := { s with file := Function.update s.file p none }

end StreamList

/-- `insert_stream`. -/
def insertStream (stream : Nat) (s : StreamList) : Option StreamList := do
  let s ← s.setPrev stream s.head
  let s ← s.setNext stream none
  let s ← match s.head with
    | some head => s.setNext head (some stream)
    | none => some s
  return { s with head := some stream }

/-- `create_stream`, when `RtlAllocateHeap` returns `block`: zeroed memory, or NULL. -/
def createFile (block : Option Nat) (stream : Stream) (s : StreamList) : Option (StreamList × Option Nat) :=
  match block with
  | none => some (s, none)
  | some p =>
    (insertStream p { s with file := Function.update s.file p (some ⟨stream, ⟨none, none⟩⟩) }).map
      fun s => (s, some p)

/-- `delete_stream`. -/
def deleteStream (stream : Nat) (s : StreamList) : Option StreamList := do
  let file ← s.file stream
  let s ← match file.links.prev, file.links.next with
    | some prev, some next => do
      let s ← s.setNext prev (some next)
      s.setPrev next (some prev)
    | some prev, none => (s.setNext prev none).map fun s => { s with head := some prev }
    | none, some next => s.setPrev next none
    | none, none => some { s with head := none }
  return s.free stream

/-- The loop of `common_flushall` from `start` on, with the streams it flushes. -/
def flushFrom : Nat → Option Nat → Bool → StreamList → Option (List Nat × Bool × StreamList)
  | _, none, status, s => some ([], status, s)
  | 0, some _, _, _ => none
  | fuel + 1, some start, status, s => do
    let file ← s.file start
    let (ok, stream) := commonFflush file.stream
    let s := { s with file := Function.update s.file start (some { file with stream := stream }) }
    let (flushed, status, s) ← flushFrom fuel file.links.prev (status && ok) s
    return (start :: flushed, status, s)

/-- `common_flushall`; `false` is the result `-1`. -/
def commonFlushall (fuel : Nat) (s : StreamList) : Option (List Nat × Bool × StreamList) :=
  flushFrom fuel s.head true s

/-! ## Histories -/

/-- What happens to the list. -/
inductive StreamOp where
  | create (block : Option Nat) (stream : Stream)
  | delete (stream : Nat)

def streamListMachine : Machine StreamList StreamOp Unit where
  step s
    | .create block stream => (createFile block stream s).map fun r => (r.1, ⟨⟩)
    | .delete stream => (deleteStream stream s).map fun s => (s, ⟨⟩)

/-- The heap hands out what is not in use, and only a live stream is deleted. -/
def StreamOp.Permitted (s : StreamList) : StreamOp → Prop
  | .create block _ => ∀ p, block = some p → s.file p = none
  | .delete stream => s.file stream ≠ none

/-- The live streams after an operation, the newest first. -/
def StreamOp.alive (l : List Nat) : StreamOp → List Nat
  | .create block _ => block.toList ++ l
  | .delete stream => l.erase stream

/-- The live streams after a history. -/
def liveStreams (ops : List StreamOp) : List Nat := ops.foldl StreamOp.alive []

/-! ## The invariant -/

/-- The list has the streams `l`, in this order. -/
structure Lists (s : StreamList) (l : List Nat) : Prop where
  nodup : l.Nodup
  alive : ∀ p, p ∈ l ↔ s.file p ≠ none
  head : s.head = l.head?
  linked : Segment s.links none l none

theorem noStreams_lists : Lists noStreams [] :=
  ⟨List.nodup_nil, fun _ => ⟨nofun, fun h => absurd rfl h⟩, rfl, trivial⟩

variable {s : StreamList} {l : List Nat} {p q : Nat}

/-- What a store of `link` to the stream `o`, if there is one, does to the links. -/
structure Relinks (o : Option Nat) (link : Links Nat → Links Nat) (s s' : StreamList) : Prop where
  head : s'.head = s.head
  alive : ∀ q, s'.file q ≠ none ↔ s.file q ≠ none
  changed : ∀ q a, o = some q → s.links q = some a → s'.links q = some (link a)
  others : ∀ q, o ≠ some q → s'.links q = s.links q

theorem StreamList.exists_file {a : Links Nat} (h : s.links p = some a) :
    ∃ file, s.file p = some file ∧ file.links = a :=
  Option.map_eq_some_iff.mp h

theorem StreamList.modify_relinks {a : Links Nat} (h : s.links p = some a) (link : Links Nat → Links Nat) :
    ∃ s', s.modify p (fun file => { file with links := link file.links }) = some s' ∧
      Relinks (some p) link s s' := by
  obtain ⟨file, hfile, rfl⟩ := StreamList.exists_file h
  refine ⟨{ s with file := Function.update s.file p (some { file with links := link file.links }) },
    by rw [modify, hfile, Option.map_some], rfl, ?_, ?_, ?_⟩
  · intro q
    by_cases hq : q = p
    · subst hq
      simp [hfile]
    · simp [hq]
  · rintro q a ⟨rfl⟩ ha
    cases h.symm.trans ha
    simp only [links, Function.update_self, Option.map_some]
  · intro q hq
    have hne : q ≠ p := fun heq => hq (congrArg some heq.symm)
    simp only [links, Function.update_of_ne hne]

/-- The store `o->next = v` where there is a stream `o`. -/
def StreamList.setNextOf (o v : Option Nat) (s : StreamList) : Option StreamList :=
  match o with
  | some q => s.setNext q v
  | none => some s

/-- The store `o->prev = v` where there is a stream `o`. -/
def StreamList.setPrevOf (o v : Option Nat) (s : StreamList) : Option StreamList :=
  match o with
  | some q => s.setPrev q v
  | none => some s

theorem StreamList.setNextOf_relinks {o : Option Nat} (ho : ∀ q, o = some q → ∃ a, s.links q = some a)
    (v : Option Nat) :
    ∃ s', s.setNextOf o v = some s' ∧ Relinks o (fun a => { a with next := v }) s s' := by
  cases o with
  | none => exact ⟨s, rfl, rfl, fun _ => Iff.rfl, nofun, fun _ _ => rfl⟩
  | some q =>
    obtain ⟨a, ha⟩ := ho q rfl
    exact modify_relinks ha fun a => { a with next := v }

theorem StreamList.setPrevOf_relinks {o : Option Nat} (ho : ∀ q, o = some q → ∃ a, s.links q = some a)
    (v : Option Nat) :
    ∃ s', s.setPrevOf o v = some s' ∧ Relinks o (fun a => { a with prev := v }) s s' := by
  cases o with
  | none => exact ⟨s, rfl, rfl, fun _ => Iff.rfl, nofun, fun _ _ => rfl⟩
  | some q =>
    obtain ⟨a, ha⟩ := ho q rfl
    exact modify_relinks ha fun a => { a with prev := v }

/-- A link that is there after a store was there before. -/
theorem Relinks.exists_links {o : Option Nat} {link : Links Nat → Links Nat} {s' : StreamList}
    (h : Relinks o link s s') {a : Links Nat} (ha : s.links q = some a) : ∃ a', s'.links q = some a' := by
  obtain ⟨file, hfile, -⟩ := StreamList.exists_file ha
  obtain ⟨file', hfile'⟩ := Option.ne_none_iff_exists'.mp
    ((h.alive q).mpr (by rw [hfile]; exact Option.some_ne_none file))
  exact ⟨file'.links, by rw [StreamList.links, hfile', Option.map_some]⟩

/-! ## Operations -/

/-- The new stream is the first one. -/
theorem createFile_lists (h : Lists s l) (hp : s.file p = none) (stream : Stream) :
    ∃ s', createFile (some p) stream s = some (s', some p) ∧ Lists s' (p :: l) := by
  have hnot : p ∉ l := fun hmem => (h.alive p).mp hmem hp
  have hne {q : Nat} (hq : q ∈ l) : q ≠ p := fun heq => hnot (heq ▸ hq)
  -- the block, its own links, and the one of the old head
  obtain ⟨s₀, hs₀⟩ : ∃ s₀ : StreamList, s₀ =
    { s with file := Function.update s.file p (some ⟨stream, ⟨none, none⟩⟩) } := ⟨_, rfl⟩
  have hlinks₀ (q : Nat) (hq : q ≠ p) : s₀.links q = s.links q := by
    simp only [hs₀, StreamList.links, Function.update_of_ne hq]
  have hnew₀ : s₀.links p = some ⟨none, none⟩ := by
    simp only [hs₀, StreamList.links, Function.update_self, Option.map_some]
  obtain ⟨s₁, hs₁, h₁⟩ := StreamList.modify_relinks hnew₀ fun a => { a with prev := s₀.head }
  have hnew₁ := h₁.changed p _ rfl hnew₀
  obtain ⟨s₂, hs₂, h₂⟩ := StreamList.modify_relinks hnew₁ fun a => { a with next := none }
  have hnew₂ := h₂.changed p _ rfl hnew₁
  have hlinks₂ {q : Nat} (hq : q ∈ l) : s₂.links q = s.links q := by
    have hother : some p ≠ some q := fun heq => hne hq (Option.some.inj heq).symm
    rw [h₂.others q hother, h₁.others q hother, hlinks₀ q (hne hq)]
  have hhead : s₂.head = l.head? := by rw [h₂.head, h₁.head, hs₀, ← h.head]
  obtain ⟨s₃, hs₃, h₃⟩ := StreamList.setNextOf_relinks (s := s₂) (o := s₂.head) (by
    intro q hq
    have hmem := List.mem_of_mem_head? (hhead ▸ hq : l.head? = some q)
    rw [hlinks₂ hmem]
    exact h.linked.exists_links hmem) (some p)
  refine ⟨{ s₃ with head := some p }, ?_, List.nodup_cons.mpr ⟨hnot, h.nodup⟩, ?_, rfl, ?_⟩
  · have hprev : s₀.setPrev p s₀.head = some s₁ := hs₁
    have hnext : s₁.setNext p none = some s₂ := hs₂
    have hinsert : insertStream p s₀ = some { s₃ with head := some p } := by
      simp only [insertStream, hprev, hnext, Option.bind_eq_bind, Option.bind_some]
      cases hold : s₂.head with
      | none =>
        rw [hold] at hs₃
        cases hs₃
        rfl
      | some head =>
        rw [hold] at hs₃
        simp only [show s₂.setNext head (some p) = some s₃ from hs₃, Option.bind_some]
        rfl
    rw [createFile, ← hs₀, hinsert]
    rfl
  · intro q
    change q ∈ p :: l ↔ s₃.file q ≠ none
    rw [List.mem_cons, h.alive q, h₃.alive, h₂.alive, h₁.alive, hs₀]
    by_cases hq : q = p
    · simp [hq]
    · simp [hq]
  · refine h.linked.push h.nodup ?_ ?_ ?_
    · change s₃.links p = _
      have hother : s₂.head ≠ some p := by
        rw [hhead]
        exact fun heq => hnot (List.mem_of_mem_head? heq)
      rw [h₃.others p hother, hnew₂, ← h.head, hs₀]
    · intro q a hq ha
      have hmem := List.mem_of_mem_head? hq
      exact h₃.changed q a (hhead.trans hq) ((hlinks₂ hmem).trans ha)
    · intro q hq hfirst
      exact (h₃.others q (hhead ▸ hfirst)).trans (hlinks₂ hq)

/-- What `delete_stream` does, in a way that does not tell the four cases apart. -/
theorem deleteStream_eq {file : File} (hfile : s.file p = some file) :
    deleteStream p s =
      (s.setNextOf file.links.prev file.links.next).bind fun s' =>
        (s'.setPrevOf file.links.next file.links.prev).bind fun s'' =>
          some (StreamList.free p
            { s'' with head := if file.links.next = none then file.links.prev else s''.head }) := by
  rw [deleteStream, hfile]
  simp only [Option.bind_eq_bind, Option.bind_some]
  cases file.links.prev with
  | none => cases file.links.next <;> rfl
  | some prev =>
    cases file.links.next with
    | none =>
      simp only [Option.bind_map]
      rfl
    | some next => rfl

/-- The stream is gone. -/
theorem deleteStream_lists (h : Lists s l) (hp : s.file p ≠ none) :
    ∃ s', deleteStream p s = some s' ∧ Lists s' (l.erase p) := by
  obtain ⟨xs, ys, rfl⟩ := List.append_of_mem ((h.alive p).mpr hp)
  have hnot : p ∉ xs ++ ys := (List.nodup_cons.mp (List.nodup_middle.mp h.nodup)).1
  obtain ⟨hnotx, hnoty⟩ := not_or.mp (mt List.mem_append.mpr hnot)
  have herase : (xs ++ p :: ys).erase p = xs ++ ys := by
    rw [List.erase_append_right _ hnotx, List.erase_cons_head]
  have hlinks := h.linked.links_eq
  obtain ⟨file, hfile, hfields⟩ := StreamList.exists_file hlinks
  have hneighbour {q : Nat} (hq : q ∈ xs ++ ys) : q ∈ xs ++ p :: ys := by
    rw [List.mem_append, List.mem_cons]
    exact (List.mem_append.mp hq).imp_right .inr
  -- the neighbours are linked, and then the node is freed
  obtain ⟨s₁, hs₁, h₁⟩ := StreamList.setNextOf_relinks (s := s) (o := ys.head?) (fun q hq =>
    h.linked.exists_links (hneighbour (List.mem_append_right _ (List.mem_of_mem_head? hq)))) xs.getLast?
  obtain ⟨s₂, hs₂, h₂⟩ := StreamList.setPrevOf_relinks (s := s₁) (o := xs.getLast?) (fun q hq => by
    obtain ⟨a, ha⟩ := h.linked.exists_links
      (hneighbour (List.mem_append_left _ (List.mem_of_getLast? hq)))
    exact h₁.exists_links ha) ys.head?
  have hapart {q : Nat} (hx : xs.getLast? = some q) : ys.head? ≠ some q := fun hy =>
    (List.nodup_append.mp h.nodup).2.2 q (List.mem_of_getLast? hx) q
      (List.mem_cons_of_mem p (List.mem_of_mem_head? hy)) rfl
  obtain ⟨s₃, hs₃⟩ : ∃ s₃, s₃ = StreamList.free p
    { s₂ with head := if xs.getLast? = none then ys.head? else s₂.head } := ⟨_, rfl⟩
  have hlinks₃ {q : Nat} (hq : q ∈ xs ++ ys) : s₃.links q = s₂.links q := by
    have hne : q ≠ p := fun heq => hnot (heq ▸ hq)
    simp only [hs₃, StreamList.links, StreamList.free, Function.update_of_ne hne]
  refine ⟨s₃, ?_, ?_, ?_, ?_, ?_⟩
  · rw [deleteStream_eq hfile, hfields, hs₁, Option.bind_some, hs₂, Option.bind_some, hs₃]
  · rw [herase]
    exact (List.nodup_cons.mp (List.nodup_middle.mp h.nodup)).2
  · intro q
    rw [herase]
    by_cases hq : q = p
    · subst hq
      have hfree : s₃.file q = none := by simp only [hs₃, StreamList.free, Function.update_self]
      exact ⟨fun hmem => absurd hmem hnot, fun hne => absurd hfree hne⟩
    · have hkept : s₃.file q = s₂.file q := by
        simp only [hs₃, StreamList.free, Function.update_of_ne hq]
      rw [hkept, h₂.alive, h₁.alive, ← h.alive q, List.mem_append, List.mem_append, List.mem_cons,
        or_iff_right hq]
  · rw [herase]
    have hhead : s₃.head = if xs.getLast? = none then ys.head? else s₂.head := by rw [hs₃]; rfl
    rw [hhead]
    cases xs with
    | nil => rfl
    | cons x xs =>
      rw [if_neg (by rw [List.getLast?_eq_none_iff]; exact List.cons_ne_nil x xs), h₂.head, h₁.head, h.head]
      rfl
  · rw [herase]
    refine h.linked.unlink h.nodup ?_ ?_ ?_
    · intro q a hq ha
      rw [hlinks₃ (List.mem_append_left _ (List.mem_of_getLast? hq))]
      exact h₂.changed q a hq ((h₁.others q (hapart hq)).trans ha)
    · intro q a hq ha
      rw [hlinks₃ (List.mem_append_right _ (List.mem_of_mem_head? hq)), h₂.others q fun hx => hapart hx hq]
      exact h₁.changed q a hq ha
    · intro q hq hx hy
      rw [hlinks₃ hq, h₂.others q hx, h₁.others q hy]

/-! ## Flushing -/

/-- The stream has been flushed. -/
def File.flushed (file : File) : File := { file with stream := (commonFflush file.stream).2 }

/-- The loop flushes what `prev` visits, each stream once, and touches nothing else. -/
theorem flushFrom_spec {start : Option Nat} (h : Visits s.links start l) (hnodup : l.Nodup) {fuel : Nat}
    (hfuel : l.length ≤ fuel) (status : Bool) :
    ∃ ok s', flushFrom fuel start status s = some (l, ok, s') ∧
      ∀ q, s'.file q = if q ∈ l then (s.file q).map File.flushed else s.file q := by
  induction l generalizing start s fuel status with
  | nil =>
    cases h
    exact ⟨status, s, by rw [flushFrom], fun q => (if_neg List.not_mem_nil).symm⟩
  | cons p l ih =>
    cases h with
    | cons hlinks hrest =>
      obtain ⟨fuel, rfl⟩ := Nat.exists_eq_add_one_of_ne_zero
        (Nat.ne_of_gt (Nat.lt_of_lt_of_le (Nat.succ_pos _) hfuel))
      obtain ⟨file, hfile, rfl⟩ := StreamList.exists_file hlinks
      obtain ⟨hnot, hnodup⟩ := List.nodup_cons.mp hnodup
      obtain ⟨s₁, hs₁⟩ : ∃ s₁ : StreamList,
        s₁ = { s with file := Function.update s.file p (some file.flushed) } := ⟨_, rfl⟩
      -- the links stay as they are
      have hsame (q : Nat) : s₁.links q = s.links q := by
        by_cases hq : q = p
        · subst hq
          simp only [hs₁, StreamList.links, Function.update_self, hfile, Option.map_some]
          rfl
        · simp only [hs₁, StreamList.links, Function.update_of_ne hq]
      obtain ⟨ok, s', hloop, hfiles⟩ := ih (hrest.congr hsame) hnodup (Nat.le_of_succ_le_succ hfuel)
        (status && (commonFflush file.stream).1)
      refine ⟨ok, s', ?_, ?_⟩
      · rw [flushFrom, hfile]
        simp only [Option.bind_eq_bind, Option.bind_some]
        change (flushFrom fuel file.links.prev (status && (commonFflush file.stream).1)
          { s with file := Function.update s.file p (some file.flushed) }).bind _ = _
        rw [← hs₁, hloop]
        rfl
      · intro q
        rw [hfiles q]
        by_cases hq : q = p
        · subst hq
          rw [if_neg hnot, if_pos List.mem_cons_self, hs₁, hfile, Option.map_some]
          exact Function.update_self _ _ _
        · have hother : s₁.file q = s.file q := by simp only [hs₁, Function.update_of_ne hq]
          simp only [hother, List.mem_cons, hq, false_or]

/-! ## Histories -/

/-- What the list is for: the live streams, the newest first. -/
def liveMachine : Machine (List Nat) StreamOp Unit where
  step l op := some (op.alive l, ⟨⟩)

theorem liveMachine_run (ops : List StreamOp) (l : List Nat) :
    ∃ os, liveMachine.run l ops = some (ops.foldl StreamOp.alive l, os) := by
  induction ops generalizing l with
  | nil => exact ⟨[], rfl⟩
  | cons op ops ih =>
    obtain ⟨os, hrun⟩ := ih (op.alive l)
    refine ⟨⟨⟩ :: os, ?_⟩
    rw [Machine.run_cons (M := liveMachine) rfl, hrun]
    rfl

theorem streamListMachine_step (op : StreamOp) (h : Lists s l) (hop : op.Permitted s) :
    ∃ s', streamListMachine.step s op = some (s', ⟨⟩) ∧ Lists s' (op.alive l) := by
  cases op with
  | create block stream =>
    cases block with
    | none => exact ⟨s, rfl, h⟩
    | some p =>
      obtain ⟨s', hcreate, hlists⟩ := createFile_lists h (hop p rfl) stream
      refine ⟨s', ?_, hlists⟩
      change (createFile (some p) stream s).map _ = _
      rw [hcreate]
      rfl
  | delete stream =>
    obtain ⟨s', hdelete, hlists⟩ := deleteStream_lists h hop
    refine ⟨s', ?_, hlists⟩
    change (deleteStream stream s).map _ = _
    rw [hdelete]
    rfl

/-- **The list of all streams.** Over any history of creations and deletions, the list has the live streams,
the newest first, `prev` visits them in this order, `next` is its inverse, and `common_flushall` flushes each
of them once. -/
theorem stream_list (ops : List StreamOp) (h : streamListMachine.Along (fun s op => op.Permitted s) noStreams ops) :
    ∃ s os, streamListMachine.run noStreams ops = some (s, os) ∧ Lists s (liveStreams ops) ∧
      Visits s.links s.head (liveStreams ops) ∧
      (∀ p q f g, s.file p = some f → s.file q = some g →
        (f.links.prev = some q ↔ g.links.next = some p)) ∧
      ∀ fuel, (liveStreams ops).length ≤ fuel → ∃ ok s',
        commonFlushall fuel s = some (liveStreams ops, ok, s') ∧
          ∀ p, s'.file p = (s.file p).map File.flushed := by
  obtain ⟨s, l, os, hrun, hlive, hlists⟩ := Machine.run_sim (N := liveMachine) (R := Lists)
    (fun s l op hR hP => by
      obtain ⟨s', hstep, hlists⟩ := streamListMachine_step op hR hP
      exact ⟨s', op.alive l, ⟨⟩, hstep, rfl, hlists⟩) ops noStreams_lists h
  obtain ⟨os', hrun'⟩ := liveMachine_run ops []
  rw [hlive] at hrun'
  obtain rfl : l = liveStreams ops := congrArg Prod.fst (Option.some.inj hrun')
  have hvisits : Visits s.links s.head (liveStreams ops) := by
    rw [hlists.head]
    exact hlists.linked.visits
  refine ⟨s, os, hrun, hlists, hvisits, ?_, ?_⟩
  · intro p q f g hf hg
    have hlinks {r : Nat} {file : File} (hfile : s.file r = some file) :
        r ∈ liveStreams ops ∧ s.links r = some file.links := by
      refine ⟨(hlists.alive r).mpr (by rw [hfile]; exact Option.some_ne_none file), ?_⟩
      rw [StreamList.links, hfile, Option.map_some]
    exact hlists.linked.inverse (hlinks hf).1 (hlinks hg).1 (hlinks hf).2 (hlinks hg).2
  · intro fuel hfuel
    obtain ⟨ok, s', hflush, hfiles⟩ := flushFrom_spec hvisits hlists.nodup hfuel true
    refine ⟨ok, s', hflush, fun p => ?_⟩
    rw [hfiles p]
    split
    · rfl
    · next hp =>
      rw [not_not.mp (mt (hlists.alive p).mpr hp), Option.map_none]

/-- A stream on an empty file. -/
def emptyStream : Stream := createStream ⟨[], 0, false, []⟩ (getBufMode .wronly) 512 none

/-- Three streams, of which the middle one is deleted. -/
def threeStreams : List StreamOp :=
  [.create (some 16) emptyStream, .create (some 32) emptyStream, .create (some 48) emptyStream, .delete 32]

theorem stream_list_three :
    ∃ s os, streamListMachine.run noStreams threeStreams = some (s, os) ∧ Visits s.links s.head [48, 16] := by
  have hnew {s : StreamList} {l : List Nat} (h : Lists s l) {p : Nat} (hp : p ∉ l) : s.file p = none :=
    not_not.mp (mt (h.alive p).mpr hp)
  have hfirst : StreamOp.Permitted noStreams (.create (some 16) emptyStream) := fun _ _ => rfl
  obtain ⟨s₁, hstep₁, h₁⟩ := streamListMachine_step _ noStreams_lists hfirst
  have hsecond : StreamOp.Permitted s₁ (.create (some 32) emptyStream) := by
    rintro p ⟨rfl⟩
    exact hnew h₁ (by decide)
  obtain ⟨s₂, hstep₂, h₂⟩ := streamListMachine_step _ h₁ hsecond
  have hthird : StreamOp.Permitted s₂ (.create (some 48) emptyStream) := by
    rintro p ⟨rfl⟩
    exact hnew h₂ (by decide)
  obtain ⟨s₃, hstep₃, h₃⟩ := streamListMachine_step _ h₂ hthird
  have hlast : StreamOp.Permitted s₃ (.delete 32) := (h₃.alive 32).mp (by decide)
  obtain ⟨s₄, hstep₄, -⟩ := streamListMachine_step _ h₃ hlast
  obtain ⟨s, os, hrun, -, hvisits, -⟩ := stream_list threeStreams (by
    refine (Machine.along_cons hstep₁ _).mpr ⟨hfirst, (Machine.along_cons hstep₂ _).mpr ⟨hsecond, ?_⟩⟩
    exact (Machine.along_cons hstep₃ _).mpr ⟨hthird, (Machine.along_cons hstep₄ _).mpr ⟨hlast, trivial⟩⟩)
  exact ⟨s, os, hrun, hvisits⟩

end WindowsLibc.Stdio
