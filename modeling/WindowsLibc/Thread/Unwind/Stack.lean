import Mathlib.Data.List.TakeDrop
import WindowsLibc.Thread.Unwind

/-!
# The array of cleanup routines is a stack

* `unwind_refines`: the array does what the stack does, as long as no cancellation strikes and nothing is pushed where
  the block has been freed and `cleanup_entries` still points to it.
* `unwind_safe_iff`: these are the only places where something goes wrong.
-/

namespace WindowsLibc.Thread.Unwind

open WindowsLibc.Lib

variable {R A V D : Type*}

/-! ## The array -/

section
variable {cells : List (Cell R A)} {n m : Nat} {stack : List (CleanupEntry R A)} {entry : CleanupEntry R A}

theorem holds_replicate (n : Nat) : Holds (List.replicate n none : List (Cell R A)) n [] :=
  ⟨List.length_replicate.ge, by rw [List.length_nil, List.take_zero]; rfl⟩

theorem Holds.getElem (h : Holds cells n (entry :: stack)) : cells[stack.length]?.join = some entry := by
  have htake := h.take
  rw [List.length_cons, List.reverse_cons, List.map_append] at htake
  have hget : (cells.take (stack.length + 1))[stack.length]? = some (some entry) := by
    rw [htake, List.getElem?_append_right (by simp)]
    simp
  rw [List.getElem?_take_of_lt (Nat.lt_succ_self _)] at hget
  rw [hget]
  rfl

theorem Holds.pop (h : Holds cells n (entry :: stack)) : Holds cells n stack := by
  refine ⟨h.length, ?_⟩
  have htake := congrArg (List.take stack.length) h.take
  rw [List.take_take, List.length_cons, Nat.min_eq_left (Nat.le_succ _), List.reverse_cons, List.map_append,
    List.take_left' (by simp)] at htake
  exact htake

theorem Holds.push (h : Holds cells n stack) (hlt : stack.length < n) (entry : CleanupEntry R A) :
    Holds (cells.set stack.length (some entry)) n (entry :: stack) := by
  have hlength := h.length
  refine ⟨by rw [List.length_set]; exact hlength, ?_⟩
  rw [List.length_cons, List.take_succ_eq_append_getElem (by rw [List.length_set]; omega),
    List.getElem_set_self, List.take_set_of_le (Nat.le_refl _), h.take, List.reverse_cons, List.map_append]
  rfl

theorem Holds.realloc (h : Holds cells n stack) (hle : stack.length ≤ n) (hnm : n ≤ m) :
    Holds (ThreadInfo.realloc cells m) m stack := by
  have hlength := h.length
  refine ⟨?_, ?_⟩
  · rw [ThreadInfo.realloc, List.length_append, List.length_take, List.length_replicate]
    omega
  · have htake : stack.length ≤ (cells.take m).length := by
      rw [List.length_take]
      omega
    rw [ThreadInfo.realloc, List.take_append_of_le_length htake, List.take_take,
      Nat.min_eq_left (Nat.le_trans hle hnm), h.take]

end

/-! ## One event -/

theorem lt_grow (capacity : Nat) : capacity < grow capacity := by
  rw [grow]
  split <;> omega

theorem grow_ne (capacity : Nat) : grow capacity ≠ 0 := Nat.ne_of_gt (Nat.lt_of_le_of_lt (Nat.zero_le _) (lt_grow _))

theorem grow_lt {capacity : Nat} (h : capacity < 2 ^ 31) : grow capacity < 2 ^ 32 := by
  rw [grow]
  split <;> omega

theorem decrement_succ {n : Nat} (h : n + 1 < 2 ^ 32) : decrement (n + 1) = n := by
  rw [decrement]
  omega

section
variable {G G' F F' : Type*}

theorem Place.user_map (g : G → G') (f : F → F') (place : Place G F) : (place.map g f).user = place.user := by
  cases place <;> rfl

theorem Place.frame_map (g : G → G') (f : F → F') (place : Place G F) :
    (place.map g f).frame = place.frame.map f := by
  cases place <;> rfl

/-- The array does not grow. -/
def Place.settled : Place G F → Bool
  | .growing _ _ => false
  | _ => true

theorem Place.settled_of_user {place : Place G F} (h : place.user = true) : place.settled = true := by
  cases place with
  | growing => cases h
  | _ => rfl

end

section
variable {stack stack' : List (CleanupEntry R A)} {place : Place (CleanupEntry R A) (List (CleanupEntry R A))}

/-- More entries do no harm. -/
theorem Nested.grow (h : Nested stack place) (hsuffix : stack <:+ stack') : Nested stack' place := by
  induction place with
  | growing entry back ih => exact ⟨h.1, ih h.2⟩
  | popping rest back ih =>
    obtain ⟨⟨entry, hrest⟩, hback⟩ := h
    exact ⟨⟨entry, hrest.trans hsuffix⟩, hback⟩
  | routine rest =>
    obtain ⟨entry, hrest⟩ := h
    exact ⟨entry, hrest.trans hsuffix⟩
  | _ => trivial

/-- What has been pushed by the routine that is running is taken off. -/
theorem Nested.tail {entry : CleanupEntry R A} (h : Nested (entry :: stack) place) (huser : place.user = true)
    (hframe : ∀ rest ∈ place.frame, level rest < stack.length + 1) : Nested stack place := by
  have hshorter {rest : List (CleanupEntry R A)} {top : CleanupEntry R A} (hrest : top :: rest <:+ entry :: stack)
      (hlevel : level rest < stack.length + 1) : top :: rest <:+ stack := by
    rcases List.suffix_cons_iff.mp hrest with heq | hrest
    · have hlength := congrArg List.length heq
      rw [List.length_cons, List.length_cons] at hlength
      rw [level] at hlevel
      omega
    · exact hrest
  cases place with
  | growing => cases huser
  | popping rest back =>
    obtain ⟨⟨top, hrest⟩, hback⟩ := h
    exact ⟨⟨top, hshorter hrest (hframe rest rfl)⟩, hback⟩
  | routine rest =>
    obtain ⟨top, hrest⟩ := h
    exact ⟨top, hshorter hrest (hframe rest rfl)⟩
  | _ => trivial

/-- The routine that returns has left nothing but its own entry. -/
theorem eq_cons_of_suffix {entry : CleanupEntry R A} {rest : List (CleanupEntry R A)} (h : entry :: rest <:+ stack)
    (hlength : stack.length = level rest) : stack = entry :: rest :=
  (h.eq_of_length (by rw [List.length_cons, hlength, level])).symm

end

section
variable {t : ThreadInfo R A V} {a : Handlers R A V}

theorem points_of_stored (hplace : t.place.settled = true) (h : Stored t a) : Points t a := by
  unfold Points
  cases hp : t.place with
  | growing =>
    rw [hp] at hplace
    cases hplace
  | tls | destructor | exited => exact .inl h
  | program | popping | loop | routine => exact h

theorem Stored.entries_ne (h : Stored t a) : t.entries ≠ .freed := by
  rw [Stored] at h
  split at h
  · exact h.1
  · obtain ⟨cells, hcells, -⟩ := h
    rw [hcells]
    exact fun hfreed => (by cases hfreed)

/-- A block that has not been freed is in order. -/
theorem Stands.stored_of_ne (h : Stands t a) (hne : t.entries ≠ .freed) : Stored t a := by
  have hpoints := h.points
  unfold Points at hpoints
  cases hp : t.place with
  | growing pending back =>
    -- the block grew where it is
    rw [hp] at hpoints
    obtain ⟨hentries, hfull, -, hallocated, hlength, htake⟩ := hpoints
    have hlive := hentries.resolve_left hne
    rw [Stored]
    split
    · next hzero => exact ⟨hne, List.length_eq_zero_iff.mp (hfull ▸ hzero)⟩
    · rw [hallocated] at hlength
      exact ⟨_, hlive, Nat.le_trans (Nat.le_of_lt (lt_grow _)) hlength, htake⟩
  | tls | destructor | exited =>
    rw [hp] at hpoints
    exact hpoints.resolve_right fun hreleased => hne hreleased.1
  | program | popping | loop | routine =>
    rw [hp] at hpoints
    exact hpoints

/-- A block that has been given back has no entries. -/
theorem Stands.stored_of_stack (h : Stands t a) (hplace : t.place.settled = true) (hstack : a.stack ≠ []) :
    Stored t a := by
  have hpoints := h.points
  unfold Points at hpoints
  cases hp : t.place with
  | growing =>
    rw [hp] at hplace
    cases hplace
  | tls | destructor | exited =>
    rw [hp] at hpoints
    exact hpoints.resolve_right fun hreleased => hstack hreleased.2
  | program | popping | loop | routine =>
    rw [hp] at hpoints
    exact hpoints

theorem Stands.user_eq (h : Stands t a) : a.place.user = t.place.user := by
  have huser := congrArg Place.user h.place
  rw [Place.user_map, Place.user_map] at huser
  exact huser.symm

/-- What a routine leaves, told by the array and by the stack. -/
theorem Stands.frame_eq (h : Stands t a) : t.place.frame = a.place.frame.map level := by
  have hframe := congrArg Place.frame h.place
  rw [Place.frame_map, Place.frame_map, Option.map_id_fun, id_eq] at hframe
  exact hframe

/-- The top of the stack is in the array. -/
theorem Stored.read (h : Stored t a) (hused : t.used = a.stack.length) {entry : CleanupEntry R A}
    {rest : List (CleanupEntry R A)} (hstack : a.stack = entry :: rest) :
    t.read (t.used - 1) = some entry := by
  rw [Stored, hstack] at h
  split at h
  · exact absurd h.2 (List.cons_ne_nil _ _)
  · obtain ⟨cells, hcells, hholds⟩ := h
    rw [hused, hstack, List.length_cons, Nat.add_sub_cancel, ThreadInfo.read, hcells]
    exact hholds.getElem

/-- The array grows. -/
theorem growing_stands (h : Stands t a) (huser : t.place.user = true) (entry : CleanupEntry R A)
    {cells : List (Cell R A)} {block : Block R A} (hblock : block = .freed ∨ block = .live cells)
    (hfull : a.capacity = a.stack.length) (hsmall : a.capacity < 2 ^ 31) {n : Nat} (hn : n = grow a.capacity)
    (hholds : Holds cells n a.stack) :
    Stands { t with entries := block, place := .growing ⟨cells, n, entry⟩ t.place }
      { a with place := .growing entry a.place } :=
  ⟨h.control, congrArg (Place.growing entry) h.place, h.allocated, h.used, h.fits, h.small,
    ⟨h.user_eq.trans huser, h.nested⟩, hblock, hfull, hsmall, hn, hholds⟩

theorem push_stands (h : Stands t a) (huser : t.place.user = true) (hne : t.allocated ≠ 0 → t.entries ≠ .freed)
    (entry : CleanupEntry R A) (memory : Memory) (hfits : t.used < 2 ^ 31) :
    ∃ t', t.push entry memory = some t' ∧ Stands t' (a.push entry memory) := by
  have hsettled := Place.settled_of_user huser
  have hused := h.used
  have hallocated := h.allocated
  have hle := h.fits
  by_cases hzero : a.capacity = 0
  · -- the first block
    have hstack : a.stack = [] := List.length_eq_zero_iff.mp (by omega)
    have hfull : a.capacity = a.stack.length := by rw [hzero, hstack]; rfl
    unfold ThreadInfo.push
    rw [if_pos (hallocated.trans hzero), ThreadInfo.firstBlock, Handlers.push, if_pos hfull]
    refine ⟨_, rfl, ?_⟩
    by_cases hmemory : memory ≠ .refused
    · rw [if_pos hmemory, if_pos hmemory]
      have hgrow : 8 = grow a.capacity := by rw [hzero]; rfl
      have hholds : Holds (List.replicate 8 none) 8 a.stack := by
        rw [hstack]
        exact holds_replicate 8
      exact growing_stands h huser entry (.inr rfl) hfull (by omega) hgrow hholds
    · rw [if_neg hmemory, if_neg hmemory]
      refine ⟨h.control, h.place, hallocated, hused, hle, h.small, h.nested, points_of_stored hsettled ?_⟩
      rw [Stored, if_pos hzero]
      exact ⟨fun hnull => (by cases hnull), hstack⟩
  · have hstored := h.stored_of_ne (hne (hallocated ▸ hzero))
    rw [Stored, if_neg hzero] at hstored
    obtain ⟨cells, hcells, hholds⟩ := hstored
    have hlength := hholds.length
    unfold ThreadInfo.push
    rw [if_neg (hallocated ▸ hzero), Handlers.push]
    by_cases hfull : a.capacity = a.stack.length
    · have hfull' : t.allocated = t.used := by rw [hallocated, hused, hfull]
      have hcapacity : a.capacity < 2 ^ 31 := by omega
      have hgrow : t.allocated * 2 % 2 ^ 32 = grow a.capacity := by
        rw [hallocated, grow, if_neg hzero, Nat.mod_eq_of_lt (by omega)]
      have hgrows : Holds (ThreadInfo.realloc cells (t.allocated * 2)) (t.allocated * 2 % 2 ^ 32) a.stack := by
        rw [hallocated, Nat.mod_eq_of_lt (by omega)]
        exact hholds.realloc hle (by omega)
      rw [if_pos hfull', if_pos hfull, hcells]
      cases memory with
      | refused =>
        rw [if_neg fun hne => hne rfl]
        exact ⟨t, rfl, h⟩
      | moved =>
        rw [if_pos fun heq => (by cases heq)]
        exact ⟨_, rfl, growing_stands h huser entry (.inl rfl) hfull hcapacity hgrow hgrows⟩
      | extended =>
        rw [if_pos fun heq => (by cases heq)]
        exact ⟨_, rfl, growing_stands h huser entry (.inr rfl) hfull hcapacity hgrow hgrows⟩
    · -- there is room
      have hcode : t.store entry = some { t with
          entries := .live (cells.set t.used (some entry)), used := t.used + 1 } := by
        rw [ThreadInfo.store, hcells]
        exact if_pos (by omega)
      rw [if_neg (by omega), if_neg hfull, hcode]
      refine ⟨_, rfl, h.control, h.place, hallocated, ?_, ?_, h.small, h.nested.grow (List.suffix_cons _ _),
        points_of_stored hsettled ?_⟩
      · change t.used + 1 = a.stack.length + 1
        rw [hused]
      · change a.stack.length + 1 ≤ a.capacity
        omega
      · rw [Stored, if_neg hzero, hused]
        exact ⟨_, rfl, hholds.push (by omega) entry⟩

/-- The pointer to the new block is stored, and the entry in it. -/
theorem grown_stands (h : Stands t a) {pending : Pending R A} {back : Place (Pending R A) Nat}
    (hplace : t.place = .growing pending back) (bitmap : BitVec 64)
    (destructors : Fin 64 → Option D) :
    ∃ t', t.progress bitmap destructors = some (t', (a.progress bitmap destructors).2) ∧
      Stands t' (a.progress bitmap destructors).1 := by
  have hpoints := h.points
  have hmap := h.place
  have hnested := h.nested
  rw [Points, hplace] at hpoints
  rw [hplace] at hmap
  obtain ⟨-, hfull, hlt, hallocated, hholds⟩ := hpoints
  cases hq : a.place with
  | growing entry back' =>
    rw [hq] at hmap hnested
    obtain ⟨rfl, hback⟩ := Place.growing.inj hmap
    obtain ⟨huser, hnested⟩ := hnested
    have hsettled : back.settled = true := by
      apply Place.settled_of_user
      rw [← Place.user_map Pending.entry id back, hback, Place.user_map, huser]
    have hgrow := lt_grow a.capacity
    rw [hallocated] at hholds
    have hlength := hholds.length
    have hused := h.used
    have hroom : t.used < pending.cells.length := by omega
    have hgrown : t.grown pending back = some { t with
        entries := .live (pending.cells.set t.used (some pending.entry))
        allocated := pending.allocated
        place := back
        used := t.used + 1 } := if_pos hroom
    rw [ThreadInfo.progress, Handlers.progress, hplace, hq]
    simp only [hgrown, Option.map_some]
    refine ⟨_, rfl, h.control, hback, hallocated, ?_, ?_, grow_lt hlt, hnested.grow (List.suffix_cons _ _),
      points_of_stored hsettled ?_⟩
    · change t.used + 1 = a.stack.length + 1
      rw [hused]
    · change a.stack.length + 1 ≤ grow a.capacity
      omega
    · rw [Stored, if_neg (grow_ne a.capacity)]
      refine ⟨_, rfl, ?_⟩
      rw [hused]
      exact hholds.push (by omega) pending.entry
  | _ =>
    rw [hq] at hmap
    cases hmap

/-- Taking the newest routine off the stack. -/
theorem Stored.tail (h : Stored t a) {entry : CleanupEntry R A} {rest : List (CleanupEntry R A)}
    (hstack : a.stack = entry :: rest) {t' : ThreadInfo R A V} {a' : Handlers R A V} (hentries : t'.entries = t.entries)
    (hrest : a'.stack = rest) (hcapacity : a'.capacity = a.capacity) : Stored t' a' := by
  rw [Stored, hstack] at h
  rw [Stored, hentries, hrest, hcapacity]
  split at h
  · exact absurd h.2 (List.cons_ne_nil _ _)
  · next hzero =>
    obtain ⟨cells, hcells, hholds⟩ := h
    rw [if_neg hzero]
    exact ⟨cells, hcells, hholds.pop⟩

/-- The newest entry is gone. -/
theorem tail_stands (h : Stands t a) (hstored : Stored t a) {entry : CleanupEntry R A}
    {rest : List (CleanupEntry R A)} (hstack : a.stack = entry :: rest) {place : Place (Pending R A) Nat}
    {place' : Place (CleanupEntry R A) (List (CleanupEntry R A))}
    (hmap : place.map Pending.entry id = place'.map id level) (hsettled : place.settled = true)
    (hnested : Nested rest place') :
    Stands { t with used := decrement t.used, place := place } { a with stack := rest, place := place' } := by
  have hused := h.used
  have hfits := h.fits
  have hsmall := h.small
  rw [hstack, List.length_cons] at hused hfits
  refine ⟨h.control, hmap, h.allocated, ?_, ?_, hsmall, hnested, ?_⟩
  · change decrement t.used = rest.length
    rw [hused, decrement_succ (by omega)]
  · change rest.length ≤ a.capacity
    omega
  · exact points_of_stored hsettled (hstored.tail hstack rfl rfl rfl)

/-- The newest routine is called, or left out. -/
theorem callTop_stands (h : Stands t a) (hstored : Stored t a) {entry : CleanupEntry R A}
    {rest : List (CleanupEntry R A)} (hstack : a.stack = entry :: rest) {place : Place (Pending R A) Nat}
    {place' : List (CleanupEntry R A) → Place (CleanupEntry R A) (List (CleanupEntry R A))}
    (out : R → A → Out R A V D) (hmap : place.map Pending.entry id = (place' rest).map id level)
    (hsettled : place.settled = true) (hsettled' : t.place.settled = true)
    (hnested : Nested (entry :: rest) (place' rest)) (hnested' : Nested rest a.place) :
    ∃ t', t.callTop place out = some (t', (a.callTop place' out).2) ∧ Stands t' (a.callTop place' out).1 := by
  rw [ThreadInfo.callTop, hstored.read h.used hstack]
  cases hroutine : entry.routine with
  | none =>
    have hspec : a.callTop place' out = ({ a with stack := rest }, .nothing) := by
      simp only [Handlers.callTop, hstack, hroutine]
    simp only [hroutine]
    rw [hspec]
    exact ⟨_, rfl, tail_stands h hstored hstack h.place hsettled' hnested'⟩
  | some routine =>
    have hspec : a.callTop place' out = ({ a with place := place' rest }, out routine entry.arg) := by
      simp only [Handlers.callTop, hstack, hroutine]
    simp only [hroutine]
    rw [hspec]
    exact ⟨_, rfl, h.control, hmap, h.allocated, h.used, h.fits, h.small, hstack ▸ hnested,
      points_of_stored hsettled hstored⟩

/-- `cleanup_pop`. -/
theorem pop_stands (h : Stands t a) (huser : t.place.user = true) (hpaired : ∀ level ∈ t.place.frame, level < t.used)
    (execute : Bool) :
    ∃ t', (t.pop execute : Option (_ × Out R A V D)) = some (t', (a.pop execute).2) ∧
      Stands t' (a.pop execute : _ × Out R A V D).1 := by
  have hused := h.used
  have hsettled := Place.settled_of_user huser
  cases hstack : a.stack with
  | nil =>
    have hspec : a.pop execute = (a, (.nothing : Out R A V D)) := by
      cases a
      cases hstack
      cases execute <;> rfl
    rw [hstack, List.length_nil] at hused
    rw [ThreadInfo.pop, if_pos hused, hspec]
    exact ⟨t, rfl, h⟩
  | cons entry rest =>
    have hstored := h.stored_of_stack hsettled (hstack ▸ List.cons_ne_nil entry rest)
    have hnested : Nested rest a.place := by
      have hnested := h.nested
      rw [hstack] at hnested
      refine hnested.tail (h.user_eq.trans huser) fun below hbelow => ?_
      have hlevel := hpaired (level below) (by rw [h.frame_eq, Option.mem_def.mp hbelow]; rfl)
      rw [hused, hstack] at hlevel
      exact hlevel
    rw [hstack, List.length_cons] at hused
    rw [ThreadInfo.pop, if_neg (by omega), Handlers.pop]
    cases execute with
    | true =>
      refine callTop_stands h hstored hstack .executed ?_ rfl hsettled ?_ hnested
      · change Place.popping t.used (t.place.map Pending.entry id) = Place.popping (level rest) (a.place.map id level)
        rw [h.place, hused, level]
      · exact ⟨⟨entry, List.suffix_refl _⟩, h.user_eq.trans huser, hnested⟩
    | false =>
      have htail := tail_stands h hstored hstack h.place hsettled hnested
      rw [hstack]
      exact ⟨_, rfl, htail⟩

/-- A routine that `cleanup_pop` has called returns. -/
theorem popped_stands (h : Stands t a) {frame : Nat} {back : Place (Pending R A) Nat}
    (hplace : t.place = .popping frame back) (hpaired : t.used = frame) (bitmap : BitVec 64)
    (destructors : Fin 64 → Option D) :
    ∃ t', t.progress bitmap destructors = some (t', (a.progress bitmap destructors).2) ∧
      Stands t' (a.progress bitmap destructors).1 := by
  have hmap := h.place
  have hnested := h.nested
  rw [hplace] at hmap
  cases hq : a.place with
  | popping rest back' =>
    rw [hq] at hmap hnested
    obtain ⟨hlevel, hback⟩ := Place.popping.inj hmap
    obtain ⟨⟨entry, hsuffix⟩, huser, hnested⟩ := hnested
    have hstack := eq_cons_of_suffix hsuffix (by rw [← h.used, hpaired]; exact hlevel)
    have hstored := h.stored_of_stack (by rw [hplace]; rfl) (hstack ▸ List.cons_ne_nil entry rest)
    have hsettled : back.settled = true := by
      apply Place.settled_of_user
      rw [← Place.user_map Pending.entry id back, hback, Place.user_map, huser]
    rw [ThreadInfo.progress, Handlers.progress, hplace, hq]
    exact ⟨_, rfl, tail_stands h hstored hstack hback hsettled hnested⟩
  | _ =>
    rw [hq] at hmap
    cases hmap

/-- A routine that `execute_cleanup` has called returns. -/
theorem returned_stands (h : Stands t a) {frame : Nat} (hplace : t.place = .routine frame) (hpaired : t.used = frame)
    (bitmap : BitVec 64) (destructors : Fin 64 → Option D) :
    ∃ t', t.progress bitmap destructors = some (t', (a.progress bitmap destructors).2) ∧
      Stands t' (a.progress bitmap destructors).1 := by
  have hmap := h.place
  have hnested := h.nested
  rw [hplace] at hmap
  cases hq : a.place with
  | routine rest =>
    rw [hq] at hmap hnested
    obtain ⟨entry, hsuffix⟩ := hnested
    have hlevel : frame = level rest := Place.routine.inj hmap
    have hstack := eq_cons_of_suffix hsuffix (by rw [← h.used, hpaired]; exact hlevel)
    have hstored := h.stored_of_stack (by rw [hplace]; rfl) (hstack ▸ List.cons_ne_nil entry rest)
    rw [ThreadInfo.progress, Handlers.progress, hplace, hq]
    exact ⟨_, rfl, tail_stands h hstored hstack rfl rfl trivial⟩
  | _ =>
    rw [hq] at hmap
    cases hmap

/-- The loop of `execute_cleanup`, and the block that is given back behind it. -/
theorem executed_stands (h : Stands t a) (hplace : t.place = .loop) (bitmap : BitVec 64)
    (destructors : Fin 64 → Option D) :
    ∃ t', t.progress bitmap destructors = some (t', (a.progress bitmap destructors).2) ∧
      Stands t' (a.progress bitmap destructors).1 := by
  have hmap := h.place
  have hpoints := h.points
  have hused := h.used
  rw [hplace] at hmap
  have hq : a.place = .loop := by
    cases hq : a.place with
    | loop => rfl
    | _ =>
      rw [hq] at hmap
      cases hmap
  have hstored : Stored t a := by
    unfold Points at hpoints
    rw [hplace] at hpoints
    exact hpoints
  have hcode : t.progress bitmap destructors =
      if t.used ≠ 0 then (t.callTop (.routine t.used) .called : Option (_ × Out R A V D))
      else t.release.map (·, .nothing) := by
    rw [ThreadInfo.progress, hplace]
  have hspec : a.progress bitmap destructors =
      if a.stack = [] then ({ a with place := .tls 0 }, (.nothing : Out R A V D))
      else a.callTop .routine .called := by
    rw [Handlers.progress, hq]
  cases hstack : a.stack with
  | nil =>
    rw [hstack, List.length_nil] at hused
    rw [hcode, hspec, if_neg (fun hne => hne hused), if_pos hstack]
    cases hentries : t.entries with
    | null =>
      have hrelease : t.release = some { t with place := .tls 0 } := by rw [ThreadInfo.release, hentries]
      rw [hrelease]
      exact ⟨_, rfl, h.control, rfl, h.allocated, h.used, h.fits, h.small, trivial, .inl hstored⟩
    | live cells =>
      have hrelease : t.release = some { t with entries := .freed, place := .tls 0 } := by
        rw [ThreadInfo.release, hentries]
      rw [hrelease]
      exact ⟨_, rfl, h.control, rfl, h.allocated, h.used, h.fits, h.small, trivial, .inr ⟨rfl, hstack⟩⟩
    | freed => exact absurd hentries hstored.entries_ne
  | cons entry rest =>
    rw [hstack, List.length_cons] at hused
    rw [hcode, hspec, if_pos (by omega), if_neg (by rw [hstack]; exact List.cons_ne_nil _ _)]
    refine callTop_stands h hstored hstack .called ?_ rfl (by rw [hplace]; rfl) ⟨entry, List.suffix_refl _⟩
      (by rw [hq]; trivial)
    change Place.routine t.used = Place.routine (level rest)
    rw [hused, level]

/-- A slot of `cleanup_tls` does not touch the routines. -/
theorem cleanupSlot_cases (c : Control V) (i : Fin 64) (bitmap : BitVec 64) (destructors : Fin 64 → Option D) :
    (∃ value destructor, c.cleanupSlot i bitmap destructors =
        (({ c with slots := Function.update c.slots i none }, Place.destructor (i : Nat),
          .destroyed i destructor value) : _ × Place (Pending R A) Nat × Out R A V D) ∧
      c.cleanupSlot i bitmap destructors =
        (({ c with slots := Function.update c.slots i none }, Place.destructor (i : Nat),
          .destroyed i destructor value) : _ × Place (CleanupEntry R A) (List (CleanupEntry R A)) × Out R A V D)) ∨
    c.cleanupSlot i bitmap destructors =
        ((c, Place.tls (i + 1 : Nat), .nothing) : _ × Place (Pending R A) Nat × Out R A V D) ∧
      c.cleanupSlot i bitmap destructors =
        ((c, Place.tls (i + 1 : Nat), .nothing) :
          _ × Place (CleanupEntry R A) (List (CleanupEntry R A)) × Out R A V D) := by
  simp only [Control.cleanupSlot]
  cases bitmap.getLsbD i with
  | false => exact .inr ⟨rfl, rfl⟩
  | true =>
    cases c.slots i with
    | none => exact .inr ⟨rfl, rfl⟩
    | some value =>
      cases destructors i with
      | none => exact .inr ⟨rfl, rfl⟩
      | some destructor => exact .inl ⟨value, destructor, rfl, rfl⟩

/-- A place in `cleanup_tls`, or behind it. -/
def Place.late {G F : Type*} : Place G F → Bool
  | .tls _ | .destructor _ | .exited => true
  | _ => false

theorem points_of_late (hplace : t.place.late = true) : Points t a ↔ Stored t a ∨ Released t a := by
  unfold Points
  cases hp : t.place with
  | tls | destructor | exited => exact Iff.rfl
  | program | growing | popping | loop | routine =>
    rw [hp] at hplace
    cases hplace

/-- A step of `cleanup_tls`. -/
theorem late_stands (h : Stands t a) (hplace : t.place.late = true) (place : Place (Pending R A) Nat)
    (place' : Place (CleanupEntry R A) (List (CleanupEntry R A))) (hlate : place.late = true)
    (hmap : place.map Pending.entry id = place'.map id level) (hnested : Nested a.stack place') {c c' : Control V}
    (hcontrol : c = c') :
    Stands { t with toControl := c, place := place } { a with toControl := c', place := place' } :=
  ⟨hcontrol, hmap, h.allocated, h.used, h.fits, h.small, hnested,
    (points_of_late hlate).mpr ((points_of_late hplace).mp h.points)⟩

theorem place_of_late (h : Stands t a) {i : Nat} :
    (t.place = .tls i → a.place = .tls i) ∧ (t.place = .destructor i → a.place = .destructor i) := by
  have hmap := h.place
  constructor
  · intro hplace
    rw [hplace] at hmap
    cases hq : a.place with
    | tls j =>
      rw [hq] at hmap
      rw [Place.tls.inj hmap]
    | _ =>
      rw [hq] at hmap
      cases hmap
  · intro hplace
    rw [hplace] at hmap
    cases hq : a.place with
    | destructor j =>
      rw [hq] at hmap
      rw [Place.destructor.inj hmap]
    | _ =>
      rw [hq] at hmap
      cases hmap

theorem progress_stands (h : Stands t a) (bitmap : BitVec 64) (destructors : Fin 64 → Option D)
    (hpaired : ∀ level ∈ t.place.frame, t.used = level) :
    ∃ t', t.progress bitmap destructors = some (t', (a.progress bitmap destructors).2) ∧
      Stands t' (a.progress bitmap destructors).1 := by
  have hmap := h.place
  cases hp : t.place with
  | program =>
    rw [hp] at hmap
    cases hq : a.place with
    | program =>
      rw [ThreadInfo.progress, Handlers.progress, hp, hq]
      exact ⟨t, rfl, h⟩
    | _ =>
      rw [hq] at hmap
      cases hmap
  | growing pending back => exact grown_stands h hp bitmap destructors
  | popping frame back => exact popped_stands h hp (hpaired frame (by rw [hp]; rfl)) bitmap destructors
  | loop => exact executed_stands h hp bitmap destructors
  | routine frame => exact returned_stands h hp (hpaired frame (by rw [hp]; rfl)) bitmap destructors
  | tls i =>
    have hlate : t.place.late = true := by rw [hp]; rfl
    rw [ThreadInfo.progress, Handlers.progress, hp, (place_of_late h).1 hp]
    simp only
    by_cases hi : i < 64
    · rw [dif_pos hi, dif_pos hi, h.control]
      rcases cleanupSlot_cases (R := R) (A := A) a.toControl ⟨i, hi⟩ bitmap destructors with
        ⟨value, destructor, hcode, hspec⟩ | ⟨hcode, hspec⟩
      · rw [hcode, hspec]
        exact ⟨_, rfl, late_stands h hlate (.destructor i) (.destructor i) rfl rfl trivial rfl⟩
      · rw [hcode, hspec]
        exact ⟨_, rfl, late_stands h hlate (.tls (i + 1)) (.tls (i + 1)) rfl rfl trivial rfl⟩
    · rw [dif_neg hi, dif_neg hi]
      exact ⟨_, rfl, late_stands h hlate .exited .exited rfl rfl trivial h.control⟩
  | destructor i =>
    have hlate : t.place.late = true := by rw [hp]; rfl
    rw [ThreadInfo.progress, Handlers.progress, hp, (place_of_late h).2 hp]
    exact ⟨_, rfl, late_stands h hlate (.tls (i + 1)) (.tls (i + 1)) rfl rfl trivial h.control⟩
  | exited =>
    rw [hp] at hmap
    cases hq : a.place with
    | exited =>
      rw [ThreadInfo.progress, Handlers.progress, hp, hq]
      exact ⟨t, rfl, h⟩
    | _ =>
      rw [hq] at hmap
      cases hmap

/-- Another state and type of cancellation, and other values. -/
theorem Stands.setControl (h : Stands t a) (c : Control V) :
    Stands { t with toControl := c } { a with toControl := c } :=
  ⟨rfl, h.place, h.allocated, h.used, h.fits, h.small, h.nested, h.points⟩

/-- The thread goes into `execute_cleanup`. -/
theorem loop_stands (h : Stands t a) (hne : t.entries ≠ .freed) :
    Stands { t with place := .loop } { a with place := .loop } :=
  ⟨h.control, rfl, h.allocated, h.used, h.fits, h.small, trivial, h.stored_of_ne hne⟩

theorem strike_stands (h : Stands t a) (hne : t.cancelstate ≠ cancelDisable → t.entries ≠ .freed) :
    Stands t.strike a.strike := by
  have hstate : t.cancelstate = a.cancelstate := congrArg Control.cancelstate h.control
  rw [ThreadInfo.strike, Handlers.strike, hstate]
  rw [hstate] at hne
  by_cases hdisabled : a.cancelstate = cancelDisable
  · rw [if_pos hdisabled, if_pos hdisabled]
    exact h
  · rw [if_neg hdisabled, if_neg hdisabled]
    exact loop_stands h (hne hdisabled)

theorem exited_iff (h : Stands t a) : a.place = .exited ↔ t.place = .exited := by
  have hmap := h.place
  constructor
  · intro hplace
    rw [hplace] at hmap
    cases hp : t.place with
    | exited => rfl
    | _ =>
      rw [hp] at hmap
      cases hmap
  · intro hplace
    rw [hplace] at hmap
    cases hq : a.place with
    | exited => rfl
    | _ =>
      rw [hq] at hmap
      cases hmap

theorem ThreadInfo.step_cancel (hplace : t.place ≠ .exited) :
    t.step .cancel = some (t.strike, (.nothing : Out R A V D)) := by
  rw [ThreadInfo.step]
  split
  · next hp => exact absurd hp hplace
  · rfl

theorem Handlers.step_cancel (hplace : a.place ≠ .exited) :
    a.step .cancel = (a.strike, (.nothing : Out R A V D)) := by
  rw [Handlers.step]
  split
  · next hp => exact absurd hp hplace
  · rfl

/-- **One event**, if it is harmless. -/
theorem step_stands (h : Stands t a) {e : Event R A V D} (hharmless : Harmless t e) (hfits : Fits t e)
    (hpaired : Paired t e) :
    ∃ t', t.step e = some (t', (a.step e).2) ∧ Stands t' (a.step e).1 := by
  have huser := h.user_eq
  cases e with
  | push entry memory =>
    rw [ThreadInfo.step, Handlers.step, huser]
    by_cases hu : t.place.user = true
    · obtain ⟨t', hpush, hstands⟩ := push_stands h hu (fun hne => hharmless (.inr ⟨hu, hne⟩)) entry memory hfits
      rw [if_pos hu, if_pos hu, hpush]
      exact ⟨t', rfl, hstands⟩
    · rw [if_neg hu, if_neg hu]
      exact ⟨t, rfl, h⟩
  | pop execute =>
    rw [ThreadInfo.step, Handlers.step, huser]
    by_cases hu : t.place.user = true
    · rw [if_pos hu, if_pos hu]
      exact pop_stands h hu hpaired execute
    · rw [if_neg hu, if_neg hu]
      exact ⟨t, rfl, h⟩
  | setcancelstate state =>
    rw [ThreadInfo.step, Handlers.step, huser, h.control]
    split
    · exact ⟨_, rfl, h.setControl _⟩
    · exact ⟨t, rfl, h⟩
  | setcanceltype type =>
    rw [ThreadInfo.step, Handlers.step, huser, h.control]
    split
    · exact ⟨_, rfl, h.setControl _⟩
    · exact ⟨t, rfl, h⟩
  | tssSet key value bitmap =>
    rw [ThreadInfo.step, Handlers.step, huser, h.control]
    split
    · exact ⟨_, rfl, h.setControl _⟩
    · exact ⟨t, rfl, h⟩
  | testcancel =>
    rw [ThreadInfo.step, Handlers.step, huser]
    split
    · next hu => exact ⟨_, rfl, strike_stands h fun hne => hharmless (.inl ⟨hu, hne⟩)⟩
    · exact ⟨t, rfl, h⟩
  | exit =>
    rw [ThreadInfo.step, Handlers.step, huser]
    split
    · next hu => exact ⟨_, rfl, loop_stands h (hharmless (.inl hu))⟩
    · exact ⟨t, rfl, h⟩
  | cancel =>
    by_cases hp : t.place = .exited
    · rw [ThreadInfo.step, Handlers.step, hp, (exited_iff h).mpr hp]
      exact ⟨t, rfl, h⟩
    · rw [ThreadInfo.step_cancel hp, Handlers.step_cancel fun hq => hp ((exited_iff h).mp hq)]
      exact ⟨_, rfl, strike_stands h fun hne => hharmless (.inl ⟨hp, hne⟩)⟩
  | progress bitmap destructors => exact progress_stands h bitmap destructors hpaired

end

/-! ## Runs -/

theorem newThread_stands : Stands (newThread : ThreadInfo R A V) .new :=
  ⟨rfl, rfl, rfl, rfl, Nat.le_refl 0, (by decide : 0 < 2 ^ 32), trivial, fun hfreed => (by cases hfreed), rfl⟩

/-- A run whose events are in order. -/
theorem Stands.run {t : ThreadInfo R A V} {a : Handlers R A V} (hstands : Stands t a) (es : List (Event R A V D))
    (h : (threadMachine : Machine (ThreadInfo R A V) _ _).Along
      (fun t e => Harmless t e ∧ Fits t e ∧ Paired t e) t es) :
    ∃ t' a' os, (threadMachine : Machine (ThreadInfo R A V) _ _).run t es = some (t', os) ∧
      (Handlers.machine : Machine (Handlers R A V) _ _).run a es = some (a', os) ∧ Stands t' a' := by
  refine Machine.run_sim (N := Handlers.machine) (R := Stands) ?_ es hstands h
  rintro t a e hstands ⟨hharmless, hfits, hpaired⟩
  obtain ⟨t', hstep, hstands'⟩ := step_stands hstands hharmless hfits hpaired
  exact ⟨t', (a.step e).1, (a.step e).2, hstep, rfl, hstands'⟩

/-- Two routines are pushed, and a value is set. The second routine is popped and called, and pushes and pops one
itself. -/
def pushedInside : List (Event Nat Nat Nat (Fin 64)) :=
  [.push ⟨some 1, 10⟩ .moved, .progress 1 some, .push ⟨some 2, 20⟩ .moved, .setcanceltype 0, .tssSet 0 (some 7) 1,
    .pop true, .push ⟨some 3, 30⟩ .moved, .pop true, .progress 1 some, .progress 1 some]

theorem pushedInside_harmless :
    (threadMachine : Machine (ThreadInfo Nat Nat Nat) _ _).Along Harmless newThread pushedInside := by
  refine ⟨fun _ hfreed => (by cases hfreed), ?_⟩
  rintro t o ⟨⟩
  refine ⟨fun _ hfreed => (by cases hfreed), ?_⟩
  rintro t o ⟨⟩
  refine ⟨fun _ hfreed => (by cases hfreed), ?_⟩
  rintro t o ⟨⟩
  refine ⟨fun _ hfreed => (by cases hfreed), ?_⟩
  rintro t o ⟨⟩
  refine ⟨fun _ hfreed => (by cases hfreed), ?_⟩
  rintro t o ⟨⟩
  refine ⟨fun _ hfreed => (by cases hfreed), ?_⟩
  rintro t o ⟨⟩
  refine ⟨fun _ hfreed => (by cases hfreed), ?_⟩
  rintro t o ⟨⟩
  refine ⟨fun _ hfreed => (by cases hfreed), ?_⟩
  rintro t o ⟨⟩
  refine ⟨fun _ hfreed => (by cases hfreed), ?_⟩
  rintro t o ⟨⟩
  exact ⟨fun _ hfreed => (by cases hfreed), fun _ _ _ => trivial⟩

theorem pushedInside_paired :
    (threadMachine : Machine (ThreadInfo Nat Nat Nat) _ _).Along (fun t e => Fits t e ∧ Paired t e) newThread
      pushedInside := by
  refine ⟨⟨(by decide : 0 < 2 ^ 31), trivial⟩, ?_⟩
  rintro t o ⟨⟩
  refine ⟨⟨trivial, fun level hlevel => (by cases hlevel)⟩, ?_⟩
  rintro t o ⟨⟩
  refine ⟨⟨(by decide : 1 < 2 ^ 31), trivial⟩, ?_⟩
  rintro t o ⟨⟩
  refine ⟨⟨trivial, trivial⟩, ?_⟩
  rintro t o ⟨⟩
  refine ⟨⟨trivial, trivial⟩, ?_⟩
  rintro t o ⟨⟩
  refine ⟨⟨trivial, fun level hlevel => (by cases hlevel)⟩, ?_⟩
  rintro t o ⟨⟩
  refine ⟨⟨(by decide : 2 < 2 ^ 31), trivial⟩, ?_⟩
  rintro t o ⟨⟩
  refine ⟨⟨trivial, fun level hlevel => ?_⟩, ?_⟩
  · cases hlevel
    exact (by decide : 2 < 3)
  rintro t o ⟨⟩
  refine ⟨⟨trivial, fun level hlevel => ?_⟩, ?_⟩
  · cases hlevel
    rfl
  rintro t o ⟨⟩
  refine ⟨⟨trivial, fun level hlevel => ?_⟩, fun _ _ _ => trivial⟩
  cases hlevel
  rfl

/-- **The stack of routines.** As long as nothing strikes and nothing is pushed where the block has been freed, the
array does what the stack does: the same routines and destructors are called, in the same order, and nothing
faults. Routines and destructors push and pop themselves. -/
theorem unwind_refines (es : List (Event R A V D))
    (h : (threadMachine : Machine (ThreadInfo R A V) _ _).Along
      (fun t e => Harmless t e ∧ Fits t e ∧ Paired t e) newThread es) :
    ∃ t a os, (threadMachine : Machine (ThreadInfo R A V) _ _).run newThread es = some (t, os) ∧
      (Handlers.machine : Machine (Handlers R A V) _ _).run .new es = some (a, os) ∧ Stands t a :=
  newThread_stands.run es h

theorem unwind_refines_pushedInside :
    ∃ t a os, (threadMachine : Machine (ThreadInfo Nat Nat Nat) _ _).run newThread pushedInside = some (t, os) ∧
      (Handlers.machine : Machine (Handlers Nat Nat Nat) _ _).run .new pushedInside = some (a, os) ∧ Stands t a :=
  unwind_refines pushedInside (pushedInside_harmless.and pushedInside_paired)

section
variable {t : ThreadInfo R A V} {a : Handlers R A V}

/-- In `execute_cleanup`, with a block that has been freed. -/
def Doomed (t : ThreadInfo R A V) : Prop := t.place = .loop ∧ t.entries = .freed

/-- The next thing it does goes wrong. -/
theorem Doomed.progress (h : Doomed t) (bitmap : BitVec 64) (destructors : Fin 64 → Option D) :
    (t.step (.progress bitmap destructors) : Option (_ × Out R A V D)) = none := by
  obtain ⟨hplace, hfreed⟩ := h
  rw [ThreadInfo.step, ThreadInfo.progress, hplace]
  simp only
  split
  · rw [ThreadInfo.callTop, ThreadInfo.read, hfreed]
  · rw [ThreadInfo.release, hfreed]
    rfl

/-- Whatever happens before does not help. -/
theorem Doomed.step (h : Doomed t) {e : Event R A V D} {t' : ThreadInfo R A V} {o : Out R A V D}
    (hstep : t.step e = some (t', o)) : Doomed t' := by
  obtain ⟨hplace, hfreed⟩ := h
  have huser : ¬ t.place.user = true := by rw [hplace]; exact Bool.false_ne_true
  have hstrike : Doomed t.strike := by
    rw [ThreadInfo.strike]
    split
    · exact ⟨hplace, hfreed⟩
    · exact ⟨rfl, hfreed⟩
  cases e with
  | push | pop | setcancelstate | setcanceltype | tssSet | testcancel | exit =>
    rw [ThreadInfo.step, if_neg huser] at hstep
    cases hstep
    exact ⟨hplace, hfreed⟩
  | cancel =>
    rw [ThreadInfo.step, hplace] at hstep
    cases hstep
    exact hstrike
  | progress bitmap destructors =>
    rw [Doomed.progress ⟨hplace, hfreed⟩] at hstep
    cases hstep

theorem Doomed.run (h : Doomed t) (es : List (Event R A V D)) (bitmap : BitVec 64)
    (destructors : Fin 64 → Option D) :
    (threadMachine : Machine (ThreadInfo R A V) _ _).run t (es ++ [.progress bitmap destructors]) = none := by
  induction es generalizing t with
  | nil =>
    have hprogress : (threadMachine : Machine (ThreadInfo R A V) _ _).step t (.progress bitmap destructors) = none :=
      h.progress bitmap destructors
    rw [List.nil_append, Machine.run, hprogress]
  | cons e es ih =>
    rw [List.cons_append, Machine.run]
    split
    · rfl
    · next t' o hstep =>
      rw [ih (h.step hstep)]
      rfl

/-- What strikes where the block has been freed leads to a fault. -/
theorem doomed_of_strikes {e : Event R A V D} (hstrikes : Strikes t e) (hfreed : t.entries = .freed) :
    ∃ t', (t.step e : Option (_ × Out R A V D)) = some (t', .nothing) ∧ Doomed t' := by
  cases e with
  | exit =>
    have huser : t.place.user = true := hstrikes
    refine ⟨_, rfl, ?_⟩
    rw [if_pos huser]
    exact ⟨rfl, hfreed⟩
  | testcancel =>
    refine ⟨_, rfl, ?_⟩
    rw [if_pos hstrikes.1, ThreadInfo.strike, if_neg hstrikes.2]
    exact ⟨rfl, hfreed⟩
  | cancel =>
    refine ⟨_, ThreadInfo.step_cancel hstrikes.1, ?_⟩
    rw [ThreadInfo.strike, if_neg hstrikes.2]
    exact ⟨rfl, hfreed⟩
  | _ => exact absurd hstrikes id

/-- What is pushed where the block has been given back, by a destructor, is stored into it. -/
theorem Stands.push_freed (h : Stands t a) {e : Event R A V D} (hpushes : Pushes t e)
    (hallocated : t.allocated ≠ 0) (hfreed : t.entries = .freed) : (t.step e : Option (_ × Out R A V D)) = none := by
  cases e with
  | push entry memory =>
    have huser : t.place.user = true := hpushes
    have hstack : a.stack = [] := by
      have hpoints := h.points
      have hlive (hstored : Stored t a) : False := hstored.entries_ne hfreed
      unfold Points at hpoints
      cases hp : t.place with
      | growing =>
        rw [hp] at huser
        cases huser
      | tls | destructor | exited =>
        rw [hp] at hpoints
        exact (hpoints.resolve_left hlive).2
      | program | popping | loop | routine =>
        rw [hp] at hpoints
        exact (hlive hpoints).elim
    have hused : t.used = 0 := by rw [h.used, hstack, List.length_nil]
    have hpush : t.push entry memory = none := by
      unfold ThreadInfo.push
      rw [if_neg hallocated, if_neg (by rw [hused]; exact hallocated), ThreadInfo.store, hfreed]
    rw [ThreadInfo.step, if_pos huser, hpush]
    rfl
  | _ => exact absurd hpushes id

/-- An event that is not harmless, and then a step. -/
theorem Stands.run_of_not_harmless (h : Stands t a) {e : Event R A V D} (hharmful : ¬ Harmless t e)
    (es : List (Event R A V D)) (bitmap : BitVec 64) (destructors : Fin 64 → Option D) :
    (threadMachine : Machine (ThreadInfo R A V) _ _).run t (e :: (es ++ [.progress bitmap destructors])) = none := by
  obtain ⟨hcause, hfreed⟩ := Classical.not_imp.mp hharmful
  have hfreed := not_not.mp hfreed
  rcases hcause with hstrikes | ⟨hpushes, hallocated⟩
  · obtain ⟨t', hstep, hdoomed⟩ := doomed_of_strikes hstrikes hfreed
    have hmachine : (threadMachine : Machine (ThreadInfo R A V) _ _).step t e = some (t', .nothing) := hstep
    rw [Machine.run_cons hmachine, hdoomed.run es bitmap destructors]
    rfl
  · have hmachine : (threadMachine : Machine (ThreadInfo R A V) _ _).step t e = none :=
      h.push_freed hpushes hallocated hfreed
    rw [Machine.run, hmachine]

/-- Going on does not fault, whatever a routine has popped. -/
theorem Stands.progress_ne (h : Stands t a) (bitmap : BitVec 64) (destructors : Fin 64 → Option D) :
    t.progress bitmap destructors ≠ none := by
  have hgoes (hframe : t.place.frame = none) : t.progress bitmap destructors ≠ none := by
    have hpaired : ∀ level ∈ t.place.frame, t.used = level := by
      intro level hlevel
      rw [hframe] at hlevel
      cases hlevel
    obtain ⟨t', hstep, -⟩ := progress_stands h bitmap destructors hpaired
    rw [hstep]
    exact Option.some_ne_none _
  cases hp : t.place with
  | popping | routine =>
    rw [ThreadInfo.progress, hp]
    exact Option.some_ne_none _
  | _ => exact hgoes (by rw [hp]; rfl)

theorem Stands.safe_iff (h : Stands t a) (es : List (Event R A V D)) (bitmap : BitVec 64)
    (destructors : Fin 64 → Option D)
    (hpaired : (threadMachine : Machine (ThreadInfo R A V) _ _).Along (fun t e => Fits t e ∧ Paired t e) t es) :
    (threadMachine : Machine (ThreadInfo R A V) _ _).run t (es ++ [.progress bitmap destructors]) ≠ none ↔
      (threadMachine : Machine (ThreadInfo R A V) _ _).Along Harmless t es := by
  induction es generalizing t a with
  | nil =>
    refine ⟨fun _ => trivial, fun _ => ?_⟩
    obtain ⟨⟨t', o⟩, hstep⟩ := Option.ne_none_iff_exists'.mp (h.progress_ne bitmap destructors)
    have hprogress : (threadMachine : Machine (ThreadInfo R A V) _ _).step t (.progress bitmap destructors) =
      some (t', o) := hstep
    rw [List.nil_append, Machine.run_cons hprogress]
    exact Option.some_ne_none _
  | cons e es ih =>
    rw [List.cons_append]
    by_cases hharmless : Harmless t e
    · obtain ⟨t', hstep, h'⟩ := step_stands h hharmless hpaired.1.1 hpaired.1.2
      have hmachine : (threadMachine : Machine (ThreadInfo R A V) _ _).step t e = some (t', _) := hstep
      rw [Machine.run_cons hmachine, Machine.along_cons hmachine, ← ih h' (hpaired.2 t' _ hmachine), ne_eq,
        Option.map_eq_none_iff]
      exact ⟨fun hrun => ⟨hharmless, hrun⟩, fun hrun => hrun.2⟩
    · rw [h.run_of_not_harmless hharmless]
      exact ⟨fun hne => absurd rfl hne, fun halong => absurd halong.1 hharmless⟩

end

/-- **Where a thread can be cancelled.** A thread goes on without a fault, no second free and no access to a block
that has been freed, exactly if no exit and no cancellation strikes, and no destructor pushes a routine, while
`cleanup_entries` points to such a block: between the reallocation in `cleanup_push` and the store of the new pointer,
and after `execute_cleanup`. -/
theorem unwind_safe_iff (es : List (Event R A V D)) (bitmap : BitVec 64) (destructors : Fin 64 → Option D)
    (hpaired : (threadMachine : Machine (ThreadInfo R A V) _ _).Along (fun t e => Fits t e ∧ Paired t e) newThread
      es) :
    (threadMachine : Machine (ThreadInfo R A V) _ _).run newThread (es ++ [.progress bitmap destructors]) ≠ none ↔
      (threadMachine : Machine (ThreadInfo R A V) _ _).Along Harmless newThread es :=
  newThread_stands.safe_iff es bitmap destructors hpaired

theorem unwind_safe_iff_pushedInside :
    (threadMachine : Machine (ThreadInfo Nat Nat Nat) _ _).run newThread
        (pushedInside ++ [.progress 1 some]) ≠ none ∧
      (threadMachine : Machine (ThreadInfo Nat Nat Nat) _ _).Along Harmless newThread pushedInside :=
  ⟨(unwind_safe_iff pushedInside 1 some pushedInside_paired).mpr pushedInside_harmless, pushedInside_harmless⟩

end WindowsLibc.Thread.Unwind
