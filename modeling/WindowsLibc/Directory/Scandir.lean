import WindowsLibc.Directory.Readdir

/-!
# Scanning a directory (`dirent/scandir.c`)

`wlibc_common_scandir` reads a stream to its end and stores what the selector accepts through an array of
pointers, which has room for 16 of them at first. When it is full, it is reallocated to 32 pointers, whatever
`allocated` has been doubled to. So the second time it does not grow, and the 33rd entry is stored behind it.

`scans_iff`: what is accepted is stored and counted exactly if there are at most 32 of it. Memory is granted
here; a store behind the array is a fault.
-/

namespace WindowsLibc.Directory

open WindowsLibc.Lib

/-! ## The array -/

/-- `*entries`, `count` and `allocated`. A pointer that was not stored is `none`. -/
structure Scan where
  entries : List (Option Dirent)
  count : Nat
  allocated : Nat

/-- `realloc` to so many pointers -/
def reallocPointers (entries : List (Option Dirent)) (n : Nat) : List (Option Dirent) :=
  entries.take n ++ List.replicate (n - entries.length) none

namespace Scan

def fresh : Scan := ⟨List.replicate 16 none, 0, 16⟩

/-- "Double the allocated entry list." -/
def double (s : Scan) : Scan :=
  if s.count = s.allocated then
    { s with entries := reallocPointers s.entries 32, allocated := s.allocated * 2 }
  else s

/-- `(*entries)[count] = malloc(…)` with a copy of the entry, and `++count` -/
def store (s : Scan) (entry : Dirent) : Option Scan :=
  if s.count < s.entries.length then
    some { s with entries := s.entries.set s.count (some entry), count := s.count + 1 }
  else none

/-- `qsort(*entries, count, …)`, if there is a function to compare with -/
def sort (qsort : (Dirent → Dirent → Int) → List Dirent → List Dirent)
    (cmp : Option (Dirent → Dirent → Int)) (s : Scan) : Option Scan :=
  match cmp with
  | none => some s
  | some cmp => ((s.entries.take s.count).mapM id).map (fun entries =>
      { s with entries := (qsort cmp entries).map some ++ s.entries.drop s.count })

end Scan

/-- Skip the entry if the selector function return 0. -/
def selects (selector : Option (Dirent → Int)) (entry : Dirent) : Bool :=
  match selector with
  | none => true
  | some selector => selector entry ≠ 0

/-! ## The function -/

section

variable {σ : Type*} (readdir : Machine σ Unit (Option Dirent)) (selector : Option (Dirent → Int))

/-- The loop of `wlibc_common_scandir`, for at most so many calls of `do_readdir`. -/
def scanLoop : Nat → σ → Scan → Option Scan
  | 0, _, _ => none
  | fuel + 1, dirstream, s =>
    match readdir.step dirstream () with
    | none => none
    | some (_, none) => some s
    | some (dirstream, some entry) =>
      if selects selector entry then (s.double.store entry).bind (scanLoop fuel dirstream)
      else scanLoop fuel dirstream s

/-- `wlibc_common_scandir`, with what it returns and the array it stores in `*entries`. The stream is what
`just_open` and `wlibc_fdopendir` give for the path, if neither of them fails; `do_readdir` is
`readdirMachine`. -/
def scandir (qsort : (Dirent → Dirent → Int) → List Dirent → List Dirent) (fuel : Nat)
    (dirstream : Option σ) (cmp : Option (Dirent → Dirent → Int)) :
    Option (Int × Option (List (Option Dirent))) :=
  match dirstream with
  | none => some (-1, none)
  | some dirstream => do
    let s ← scanLoop readdir selector fuel dirstream .fresh
    let s ← s.sort qsort cmp
    some ((s.count : Int), some s.entries)

end

/-! ## What is wanted -/

/-- The entries of a stream that are accepted. -/
def accepted {σ : Type*} (selector : Option (Dirent → Int)) (outs : List (Option Dirent × σ)) :
    List Dirent :=
  (outs.filterMap Prod.fst).filter (selects selector)

/-- What the caller asked for: the entries as they are, or sorted. -/
def ordered (qsort : (Dirent → Dirent → Int) → List Dirent → List Dirent)
    (cmp : Option (Dirent → Dirent → Int)) (entries : List Dirent) : List Dirent :=
  match cmp with
  | none => entries
  | some cmp => qsort cmp entries

/-- The array begins with the entries, and their number is returned. -/
def StoresAll (entries wanted : List Dirent) (r : Option (Int × Option (List (Option Dirent)))) : Prop :=
  ∃ rest, r = some ((entries.length : Int), some (wanted.map some ++ rest))

/-! ## The loop over the entries -/

/-- After some entries: there is room for 16 pointers, or for 32 once one more was needed. -/
structure Scan.Holds (s : Scan) (entries : List Dirent) : Prop where
  count : s.count = entries.length
  stored : s.entries.take s.count = entries.map some
  allocated : s.entries.length = s.allocated
  room : s.allocated = if entries.length ≤ 16 then 16 else 32
  few : entries.length ≤ 32

theorem Scan.holds_fresh : Scan.fresh.Holds [] where
  count := rfl
  stored := rfl
  allocated := List.length_replicate
  room := rfl
  few := Nat.zero_le _

namespace Scan.Holds

variable {s : Scan} {entries : List Dirent}

theorem double (h : s.Holds entries) (hfew : entries.length < 32) :
    s.double.count = s.count ∧ s.double.entries.take s.count = entries.map some ∧
      s.double.entries.length = s.double.allocated ∧
      s.double.allocated = if entries.length + 1 ≤ 16 then 16 else 32 := by
  have hroom := h.room
  rw [Scan.double]
  by_cases hfull : s.count = s.allocated
  · have hcount := h.count
    have hsixteen : s.allocated = 16 := by
      split at hroom
      · exact hroom
      · omega
    have hlength : s.entries.length = 16 := h.allocated.trans hsixteen
    have hkeep : reallocPointers s.entries 32 = s.entries ++ List.replicate 16 none := by
      rw [reallocPointers, List.take_of_length_le (by omega), hlength]
    rw [if_pos hfull]
    simp only [hkeep]
    refine ⟨trivial, ?_, ?_, ?_⟩
    · rw [List.take_append_of_le_length (by omega)]
      exact h.stored
    · rw [List.length_append, List.length_replicate, hlength, hsixteen]
    · rw [if_neg (by omega), hsixteen]
  · rw [if_neg hfull]
    refine ⟨rfl, h.stored, h.allocated, ?_⟩
    have hcount := h.count
    split at hroom
    · rw [hroom, if_pos (by omega)]
    · rw [hroom, if_neg (by omega)]

/-- There is room for one of the first 32 entries. -/
theorem store (h : s.Holds entries) (entry : Dirent) (hfew : entries.length < 32) :
    ∃ s', s.double.store entry = some s' ∧ s'.Holds (entries ++ [entry]) := by
  obtain ⟨hcount, hstored, hallocated, hroom⟩ := h.double hfew
  have hlength := h.count
  have hlt : s.double.count < s.double.entries.length := by
    rw [hcount, hallocated, hroom, hlength]
    split
    · omega
    · exact hfew
  rw [Scan.store, if_pos hlt]
  refine ⟨_, rfl, ?_⟩
  constructor
  · rw [hcount, hlength, List.length_append, List.length_singleton]
  · rw [List.take_add_one, List.take_set_of_le (Nat.le_refl _), List.getElem?_set_self hlt, hcount, hstored,
      List.map_append]
    rfl
  · rw [List.length_set]
    exact hallocated
  · rw [List.length_append, List.length_singleton]
    exact hroom
  · rw [List.length_append, List.length_singleton]
    exact hfew

/-- The array does not grow for the 33rd one. -/
theorem store_full (h : s.Holds entries) (entry : Dirent) (hfull : entries.length = 32) :
    s.double.store entry = none := by
  have hcount := h.count
  have hlength := h.allocated
  have hroom := h.room
  rw [if_neg (by omega)] at hroom
  have hkeep : reallocPointers s.entries 32 = s.entries := by
    rw [reallocPointers, List.take_of_length_le (by omega), show 32 - s.entries.length = 0 by omega]
    exact List.append_nil _
  have hdouble : s.double = { s with allocated := s.allocated * 2 } := by
    rw [Scan.double, if_pos (by omega), hkeep]
  rw [hdouble]
  exact if_neg (by simp only; omega)

end Scan.Holds

section

variable {σ : Type*} {readdir : Machine σ Unit (Option Dirent)} {selector : Option (Dirent → Int)}

theorem accepted_cons (entry : Dirent) (dirstream : σ) (outs : List (Option Dirent × σ)) :
    accepted selector ((some entry, dirstream) :: outs) =
      if selects selector entry then entry :: accepted selector outs else accepted selector outs := by
  rw [accepted, List.filterMap_cons_some (f := Prod.fst) (b := entry) rfl, List.filter_cons]
  rfl

/-- The loop stores what is accepted of the rest of the stream, as long as there is room. -/
theorem scanLoop_holds {dirstream : σ} {outs : List (Option Dirent × σ)} {last : Option Dirent × σ}
    (h : readdir.Drives () Option.isNone dirstream outs last) {s : Scan} {entries : List Dirent}
    (hs : s.Holds entries) {fuel : Nat} (hfuel : outs.length < fuel) :
    if (entries ++ accepted selector outs).length ≤ 32 then
      ∃ s', scanLoop readdir selector fuel dirstream s = some s' ∧
        s'.Holds (entries ++ accepted selector outs)
    else scanLoop readdir selector fuel dirstream s = none := by
  induction h generalizing s entries fuel with
  | @last _ _ o hstep hstop =>
    cases Option.isNone_iff_eq_none.mp hstop
    cases fuel with
    | zero => exact absurd hfuel (Nat.not_lt_zero _)
    | succ fuel =>
      have hnil : entries ++ accepted selector ([] : List (Option Dirent × σ)) = entries :=
        List.append_nil entries
      rw [hnil, if_pos hs.few]
      exact ⟨s, by simp only [scanLoop, hstep], hs⟩
  | @more _ dirstream o outs last hstep hstop hrest ih =>
    obtain ⟨entry, rfl⟩ : ∃ entry, o = some entry := by
      cases o with
      | none => cases hstop
      | some entry => exact ⟨entry, rfl⟩
    cases fuel with
    | zero => exact absurd hfuel (Nat.not_lt_zero _)
    | succ fuel =>
      have hless : outs.length < fuel := Nat.lt_of_succ_lt_succ hfuel
      rw [accepted_cons]
      simp only [scanLoop, hstep]
      by_cases hselect : selects selector entry = true
      · simp only [if_pos hselect]
        by_cases hfew : entries.length < 32
        · obtain ⟨s', hstore, hs'⟩ := hs.store entry hfew
          rw [hstore, Option.bind_some, List.append_cons]
          exact ih hs' hless
        · have hfull : entries.length = 32 := Nat.le_antisymm hs.few (Nat.le_of_not_lt hfew)
          rw [hs.store_full entry hfull, Option.bind_none, if_neg]
          rw [List.length_append, List.length_cons]
          omega
      · simp only [if_neg hselect]
        exact ih hs hless

theorem mapM_some (entries : List Dirent) : (entries.map some).mapM id = some entries := by
  induction entries with
  | nil => rfl
  | cons entry entries ih =>
    rw [List.map_cons, List.mapM_cons, ih]
    rfl

/-- The end of the function: the array is sorted if the caller wants that. -/
theorem Scan.Holds.scans {s : Scan} {entries : List Dirent} (h : s.Holds entries)
    (qsort : (Dirent → Dirent → Int) → List Dirent → List Dirent)
    (cmp : Option (Dirent → Dirent → Int)) {fuel : Nat} {dirstream : σ}
    (hloop : scanLoop readdir selector fuel dirstream .fresh = some s) :
    StoresAll entries (ordered qsort cmp entries)
      (scandir readdir selector qsort fuel (some dirstream) cmp) := by
  refine ⟨s.entries.drop s.count, ?_⟩
  rw [scandir, hloop, Option.bind_eq_bind, Option.bind_some]
  cases cmp with
  | none =>
    rw [Scan.sort, Option.bind_some, ordered, ← h.stored, ← h.count,
      List.take_append_drop]
  | some cmp =>
    rw [Scan.sort, h.stored, mapM_some, Option.map_some, Option.bind_some, h.count]
    rfl

/-- A fault of the loop is one of the function. -/
theorem not_scans_of_fault {entries wanted : List Dirent} {fuel : Nat} {dirstream : σ}
    (hloop : scanLoop readdir selector fuel dirstream .fresh = none)
    (qsort : (Dirent → Dirent → Int) → List Dirent → List Dirent)
    (cmp : Option (Dirent → Dirent → Int)) :
    ¬ StoresAll entries wanted (scandir readdir selector qsort fuel (some dirstream) cmp) := by
  rintro ⟨rest, hresult⟩
  rw [scandir, hloop] at hresult
  cases hresult

/-- Whatever the stream delivers and the selector accepts: it is stored in order, or as it is sorted, and
counted, exactly if it is no more than 32 entries. -/
theorem scans_iff (qsort : (Dirent → Dirent → Int) → List Dirent → List Dirent)
    (cmp : Option (Dirent → Dirent → Int)) {dirstream : σ} {outs : List (Option Dirent × σ)}
    {last : Option Dirent × σ} (h : readdir.Drives () Option.isNone dirstream outs last) {fuel : Nat}
    (hfuel : outs.length < fuel) :
    StoresAll (accepted selector outs) (ordered qsort cmp (accepted selector outs))
      (scandir readdir selector qsort fuel (some dirstream) cmp) ↔
      (accepted selector outs).length ≤ 32 := by
  have hloop := @scanLoop_holds _ readdir selector _ _ _ h _ _ Scan.holds_fresh _ hfuel
  rw [List.nil_append] at hloop
  by_cases hfew : (accepted selector outs).length ≤ 32
  · rw [if_pos hfew] at hloop
    obtain ⟨s, hscan, hs⟩ := hloop
    exact ⟨fun _ => hfew, fun _ => hs.scans qsort cmp hscan⟩
  · rw [if_neg hfew] at hloop
    exact ⟨fun hscans => absurd hscans (not_scans_of_fault hloop qsort cmp), fun h => absurd h hfew⟩

end

/-! ## Directories of one buffer -/

/-- A buffer is read to its end. -/
theorem exists_drives_chunk (utf8 : List UInt16 → Option (List UInt8)) (c : Chunk) :
    ∃ outs last, (readdirMachine utf8).Drives () Option.isNone (.fresh [c]) outs last ∧
      outs.map Prod.fst = (listing utf8 [c]).map some := by
  obtain ⟨d, hrun⟩ := @delivers_singleton utf8 c
  rw [← @length_listing utf8 [c], ← List.length_map (f := some)] at hrun
  have hentries : ∀ o ∈ (listing utf8 [c]).map some, Option.isNone o = false := by
    intro o ho
    obtain ⟨entry, _, rfl⟩ := List.mem_map.mp ho
    rfl
  obtain ⟨outs, hdrives, houts⟩ := Machine.drives_of_run (o := none) rfl hentries hrun
  exact ⟨outs, _, hdrives, houts⟩

theorem accepted_of_map {outs : List (Option Dirent × Dir)} {entries : List Dirent}
    (h : outs.map Prod.fst = entries.map some) (selector : Option (Dirent → Int)) :
    accepted selector outs = entries.filter (selects selector) := by
  have hall : outs.filterMap Prod.fst = entries := by
    have hmap : (outs.map Prod.fst).filterMap id = outs.filterMap Prod.fst := List.filterMap_map
    rw [← hmap, h, List.filterMap_map]
    exact List.filterMap_some
  rw [accepted, hall]

/-- So many files with names of one character. -/
def files (n : Nat) : List Entry :=
  (List.range n).map (fun i => ⟨0, 0x20, [UInt16.ofNat (0x61 + i)], Nat.lt_of_sub_eq_succ rfl⟩)

def twoFiles : Chunk := ⟨files 2, by decide, by decide⟩

def thirtyThreeFiles : Chunk := ⟨files 33, by decide, by decide⟩

/-- Both files of a directory, in the order of their names. -/
theorem scans_twoFiles : ∃ outs last,
    (readdirMachine asciiName).Drives () Option.isNone (.fresh [twoFiles]) outs last ∧
      accepted none outs = listing asciiName [twoFiles] ∧
      StoresAll (accepted none outs) (accepted none outs)
        (scandir (readdirMachine asciiName) none (fun _ entries => entries) 3 (some (.fresh [twoFiles]))
          none) := by
  obtain ⟨outs, last, hdrives, houts⟩ := exists_drives_chunk asciiName twoFiles
  have haccepted : accepted none outs = listing asciiName [twoFiles] := by
    rw [accepted_of_map houts]
    rfl
  have hlength : outs.length = 2 := by
    rw [← List.length_map (f := Prod.fst), houts]
    rfl
  refine ⟨outs, last, hdrives, haccepted, ?_⟩
  exact (scans_iff _ none hdrives (by omega)).mpr (by rw [haccepted]; decide)

/-- Of 33 files, the last one is stored behind the array. -/
theorem not_scans_thirtyThreeFiles : ∃ outs last,
    (readdirMachine asciiName).Drives () Option.isNone (.fresh [thirtyThreeFiles]) outs last ∧
      ∀ fuel, outs.length < fuel → ¬ StoresAll (accepted none outs) (accepted none outs)
        (scandir (readdirMachine asciiName) none (fun _ entries => entries) fuel
          (some (.fresh [thirtyThreeFiles])) none) := by
  obtain ⟨outs, last, hdrives, houts⟩ := exists_drives_chunk asciiName thirtyThreeFiles
  have hmany : ¬ (accepted none outs).length ≤ 32 := by
    rw [accepted_of_map houts]
    decide
  refine ⟨outs, last, hdrives, fun fuel hfuel => ?_⟩
  have hloop := @scanLoop_holds _ _ none _ _ _ hdrives _ _ Scan.holds_fresh _ hfuel
  rw [List.nil_append, if_neg hmany] at hloop
  exact not_scans_of_fault hloop _ none

end WindowsLibc.Directory
