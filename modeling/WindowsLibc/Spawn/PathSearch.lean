import Mathlib.Data.List.Induction
import WindowsLibc.Lib.Block
import WindowsLibc.Lib.Doubling
import WindowsLibc.Lib.PathStack
import WindowsLibc.Spawn.Limit

/-!
# The search for a program (`spawn/spawn.c`)

`search_path_for_program` goes through the elements of the PATH variable. For each it writes the element, a
backslash and the name of the program into a buffer, which is doubled when it is too small, and asks
`search_for_program` for it. Some of the accesses to PATH and to the buffer can be outside of them; such an
access is a fault, `none`.

* What the search meets outside is a `Host`: the files, and the memory that it is given.
* A run leaves its trials behind, each with the element it is made for.
* `searched_right_iff` says which PATHs are searched as they should be.
-/

namespace WindowsLibc.Spawn

open WindowsLibc.Lib

variable {α : Type}

/-- What lies outside of the functions. -/
structure Host (α : Type) where
  /-- `get_absolute_dospath_of_executable`. -/
  executable : List UInt8 → Option α
  /-- What is in a new block of so many bytes, if there is one. -/
  heap : Nat → Option (Nat → UInt8)

inductive SearchErrno where
  | ENOENT
  | ENOMEM
  deriving DecidableEq

/-! ## The functions -/

/-- `isalpha`. -/
def isAlpha (c : UInt8) : Bool := 65 ≤ c && c ≤ 90 || 97 ≤ c && c ≤ 122

/-- "An absolute path was given": `C:`, or `/c`. -/
def isAbsolute (path : List UInt8) : Bool :=
  isAlpha (path.getD 0 0) && path.getD 1 0 == 58 || path.getD 0 0 == 47

/-- A letter as `strnicmp` compares it. -/
def lower (c : UInt8) : UInt8 := if 65 ≤ c && c ≤ 90 then c + 32 else c

/-- `executable_extension_given`: `exe`, `cmd` or `bat` behind a dot. -/
def executableExtensionGiven (path : List UInt8) : Bool :=
  4 < path.length && path.getD (path.length - 4) 0 == 46 &&
    [[101, 120, 101], [99, 109, 100], [98, 97, 116]].contains ((path.drop (path.length - 3)).map lower)

/-- `search_for_program`. -/
def searchForProgram (host : Host α) (path : List UInt8) : Option α :=
  if executableExtensionGiven path then host.executable path
  else
    match host.heap (path.length + 5) with
    | none => none
    | some _ =>
      host.executable path <|> host.executable (path ++ [46, 101, 120, 101]) <|>
        host.executable (path ++ [46, 99, 109, 100]) <|> host.executable (path ++ [46, 98, 97, 116])

/-- "If the buffer is not big enough keep doubling it." -/
def enlarge (host : Host α) (needed : Nat) (program : List UInt8) : Option (List UInt8) :=
  if program.length ≤ needed then
    let size := keepDoubling needed (2 * program.length)
    (host.heap size).map (fun fresh => program ++ (List.range (size - program.length)).map fresh)
  else some program

/-- `*(PATH + i - 1)`. -/
def charBefore (PATH : CString) (i : Nat) : Option UInt8 :=
  if i = 0 then none else (PATH.bytes ++ [0])[i - 1]?

/-- "Append a slash if path component does not have one", and the name. `len` is the length of the component. -/
def appendName (name : CString) (last : UInt8) (len : Nat) (program : List UInt8) : Option (List UInt8) :=
  if last ≠ 92 then
    (poke program len [92]).bind (fun program => poke program (len + 1) (name.bytes ++ [0]))
  else poke program len (name.bytes ++ [0])

/-- "Append program to path. Eg PATH\PROGRAM": the buffer, and the element that is copied. -/
def writeProgram (PATH name : CString) (i j : Nat) (program : List UInt8) :
    Option (List UInt8 × List UInt8) := do
  let element ← peek (PATH.bytes ++ [0]) j (i - j)
  let program ← poke program 0 element
  let last ← charBefore PATH i
  let program ← appendName name last (i - j) program
  some (program, element)

/-- The string in a buffer. -/
def stringIn (block : List UInt8) : Option (List UInt8) :=
  if 0 ∈ block then some (block.takeWhile (· ≠ 0)) else none

/-- What `search_for_program` is asked, and for which element. -/
structure Trial where
  element : List UInt8
  program : List UInt8
  deriving DecidableEq

/-- What becomes of an element. -/
inductive Tried (α : Type) where
  /-- There is no memory. -/
  | refused
  | asked (trial : Trial) (program : List UInt8) (dospath : Option α)

/-- The body of the loop where an element ends. -/
def tryElement (host : Host α) (PATH name : CString) (i j : Nat) (program : List UInt8) :
    Option (Tried α) :=
  match enlarge host (i - j + name.bytes.length) program with
  | none => some .refused
  | some program => do
    let (program, element) ← writeProgram PATH name i j program
    let path ← stringIn program
    some (.asked ⟨element, path⟩ program (searchForProgram host path))

/-- The loop. `unread` is PATH from `i` on. -/
def searchFrom (host : Host α) (PATH name : CString) :
    List UInt8 → Nat → Nat → List UInt8 → Option (List Trial × Except SearchErrno (Option α))
  | [], i, j, program =>
    (tryElement host PATH name i j program).map fun
      | .refused => ([], .error .ENOMEM)
      | .asked trial _ dospath => ([trial], .ok dospath)
  | c :: unread, i, j, program =>
    if c = 59 then
      (tryElement host PATH name i j program).bind fun
        | .refused => some ([], .error .ENOMEM)
        | .asked trial _ (some dospath) => some ([trial], .ok (some dospath))
        | .asked trial program none =>
          (searchFrom host PATH name unread (i + 1) (i + 1) program).map (fun r => (trial :: r.1, r.2))
    else searchFrom host PATH name unread (i + 1) j program

/-- `search_path_for_program`. `PATH` is what `getenv` returns. -/
def searchPathForProgram (host : Host α) (PATH : Option CString) (path : CString) :
    Option (List Trial × Except SearchErrno (Option α)) :=
  if isAbsolute path.bytes then some ([], .ok (searchForProgram host path.bytes))
  else
    match PATH with
    | none => some ([], .error .ENOENT)
    | some PATH =>
      match host.heap 256 with
      | none => some ([], .error .ENOMEM)
      | some fresh => searchFrom host PATH path PATH.bytes 0 0 ((List.range 256).map fresh)

/-! ## The purpose -/

/-- The element, a backslash unless it ends in one, and the name. -/
def candidate (name : CString) (element : List UInt8) : List UInt8 :=
  if element.getLast? = some 92 then element ++ name.bytes else element ++ 92 :: name.bytes

/-- The elements are tried until a program is found. -/
def tryInOrder (host : Host α) (name : CString) : List (List UInt8) → List Trial × Option α
  | [] => ([], none)
  | element :: elements =>
    let path := candidate name element
    match searchForProgram host path with
    | some dospath => ([⟨element, path⟩], some dospath)
    | none => (⟨element, path⟩ :: (tryInOrder host name elements).1, (tryInOrder host name elements).2)

/-- The elements of PATH. -/
def elements (PATH : CString) : List (List UInt8) := PATH.bytes.splitOn 59

/-- A run without a fault that tries the elements that are not empty, in order, and returns the first program it
finds. It gives up only where there is no memory. -/
def Searches (host : Host α) (name : CString) (elements : List (List UInt8))
    (run : Option (List Trial × Except SearchErrno (Option α))) : Prop :=
  ∃ trials answer, run = some (trials, answer) ∧
    match answer with
    | .ok dospath => tryInOrder host name (elements.filter (· ≠ [])) = (trials, dospath)
    | .error errno => errno = .ENOMEM ∧ trials <+: (tryInOrder host name (elements.filter (· ≠ []))).1

/-! ## One element -/

/-- What an element and the name need, without the backslash and the terminator. -/
def need (name : CString) (element : List UInt8) : Nat := element.length + name.bytes.length

/-- The size of the buffer behind these elements. -/
def bufferSize (name : CString) (before : List (List UInt8)) : Nat :=
  before.foldl (fun size element => keepDoubling (need name element) size) 256

theorem bufferSize_append (name : CString) (before : List (List UInt8)) (element : List UInt8) :
    bufferSize name (before ++ [element]) =
      keepDoubling (need name element) (bufferSize name before) := List.foldl_append

theorem doubled_bufferSize (name : CString) (before : List (List UInt8)) :
    Doubled 256 (before.map (need name)) (bufferSize name before) := by
  induction before using List.reverseRecOn with
  | nil => exact doubled_nil
  | append_singleton before element ih =>
    rw [bufferSize_append, List.map_append]
    exact ih.keepDoubling (by decide) _

/-- The buffer has to grow for the element, and does not. -/
def Refused (host : Host α) (name : CString) (before : List (List UInt8)) (element : List UInt8) : Prop :=
  bufferSize name before ≤ need name element ∧
    host.heap (bufferSize name (before ++ [element])) = none

theorem bufferSize_pos (name : CString) (before : List (List UInt8)) : 0 < bufferSize name before := by
  obtain ⟨k, hk⟩ := (doubled_bufferSize name before).power
  rw [hk]
  exact Nat.mul_pos (Nat.two_pow_pos k) (by decide)

/-- The buffer grows, unless there is no memory. -/
theorem enlarge_cases (host : Host α) (name : CString) {before : List (List UInt8)} (element : List UInt8)
    {program : List UInt8} (hsize : program.length = bufferSize name before) :
    Refused host name before element ∧ enlarge host (need name element) program = none ∨
    ¬ Refused host name before element ∧ ∃ program', enlarge host (need name element) program = some program' ∧
      program'.length = bufferSize name (before ++ [element]) := by
  have hpos := bufferSize_pos name before
  rw [Refused, enlarge, bufferSize_append, hsize]
  by_cases hle : bufferSize name before ≤ need name element
  · have hgrow := keepDoubling_of_le hpos hle
    obtain ⟨-, ⟨k, hk⟩, -⟩ := @keepDoubling_cases (need name element) _ hpos
    have hlarger : bufferSize name before ≤ keepDoubling (need name element) (bufferSize name before) := by
      rw [hk]
      exact Nat.le_mul_of_pos_left _ (Nat.two_pow_pos k)
    rw [if_pos hle, ← hgrow]
    dsimp only
    cases hheap : host.heap (keepDoubling (need name element) (bufferSize name before)) with
    | none => exact .inl ⟨⟨hle, rfl⟩, rfl⟩
    | some fresh =>
      refine .inr ⟨fun h => Option.some_ne_none _ h.2, _, rfl, ?_⟩
      rw [List.length_append, List.length_map, List.length_range, hsize]
      omega
  · rw [if_neg hle, keepDoubling_of_lt (Nat.lt_of_not_le hle)]
    exact .inr ⟨fun h => hle h.1, program, rfl, hsize⟩

/-- The slash, when there is one, does not leave the buffer, nor does the terminator. -/
def Clear (name : CString) (before : List (List UInt8)) (element : List UInt8) : Prop :=
  element.getLast? = some 92 ∨ (∃ e ∈ before, element.length < e.length) ∨
    ∀ k, need name element + 1 ≠ 2 ^ k * 256

theorem clear_iff (name : CString) (before : List (List UInt8)) (element : List UInt8) :
    Clear name before element ↔
      (candidate name element ++ [0]).length ≤ bufferSize name (before ++ [element]) := by
  have hdoubled := doubled_bufferSize name (before ++ [element])
  rw [List.map_append, List.map_singleton] at hdoubled
  have hmet : need name element < bufferSize name (before ++ [element]) :=
    hdoubled.met _ (List.mem_append_right _ (List.mem_singleton_self _))
  have hexact := hdoubled.eq_succ_iff
  rw [List.forall_mem_map] at hexact
  rw [Clear, List.length_append, candidate]
  by_cases hslash : element.getLast? = some 92
  · rw [if_pos hslash, List.length_append]
    exact iff_of_true (.inl hslash) hmet
  · rw [if_neg hslash, List.length_append, List.length_cons]
    have hfits : need name element + 1 ≠ bufferSize name (before ++ [element]) ↔
        element.length + (name.bytes.length + 1) + [(0 : UInt8)].length ≤
          bufferSize name (before ++ [element]) := by
      rw [List.length_singleton]
      rw [need] at hmet ⊢
      omega
    rw [← hfits, Ne, hexact, or_iff_right hslash, not_and_or, not_exists, Or.comm]
    refine or_congr_right ?_
    simp only [need, not_forall, Nat.add_le_add_iff_right, Nat.not_le, exists_prop]

theorem poke_appendName (name : CString) {element : List UInt8} {last : UInt8}
    (hlast : element.getLast? = some last) (program : List UInt8) :
    (poke program 0 element).bind (fun program => appendName name last element.length program) =
      poke program 0 (candidate name element ++ [0]) := by
  have hstores (bytes : List UInt8) :
      (poke program 0 element).bind (fun program => poke program element.length bytes) =
        poke program 0 (element ++ bytes) := by
    have h := poke_poke program 0 element bytes
    rwa [Nat.zero_add] at h
  rw [candidate, hlast]
  unfold appendName
  by_cases hslash : last = 92
  · simp only [hslash, ne_eq, not_true, if_false, if_true]
    rw [hstores, List.append_assoc]
  · have hboth (program : List UInt8) : (poke program element.length [92]).bind (fun program =>
        poke program (element.length + 1) (name.bytes ++ [0])) =
          poke program element.length (92 :: (name.bytes ++ [0])) :=
      poke_poke program element.length [92] (name.bytes ++ [0])
    rw [if_neg (fun h => hslash (Option.some.inj h))]
    simp only [ne_eq, hslash, not_false_iff, if_true, hboth]
    rw [hstores, List.append_assoc, List.cons_append]

theorem charBefore_eq {PATH : CString} {front element back : List UInt8}
    (hPATH : PATH.bytes ++ [0] = front ++ element ++ back) (hne : element ≠ []) :
    charBefore PATH (front.length + element.length) = element.getLast? := by
  obtain ⟨init, last, rfl⟩ := (List.eq_nil_or_concat' element).resolve_left hne
  have hpos : front.length + (init ++ [last]).length - 1 = (front ++ init).length := by
    simp only [List.length_append, List.length_singleton]
    omega
  have hsplit : front ++ (init ++ [last]) ++ back = (front ++ init) ++ last :: back := by
    simp only [List.append_assoc, List.singleton_append]
  rw [charBefore, if_neg (by rw [List.length_append, List.length_singleton]; omega), hpos, hPATH, hsplit,
    List.getElem?_append_right (Nat.le_refl _), Nat.sub_self, List.getLast?_concat]
  rfl

theorem writeProgram_eq {PATH : CString} {front element back : List UInt8}
    (hPATH : PATH.bytes ++ [0] = front ++ element ++ back) (hne : element ≠ []) (name : CString)
    (program : List UInt8) :
    writeProgram PATH name (front.length + element.length) front.length program =
      (poke program 0 (candidate name element ++ [0])).map (fun program => (program, element)) := by
  have hread : peek (PATH.bytes ++ [0]) front.length element.length = some element := by
    rw [hPATH, peek_append]
  have hchar := charBefore_eq hPATH hne
  obtain ⟨last, hlast⟩ : ∃ last, element.getLast? = some last :=
    ⟨element.getLast hne, List.getLast?_eq_some_getLast hne⟩
  rw [writeProgram, Nat.add_sub_cancel_left, hread, hchar, hlast, ← poke_appendName name hlast]
  simp only [Option.bind_eq_bind, Option.bind_some]
  cases poke program 0 element with
  | none => rfl
  | some program' =>
    simp only [Option.bind_some]
    cases appendName name last element.length program' <;> rfl

theorem zero_not_mem_candidate (name : CString) {element : List UInt8} (h : 0 ∉ element) :
    0 ∉ candidate name element := by
  have hname := name.no_nul
  rw [candidate]
  split
  · exact fun hmem => (List.mem_append.mp hmem).elim h hname
  · intro hmem
    rcases List.mem_append.mp hmem with hmem | hmem
    · exact h hmem
    · rcases List.mem_cons.mp hmem with hslash | hmem
      · exact absurd hslash (by decide)
      · exact hname hmem

theorem stringIn_poke {program program' text : List UInt8} (htext : 0 ∉ text)
    (h : poke program 0 (text ++ [0]) = some program') : stringIn program' = some text := by
  obtain ⟨-, rfl⟩ := poke_le h
  have hall : ∀ c ∈ text, decide (c ≠ 0) = true := by
    intro c hc
    exact decide_eq_true (fun hzero => htext (hzero ▸ hc))
  rw [overwrite_of_le (Nat.zero_le _), List.take_zero, List.nil_append, List.append_assoc, stringIn,
    if_pos (by simp), List.takeWhile_append_of_pos hall, List.singleton_append, List.takeWhile_cons_of_neg
    (by decide), List.append_nil]

theorem tryElement_refused_iff (host : Host α) (PATH name : CString) (j : Nat) {before : List (List UInt8)}
    (element : List UInt8) {program : List UInt8} (hsize : program.length = bufferSize name before) :
    tryElement host PATH name (j + element.length) j program = some .refused ↔
      Refused host name before element := by
  rw [tryElement, Nat.add_sub_cancel_left]
  change (match enlarge host (need name element) program with | none => _ | some _ => _) = _ ↔ _
  rcases enlarge_cases host name element hsize with ⟨hrefused, hnone⟩ | ⟨hgiven, program', hsome, -⟩
  · rw [hnone]
    exact iff_of_true rfl hrefused
  · rw [hsome]
    refine iff_of_false (fun h => ?_) hgiven
    obtain ⟨_, -, h⟩ := Option.bind_eq_some_iff.mp h
    obtain ⟨_, -, h⟩ := Option.bind_eq_some_iff.mp h
    cases h

/-- What becomes of an element that is not empty, if there is memory. -/
theorem tryElement_cases (host : Host α) {PATH : CString} {front element back : List UInt8}
    (hPATH : PATH.bytes ++ [0] = front ++ element ++ back) (hne : element ≠ []) (hzero : 0 ∉ element)
    (name : CString) {before : List (List UInt8)} {program : List UInt8}
    (hsize : program.length = bufferSize name before) (hgiven : ¬ Refused host name before element) :
    ¬ Clear name before element ∧
      tryElement host PATH name (front.length + element.length) front.length program = none ∨
    Clear name before element ∧ ∃ program', program'.length = bufferSize name (before ++ [element]) ∧
      tryElement host PATH name (front.length + element.length) front.length program =
        some (.asked ⟨element, candidate name element⟩ program'
          (searchForProgram host (candidate name element))) := by
  have hneed : front.length + element.length - front.length + name.bytes.length = need name element := by
    rw [Nat.add_sub_cancel_left, need]
  rw [tryElement, hneed]
  obtain ⟨program', hsome, hsize'⟩ :=
    ((enlarge_cases host name element hsize).resolve_left (fun h => hgiven h.1)).2
  rw [hsome, clear_iff, ← hsize']
  simp only [writeProgram_eq hPATH hne]
  by_cases hle : (candidate name element ++ [0]).length ≤ program'.length
  · obtain ⟨program'', hstore⟩ : ∃ program'', poke program' 0 (candidate name element ++ [0]) =
        some program'' := exists_poke (by rwa [Nat.zero_add])
    refine .inr ⟨hle, program'', length_poke hstore, ?_⟩
    rw [hstore]
    show Option.bind (stringIn program'') _ = _
    rw [stringIn_poke (zero_not_mem_candidate name hzero) hstore]
    rfl
  · refine .inl ⟨hle, ?_⟩
    rw [poke, if_neg (by rwa [Nat.zero_add])]
    rfl

/-- An empty element is a trial as well, or a fault. -/
theorem tryElement_empty (host : Host α) (PATH name : CString) (i : Nat) {program program' : List UInt8}
    {trial : Trial} {dospath : Option α}
    (h : tryElement host PATH name i i program = some (.asked trial program' dospath)) :
    trial.element = [] := by
  unfold tryElement at h
  split at h
  · cases h
  · obtain ⟨⟨written, element⟩, hwrite, h⟩ := Option.bind_eq_some_iff.mp h
    obtain ⟨path, -, h⟩ := Option.bind_eq_some_iff.mp h
    cases h
    obtain ⟨copied, hread, hwrite⟩ := Option.bind_eq_some_iff.mp hwrite
    obtain ⟨_, -, hwrite⟩ := Option.bind_eq_some_iff.mp hwrite
    obtain ⟨_, -, hwrite⟩ := Option.bind_eq_some_iff.mp hwrite
    obtain ⟨_, -, hwrite⟩ := Option.bind_eq_some_iff.mp hwrite
    cases hwrite
    rw [peek, Nat.sub_self, List.take_zero] at hread
    split at hread
    · exact (Option.some.inj hread).symm
    · cases hread

/-! ## The loop -/

/-- Along the elements, up to the first program that is found or the first buffer that is refused: none is empty,
and each leaves room for the slash. -/
def Passable (host : Host α) (name : CString) : List (List UInt8) → List (List UInt8) → Prop
  | _, [] => True
  | before, element :: elements =>
    Refused host name before element ∨
      element ≠ [] ∧ Clear name before element ∧
        (searchForProgram host (candidate name element) = none →
          Passable host name (before ++ [element]) elements)

theorem searchFrom_skip (host : Host α) (PATH name : CString) {element : List UInt8}
    (h : 59 ∉ element) (unread : List UInt8) (i j : Nat) (program : List UInt8) :
    searchFrom host PATH name (element ++ unread) i j program =
      searchFrom host PATH name unread (i + element.length) j program := by
  induction element generalizing i with
  | nil => rfl
  | cons c element ih =>
    obtain ⟨hc, hrest⟩ := not_or.mp (fun hmem => h (List.mem_cons.mpr hmem))
    rw [List.cons_append, searchFrom, if_neg (Ne.symm hc), ih hrest, List.length_cons]
    congr 1
    omega

/-- No trial is made for an empty element. -/
theorem element_ne_nil_of_mem (host : Host α) (name : CString) {elements : List (List UInt8)} {trial : Trial}
    (h : trial ∈ (tryInOrder host name (elements.filter (· ≠ []))).1) : trial.element ≠ [] := by
  have hmem (elements : List (List UInt8)) (h : trial ∈ (tryInOrder host name elements).1) :
      trial.element ∈ elements := by
    induction elements with
    | nil => exact absurd h List.not_mem_nil
    | cons element elements ih =>
      rw [tryInOrder] at h
      cases hfound : searchForProgram host (candidate name element) with
      | some dospath =>
        simp only [hfound, List.mem_singleton] at h
        rw [h]
        exact List.mem_cons_self
      | none =>
        simp only [hfound, List.mem_cons] at h
        rcases h with rfl | h
        · exact List.mem_cons_self
        · exact List.mem_cons_of_mem _ (ih h)
  exact of_decide_eq_true (List.mem_filter.mp (hmem _ h)).2

/-- A trial for an empty element is one too many. -/
theorem not_searches_empty (host : Host α) (name : CString) (elements : List (List UInt8)) {trial : Trial}
    (h : trial.element = []) (r : List Trial × Except SearchErrno (Option α)) :
    ¬ Searches host name elements (some (trial :: r.1, r.2)) := by
  rintro ⟨trials, answer, hrun, hanswer⟩
  cases hrun
  have hmem : trial ∈ (tryInOrder host name (elements.filter (· ≠ []))).1 := by
    split at hanswer
    · rw [hanswer]
      exact List.mem_cons_self
    · exact hanswer.2.subset List.mem_cons_self
  exact element_ne_nil_of_mem host name hmem h

theorem searches_refused (host : Host α) (name : CString) (elements : List (List UInt8)) :
    Searches host name elements (some ([], .error .ENOMEM)) :=
  ⟨_, _, rfl, rfl, List.nil_prefix⟩

section Elements

variable (host : Host α) (name : CString) {element : List UInt8} (hne : element ≠ [])
  (elements : List (List UInt8))

include hne

theorem searches_found {dospath : α}
    (hfound : searchForProgram host (candidate name element) = some dospath) :
    Searches host name (element :: elements)
      (some ([⟨element, candidate name element⟩], .ok (some dospath))) := by
  refine ⟨_, _, rfl, ?_⟩
  rw [List.filter_cons_of_pos (by rwa [decide_eq_true_iff]), tryInOrder, hfound]

/-- The trial that finds nothing goes before the others. -/
theorem searches_cons_iff (hnone : searchForProgram host (candidate name element) = none)
    (run : Option (List Trial × Except SearchErrno (Option α))) :
    Searches host name (element :: elements)
        (run.map (fun r => (⟨element, candidate name element⟩ :: r.1, r.2))) ↔
      Searches host name elements run := by
  have htry : tryInOrder host name ((element :: elements).filter (· ≠ [])) =
      (⟨element, candidate name element⟩ :: (tryInOrder host name (elements.filter (· ≠ []))).1,
        (tryInOrder host name (elements.filter (· ≠ []))).2) := by
    rw [List.filter_cons_of_pos (by rwa [decide_eq_true_iff]), tryInOrder, hnone]
  cases run with
  | none =>
    refine iff_of_false ?_ ?_
    · rintro ⟨_, _, h, -⟩
      cases h
    · rintro ⟨_, _, h, -⟩
      cases h
  | some r =>
    obtain ⟨trials, answer⟩ := r
    constructor
    · rintro ⟨_, _, h, hanswer⟩
      cases h
      refine ⟨_, _, rfl, ?_⟩
      rw [htry] at hanswer
      cases answer with
      | ok dospath =>
        cases hanswer
        rfl
      | error errno => exact ⟨hanswer.1, (List.cons_prefix_cons.mp hanswer.2).2⟩
    · rintro ⟨_, _, h, hanswer⟩
      cases h
      refine ⟨_, _, rfl, ?_⟩
      rw [htry]
      cases answer with
      | ok dospath =>
        dsimp only at hanswer ⊢
        rw [hanswer]
      | error errno => exact ⟨hanswer.1, List.cons_prefix_cons.mpr ⟨rfl, hanswer.2⟩⟩

end Elements

/-- The loop behind an element. -/
def goOn (next : List UInt8 → Option (List Trial × Except SearchErrno (Option α))) :
    Option (Tried α) → Option (List Trial × Except SearchErrno (Option α))
  | none => none
  | some .refused => some ([], .error .ENOMEM)
  | some (.asked trial _ (some dospath)) => some ([trial], .ok (some dospath))
  | some (.asked trial program none) => (next program).map (fun r => (trial :: r.1, r.2))

theorem searchFrom_nil (host : Host α) (PATH name : CString) (i j : Nat) (program : List UInt8) :
    searchFrom host PATH name [] i j program =
      goOn (fun _ => some ([], .ok none)) (tryElement host PATH name i j program) := by
  rw [searchFrom]
  rcases tryElement host PATH name i j program with _ | _ | ⟨_, _, _ | _⟩ <;> rfl

theorem searchFrom_separator (host : Host α) (PATH name : CString) (unread : List UInt8) (i j : Nat)
    (program : List UInt8) : searchFrom host PATH name (59 :: unread) i j program =
      goOn (searchFrom host PATH name unread (i + 1) (i + 1)) (tryElement host PATH name i j program) := by
  rw [searchFrom, if_pos rfl]
  rcases tryElement host PATH name i j program with _ | _ | ⟨_, _, _ | _⟩ <;> rfl

theorem not_searches_none (host : Host α) (name : CString) (elements : List (List UInt8)) :
    ¬ Searches host name elements none := by
  rintro ⟨_, _, h, -⟩
  cases h

/-- One round: an element that is passable goes before the others. -/
theorem searches_goOn_iff (host : Host α) {PATH : CString} {front element back : List UInt8}
    (hPATH : PATH.bytes ++ [0] = front ++ element ++ back) (hzero : 0 ∉ element) (name : CString)
    {before elements : List (List UInt8)} {program : List UInt8}
    (hsize : program.length = bufferSize name before)
    {next : List UInt8 → Option (List Trial × Except SearchErrno (Option α))}
    (hnext : ∀ program', program'.length = bufferSize name (before ++ [element]) →
      (Searches host name elements (next program') ↔ Passable host name (before ++ [element]) elements)) :
    Searches host name (element :: elements)
        (goOn next (tryElement host PATH name (front.length + element.length) front.length program)) ↔
      Passable host name before (element :: elements) := by
  have hrefused := tryElement_refused_iff host PATH name front.length element hsize
  rw [Passable]
  by_cases hgiven : Refused host name before element
  · rw [hrefused.mpr hgiven]
    exact iff_of_true (searches_refused host name _) (.inl hgiven)
  · rw [or_iff_right hgiven]
    by_cases hne : element = []
    · refine iff_of_false ?_ (fun h => h.1 hne)
      rw [hne, List.length_nil, Nat.add_zero] at hrefused ⊢
      cases htry : tryElement host PATH name front.length front.length program with
      | none => exact not_searches_none host name _
      | some tried =>
        cases tried with
        | refused => exact absurd (hrefused.mp htry) (hne ▸ hgiven)
        | asked trial program' dospath =>
          have hempty := tryElement_empty host PATH name front.length htry
          cases dospath with
          | some dospath => exact not_searches_empty host name _ hempty ([], _)
          | none =>
            cases hrun : next program' with
            | none =>
              rw [goOn, hrun]
              exact not_searches_none host name _
            | some r =>
              rw [goOn, hrun]
              exact not_searches_empty host name _ hempty r
    · rcases tryElement_cases host hPATH hne hzero name hsize hgiven with
        ⟨hclear, hnone⟩ | ⟨hclear, program', hsize', hasked⟩
      · rw [hnone]
        exact iff_of_false (not_searches_none host name _) (fun h => hclear h.2.1)
      · rw [hasked]
        cases hfound : searchForProgram host (candidate name element) with
        | some dospath =>
          exact iff_of_true (searches_found host name hne elements hfound)
            ⟨hne, hclear, fun h => absurd h (Option.some_ne_none _)⟩
        | none =>
          rw [goOn, searches_cons_iff host name hne elements hfound, hnext program' hsize']
          exact ⟨fun h => ⟨hne, hclear, fun _ => h⟩, fun h => h.2.2 rfl⟩

/-- The loop, at the beginning of an element. -/
theorem searchFrom_iff (host : Host α) {PATH : CString} (name : CString) {elements : List (List UInt8)}
    (hne : elements ≠ []) (hseparator : ∀ element ∈ elements, 59 ∉ element) {front : List UInt8}
    (hPATH : PATH.bytes = front ++ [59].intercalate elements) {before : List (List UInt8)}
    {program : List UInt8} (hsize : program.length = bufferSize name before) :
    Searches host name elements
        (searchFrom host PATH name ([59].intercalate elements) front.length front.length program) ↔
      Passable host name before elements := by
  induction elements generalizing front before program with
  | nil => exact absurd rfl hne
  | cons element elements ih =>
    have hhere := hseparator element List.mem_cons_self
    have hzero {back : List UInt8} (h : PATH.bytes = front ++ (element ++ back)) : 0 ∉ element := by
      intro hmem
      refine PATH.no_nul ?_
      rw [h]
      exact List.mem_append_right _ (List.mem_append_left _ hmem)
    cases elements with
    | nil =>
      rw [List.intercalate_singleton] at hPATH ⊢
      rw [← List.append_nil element] at hPATH
      have hsearch := searchFrom_skip host PATH name hhere [] front.length front.length program
      rw [List.append_nil] at hsearch
      rw [hsearch, searchFrom_nil]
      have hend : PATH.bytes ++ [0] = front ++ element ++ [0] := by rw [hPATH, List.append_nil]
      refine searches_goOn_iff host hend (hzero hPATH) name hsize (fun _ _ => ?_)
      exact iff_of_true ⟨_, _, rfl, rfl⟩ trivial
    | cons following elements =>
      rw [List.intercalate_cons_cons, List.append_assoc] at hPATH ⊢
      rw [List.singleton_append] at hPATH ⊢
      rw [searchFrom_skip host PATH name hhere, searchFrom_separator]
      have hend : PATH.bytes ++ [0] =
          front ++ element ++ (59 :: [59].intercalate (following :: elements) ++ [0]) := by
        rw [hPATH]
        simp only [List.append_assoc]
      have hfront : (front ++ (element ++ [59])).length = front.length + element.length + 1 := by
        simp only [List.length_append, List.length_singleton]
        omega
      refine searches_goOn_iff host hend (hzero hPATH) name hsize (fun program' hsize' => ?_)
      rw [← hfront]
      refine ih (List.cons_ne_nil _ _) (fun e he => hseparator e (List.mem_cons_of_mem _ he)) ?_ hsize'
      rw [hPATH]
      simp only [List.append_assoc, List.singleton_append]

/-- **The search.** When the elements of PATH are tried as they should be. -/
theorem searched_right_iff (host : Host α) (PATH path : CString) (h : isAbsolute path.bytes = false) :
    Searches host path (elements PATH) (searchPathForProgram host (some PATH) path) ↔
      (host.heap 256 = none ∨ Passable host path [] (elements PATH)) := by
  rw [searchPathForProgram, h, if_neg Bool.false_ne_true]
  cases hheap : host.heap 256 with
  | none => exact iff_of_true (searches_refused host path _) (.inl rfl)
  | some fresh =>
    rw [or_iff_right (Option.some_ne_none _)]
    have hloop := @searchFrom_iff α host PATH path _ (List.splitOn_ne_nil 59 PATH.bytes)
      (fun _ h => not_mem_of_mem_splitOn h) [] (List.intercalate_splitOn 59).symm []
      ((List.range 256).map fresh) (by rw [List.length_map, List.length_range]; rfl)
    rw [List.intercalate_splitOn] at hloop
    exact hloop

/-! ### Three searches -/

/-- A system with so much memory, and one program. -/
def withProgram (path : List UInt8) : Host Unit where
  executable asked := if asked = path then some () else none
  heap _ := some (fun _ => 0)

/-- `ls`. -/
def ls : CString := ⟨[108, 115], by decide⟩

/-- `C:\bin;D:\`, where `D:\ls.exe` is. -/
theorem searched_right_ls :
    Searches (withProgram [68, 58, 92, 108, 115, 46, 101, 120, 101]) ls
      (elements ⟨[67, 58, 92, 98, 105, 110, 59, 68, 58, 92], by decide⟩)
      (searchPathForProgram (withProgram [68, 58, 92, 108, 115, 46, 101, 120, 101])
        (some ⟨[67, 58, 92, 98, 105, 110, 59, 68, 58, 92], by decide⟩) ls) := by
  refine (searched_right_iff _ _ ls (by decide)).mpr (.inr ?_)
  refine .inr ⟨by decide, .inr (.inr fun k h => ?_), fun _ => .inr ⟨by decide, .inl rfl, fun _ => trivial⟩⟩
  have hpos := Nat.two_pow_pos k
  change 9 = 2 ^ k * 256 at h
  omega

/-- PATH begins with a semicolon, or its element and the name have 255 characters. -/
theorem not_searched_right :
    ¬ Searches (withProgram []) ls (elements ⟨[59, 67, 58], by decide⟩)
        (searchPathForProgram (withProgram []) (some ⟨[59, 67, 58], by decide⟩) ls) ∧
      ¬ Searches (withProgram []) ls (elements (letters 253))
        (searchPathForProgram (withProgram []) (some (letters 253)) ls) := by
  constructor
  · rw [searched_right_iff _ _ ls (by decide)]
    rintro (hheap | hrefused | ⟨hne, -⟩)
    · exact Option.some_ne_none _ hheap
    · exact Option.some_ne_none _ hrefused.2
    · exact hne rfl
  · rw [searched_right_iff _ _ ls rfl]
    generalize hn : 253 = n
    have hsplit : elements (letters n) = [List.replicate n 97] :=
      List.splitOn_eq_singleton (fun hmem => absurd (List.eq_of_mem_replicate hmem) (by decide))
    rw [hsplit]
    rintro (hheap | hrefused | ⟨-, hslash | ⟨_, hnone, -⟩ | hpower, -⟩)
    · exact Option.some_ne_none _ hheap
    · exact Option.some_ne_none _ hrefused.2
    · rw [List.getLast?_replicate, if_neg (by omega)] at hslash
      exact absurd hslash (by decide)
    · exact absurd hnone List.not_mem_nil
    · refine hpower 0 ?_
      rw [need, List.length_replicate, ← hn]
      rfl

end WindowsLibc.Spawn
