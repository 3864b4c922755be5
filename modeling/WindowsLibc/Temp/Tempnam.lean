import WindowsLibc.Temp.Mkstemp

/-!
# Names of temporary files (`stdio/temp.c`)

`wlibc_tempnam`, `wlibc_tmpnam` and `wlibc_tmpfile` try up to 16 names. Each attempt appends a random string to
the name of the attempt before, in the same buffer, which has room for one of them.

* A string is stored with its terminator; one that does not fit in its buffer is a fault.
* `retry_isSome_iff` says which attempts leave the buffer.
* `names_iff`: the names are as they should be exactly if there is no second attempt.
-/

namespace WindowsLibc.Temp

/-! ## The functions -/

/-- `strcat(s, t)` in a buffer of so many bytes -/
def strcat (size : Nat) (s t : List UInt8) : Option (List UInt8) :=
  if (s ++ t).length < size then some (s ++ t) else none

/-- `append_random_string` -/
def appendRandomString (size : Nat) (s : List UInt8) (rn : UInt32) : Option (List UInt8) :=
  strcat size s (ultoa rn)

/-- `MAX_TRIES` of `temp.c` -/
def maxNames : Nat := 16

/-- "Keep trying till we succeed": the last name, and the names that were tried. -/
def retry (size : Nat) (accepted : Nat → List UInt8 → Bool) (random : Nat → UInt32) :
    Nat → Nat → List UInt8 → Option (List UInt8 × List (List UInt8))
  | 0, _, s => some (s, [])
  | left + 1, k, s => do
    let s ← appendRandomString size s (random k)
    if accepted k s then some (s, [s])
    else (retry size accepted random left (k + 1) s).map (fun r => (r.1, s :: r.2))

/-- `status == -1 && errno == ENOENT` -/
def isAbsent : Except Errno Unit → Bool
  | .error .ENOENT => true
  | .error _ => false
  | .ok () => false

/-- "WLIBC directory preference": what is given, what `getenv("TMPDIR")` returns, what `wlibc_tmpdir` does. -/
def tempnamDir (dir environment : Option (List UInt8)) (tmpdir : List UInt8) : List UInt8 :=
  dir.getD (environment.getD tmpdir)

/-- Where the name of a temporary file begins: the directory, a slash if it needs one, and the prefix.
`ahead` is the byte in front of the directory, which is read if it is empty. -/
def tempnamFront (ahead : UInt8) (dir : List UInt8) (start : Option (List UInt8)) : List UInt8 :=
  let last := dir.getLast?.getD ahead
  dir ++ (if last ≠ 0x2F ∧ last ≠ 0x5C then [0x2F] else []) ++ start.getD []

/-- `wlibc_tempnam`, with the names that it tried. Memory is granted. -/
def tempnam (access : Nat → List UInt8 → Except Errno Unit) (random : Nat → UInt32) (tmpdir : List UInt8)
    (environment : Option (List UInt8)) (ahead : UInt8) (dir start : Option (List UInt8)) :
    Option (List UInt8 × List (List UInt8)) := do
  let dir := tempnamDir dir environment tmpdir
  let size := dir.length + (start.getD []).length + 10
  let tempname ← strcat size [] dir
  let last := dir.getLast?.getD ahead
  let tempname ← strcat size tempname (if last ≠ 0x2F ∧ last ≠ 0x5C then [0x2F] else [])
  let tempname ← strcat size tempname (start.getD [])
  retry size (fun k name => isAbsent (access k name)) random maxNames 0 tempname

/-- `L_tmpnam` -/
def lTmpnam : Nat := 260

/-- The temporary directory and a separator, in a buffer of `L_tmpnam` bytes. -/
def tmpnamFront (tmpdir : List UInt8) : Option (List UInt8) := do
  let tempname ← strcat lTmpnam [] tmpdir
  strcat lTmpnam tempname [0x5C]

/-- `wlibc_tmpnam`, with the names that it tried. -/
def tmpnam (access : Nat → List UInt8 → Except Errno Unit) (random : Nat → UInt32) (tmpdir : List UInt8)
    (name : Option (List UInt8)) : Option (Option (List UInt8) × List (List UInt8)) := do
  let tempname ← tmpnamFront tmpdir
  match name with
  | none =>
    (retry lTmpnam (fun k name => isAbsent (access k name)) random maxNames 0 tempname).map
      (fun r => (some r.1, r.2))
  | some name => do
    let tempname ← strcat lTmpnam tempname name
    match access 0 tempname with
    | .ok () => some (none, [])
    | .error _ => some (some tempname, [])

/-- `wlibc_tmpfile`, with the names that it tried. `fopen` tells whether a stream is opened with "w+Dx". -/
def tmpfile (fopen : Nat → List UInt8 → Bool) (random : Nat → UInt32) (tmpdir : List UInt8) :
    Option (List UInt8 × List (List UInt8)) := do
  let filename ← tmpnamFront tmpdir
  retry lTmpnam fopen random maxNames 0 filename

/-! ## What is wanted -/

/-- Every string fits, and the name of every attempt is what is in front and one random string. -/
def Named {α : Type*} (front : List UInt8) (random : Nat → UInt32)
    (r : Option (α × List (List UInt8))) : Prop :=
  ∃ result tried, r = some (result, tried) ∧
    ∀ k name, tried[k]? = some name → name = front ++ ultoa (random k)

/-! ## Attempts -/

/-- The random strings of so many attempts, one behind the other. -/
def suffixes (random : Nat → UInt32) (k : Nat) : Nat → List UInt8
  | 0 => []
  | n + 1 => ultoa (random k) ++ suffixes random (k + 1) n

section

variable {size : Nat} {accepted : Nat → List UInt8 → Bool} {random : Nat → UInt32}

theorem strcat_of_lt {s t : List UInt8} (h : (s ++ t).length < size) : strcat size s t = some (s ++ t) :=
  if_pos h

/-- All attempts stay in the buffer exactly if it has room for the random strings of all of them together. -/
theorem retry_isSome_iff (left k : Nat) (s : List UInt8) :
    (retry size accepted random left k s).isSome ↔ ∀ m < left,
      (∀ j < m, accepted (k + j) (s ++ suffixes random k (j + 1)) = false) →
        (s ++ suffixes random k (m + 1)).length < size := by
  induction left generalizing k s with
  | zero => exact ⟨fun _ m hm => absurd hm (Nat.not_lt_zero m), fun _ => rfl⟩
  | succ left ih =>
    have hfirst : suffixes random k 1 = ultoa (random k) := List.append_nil _
    have hnext (m : Nat) : s ++ suffixes random k (m + 1 + 1) =
        s ++ ultoa (random k) ++ suffixes random (k + 1) (m + 1) := (List.append_assoc _ _ _).symm
    have hindex (j : Nat) : k + 1 + j = k + (j + 1) := by omega
    rw [retry, appendRandomString]
    by_cases hroom : (s ++ ultoa (random k)).length < size
    · rw [strcat_of_lt hroom, Option.bind_eq_bind, Option.bind_some]
      by_cases haccepted : accepted k (s ++ ultoa (random k)) = true
      · rw [if_pos haccepted]
        refine ⟨fun _ m _ hbefore => ?_, fun _ => rfl⟩
        cases m with
        | zero =>
          rw [hfirst]
          exact hroom
        | succ m =>
          have hnot := hbefore 0 (Nat.succ_pos m)
          rw [Nat.add_zero, hfirst, haccepted] at hnot
          cases hnot
      · rw [if_neg haccepted, Option.isSome_map, ih]
        have hrefused := Bool.eq_false_iff.mpr haccepted
        constructor
        · intro h m hm hbefore
          cases m with
          | zero =>
            rw [hfirst]
            exact hroom
          | succ m =>
            rw [hnext]
            refine h m (Nat.lt_of_succ_lt_succ hm) (fun j hj => ?_)
            rw [hindex, ← hnext]
            exact hbefore (j + 1) (Nat.succ_lt_succ hj)
        · intro h m hm hbefore
          rw [← hnext]
          refine h (m + 1) (Nat.succ_lt_succ hm) (fun j hj => ?_)
          cases j with
          | zero =>
            rw [Nat.add_zero, hfirst]
            exact hrefused
          | succ j =>
            rw [hnext, ← hindex]
            exact hbefore j (Nat.lt_of_succ_lt_succ hj)
    · rw [strcat, if_neg hroom]
      refine ⟨fun h => (by cases h), fun h => absurd (h 0 (Nat.succ_pos left) ?_) ?_⟩
      · exact fun j hj => absurd hj (Nat.not_lt_zero j)
      · rw [hfirst]
        exact hroom

/-- The name of the next attempt goes on where the last one ended. -/
theorem retry_tried {left k : Nat} {s last : List UInt8} {tried : List (List UInt8)}
    (h : retry size accepted random (left + 1) k s = some (last, tried)) :
    tried[0]? = some (s ++ ultoa (random k)) := by
  obtain ⟨s', happend, h⟩ := Option.bind_eq_some_iff.mp h
  rw [appendRandomString, strcat] at happend
  split at happend
  · cases happend
    split at h
    · cases h
      rfl
    · obtain ⟨r, _, heq⟩ := Option.map_eq_some_iff.mp h
      cases heq
      rfl
  · cases happend

/-- With room for one random string: the names are right exactly if the first one is accepted. -/
theorem named_retry_iff {front : List UInt8} (hroom : (front ++ ultoa (random 0)).length < size) (left : Nat) :
    Named front random (retry size accepted random (left + 2) 0 front) ↔
      accepted 0 (front ++ ultoa (random 0)) = true := by
  have hfirst : appendRandomString size front (random 0) = some (front ++ ultoa (random 0)) :=
    strcat_of_lt hroom
  by_cases haccepted : accepted 0 (front ++ ultoa (random 0)) = true
  · refine ⟨fun _ => haccepted, fun _ => ⟨front ++ ultoa (random 0), [front ++ ultoa (random 0)], ?_, ?_⟩⟩
    · rw [retry, hfirst, Option.bind_eq_bind, Option.bind_some, if_pos haccepted]
    · intro k name hname
      cases k with
      | zero => exact (Option.some.inj hname).symm
      | succ k => cases hname
  · refine ⟨fun hnamed => ?_, fun h => absurd h haccepted⟩
    obtain ⟨last, tried, hretry, hnames⟩ := hnamed
    rw [retry, hfirst, Option.bind_eq_bind, Option.bind_some, if_neg haccepted] at hretry
    obtain ⟨⟨last', tried'⟩, hrest, heq⟩ := Option.map_eq_some_iff.mp hretry
    cases heq
    -- the second name is longer than what is in front and one random string
    have hsecond := hnames 1 _ (retry_tried hrest)
    have hlength := congrArg List.length hsecond
    have hpos := length_ultoa_pos (random 0)
    simp only [List.length_append, Nat.zero_add] at hlength
    omega

end

/-! ## The buffers -/

section

variable (access : Nat → List UInt8 → Except Errno Unit) (fopen : Nat → List UInt8 → Bool)
  (random : Nat → UInt32) (tmpdir : List UInt8)

/-- What is in front of the random string fits in what is allocated. -/
theorem tempnam_eq (environment : Option (List UInt8)) (ahead : UInt8) (dir start : Option (List UInt8)) :
    tempnam access random tmpdir environment ahead dir start =
      retry ((tempnamDir dir environment tmpdir).length + (start.getD []).length + 10)
        (fun k name => isAbsent (access k name)) random maxNames 0
        (tempnamFront ahead (tempnamDir dir environment tmpdir) start) := by
  generalize hdir : tempnamDir dir environment tmpdir = d
  generalize hslash : (if d.getLast?.getD ahead ≠ 0x2F ∧ d.getLast?.getD ahead ≠ 0x5C then [0x2F] else [] :
    List UInt8) = slash
  have hshort : slash.length ≤ 1 := by
    rw [← hslash]
    split <;> decide
  generalize hsize : d.length + (start.getD []).length + 10 = size
  have hone : strcat size [] d = some d := strcat_of_lt (by rw [List.nil_append]; omega)
  have htwo : strcat size d slash = some (d ++ slash) := strcat_of_lt (by rw [List.length_append]; omega)
  have hthree : strcat size (d ++ slash) (start.getD []) = some (d ++ slash ++ start.getD []) :=
    strcat_of_lt (by rw [List.length_append, List.length_append]; omega)
  simp only [tempnam, tempnamFront, hdir, hslash, hsize, hone, htwo, hthree, Option.bind_eq_bind,
    Option.bind_some]

theorem length_tempnamFront_le (ahead : UInt8) (dir : List UInt8) (start : Option (List UInt8)) :
    (tempnamFront ahead dir start).length ≤ dir.length + 1 + (start.getD []).length := by
  simp only [tempnamFront, List.length_append]
  split
  · exact Nat.le_refl _
  · rw [List.length_nil]
    omega

theorem tmpnamFront_eq (h : (tmpdir ++ [0x5C]).length < lTmpnam) :
    tmpnamFront tmpdir = some (tmpdir ++ [0x5C]) := by
  have hshort : ([] ++ tmpdir).length < lTmpnam := by
    rw [List.length_append, List.length_singleton] at h
    rw [List.nil_append]
    omega
  rw [tmpnamFront, strcat_of_lt hshort, Option.bind_eq_bind, Option.bind_some, List.nil_append,
    strcat_of_lt h]

/-- A name that is given has to fit. -/
theorem named_tmpnam_iff (hfront : tmpnamFront tmpdir = some (tmpdir ++ [0x5C])) (name : List UInt8) :
    Named (tmpdir ++ [0x5C]) random (tmpnam access random tmpdir (some name)) ↔
      (tmpdir ++ [0x5C] ++ name).length < lTmpnam := by
  rw [tmpnam, hfront, Option.bind_eq_bind, Option.bind_some]
  by_cases hroom : (tmpdir ++ [0x5C] ++ name).length < lTmpnam
  · simp only [strcat_of_lt hroom, Option.bind_some]
    refine ⟨fun _ => hroom, fun _ => ?_⟩
    cases access 0 (tmpdir ++ [0x5C] ++ name) with
    | ok status => exact ⟨none, [], rfl, fun k name hname => (by cases hname)⟩
    | error errno => exact ⟨some _, [], rfl, fun k name hname => (by cases hname)⟩
  · have hfault : strcat lTmpnam (tmpdir ++ [0x5C]) name = none := if_neg hroom
    simp only [hfault]
    refine ⟨?_, fun h => absurd h hroom⟩
    rintro ⟨result, tried, hr, _⟩
    cases hr

/-- The names that are tried for `wlibc_tempnam`, and, if the temporary directory leaves room for a random string,
for `wlibc_tmpfile` and for `wlibc_tmpnam` without a name, fit and are right exactly if the first one is accepted.
A name that is given to `wlibc_tmpnam` has to fit. -/
theorem names_iff (environment : Option (List UInt8)) (ahead : UInt8) (dir start : Option (List UInt8))
    (name : List UInt8) :
    (Named (tempnamFront ahead (tempnamDir dir environment tmpdir) start) random
        (tempnam access random tmpdir environment ahead dir start) ↔
      isAbsent (access 0 (tempnamFront ahead (tempnamDir dir environment tmpdir) start ++
        ultoa (random 0))) = true) ∧
    ((∀ k, (tmpdir ++ [0x5C] ++ ultoa (random k)).length < lTmpnam) →
      (Named (tmpdir ++ [0x5C]) random (tmpnam access random tmpdir none) ↔
        isAbsent (access 0 (tmpdir ++ [0x5C] ++ ultoa (random 0))) = true) ∧
      (Named (tmpdir ++ [0x5C]) random (tmpfile fopen random tmpdir) ↔
        fopen 0 (tmpdir ++ [0x5C] ++ ultoa (random 0)) = true) ∧
      (Named (tmpdir ++ [0x5C]) random (tmpnam access random tmpdir (some name)) ↔
        (tmpdir ++ [0x5C] ++ name).length < lTmpnam)) := by
  constructor
  · have hlength := length_tempnamFront_le ahead (tempnamDir dir environment tmpdir) start
    have hdigits := length_ultoa_le (random 0)
    rw [tempnam_eq]
    refine named_retry_iff ?_ 14
    rw [List.length_append]
    omega
  intro htmpdir
  have hfront : tmpnamFront tmpdir = some (tmpdir ++ [0x5C]) := by
    have hone := htmpdir 0
    rw [List.length_append] at hone
    exact tmpnamFront_eq tmpdir (by omega)
  refine ⟨?_, ?_, named_tmpnam_iff access random tmpdir hfront name⟩
  · refine Iff.trans ?_
      (@named_retry_iff lTmpnam (fun k name => isAbsent (access k name)) random _ (htmpdir 0) 14)
    rw [tmpnam, hfront, Option.bind_eq_bind, Option.bind_some]
    constructor
    · rintro ⟨result, tried, hr, hnames⟩
      obtain ⟨⟨last, tried'⟩, hretry, heq⟩ := Option.map_eq_some_iff.mp hr
      cases heq
      exact ⟨last, tried', hretry, hnames⟩
    · rintro ⟨last, tried, hretry, hnames⟩
      refine ⟨some last, tried, ?_, hnames⟩
      change Option.map _ (retry lTmpnam _ random (14 + 2) 0 (tmpdir ++ [0x5C])) = _
      rw [hretry]
      rfl
  · rw [tmpfile, hfront, Option.bind_eq_bind, Option.bind_some]
    exact named_retry_iff (htmpdir 0) 14

end

/-- "d/1" is free, and so are the names in "t". -/
theorem names_free : ∃ random : Nat → UInt32,
    Named [0x64, 0x2F] random (tempnam (fun _ _ => .error .ENOENT) random [0x74] none 0 (some [0x64]) none) ∧
    Named [0x74, 0x5C] random (tmpnam (fun _ _ => .error .ENOENT) random [0x74] none) ∧
    Named [0x74, 0x5C] random (tmpfile (fun _ _ => true) random [0x74]) ∧
    Named [0x74, 0x5C] random (tmpnam (fun _ _ => .error .ENOENT) random [0x74] (some [0x6E])) := by
  have hroom : ∀ k : Nat, ([0x74] ++ [0x5C] ++ ultoa ((fun _ => 1 : Nat → UInt32) k)).length < lTmpnam := by
    intro k
    change ([0x74] ++ [0x5C] ++ ultoa 1).length < lTmpnam
    rw [ultoa_of_lt (by decide)]
    decide
  obtain ⟨htempnam, hnames⟩ := names_iff (fun _ _ => .error .ENOENT) (fun _ _ => true) (fun _ => 1) [0x74] none 0
    (some [0x64]) none [0x6E]
  obtain ⟨htmpnam, htmpfile, hname⟩ := hnames hroom
  exact ⟨fun _ => 1, htempnam.mpr rfl, htmpnam.mpr rfl, htmpfile.mpr rfl, hname.mpr (by decide)⟩

/-- Where all names are taken, the ninth random number leaves the eleven bytes for "d/". -/
theorem tempnam_taken : tempnam (fun _ _ => .ok ()) (fun _ => 0) [0x74] none 0 (some [0x64]) none = none ∧
    ¬ Named [0x64, 0x2F] (fun _ => 0)
      (tempnam (fun _ _ => .ok ()) (fun _ => 0) [0x74] none 0 (some [0x64]) none) := by
  have hnone : tempnam (fun _ _ => .ok ()) (fun _ => 0) [0x74] none 0 (some [0x64]) none = none := by
    rw [tempnam_eq, ← Option.not_isSome_iff_eq_none, retry_isSome_iff]
    intro hfits
    exact absurd (hfits 8 (by decide) (fun _ _ => rfl)) (by decide +kernel)
  refine ⟨hnone, ?_⟩
  rw [hnone]
  rintro ⟨result, tried, hr, _⟩
  cases hr

end WindowsLibc.Temp
