import WindowsLibc.Temp.RandomString

/-!
# Temporary files from templates (`stdlib/mkstemp.c`)

A template ends in six `X` and a suffix. `gen_tempstring` puts the digits of a random number where it finds an
`X`, and `wlibc_common_mkstemp` does so for up to 32 attempts. Behind the first one there is no `X` left, so
all of them are made with one name. The length of the suffix counts only if a file is to be created, and errno
is cleared at the end whatever came of it.

`mkstemp_right_iff` says when all is as it should be: in the right place, the one name is accepted before a random
number would have given another one.
-/

namespace WindowsLibc.Temp

/-- An error, by its errno. -/
inductive Errno where
  | EINVAL
  | ENOENT
  | other (code : Nat)
  deriving DecidableEq

/-! ## Names -/

/-- `char buffer[8]`, filled by `_ultoa_s` -/
def randomBuffer (rn : UInt32) : List UInt8 := ultoa rn ++ List.replicate (8 - (ultoa rn).length) 0

/-- The body of the loop of `gen_tempstring`. -/
def fill (c digit : UInt8) : UInt8 :=
  if c = 0x58 then if digit ≠ 0 then digit else c ||| 32 else c

/-- `gen_tempstring(template + start, 6)` -/
def genTempstring (template : List UInt8) (start : Nat) (rn : UInt32) : List UInt8 :=
  template.take start ++ List.zipWith fill ((template.drop start).take 6) (randomBuffer rn) ++
    template.drop (start + 6)

/-- `validate_template`, with the length that it stores. -/
def validateTemplate (template : List UInt8) (suffixlen : Int) : Option Nat :=
  if suffixlen < 0 then none
  else if suffixlen + 6 > template.length then none
  else if (List.range 6).all
      (fun i => template[template.length - suffixlen.toNat - 1 - i]? = some 0x58) then
    some template.length
  else none

/-! ## Attempts -/

/-- What the system says to the attempts. -/
structure System where
  openat : Nat → List UInt8 → UInt32 → Except Errno Nat
  mkdir : Nat → List UInt8 → Except Errno Nat
  stat : Nat → List UInt8 → Except Errno Nat

/-- After `openat` or `wlibc_common_mkdir`: whether the name is accepted, and `status`. -/
def created : Except Errno Nat → Bool × Int
  | .ok fd => (true, fd)
  | .error _ => (false, -1)

/-- After `wlibc_common_stat`. -/
def absent : Except Errno Nat → Bool × Int
  | .ok _ => (false, 0)
  | .error .ENOENT => (true, 0)
  | .error _ => (false, -1)

/-- The template after some attempts, `status`, and the names that were tried. -/
structure Outcome where
  template : List UInt8
  status : Int
  tried : List (List UInt8)

/-- The loop, from one attempt on. -/
def attempts (answer : Nat → List UInt8 → Bool × Int) (random : Nat → UInt32) (start : Nat) :
    Nat → Nat → List UInt8 → Int → Outcome
  | 0, _, template, status => ⟨template, status, []⟩
  | left + 1, k, template, _ =>
    let template := genTempstring template start (random k)
    let (accepted, status) := answer k template
    if accepted then ⟨template, status, [template]⟩
    else
      let rest := attempts answer random start left (k + 1) template status
      { rest with tried := template :: rest.tried }

inductive Operation where
  | createFile
  | createDir
  | tryName
  deriving DecidableEq

namespace Operation

/-- `CREATE_FILE`, `CREATE_DIR` and `TRY_NAME` -/
def code : Operation → Int
  | createFile => 1
  | createDir => 2
  | tryName => 3

/-- The operation of a code, if there is one. -/
def ofCode (operation : Int) : Option Operation :=
  if operation = 1 then some createFile
  else if operation = 2 then some createDir
  else if operation = 3 then some tryName
  else none

/-- `O_CREAT | O_EXCL | O_RDWR` -/
def createFlags : UInt32 := 0x0100 ||| 0x0400 ||| 0x0002

/-- What an attempt comes to. -/
def answer (system : System) (flags : UInt32) : Operation → Nat → List UInt8 → Bool × Int
  | createFile, k, template => created (system.openat k template (createFlags ||| flags))
  | createDir, k, template => created (system.mkdir k template)
  | tryName, k, template => absent (system.stat k template)

/-- Where the placeholder is taken to be. -/
def start (length suffixlen : Nat) : Operation → Nat
  | createFile => length - suffixlen - 6
  | createDir => length - 6
  | tryName => length - 6

end Operation

/-- What a call leaves; no errno is 0. -/
structure Result extends Outcome where
  errno : Option Errno

/-- `MAX_TRIES` -/
def maxTries : Nat := 32

/-- `wlibc_common_mkstemp`. A template has less than 2 GB. -/
def commonMkstemp (system : System) (random : Nat → UInt32) (template : List UInt8) (suffixlen : Int)
    (flags : UInt32) (operation : Int) : Result :=
  let invalid : Result := { template, status := -1, tried := [], errno := some .EINVAL }
  if template = [] then invalid
  else
    match Operation.ofCode operation, validateTemplate template suffixlen with
    | some op, some length =>
      { attempts (op.answer system flags) random (op.start length suffixlen.toNat) maxTries 0 template (-1) with
        errno := none }
    | _, _ => invalid

/-! ## What is wanted -/

/-- The six characters that a random number gives. -/
def placeholder (rn : UInt32) : List UInt8 := List.zipWith fill (List.replicate 6 0x58) (randomBuffer rn)

/-- Every attempt takes all six characters from its own random number and fails only if its name is not
accepted, one that is refused is followed by another, up to 32, nothing else of the template changes, and a
failure has an errno. A failure is a status of -1: `TRY_NAME` returns 0 also if all 32 names exist. -/
def Right (answer : Nat → List UInt8 → Bool × Int) (random : Nat → UInt32) (front suffix : List UInt8)
    (r : Result) : Prop :=
  (∀ k name, r.tried[k]? = some name →
    name = front ++ placeholder (random k) ++ suffix ∧ ((answer k name).1 = true → r.status ≠ -1)) ∧
  (∀ k < maxTries, (∀ j < k, ∃ name, r.tried[j]? = some name ∧ (answer j name).1 = false) →
    k < r.tried.length) ∧
  (∃ chars, chars.length = 6 ∧ r.template = front ++ chars ++ suffix) ∧
  (r.status = -1 → r.errno ≠ none)

/-- The name that the first random number gives is accepted by an attempt, or the last one does not fail (its
status is not -1), and all random numbers up to then give the same characters. -/
def Settled (answer : Nat → List UInt8 → Bool × Int) (random : Nat → UInt32) (name : List UInt8) : Prop :=
  ∃ k < maxTries, (∀ j < k, (answer j name).1 = false) ∧
    ((answer k name).1 = true ∨ k + 1 = maxTries ∧ (answer k name).2 ≠ -1) ∧
    ∀ j ≤ k, placeholder (random j) = placeholder (random 0)

/-! ## Characters -/

theorem mem_zipWith {α β γ : Type*} {f : α → β → γ} {as : List α} {bs : List β} {c : γ}
    (h : c ∈ List.zipWith f as bs) : ∃ a ∈ as, ∃ b ∈ bs, c = f a b := by
  obtain ⟨i, hi, rfl⟩ := List.mem_iff_getElem.mp h
  rw [List.length_zipWith] at hi
  exact ⟨as[i], List.getElem_mem _, bs[i], List.getElem_mem _, List.getElem_zipWith⟩

theorem length_randomBuffer (rn : UInt32) : (randomBuffer rn).length = 8 := by
  have hle := length_ultoa_le rn
  rw [randomBuffer, List.length_append, List.length_replicate]
  omega

theorem fill_digit {digit : UInt8} (h : digit ≠ 0x58) : fill 0x58 digit ≠ 0x58 := by
  rw [fill, if_pos rfl]
  split
  · exact h
  · decide

/-- No digit is an `X`. -/
theorem randomBuffer_ne (rn : UInt32) : ∀ c ∈ randomBuffer rn, c ≠ 0x58 := by
  intro c hc
  rcases List.mem_append.mp hc with hc | hc
  · exact ultoa_forall (P := fun c => c ≠ 0x58) (by decide) rn c hc
  · rw [List.eq_of_mem_replicate hc]
    decide

theorem length_placeholder (rn : UInt32) : (placeholder rn).length = 6 := by
  rw [placeholder, List.length_zipWith, length_randomBuffer, List.length_replicate]
  rfl

theorem placeholder_ne (rn : UInt32) : ∀ c ∈ placeholder rn, c ≠ 0x58 := by
  intro c hc
  obtain ⟨x, hx, digit, hdigit, rfl⟩ := mem_zipWith hc
  rw [List.eq_of_mem_replicate hx]
  exact fill_digit (randomBuffer_ne rn digit hdigit)

/-- Characters other than `X` stay. -/
theorem zipWith_fill_of_ne {window buffer : List UInt8} (hlength : window.length ≤ buffer.length)
    (h : ∀ c ∈ window, c ≠ 0x58) : List.zipWith fill window buffer = window := by
  induction window generalizing buffer with
  | nil => rfl
  | cons c window ih =>
    cases buffer with
    | nil => exact absurd hlength (Nat.not_succ_le_zero _)
    | cons digit buffer =>
      rw [List.zipWith_cons_cons, fill, if_neg (h c List.mem_cons_self),
        ih (Nat.le_of_succ_le_succ hlength) (fun c' hc' => h c' (List.mem_cons_of_mem _ hc'))]

theorem genTempstring_window (front : List UInt8) {window : List UInt8} (h : window.length = 6)
    (back : List UInt8) (rn : UInt32) :
    genTempstring (front ++ window ++ back) front.length rn =
      front ++ List.zipWith fill window (randomBuffer rn) ++ back := by
  have hback : (front ++ window ++ back).drop (front.length + 6) = back := by
    rw [← h, ← List.length_append, List.drop_left]
  have hfront : front ++ window ++ back = front ++ (window ++ back) := List.append_assoc _ _ _
  rw [genTempstring, hback, hfront, List.take_left, List.drop_left, ← h, List.take_left]

/-- The first attempt fills the placeholder. -/
theorem genTempstring_first (front suffix : List UInt8) (rn : UInt32) :
    genTempstring (front ++ List.replicate 6 0x58 ++ suffix) front.length rn =
      front ++ placeholder rn ++ suffix :=
  genTempstring_window front List.length_replicate suffix rn

/-- There is nothing left to fill then. -/
theorem genTempstring_again (front suffix : List UInt8) (rn rn' : UInt32) :
    genTempstring (front ++ placeholder rn ++ suffix) front.length rn' =
      front ++ placeholder rn ++ suffix := by
  rw [genTempstring_window front (length_placeholder rn), zipWith_fill_of_ne _ (placeholder_ne rn)]
  rw [length_placeholder, length_randomBuffer]
  decide

/-! ## Runs of attempts -/

section

variable {answer : Nat → List UInt8 → Bool × Int} {random : Nat → UInt32}

/-- Attempts that do not change the template: they end with the first one that is accepted. -/
theorem attempts_fixed {name : List UInt8} {start : Nat}
    (h : ∀ k, genTempstring name start (random k) = name) (left k : Nat) (status : Int) :
    (∃ m < left, (∀ j < m, (answer (k + j) name).1 = false) ∧ (answer (k + m) name).1 = true ∧
      attempts answer random start left k name status =
        ⟨name, (answer (k + m) name).2, List.replicate (m + 1) name⟩) ∨
    (∀ j < left, (answer (k + j) name).1 = false) ∧
      attempts answer random start left k name status =
        ⟨name, if left = 0 then status else (answer (k + (left - 1)) name).2, List.replicate left name⟩ := by
  induction left generalizing k status with
  | zero => exact .inr ⟨fun j hj => absurd hj (Nat.not_lt_zero j), rfl⟩
  | succ left ih =>
    cases haccepted : (answer k name).1 with
    | true =>
      refine .inl ⟨0, Nat.succ_pos left, fun j hj => absurd hj (Nat.not_lt_zero j), haccepted, ?_⟩
      simp only [attempts, h, haccepted, if_true]
      rfl
    | false =>
      have hnext (j : Nat) : k + 1 + j = k + (j + 1) := by omega
      have hstep : attempts answer random start (left + 1) k name status =
          { attempts answer random start left (k + 1) name (answer k name).2 with
            tried := name :: (attempts answer random start left (k + 1) name (answer k name).2).tried } := by
        simp only [attempts, h, haccepted, Bool.false_eq_true, if_false]
      have hbefore {m : Nat} (hm : ∀ j < m, (answer (k + 1 + j) name).1 = false) :
          ∀ j < m + 1, (answer (k + j) name).1 = false := by
        intro j hj
        cases j with
        | zero => exact haccepted
        | succ j =>
          rw [← hnext]
          exact hm j (Nat.lt_of_succ_lt_succ hj)
      rcases ih (k + 1) (answer k name).2 with ⟨m, hm, hfalse, htrue, heq⟩ | ⟨hfalse, heq⟩
      · rw [hnext] at htrue heq
        refine .inl ⟨m + 1, Nat.succ_lt_succ hm, hbefore hfalse, htrue, ?_⟩
        rw [hstep, heq]
        rfl
      · refine .inr ⟨hbefore hfalse, ?_⟩
        rw [hstep, heq]
        cases left with
        | zero => rfl
        | succ left =>
          rw [if_neg (Nat.succ_ne_zero _), if_neg (Nat.succ_ne_zero _), hnext]
          rfl

/-- The first attempt makes the name with which all of them go on. -/
theorem attempts_first {name template : List UInt8} {start : Nat}
    (h : genTempstring template start (random 0) = name)
    (hname : genTempstring name start (random 0) = name) (left : Nat) (status : Int) :
    attempts answer random start (left + 1) 0 template status =
      attempts answer random start (left + 1) 0 name status := by
  simp only [attempts, h, hname]

/-- Some attempt is made. -/
theorem exists_tried (start left k : Nat) (template : List UInt8) (status : Int) :
    (attempts answer random start (left + 1) k template status).tried[0]? =
      some (genTempstring template start (random k)) := by
  rw [attempts]
  rcases answer k (genTempstring template start (random k)) with ⟨accepted, status'⟩
  cases accepted <;> rfl

/-- What is left of the place stays. -/
theorem getElem?_genTempstring {template : List UInt8} {start i : Nat} (hi : i < start)
    (hstart : start ≤ template.length) (rn : UInt32) :
    (genTempstring template start rn)[i]? = template[i]? := by
  have hlt : i < (template.take start).length := by
    rw [List.length_take]
    omega
  rw [genTempstring, List.append_assoc, List.getElem?_append_left hlt, List.getElem?_take_of_lt hi]

/-- An attempt that is accepted does not fail. -/
theorem answer_accepted (system : System) (flags : UInt32) (op : Operation) (k : Nat) (name : List UInt8)
    (h : (op.answer system flags k name).1 = true) : (op.answer system flags k name).2 ≠ -1 := by
  have hcreated (r : Except Errno Nat) (hr : (created r).1 = true) : (created r).2 ≠ -1 := by
    cases r with
    | ok fd =>
      simp only [created]
      omega
    | error errno => cases hr
  cases op with
  | createFile => exact hcreated _ h
  | createDir => exact hcreated _ h
  | tryName =>
    change (absent (system.stat k name)).1 = true at h
    change (absent (system.stat k name)).2 ≠ -1
    cases hstat : system.stat k name with
    | ok size =>
      rw [hstat] at h
      cases h
    | error errno =>
      rw [hstat] at h
      cases errno with
      | ENOENT => decide
      | EINVAL => cases h
      | other code => cases h

variable {front suffix : List UInt8}

theorem placed_inj {chars chars' : List UInt8} :
    front ++ chars ++ suffix = front ++ chars' ++ suffix ↔ chars = chars' := by
  rw [List.append_left_inj, List.append_right_inj]

/-- With the placeholder in its place. -/
theorem right_iff_settled (haccept : ∀ k name, (answer k name).1 = true → (answer k name).2 ≠ -1) :
    Right answer random front suffix
      { attempts answer random front.length maxTries 0 (front ++ List.replicate 6 0x58 ++ suffix) (-1) with
        errno := none } ↔
      Settled answer random (front ++ placeholder (random 0) ++ suffix) := by
  have hagain (k : Nat) := genTempstring_again front suffix (random 0) (random k)
  have hsame {m : Nat} : (∀ k name, (List.replicate m (front ++ placeholder (random 0) ++ suffix))[k]? =
      some name → name = front ++ placeholder (random k) ++ suffix) ↔
        ∀ j < m, placeholder (random j) = placeholder (random 0) := by
    constructor
    · intro h j hj
      have hget := h j _ (by rw [List.getElem?_replicate, if_pos hj])
      exact (placed_inj.mp hget).symm
    · intro h j name hget
      rw [List.getElem?_replicate] at hget
      split at hget
      · next hj => rw [← Option.some.inj hget, h j hj]
      · cases hget
  rw [maxTries, attempts_first (genTempstring_first front suffix (random 0)) (hagain 0)]
  have hshape : ∃ chars, chars.length = 6 ∧
      front ++ placeholder (random 0) ++ suffix = front ++ chars ++ suffix :=
    ⟨_, length_placeholder (random 0), rfl⟩
  generalize front ++ placeholder (random 0) ++ suffix = name at hagain hsame hshape
  have hruns := @attempts_fixed answer random _ _ hagain 32 0 (-1)
  simp only [Nat.zero_add] at hruns
  rcases hruns with ⟨m, hm, hfalse, htrue, heq⟩ | ⟨hfalse, heq⟩
  · have haccepted := haccept m name htrue
    rw [heq]
    constructor
    · rintro ⟨htried, _, _, _⟩
      have hall := hsame.mp (fun k name' h => (htried k name' h).1)
      exact ⟨m, hm, hfalse, .inl htrue, fun j hj => hall j (Nat.lt_succ_of_le hj)⟩
    · rintro ⟨k, hk, hbefore, hend, hall⟩
      have hkm : k = m := by
        rcases Nat.lt_trichotomy k m with hlt | rfl | hlt
        · rcases hend with haccept | ⟨hlast, _⟩
          · rw [hfalse k hlt] at haccept
            cases haccept
          · exact absurd hlast (by rw [maxTries]; omega)
        · rfl
        · rw [hbefore m hlt] at htrue
          cases htrue
      subst hkm
      have hnames := hsame.mpr (fun j hj => hall j (Nat.le_of_lt_succ hj))
      refine ⟨fun j name' h => ⟨hnames j name' h, fun _ => haccepted⟩, ?_, hshape,
        fun hfailed => absurd hfailed haccepted⟩
      -- the accepted one is the last
      intro i _ hrefused
      rw [List.length_replicate]
      by_contra hlong
      obtain ⟨name', hget, hrefusal⟩ := hrefused k (by omega)
      rw [List.getElem?_replicate, if_pos (Nat.lt_succ_self k)] at hget
      cases hget
      rw [htrue] at hrefusal
      cases hrefusal
  · rw [heq]
    constructor
    · rintro ⟨htried, _, _, herrno⟩
      have hall := hsame.mp (fun k name' h => (htried k name' h).1)
      exact ⟨31, by decide, fun j hj => hfalse j (by omega), .inr ⟨rfl, fun h => herrno h rfl⟩,
        fun j hj => hall j (by omega)⟩
    · rintro ⟨k, hk, hbefore, hend, hall⟩
      rcases hend with haccept | ⟨hlast, hstatus⟩
      · rw [hfalse k hk] at haccept
        cases haccept
      · cases (Nat.succ.inj hlast : k = 31)
        have hnames := hsame.mpr (fun j hj => hall j (Nat.le_of_lt_succ hj))
        refine ⟨fun j name' h => ⟨hnames j name' h, fun _ => hstatus⟩, fun i hi _ => ?_, hshape,
          fun hfailed => absurd hfailed hstatus⟩
        rw [List.length_replicate]
        exact hi

/-- With the placeholder elsewhere, its first character is still an `X` after the first attempt. -/
theorem not_right_of_lt {start : Nat} (hstart : front.length < start)
    (hle : start ≤ (front ++ List.replicate 6 0x58 ++ suffix).length) :
    ¬ Right answer random front suffix
      { attempts answer random start maxTries 0 (front ++ List.replicate 6 0x58 ++ suffix) (-1) with
        errno := none } := by
  rintro ⟨htried, _, _, _⟩
  have hname := (htried 0 _ (exists_tried start 31 0 _ (-1))).1
  have hget := getElem?_genTempstring hstart hle (random 0)
  obtain ⟨c, chars, hchars⟩ := List.exists_cons_of_length_eq_add_one (length_placeholder (random 0))
  have hc : c ≠ 0x58 := placeholder_ne (random 0) c (hchars ▸ List.mem_cons_self)
  rw [hname, hchars, List.append_assoc, List.getElem?_append_right (Nat.le_refl _), List.append_assoc,
    List.getElem?_append_right (Nat.le_refl _), Nat.sub_self] at hget
  exact hc (Option.some.inj hget)

end

/-! ## Templates -/

theorem validateTemplate_eq (front suffix : List UInt8) :
    validateTemplate (front ++ List.replicate 6 0x58 ++ suffix) suffix.length =
      some (front.length + 6 + suffix.length) := by
  have hlength : (front ++ List.replicate 6 (0x58 : UInt8) ++ suffix).length =
      front.length + 6 + suffix.length := by
    rw [List.length_append, List.length_append, List.length_replicate]
  have hplace : (List.range 6).all (fun i => (front ++ List.replicate 6 0x58 ++ suffix)[
      front.length + 6 + suffix.length - suffix.length - 1 - i]? = some 0x58) = true := by
    rw [List.all_eq_true]
    intro i hi
    have hlt := List.mem_range.mp hi
    have hindex : front.length + 6 + suffix.length - suffix.length - 1 - i = front.length + (5 - i) := by omega
    rw [hindex, List.append_assoc, List.getElem?_append_right (Nat.le_add_right _ _), Nat.add_sub_cancel_left,
      List.getElem?_append_left (by rw [List.length_replicate]; omega), List.getElem?_replicate,
      if_pos (by omega)]
    exact decide_eq_true rfl
  rw [validateTemplate, hlength, if_neg (by omega), if_neg (by omega), Int.toNat_natCast, if_pos hplace]

theorem commonMkstemp_eq (system : System) (random : Nat → UInt32) (front suffix : List UInt8) (flags : UInt32)
    (op : Operation) :
    commonMkstemp system random (front ++ List.replicate 6 0x58 ++ suffix) suffix.length flags op.code =
      { attempts (op.answer system flags) random (op.start (front.length + 6 + suffix.length) suffix.length)
          maxTries 0 (front ++ List.replicate 6 0x58 ++ suffix) (-1) with
        errno := none } := by
  have hne : front ++ List.replicate 6 (0x58 : UInt8) ++ suffix ≠ [] := by simp
  have hcode : Operation.ofCode op.code = some op := by cases op <;> rfl
  rw [commonMkstemp, if_neg hne, hcode, validateTemplate_eq]
  rfl

/-- For every valid template, operation and sequence of random numbers: the attempts are as they should be
exactly if the placeholder is looked for in its place and the name of the first attempt settles the matter. -/
theorem mkstemp_right_iff (system : System) (random : Nat → UInt32) (front suffix : List UInt8) (flags : UInt32)
    (op : Operation) :
    Right (op.answer system flags) random front suffix
      (commonMkstemp system random (front ++ List.replicate 6 0x58 ++ suffix) suffix.length flags op.code) ↔
      (op = .createFile ∨ suffix = []) ∧
        Settled (op.answer system flags) random (front ++ placeholder (random 0) ++ suffix) := by
  rw [commonMkstemp_eq]
  by_cases hplace : op = .createFile ∨ suffix = []
  · have hstart : op.start (front.length + 6 + suffix.length) suffix.length = front.length := by
      rcases hplace with rfl | rfl
      · rw [Operation.start]
        omega
      · cases op <;> rfl
    rw [hstart, and_iff_right hplace]
    exact right_iff_settled (fun k name => answer_accepted system flags op k name)
  · have hpos : 0 < suffix.length := List.length_pos_iff.mpr (fun h => hplace (.inr h))
    have hstart : op.start (front.length + 6 + suffix.length) suffix.length = front.length + suffix.length := by
      cases op with
      | createFile => exact absurd (.inl rfl) hplace
      | createDir =>
        rw [Operation.start]
        omega
      | tryName =>
        rw [Operation.start]
        omega
    rw [hstart]
    refine ⟨fun hright => absurd hright (not_right_of_lt (by omega) ?_), fun h => absurd h.1 hplace⟩
    rw [List.length_append, List.length_append, List.length_replicate]
    omega

/-- A directory with the file "0xxxxx". -/
def oneFile : System where
  openat _ name _ := if name = [0x30, 0x78, 0x78, 0x78, 0x78, 0x78] then .error (.other 17) else .ok 3
  mkdir _ _ := .ok 0
  stat _ _ := .error .ENOENT

/-- With the random numbers 0, 1, 2 and so on, the name of that file is tried 32 times. -/
theorem not_right_oneFile : ¬ Right (Operation.createFile.answer oneFile 0) UInt32.ofNat [] []
    (commonMkstemp oneFile UInt32.ofNat (List.replicate 6 0x58) 0 0 1) := by
  have heq := commonMkstemp_eq oneFile UInt32.ofNat [] [] 0 .createFile
  rw [List.append_nil] at heq
  change commonMkstemp oneFile UInt32.ofNat (List.replicate 6 0x58) 0 0 1 = _ at heq
  rw [heq]
  intro hright
  obtain ⟨k, _, _, haccepted | ⟨_, hstatus⟩, _⟩ := right_iff_settled
    (fun k name => answer_accepted oneFile 0 .createFile k name) |>.mp hright
  · cases haccepted
  · exact hstatus rfl

end WindowsLibc.Temp
