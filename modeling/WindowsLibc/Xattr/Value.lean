import WindowsLibc.Xattr.Listxattr

/-!
# Values of extended attributes (`sys/xattr/getxattr.c`, `sys/xattr/setxattr.c`)

The system keeps the attributes of a file by name, in capital letters. It is asked for one of them with a request
that has the name, and answers with a record, whose value is empty if there is no such attribute. An attribute is
removed by writing an empty value. The system itself is a parameter, `System`; what the functions rely on is
`Documented`.

* `doGetxattr` asks with 1024 bytes, and again with 65536 if these are not enough. `doSetxattr` asks with 512 whether
  there is such an attribute, and takes too small a buffer as a sign that there is; a query that is refused it passes
  over.
* `xattr_refines`: along every run of calls on a file, the functions do with the records what `Attributes.get` and
  `Attributes.set` do with a map from names to values, which are told what the system refuses.
-/

namespace WindowsLibc.Xattr.Value

open WindowsLibc.Lib

/-! ## The functions -/

/-- `NtQueryEaFile`, with a request and the size of the buffer, and `NtSetEaFile`, with a buffer: what the file is
then, the status, and what is in the buffer of the query. -/
structure System (σ : Type) where
  ntQueryEaFile : σ → List UInt8 → Nat → σ × NtStatus × List UInt8
  ntSetEaFile : σ → List UInt8 → σ × NtStatus

inductive Errno where
  | EINVAL
  | E2BIG
  | ENODATA
  | ERANGE
  | EEXIST
  /-- What `map_ntstatus_to_errno` makes of a status. -/
  | mapped (status : NtStatus)
deriving DecidableEq

/-- `ea_name_buffer`, `check_buffer` -/
def nameInfo (name : List UInt8) : Option (List UInt8) :=
  poke (List.replicate 260 0) 4 (leBytes 1 name.length ++ name)

/-- `memcpy(value, ea_info->EaName + ea_info->EaNameLength + 1, ea_info->EaValueLength)` -/
def copyValue (value : Option (List UInt8)) (buffer : List UInt8) (ea : EaInformation) : Option (List UInt8) := do
  let bytes ← peek buffer (8 + ea.eaNameLength + 1) ea.eaValueLength
  let value ← value
  poke value 0 bytes

/-- What `do_getxattr` makes of the answer. -/
def readValue (value : Option (List UInt8)) (size : Nat) (buffer : List UInt8) :
    Option (Option (List UInt8) × Except Errno Nat) := do
  let ea ← loadEa buffer 0
  if ea.eaValueLength = 0 then some (value, .error .ENODATA)
  else if size = 0 then some (value, .ok ea.eaValueLength)
  else if ea.eaValueLength > size then some (value, .error .ERANGE)
  else do
    let copied ← copyValue value buffer ea
    some (some copied, .ok ea.eaValueLength)

/-- The caller's buffer behind a call, and the result. -/
abbrev Returned := Option (List UInt8) × Except Errno Nat

section

variable {σ : Type} (K : System σ)

/-- The query of `do_getxattr`. -/
def System.ask (file : σ) (request : List UInt8) : σ × NtStatus × List UInt8 :=
  let (file, status, buffer) := K.ntQueryEaFile file request 1024
  if status = .bufferOverflow ∨ status = .bufferTooSmall then K.ntQueryEaFile file request 65536
  else (file, status, buffer)

/-- `do_getxattr`. Memory for the buffers is granted. -/
def doGetxattr (file : σ) (name : List UInt8) (value : Option (List UInt8)) (size : Nat) : Option (σ × Returned) :=
  if name.length > 254 then some (file, value, .error .E2BIG)
  else do
    let request ← nameInfo name
    let (file, status, buffer) := K.ask file request
    if status ≠ .success then some (file, value, .error (.mapped status))
    else (readValue value size buffer).map fun r => (file, r)

/-- `wlibc_common_getxattr`, behind the arguments that name the file. -/
def getxattr (file : σ) (name : List UInt8) (value : Option (List UInt8)) (size : Nat) : Option (σ × Returned) :=
  if name = [] then some (file, value, .error .EINVAL)
  else if size ≠ 0 ∧ value = none then some (file, value, .error .EINVAL)
  else doGetxattr K file name value size

/-- `XATTR_CREATE`, `XATTR_REPLACE`, `XATTR_DELETE`: whether there is such an attribute decides. -/
def check (file : σ) (name : List UInt8) (operation : Int) : Option (σ × Except Errno Unit) :=
  if operation = 0 then some (file, .ok ())
  else do
    let request ← nameInfo name
    let (file, status, buffer) := K.ntQueryEaFile file request 512
    if operation = 1 ∧ (status = .bufferOverflow ∨ status = .bufferTooSmall) then some (file, .error .EEXIST)
    else if status ≠ .success then some (file, .ok ())
    else do
      let ea ← loadEa buffer 0
      if operation = 1 ∧ ea.eaValueLength > 0 then some (file, .error .EEXIST)
      else if (operation = 2 ∨ operation = 3) ∧ ea.eaValueLength = 0 then some (file, .error .ENODATA)
      else some (file, .ok ())

/-- `insert_buffer` -/
def insertBuffer (name : List UInt8) (value : Option (List UInt8)) (size : Nat) : Option (List UInt8) := do
  let buffer := List.replicate (12 + name.length + 1 + size) 0
  let buffer ← poke buffer 5 (leBytes 1 name.length)
  let buffer ← poke buffer 6 (leBytes 2 size)
  let buffer ← poke buffer 8 (name ++ [0])
  if size > 0 then do
    let value ← value
    let bytes ← peek value 0 size
    poke buffer (8 + name.length + 1) bytes
  else some buffer

/-- `do_setxattr`. Memory for the buffers is granted. -/
def doSetxattr (file : σ) (name : List UInt8) (value : Option (List UInt8)) (size : Nat) (operation : Int) :
    Option (σ × Except Errno Nat) :=
  if name.length > 254 then some (file, .error .E2BIG)
  else do
    let (file, checked) ← check K file name operation
    match checked with
    | .error errno => some (file, .error errno)
    | .ok () => do
      let buffer ← insertBuffer name value size
      let (file, status) := K.ntSetEaFile file buffer
      if status = .success then some (file, .ok 0) else some (file, .error (.mapped status))

/-- `wlibc_common_setxattr`, behind the arguments that name the file. -/
def setxattr (file : σ) (name : List UInt8) (value : Option (List UInt8)) (size : Nat) (operation : Int) :
    Option (σ × Except Errno Nat) :=
  if operation < 0 ∨ operation > 3 then some (file, .error .EINVAL)
  else if operation ≠ 3 ∧ (value = none ∨ size = 0) then some (file, .error .EINVAL)
  else if operation = 3 ∧ value ≠ none ∧ size ≠ 0 then some (file, .error .EINVAL)
  else if size > 65535 then some (file, .error .E2BIG)
  else if name = [] then some (file, .error .EINVAL)
  else doSetxattr K file name value size operation

end

/-- A call on the file. -/
inductive Call where
  | get (name : List UInt8) (value : Option (List UInt8)) (size : Nat)
  | set (name : List UInt8) (value : Option (List UInt8)) (size : Nat) (operation : Int)

def xattrStep {σ : Type} (K : System σ) (file : σ) : Call → Option (σ × Returned)
  | .get name value size => getxattr K file name value size
  | .set name value size operation =>
    (setxattr K file name value size operation).map fun r => (r.1, value, r.2)

def xattrMachine {σ : Type} (K : System σ) : Machine σ Call Returned := ⟨xattrStep K⟩

/-! ## What is wanted -/

/-- The values of a file's attributes, by names in capital letters. -/
abbrev Attributes := List UInt8 → Option (List UInt8)

/-- What the system says to the query of a call, and to its change. -/
structure Answers where
  query : NtStatus
  change : NtStatus

/-- The buffer is large enough, or too small for the value. -/
def granted : NtStatus → Bool
  | .success | .bufferOverflow | .bufferTooSmall => true
  | _ => false

namespace Attributes

variable (upper : UInt8 → UInt8)

/-- What the buffer of a caller has then, and what is returned. -/
def get (m : Attributes) (name : List UInt8) (value : Option (List UInt8)) (size : Nat) (answers : Answers) :
    Returned :=
  if name = [] ∨ (size ≠ 0 ∧ value = none) then (value, .error .EINVAL)
  else if name.length > 254 then (value, .error .E2BIG)
  else if answers.query ≠ .success then (value, .error (.mapped answers.query))
  else
    match m (name.map upper) with
    | none => (value, .error .ENODATA)
    | some bytes =>
      if size = 0 then (value, .ok bytes.length)
      else if bytes.length > size then (value, .error .ERANGE)
      else (value.map fun v => bytes ++ v.drop bytes.length, .ok bytes.length)

/-- The arguments of a change that are refused, whatever the file has. -/
def refuses (name : List UInt8) (value : Option (List UInt8)) (size : Nat) (operation : Int) : Option Errno :=
  if operation < 0 ∨ operation > 3 then some .EINVAL
  else if operation ≠ 3 ∧ (value = none ∨ size = 0) then some .EINVAL
  else if operation = 3 ∧ value ≠ none ∧ size ≠ 0 then some .EINVAL
  else if size > 65535 then some .E2BIG
  else if name = [] then some .EINVAL
  else if name.length > 254 then some .E2BIG
  else none

/-- The file must not have the attribute that is created, and must have the one that is replaced or removed. -/
def objects (m : Attributes) (key : List UInt8) (operation : Int) : Option Errno :=
  if operation = 1 ∧ m key ≠ none then some .EEXIST
  else if (operation = 2 ∨ operation = 3) ∧ m key = none then some .ENODATA
  else none

def put (m : Attributes) (key bytes : List UInt8) : Attributes :=
  Function.update m key (if bytes.isEmpty then none else some bytes)

/-- A change whose arguments are not refused. If the system refuses to say what there is, nothing is objected. -/
def change (m : Attributes) (name : List UInt8) (value : Option (List UInt8)) (size : Nat) (operation : Int)
    (answers : Answers) : Attributes × Except Errno Nat :=
  match if granted answers.query then m.objects (name.map upper) operation else none with
  | some errno => (m, .error errno)
  | none =>
    if answers.change = .success then (m.put (name.map upper) ((value.getD []).take size), .ok 0)
    else (m, .error (.mapped answers.change))

def set (m : Attributes) (name : List UInt8) (value : Option (List UInt8)) (size : Nat) (operation : Int)
    (answers : Answers) : Attributes × Except Errno Nat :=
  match refuses name value size operation with
  | some errno => (m, .error errno)
  | none => m.change upper name value size operation answers

def step (m : Attributes) : Call × Answers → Attributes × Returned
  | (.get name value size, answers) => (m, m.get upper name value size answers)
  | (.set name value size operation, answers) =>
    let (m, result) := m.set upper name value size operation answers
    (m, value, result)

end Attributes

def mapMachine (upper : UInt8 → UInt8) : Machine Attributes (Call × Answers) Returned :=
  ⟨fun m call => some (m.step upper call)⟩

/-! ## The system -/

/-- `FILE_GET_EA_INFORMATION`: the name that a request is for, if it is for one. -/
def requested (request : List UInt8) : Option (List UInt8) := do
  let next ← peek request 0 4
  let length ← peek request 4 1
  if leNat next = 0 then peek request 5 (leNat length) else none

section

variable {σ : Type}

/-- The value of a record that is asked for. -/
def shown (m : Attributes) (key : List UInt8) : List UInt8 := (m key).getD []

/-- What is documented of `NtQueryEaFile` and `NtSetEaFile`. For what they refuse there may be any reasons. -/
structure Documented (K : System σ) (upper : UInt8 → UInt8) (attributes : σ → Attributes) : Prop where
  /-- An attribute without a value is none. -/
  value_ne : ∀ file key, attributes file key ≠ some []
  query_keeps : ∀ file request size, attributes (K.ntQueryEaFile file request size).1 = attributes file
  /-- A record is at the front of the buffer. -/
  query_success : ∀ file request size name, requested request = some name →
    (K.ntQueryEaFile file request size).2.1 = .success →
      ∃ (a : Attribute) (back : List UInt8), a.name = name.map upper ∧
        a.value = shown (attributes file) (name.map upper) ∧ a.length + back.length = size ∧
        (K.ntQueryEaFile file request size).2.2 = a.record 0 ++ back
  /-- Only a buffer that is too small is said to be so. -/
  query_small : ∀ file request size name, requested request = some name →
    (K.ntQueryEaFile file request size).2.1 = .bufferOverflow ∨
      (K.ntQueryEaFile file request size).2.1 = .bufferTooSmall →
      size < 8 + name.length + (shown (attributes file) (name.map upper)).length + 1
  set_success : ∀ file (a : Attribute) back, (K.ntSetEaFile file (a.record 0 ++ back)).2 = .success →
    attributes (K.ntSetEaFile file (a.record 0 ++ back)).1 = (attributes file).put (a.name.map upper) a.value
  set_refused : ∀ file buffer, (K.ntSetEaFile file buffer).2 ≠ .success →
    attributes (K.ntSetEaFile file buffer).1 = attributes file

/-- The query of a change, if there is one. -/
def System.asked (K : System σ) (file : σ) (name : List UInt8) (operation : Int) : σ × NtStatus :=
  if operation = 0 then (file, .success)
  else
    match nameInfo name with
    | none => (file, .success)
    | some request => ((K.ntQueryEaFile file request 512).1, (K.ntQueryEaFile file request 512).2.1)

/-- What the system says to a call, if it is asked. -/
def System.answers (K : System σ) (file : σ) : Call → Answers
  | .get name _ _ => ⟨(nameInfo name).elim .success fun request => (K.ask file request).2.1, .success⟩
  | .set name value size operation =>
    let (file, query) := K.asked file name operation
    ⟨query, (insertBuffer name value size).elim .success fun buffer => (K.ntSetEaFile file buffer).2⟩

/-- The calls of a run, with what the system says to them. -/
def System.answered (K : System σ) : σ → List Call → List (Call × Answers)
  | _, [] => []
  | file, call :: calls =>
    (call, K.answers file call) :: ((xattrStep K file call).elim [] fun r => K.answered r.1 calls)

end

/-! ## Requests and records -/

section

variable {name : List UInt8}

theorem exists_nameInfo (h : name.length ≤ 254) : ∃ request, nameInfo name = some request ∧
    requested request = some name := by
  have hzeros : List.replicate 260 (0 : UInt8) = List.replicate 4 0 ++ List.replicate (1 + name.length) 0 ++
      List.replicate (255 - name.length) 0 := by
    rw [List.replicate_append_replicate, List.replicate_append_replicate]
    congr 1
    omega
  have hlength : (leBytes 1 name.length ++ name).length = (List.replicate (1 + name.length) (0 : UInt8)).length := by
    rw [List.length_append, length_leBytes, List.length_replicate]
  have hstore := poke_append (List.replicate 4 0) (List.replicate (255 - name.length) 0) hlength
  rw [← hzeros, List.length_replicate] at hstore
  refine ⟨_, hstore, ?_⟩
  have hnext := peek_append [] (List.replicate 4 0)
    (leBytes 1 name.length ++ (name ++ List.replicate (255 - name.length) 0))
  have hcount := peek_append (List.replicate 4 0) (leBytes 1 name.length)
    (name ++ List.replicate (255 - name.length) 0)
  have hname := peek_append (List.replicate 4 0 ++ leBytes 1 name.length) name
    (List.replicate (255 - name.length) 0)
  simp only [List.append_assoc, List.nil_append, List.length_nil, List.length_append, List.length_replicate,
    length_leBytes] at hnext hcount hname ⊢
  have hmod : name.length % 256 ^ 1 = name.length := Nat.mod_eq_of_lt (by omega)
  have hzero : leNat (List.replicate 4 0) = 0 := rfl
  simp only [requested, hnext, hcount, Option.bind_eq_bind, Option.bind_some, leNat_leBytes, hmod, hzero, if_true]
  exact hname

theorem loadEa_reply (a : Attribute) (junk : List UInt8) :
    loadEa (a.record 0 ++ junk) 0 = some ⟨0, a.name.length, a.value.length⟩ :=
  a.loadEa_record (by decide) [] junk

theorem peek_value (a : Attribute) (junk : List UInt8) :
    peek (a.record 0 ++ junk) (8 + a.name.length + 1) a.value.length = some a.value := by
  have hpeek := peek_append (leBytes 4 0 ++ [a.flags] ++ leBytes 1 a.name.length ++ leBytes 2 a.value.length ++
    (a.name ++ [0])) a.value junk
  simp only [List.length_append, length_leBytes, List.length_singleton] at hpeek
  rw [Attribute.record]
  have hoff : 4 + 1 + 1 + 2 + (a.name.length + 1) = 8 + a.name.length + 1 := by omega
  rw [← hoff]
  exact hpeek

/-- A store behind what has been stored so far. -/
theorem poke_next {front middle back bytes : List UInt8} {off : Nat} (hoff : front.length = off)
    (h : bytes.length = middle.length) :
    poke (front ++ (middle ++ back)) off bytes = some (front ++ bytes ++ back) := by
  rw [← List.append_assoc, ← hoff]
  exact poke_append front back h

/-- The buffer of a change has a record, and four bytes more. -/
theorem insertBuffer_eq {value : Option (List UInt8)} {size : Nat} (a : Attribute) (hflags : a.flags = 0)
    (hname : a.name = name) (hsize : a.value.length = size)
    (hvalue : 0 < size → ∃ v, value = some v ∧ peek v 0 size = some a.value) :
    insertBuffer name value size = some (a.record 0 ++ List.replicate 4 0) := by
  have hzeros : List.replicate (12 + name.length + 1 + size) (0 : UInt8) =
      List.replicate 5 0 ++ (List.replicate 1 0 ++ (List.replicate 2 0 ++ (List.replicate (name.length + 1) 0 ++
        (List.replicate size 0 ++ List.replicate 4 0)))) := by
    simp only [List.replicate_append_replicate]
    congr 1
    omega
  have hrecord : a.record 0 = List.replicate 5 0 ++ leBytes 1 name.length ++ leBytes 2 size ++ (name ++ [0]) ++
      a.value := by
    rw [Attribute.record, hflags, hname, hsize]
    rfl
  have hlength : poke (List.replicate 5 0 ++ (List.replicate 1 0 ++ (List.replicate 2 0 ++
      (List.replicate (name.length + 1) 0 ++ (List.replicate size 0 ++ List.replicate 4 0))))) 5
        (leBytes 1 name.length) = some _ := poke_next (by simp) (by simp)
  have hcount : poke (List.replicate 5 0 ++ leBytes 1 name.length ++ (List.replicate 2 0 ++
      (List.replicate (name.length + 1) 0 ++ (List.replicate size 0 ++ List.replicate 4 0)))) 6 (leBytes 2 size) =
        some _ := poke_next (by simp) (by simp)
  have hcopy : poke (List.replicate 5 0 ++ leBytes 1 name.length ++ leBytes 2 size ++
      (List.replicate (name.length + 1) 0 ++ (List.replicate size 0 ++ List.replicate 4 0))) 8 (name ++ [0]) =
        some _ := poke_next (by simp) (by simp)
  rw [insertBuffer, Option.bind_eq_bind, hzeros, hlength, Option.bind_some, hcount, Option.bind_some, hcopy,
    Option.bind_some, hrecord]
  by_cases hpos : 0 < size
  · obtain ⟨v, rfl, hpeek⟩ := hvalue hpos
    rw [if_pos hpos, Option.bind_some, hpeek, Option.bind_some]
    exact poke_next (by simp; omega) (by simp [hsize])
  · have hzero : size = 0 := Nat.eq_zero_of_not_pos hpos
    subst hzero
    rw [if_neg hpos, List.eq_nil_of_length_eq_zero hsize]
    simp

end

/-! ## The functions and the map -/

/-- The buffer of the caller has the size that it is said to have. -/
def Sized (value : Option (List UInt8)) (size : Nat) : Prop := ∀ v, value = some v → size ≤ v.length

theorem readValue_eq (a : Attribute) (junk : List UInt8) {value : Option (List UInt8)} {size : Nat}
    (hsized : Sized value size) (hvalue : size ≠ 0 → value ≠ none) :
    readValue value size (a.record 0 ++ junk) =
      some (if a.value = [] then (value, .error .ENODATA)
        else if size = 0 then (value, .ok a.value.length)
        else if a.value.length > size then (value, .error .ERANGE)
        else (value.map fun v => a.value ++ v.drop a.value.length, .ok a.value.length)) := by
  rw [readValue, loadEa_reply, Option.bind_eq_bind, Option.bind_some]
  by_cases hempty : a.value = []
  · rw [if_pos hempty, if_pos (by rw [hempty]; rfl)]
  · rw [if_neg hempty, if_neg (fun h => hempty (List.eq_nil_of_length_eq_zero h))]
    by_cases hsize : size = 0
    · rw [if_pos hsize, if_pos hsize]
    · rw [if_neg hsize, if_neg hsize]
      by_cases hsmall : a.value.length > size
      · rw [if_pos hsmall, if_pos hsmall]
      · rw [if_neg hsmall, if_neg hsmall]
        cases hv : value with
        | none => exact absurd hv (hvalue hsize)
        | some v =>
          have hle := hsized v hv
          have hpoke : poke v 0 a.value = some (a.value ++ v.drop a.value.length) := by
            have hover := poke_over [] [] (show a.value.length ≤ v.length by omega)
            simpa using hover
          simp only [copyValue, peek_value, Option.bind_eq_bind, Option.bind_some, hpoke, Option.map_some]


section

variable {σ : Type} {K : System σ} {upper : UInt8 → UInt8} {attributes : σ → Attributes} {file : σ}
  {name : List UInt8}

/-- There is no attribute without a value. -/
theorem Documented.shown_nil (h : Documented K upper attributes) (key : List UInt8) :
    shown (attributes file) key = [] ↔ attributes file key = none := by
  rw [shown]
  cases hm : attributes file key with
  | none => simp
  | some bytes =>
    have hne : bytes ≠ [] := fun hnil => h.value_ne file key (hnil ▸ hm)
    simp [hne]

/-- What `do_getxattr` gets to see. -/
theorem Documented.ask (h : Documented K upper attributes) (file : σ) {request : List UInt8}
    (hrequest : requested request = some name) :
    attributes (K.ask file request).1 = attributes file ∧
      ((K.ask file request).2.1 = .success → ∃ (a : Attribute) (back : List UInt8),
        a.value = shown (attributes file) (name.map upper) ∧ (K.ask file request).2.2 = a.record 0 ++ back) := by
  have hkeeps := h.query_keeps file request 1024
  rw [System.ask]
  simp only
  split
  · refine ⟨(h.query_keeps _ _ _).trans hkeeps, fun hsuccess => ?_⟩
    obtain ⟨a, back, -, hvalue, -, hbuffer⟩ := h.query_success _ _ _ _ hrequest hsuccess
    rw [hkeeps] at hvalue
    exact ⟨a, back, hvalue, hbuffer⟩
  · refine ⟨hkeeps, fun hsuccess => ?_⟩
    obtain ⟨a, back, -, hvalue, -, hbuffer⟩ := h.query_success _ _ _ _ hrequest hsuccess
    exact ⟨a, back, hvalue, hbuffer⟩

/-- **`getxattr` is a lookup.** -/
theorem getxattr_eq (h : Documented K upper attributes) (file : σ) (name : List UInt8)
    {value : Option (List UInt8)} {size : Nat} (hsized : Sized value size) :
    ∃ file', getxattr K file name value size =
        some (file', (attributes file).get upper name value size (K.answers file (.get name value size))) ∧
      attributes file' = attributes file := by
  rw [getxattr, Attributes.get]
  by_cases hname : name = []
  · rw [if_pos hname, if_pos (.inl hname)]
    exact ⟨file, rfl, rfl⟩
  · by_cases hnull : size ≠ 0 ∧ value = none
    · rw [if_neg hname, if_pos hnull, if_pos (.inr hnull)]
      exact ⟨file, rfl, rfl⟩
    · have hok : ¬ (name = [] ∨ (size ≠ 0 ∧ value = none)) := by
        rintro (heq | heq)
        · exact hname heq
        · exact hnull heq
      rw [if_neg hname, if_neg hnull, if_neg hok, doGetxattr]
      by_cases hlong : name.length > 254
      · rw [if_pos hlong, if_pos hlong]
        exact ⟨file, rfl, rfl⟩
      · obtain ⟨request, hrequest, hrequested⟩ := exists_nameInfo (Nat.le_of_not_lt hlong)
        obtain ⟨hkeeps, hrecord⟩ := h.ask file hrequested
        have hanswer : (K.answers file (.get name value size)).query = (K.ask file request).2.1 := by
          rw [System.answers, hrequest]
          rfl
        rw [if_neg hlong, if_neg hlong, hrequest, hanswer, Option.bind_eq_bind, Option.bind_some]
        refine ⟨(K.ask file request).1, ?_, hkeeps⟩
        simp only
        by_cases hstatus : (K.ask file request).2.1 ≠ .success
        · rw [if_pos hstatus, if_pos hstatus]
        · obtain ⟨a, back, hvalue, hbuffer⟩ := hrecord (not_not.mp hstatus)
          have hread := readValue_eq a back hsized (fun hsize heq => hnull ⟨hsize, heq⟩)
          rw [if_neg hstatus, if_neg hstatus, hbuffer, hread, Option.map_some]
          by_cases hempty : a.value = []
          · rw [if_pos hempty, (h.shown_nil _).mp (hvalue ▸ hempty)]
          · have hsome : attributes file (name.map upper) = some a.value := by
              cases hm : attributes file (name.map upper) with
              | none => exact absurd (hvalue.trans ((h.shown_nil _).mpr hm)) hempty
              | some bytes =>
                rw [hvalue, shown, hm]
                rfl
            rw [if_neg hempty, hsome]

/-- Whether there is such an attribute, unless the system refuses to say so. -/
theorem check_eq (h : Documented K upper attributes) (file : σ) (hname : name.length ≤ 254) (operation : Int) :
    check K file name operation = some ((K.asked file name operation).1,
      match if granted (K.asked file name operation).2 then (attributes file).objects (name.map upper) operation
        else none with
      | some errno => .error errno
      | none => .ok ()) ∧
      attributes (K.asked file name operation).1 = attributes file := by
  rw [check, System.asked]
  by_cases hzero : operation = 0
  · subst hzero
    simp [Attributes.objects, granted]
  · obtain ⟨request, hrequest, hrequested⟩ := exists_nameInfo hname
    rw [if_neg hzero, if_neg hzero, hrequest, Option.bind_eq_bind, Option.bind_some]
    refine ⟨?_, h.query_keeps _ _ _⟩
    have hsuccess := h.query_success file request 512 name hrequested
    have hsmall := h.query_small file request 512 name hrequested
    have hnil : shown (attributes file) (name.map upper) = [] ↔ attributes file (name.map upper) = none :=
      h.shown_nil (name.map upper)
    cases hstatus : (K.ntQueryEaFile file request 512).2.1 with
    | success =>
      obtain ⟨a, back, -, hvalue, -, hbuffer⟩ := hsuccess hstatus
      rw [← hvalue] at hnil
      simp only [hstatus, hbuffer, loadEa_reply, granted, Attributes.objects, if_true]
      cases hm : attributes file (name.map upper) with
      | none =>
        have hempty := hnil.mpr hm
        by_cases hreplace : operation = 2 ∨ operation = 3
        · simp [hreplace, hempty]
        · simp [hreplace, hempty]
      | some bytes =>
        have hpos : 0 < a.value.length := List.length_pos_iff.mpr fun hempty => by
          cases hm.symm.trans (hnil.mp hempty)
        have hzero' : a.value.length ≠ 0 := by omega
        by_cases hcreate : operation = 1
        · simp [hcreate, hpos]
        · simp [hcreate, hzero']
    | bufferOverflow | bufferTooSmall =>
      have hlt := hsmall (by rw [hstatus]; simp)
      have hsome : attributes file (name.map upper) ≠ none := by
        intro hnone
        rw [hnil.mpr hnone, List.length_nil] at hlt
        omega
      simp only [hstatus, granted, Attributes.objects, if_true]
      by_cases hcreate : operation = 1
      · simp [hcreate, hsome]
      · simp [hcreate, hsome]
    | noMoreEas | noEasOnFile | other => simp [hstatus, granted]

/-- What is written: so many bytes of the caller's. -/
theorem length_written {value : Option (List UInt8)} {size : Nat} (hsized : Sized value size)
    (hnull : value = none → size = 0) : ((value.getD []).take size).length = size := by
  cases hv : value with
  | none =>
    rw [hnull hv]
    rfl
  | some v => exact List.length_take_of_le (hsized v hv)

/-- `do_setxattr` with a name that can be asked for. -/
theorem doSetxattr_eq (h : Documented K upper attributes) (file : σ) (hname : name.length ≤ 254)
    {value : Option (List UInt8)} {size : Nat} (hsize : size ≤ 65535) (hsized : Sized value size)
    (hnull : value = none → size = 0) (operation : Int) :
    ∃ file', doSetxattr K file name value size operation = some (file',
        ((attributes file).change upper name value size operation
          (K.answers file (.set name value size operation))).2) ∧
      attributes file' = ((attributes file).change upper name value size operation
        (K.answers file (.set name value size operation))).1 := by
  obtain ⟨hcheck, hkeeps⟩ := check_eq h file hname operation
  have hquery : (K.answers file (.set name value size operation)).query = (K.asked file name operation).2 := rfl
  rw [doSetxattr, if_neg (Nat.not_lt.mpr hname), hcheck]
  unfold Attributes.change
  rw [hquery]
  generalize (if granted (K.asked file name operation).2 then
    (attributes file).objects (name.map upper) operation else none) = objection
  cases objection with
  | some errno => exact ⟨_, rfl, hkeeps⟩
  | none =>
    have hlength := length_written hsized hnull
    have hname_lt : name.length < 256 := by omega
    have hvalue_lt : ((value.getD []).take size).length < 65536 := by omega
    let a : Attribute := ⟨0, name, (value.getD []).take size, hname_lt, hvalue_lt⟩
    have hbuffer : insertBuffer name value size = some (a.record 0 ++ List.replicate 4 0) := by
      refine insertBuffer_eq a rfl rfl hlength ?_
      intro hpos
      cases hv : value with
      | none =>
        have hzero := hnull hv
        omega
      | some v =>
        refine ⟨v, rfl, ?_⟩
        rw [peek, if_pos (by rw [Nat.zero_add]; exact hsized v hv), List.drop_zero]
        simp only [a, hv, Option.getD_some]
    have hchange : (K.answers file (.set name value size operation)).change =
        (K.ntSetEaFile (K.asked file name operation).1 (a.record 0 ++ List.replicate 4 0)).2 := by
      rw [System.answers, hbuffer]
      rfl
    have hset := h.set_success (K.asked file name operation).1 a (List.replicate 4 0)
    have hrefused := h.set_refused (K.asked file name operation).1 (a.record 0 ++ List.replicate 4 0)
    rw [hkeeps] at hset hrefused
    rw [hchange]
    refine ⟨(K.ntSetEaFile (K.asked file name operation).1 (a.record 0 ++ List.replicate 4 0)).1, ?_⟩
    simp only [Option.bind_eq_bind, Option.bind_some, hbuffer]
    by_cases hstatus : (K.ntSetEaFile (K.asked file name operation).1 (a.record 0 ++ List.replicate 4 0)).2 = .success
    · rw [if_pos hstatus, if_pos hstatus]
      exact ⟨rfl, hset hstatus⟩
    · rw [if_neg hstatus, if_neg hstatus]
      exact ⟨rfl, hrefused hstatus⟩

theorem setxattr_refuses (K : System σ) (file : σ) (name : List UInt8) (value : Option (List UInt8)) (size : Nat)
    (operation : Int) :
    setxattr K file name value size operation =
      match Attributes.refuses name value size operation with
      | some errno => some (file, .error errno)
      | none => doSetxattr K file name value size operation := by
  rw [setxattr, Attributes.refuses]
  by_cases hrange : operation < 0 ∨ operation > 3
  · simp only [if_pos hrange]
  · by_cases hmissing : operation ≠ 3 ∧ (value = none ∨ size = 0)
    · simp only [if_neg hrange, if_pos hmissing]
    · by_cases hdelete : operation = 3 ∧ value ≠ none ∧ size ≠ 0
      · simp only [if_neg hrange, if_neg hmissing, if_pos hdelete]
      · by_cases hsize : size > 65535
        · simp only [if_neg hrange, if_neg hmissing, if_neg hdelete, if_pos hsize]
        · by_cases hname : name = []
          · simp only [if_neg hrange, if_neg hmissing, if_neg hdelete, if_neg hsize, if_pos hname]
          · by_cases hlong : name.length > 254
            · simp only [if_neg hrange, if_neg hmissing, if_neg hdelete, if_neg hsize, if_neg hname, if_pos hlong,
                doSetxattr]
            · simp only [if_neg hrange, if_neg hmissing, if_neg hdelete, if_neg hsize, if_neg hname, if_neg hlong]

/-- Arguments that are not refused. -/
theorem refuses_none {value : Option (List UInt8)} {size : Nat} {operation : Int}
    (h : Attributes.refuses name value size operation = none) :
    (value = none → operation = 3) ∧ size ≤ 65535 ∧ name.length ≤ 254 := by
  rw [Attributes.refuses] at h
  split_ifs at h with hrange hmissing hdelete hsize hname hlong
  refine ⟨?_, by omega, by omega⟩
  intro hnone
  by_contra hne
  exact hmissing ⟨hne, .inl hnone⟩

/-- **`setxattr` is an update.** -/
theorem setxattr_eq (h : Documented K upper attributes) (file : σ) (name : List UInt8)
    {value : Option (List UInt8)} {size : Nat} (hsized : Sized value size) {operation : Int}
    (hnull : operation = 3 → value = none → size = 0) :
    ∃ file', setxattr K file name value size operation = some (file',
        ((attributes file).set upper name value size operation
          (K.answers file (.set name value size operation))).2) ∧
      attributes file' = ((attributes file).set upper name value size operation
        (K.answers file (.set name value size operation))).1 := by
  rw [setxattr_refuses]
  unfold Attributes.set
  cases hrefuses : Attributes.refuses name value size operation with
  | some errno => exact ⟨file, rfl, rfl⟩
  | none =>
    obtain ⟨hdelete, hsize, hname⟩ := refuses_none hrefuses
    exact doSetxattr_eq h file hname hsize hsized (fun hnone => hnull (hdelete hnone) hnone) operation

/-! ## Runs -/

/-- Buffers have the size that they are said to have. -/
def SizedCall : Call → Prop
  | .get _ value size => Sized value size
  | .set _ value size operation => Sized value size ∧ (operation = 3 → value = none → size = 0)

theorem xattrStep_eq (h : Documented K upper attributes) (file : σ) {call : Call} (hsized : SizedCall call) :
    ∃ file', xattrStep K file call =
        some (file', ((attributes file).step upper (call, K.answers file call)).2) ∧
      attributes file' = ((attributes file).step upper (call, K.answers file call)).1 := by
  cases call with
  | get name value size => exact getxattr_eq h file name hsized
  | set name value size operation =>
    obtain ⟨hvalue, hnull⟩ := hsized
    obtain ⟨file', hset, hkeeps⟩ := setxattr_eq h file name hvalue hnull
    refine ⟨file', ?_, hkeeps⟩
    rw [xattrStep, hset]
    rfl

/-- **Extended attributes are a map** from names to values: along every run of calls on a file the functions return,
and leave in the buffers of their callers, what the map does that is told what the system says to each call, and
nothing outside of a buffer is touched. -/
theorem xattr_refines (h : Documented K upper attributes) (file : σ) (calls : List Call)
    (hsized : ∀ call ∈ calls, SizedCall call) :
    ∃ file' results, (xattrMachine K).run file calls = some (file', results) ∧
      (mapMachine upper).run (attributes file) (K.answered file calls) = some (attributes file', results) := by
  induction calls generalizing file with
  | nil => exact ⟨file, [], rfl, rfl⟩
  | cons call calls ih =>
    obtain ⟨file₁, hstep, hkeeps⟩ := xattrStep_eq h file (hsized call List.mem_cons_self)
    obtain ⟨file', results, hrun, hmap⟩ := ih file₁ fun call hcall => hsized call (List.mem_cons_of_mem _ hcall)
    have hcode : (xattrMachine K).step file call =
        some (file₁, ((attributes file).step upper (call, K.answers file call)).2) := hstep
    have hspec : (mapMachine upper).step (attributes file) (call, K.answers file call) =
        some (attributes file₁, ((attributes file).step upper (call, K.answers file call)).2) := by
      rw [hkeeps]
      rfl
    refine ⟨file', ((attributes file).step upper (call, K.answers file call)).2 :: results, ?_, ?_⟩
    · rw [Machine.run_cons hcode, hrun]
      rfl
    · rw [System.answered, hstep, Machine.run_cons hspec]
      simp only [Option.elim_some, hmap]
      rfl

end

/-- `toupper` -/
def capital (c : UInt8) : UInt8 := if 97 ≤ c ∧ c ≤ 122 then c - 32 else c

/-- Attributes that have values. -/
abbrev Kept := {m : Attributes // ∀ key, m key ≠ some []}

def Kept.none : Kept := ⟨fun _ => Option.none, fun _ => (Option.some_ne_none []).symm⟩

theorem put_ne {m : Attributes} (h : ∀ key, m key ≠ some []) (key bytes : List UInt8) (other : List UInt8) :
    m.put key bytes other ≠ some [] := by
  rw [Attributes.put]
  by_cases hkey : other = key
  · subst hkey
    rw [Function.update_self]
    cases bytes with
    | nil => exact fun hnone => (by cases hnone)
    | cons => exact fun hnil => (by cases hnil)
  · rw [Function.update_of_ne hkey]
    exact h other

/-- The name and the value of a record. -/
def written (buffer : List UInt8) : Option (List UInt8 × List UInt8) := do
  let ea ← loadEa buffer 0
  let name ← peek buffer 8 ea.eaNameLength
  let value ← peek buffer (8 + ea.eaNameLength + 1) ea.eaValueLength
  some (name, value)

/-- A system that takes no names with a colon. -/
def colonless : System Kept where
  ntQueryEaFile m request size :=
    match requested request with
    | none => (m, .other 0xC000000D, [])
    | some name =>
      if 58 ∈ name then (m, .other 0x80000013, [])
      else if h : (name.map capital).length < 256 ∧ (shown m.1 (name.map capital)).length < 65536 then
        let a : Attribute := ⟨0, name.map capital, shown m.1 (name.map capital), h.1, h.2⟩
        if a.length ≤ size then (m, .success, a.record 0 ++ List.replicate (size - a.length) 0)
        else (m, .bufferOverflow, [])
      else (m, .other 0xC0000001, [])
  ntSetEaFile m buffer :=
    match written buffer with
    | none => (m, .other 0xC000000D)
    | some (name, value) =>
      if 58 ∈ name then (m, .other 0x80000013)
      else (⟨m.1.put (name.map capital) value, put_ne m.2 (name.map capital) value⟩, .success)

theorem written_record (a : Attribute) (back : List UInt8) :
    written (a.record 0 ++ back) = some (a.name, a.value) := by
  have hname := peek_append (leBytes 4 0 ++ [a.flags] ++ leBytes 1 a.name.length ++ leBytes 2 a.value.length)
    a.name ([0] ++ a.value ++ back)
  have hbuffer : leBytes 4 0 ++ [a.flags] ++ leBytes 1 a.name.length ++ leBytes 2 a.value.length ++ a.name ++
      ([0] ++ a.value ++ back) = a.record 0 ++ back := by
    simp only [Attribute.record, List.append_assoc]
  rw [hbuffer] at hname
  simp only [List.length_append, length_leBytes, List.length_singleton] at hname
  simp only [written, loadEa_reply, Option.bind_eq_bind, Option.bind_some, hname, peek_value]

theorem colonless_documented : Documented colonless capital Subtype.val where
  value_ne m := m.2
  query_keeps m request size := by
    simp only [colonless]
    split
    · rfl
    · split
      · rfl
      · split
        · split <;> rfl
        · rfl
  query_success m request size name hrequest hsuccess := by
    simp only [colonless, hrequest] at hsuccess ⊢
    split at hsuccess
    · cases hsuccess
    · next hcolon =>
      split at hsuccess
      · next hlengths =>
        split at hsuccess
        · next hfits =>
          let a : Attribute := ⟨0, name.map capital, shown m.1 (name.map capital), hlengths.1, hlengths.2⟩
          refine ⟨a, List.replicate (size - a.length) 0, rfl, rfl, ?_, ?_⟩
          · rw [List.length_replicate]
            exact Nat.add_sub_cancel' hfits
          · rw [if_neg hcolon, dif_pos hlengths, if_pos hfits]
        · cases hsuccess
      · cases hsuccess
  query_small m request size name hrequest hsmall := by
    simp only [colonless, hrequest] at hsmall
    split at hsmall
    · rcases hsmall with hsmall | hsmall <;> cases hsmall
    · split at hsmall
      · split at hsmall
        · rcases hsmall with hsmall | hsmall <;> cases hsmall
        · next hlong =>
          simp only [Attribute.length, List.length_map] at hlong
          exact Nat.lt_of_not_le hlong
      · rcases hsmall with hsmall | hsmall <;> cases hsmall
  set_success m a back hsuccess := by
    simp only [colonless, written_record] at hsuccess ⊢
    split at hsuccess
    · cases hsuccess
    · next hcolon => rw [if_neg hcolon]
  set_refused m buffer hrefused := by
    simp only [colonless] at hrefused ⊢
    split at hrefused
    · rfl
    · split at hrefused
      · next hcolon => rw [if_pos hcolon]
      · exact absurd rfl hrefused

/-- An attribute is created, asked for, refused a second time, replaced, asked for again, and removed; one with a
colon is asked for, and created. -/
def calls : List Call :=
  [.set [107, 101, 121] (some [1, 2, 3]) 3 1, .get [75, 69, 89] (some [9, 9, 9, 9]) 4,
    .set [107, 69, 121] (some [1]) 1 1, .set [107, 101, 121] (some [5, 6]) 1 2, .get [107, 101, 121] none 0,
    .set [107, 101, 121] none 0 3, .get [107, 101, 121] (some []) 0, .get [97, 58, 98] none 0,
    .set [97, 58, 98] (some [1]) 1 1]

set_option maxRecDepth 100000 in
theorem xattr_refines_calls :
    ∃ (file : Kept) (results : List Returned),
      (xattrMachine colonless).run Kept.none calls = some (file, results) ∧
      (mapMachine capital).run (fun _ => none) (colonless.answered Kept.none calls) = some (file.1, results) ∧
      results.map (·.2) = [.ok 0, .ok 3, .error .EEXIST, .ok 0, .ok 1, .ok 0, .error .ENODATA,
        .error (.mapped (.other 0x80000013)), .error (.mapped (.other 0x80000013))] := by
  obtain ⟨file, results, hrun, hmap⟩ :=
    xattr_refines colonless_documented Kept.none calls (by simp [calls, SizedCall, Sized])
  refine ⟨file, results, hrun, hmap, ?_⟩
  have hresults : ((xattrMachine colonless).run Kept.none calls).map (fun r => r.2.map (·.2)) =
      some [.ok 0, .ok 3, .error .EEXIST, .ok 0, .ok 1, .ok 0, .error .ENODATA,
        .error (.mapped (.other 0x80000013)), .error (.mapped (.other 0x80000013))] := rfl
  rw [hrun] at hresults
  exact Option.some.inj hresults

end WindowsLibc.Xattr.Value
