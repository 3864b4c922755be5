import WindowsLibc.Lib.Block
import WindowsLibc.Lib.Machine

/-!
# Listing extended attributes (`sys/xattr/listxattr.c`)

`NtQueryEaFile` delivers the attributes of a file in buffers of chained records. `do_listxattr` goes along the
chain by the offset of the next record, and sees the end of a buffer from a count of bytes that it computes
from the lengths of names and values.

`lists_attributes`: however the attributes are split into buffers, the two agree, the names are counted or
written one behind the other, and a list that is too small is written only within its size.
-/

namespace WindowsLibc.Xattr

open WindowsLibc.Lib

/-! ## The system -/

inductive NtStatus where
  | success
  | noMoreEas
  | noEasOnFile
  | bufferTooSmall
  | bufferOverflow
  | other (code : UInt32)
  deriving DecidableEq

/-- What a call of `NtQueryEaFile` leaves: the status, the buffer and `io.Information`. -/
structure Reply where
  status : NtStatus
  buffer : List UInt8
  information : Nat

/-- An extended attribute. The lengths are recorded in one byte and in two. -/
structure Attribute where
  flags : UInt8
  name : List UInt8
  value : List UInt8
  name_lt : name.length < 256
  value_lt : value.length < 65536

/-- The bytes up to the next multiple of `sizeof(LONG)`. -/
def padding (n : Nat) : Nat := if n % 4 = 0 then 0 else 4 - n % 4

namespace Attribute

/-- `offsetof(FILE_FULL_EA_INFORMATION, EaName)`, the name, its terminator and the value -/
def length (a : Attribute) : Nat := 8 + a.name.length + a.value.length + 1

/-- The room a record takes when another one follows. -/
def span (a : Attribute) : Nat := a.length + padding a.length

/-- `FILE_FULL_EA_INFORMATION` -/
def record (a : Attribute) (nextEntryOffset : Nat) : List UInt8 :=
  leBytes 4 nextEntryOffset ++ [a.flags] ++ leBytes 1 a.name.length ++ leBytes 2 a.value.length ++
    (a.name ++ [0]) ++ a.value

end Attribute

/-- The records of a buffer. Each one is aligned to 4 bytes, except the last one. -/
def pack : List Attribute → List UInt8
  | [] => []
  | a :: as =>
    if as.isEmpty then a.record 0
    else a.record a.span ++ List.replicate (padding a.length) 0 ++ pack as

/-- The attributes that one call delivers. -/
structure Chunk where
  attributes : List Attribute
  fits : (pack attributes).length ≤ 65536

/-- `NtQueryEaFile` on a file with these attributes still to deliver: it asks for a larger buffer if the next
ones do not fit. -/
def ntQueryEaFile : Machine (List Chunk) Nat Reply where
  step
    | [], _ => some ([], ⟨.noMoreEas, [], 0⟩)
    | c :: chunks, size =>
      if (pack c.attributes).length ≤ size then
        some (chunks, ⟨.success, pack c.attributes, (pack c.attributes).length⟩)
      else some (c :: chunks, ⟨.bufferTooSmall, [], 0⟩)

/-! ## The function -/

inductive Errno where
  | ERANGE
  /-- What `map_ntstatus_to_errno` makes of a status. -/
  | mapped (status : NtStatus)
  deriving DecidableEq

/-- `ea_info->NextEntryOffset`, `ea_info->EaNameLength` and `ea_info->EaValueLength` -/
structure EaInformation where
  nextEntryOffset : Nat
  eaNameLength : Nat
  eaValueLength : Nat

def loadEa (buffer : List UInt8) (off : Nat) : Option EaInformation := do
  let next ← peek buffer off 4
  let nameLength ← peek buffer (off + 5) 1
  let valueLength ← peek buffer (off + 6) 2
  some ⟨leNat next, leNat nameLength, leNat valueLength⟩

/-- `memcpy(list + data_length, ea_info->EaName, ea_info->EaNameLength + 1)`, in a call that is to fill the
list -/
def copyName (size : Nat) (list : List UInt8) (dataLength : Nat) (buffer : List UInt8) (off : Nat)
    (ea : EaInformation) : Option (List UInt8) :=
  if size ≠ 0 then (peek buffer (off + 8) (ea.eaNameLength + 1)).bind (poke list dataLength) else some list

/-- `read_data` behind a record. -/
def readBehind (readData : Nat) (ea : EaInformation) : Nat :=
  let readData := readData + 8 + ea.eaNameLength + ea.eaValueLength + 1
  if ea.nextEntryOffset ≠ 0 then readData + padding readData else readData

/-- The loop over the records of a buffer, for at most so many of them. -/
def readRecords (buffer : List UInt8) (information size : Nat) :
    Nat → Nat → Nat → Nat → List UInt8 → Option (List UInt8 × Except Errno Nat)
  | 0, _, _, _, _ => none
  | fuel + 1, off, readData, dataLength, list =>
    if readData = information then some (list, .ok dataLength)
    else do
      let ea ← loadEa buffer off
      if size ≠ 0 ∧ dataLength + ea.eaNameLength + 1 > size then some (list, .error .ERANGE)
      else do
        let list ← copyName size list dataLength buffer off ea
        readRecords buffer information size fuel (off + ea.nextEntryOffset) (readBehind readData ea)
          (dataLength + ea.eaNameLength + 1) list

section

variable {σ : Type*} (queryEaFile : Machine σ Nat Reply)

/-- A query, which is repeated with a buffer of 65536 bytes if the buffer is too small. -/
def query (file : σ) (queryBufferSize : Nat) : Option (σ × Nat × Except Errno Reply) := do
  let (file, reply) ← queryEaFile.step file queryBufferSize
  if reply.status = .bufferTooSmall ∨ reply.status = .bufferOverflow then do
    let (file, reply) ← queryEaFile.step file 65536
    some (file, 65536, if reply.status ≠ .success then .error (.mapped reply.status) else .ok reply)
  else some (file, queryBufferSize, .ok reply)

/-- `while (status != STATUS_NO_MORE_EAS)`, for at most so many buffers. -/
def queryLoop (size : Nat) : Nat → σ → Nat → Nat → List UInt8 → Option (List UInt8 × Except Errno Nat)
  | 0, _, _, _, _ => none
  | fuel + 1, file, queryBufferSize, dataLength, list =>
    match query queryEaFile file queryBufferSize with
    | none => none
    | some (_, _, .error errno) => some (list, .error errno)
    | some (file, queryBufferSize, .ok reply) =>
      if reply.status = .noEasOnFile then some (list, .ok 0)
      else
        match readRecords reply.buffer reply.information size fuel 0 0 dataLength list with
        | none => none
        | some (list, .error errno) => some (list, .error errno)
        | some (list, .ok dataLength) =>
          if reply.status = .noMoreEas then some (list, .ok dataLength)
          else queryLoop size fuel file queryBufferSize dataLength list

/-- `do_listxattr`, with the list and what is returned; an error is -1. Memory for the buffers is granted. -/
def doListxattr (fuel : Nat) (file : σ) (list : List UInt8) (size : Nat) :
    Option (List UInt8 × Except Errno Nat) :=
  queryLoop queryEaFile size fuel file 1024 0 list

end

/-! ## What is wanted -/

def allAttributes (chunks : List Chunk) : List Attribute := chunks.flatMap (·.attributes)

/-- The names in order, each with its terminator. -/
def names (attributes : List Attribute) : List UInt8 := attributes.flatMap (fun a => a.name ++ [0])

/-- The names are counted, or written and counted, or refused. -/
def Lists (attributes : List Attribute) (list : List UInt8) (size : Nat)
    (r : Option (List UInt8 × Except Errno Nat)) : Prop :=
  if size = 0 then r = some (list, .ok (names attributes).length)
  else if (names attributes).length ≤ size then
    r = some (names attributes ++ list.drop (names attributes).length, .ok (names attributes).length)
  else ∃ list', r = some (list', .error .ERANGE) ∧ list'.length = list.length ∧
    list'.drop size = list.drop size

/-! ## Records -/

namespace Attribute

variable (a : Attribute)

@[simp] theorem length_record (next : Nat) : (a.record next).length = a.length := by
  simp only [record, List.length_append, length_leBytes, List.length_singleton, length]
  omega

theorem span_pos : 0 < a.span := Nat.lt_of_lt_of_le (Nat.succ_pos _) (Nat.le_add_right a.length _)

theorem span_lt : a.span < 256 ^ 4 := by
  have hname := a.name_lt
  have hvalue := a.value_lt
  have hpad : padding a.length ≤ 4 := by
    rw [padding]
    split <;> omega
  rw [span, length] at *
  omega

/-- What is loaded from the record of an attribute. -/
theorem loadEa_record {next : Nat} (hnext : next < 256 ^ 4) (front back : List UInt8) :
    loadEa (front ++ a.record next ++ back) front.length =
      some ⟨next, a.name.length, a.value.length⟩ := by
  have hpeek (pre middle post : List UInt8) (h : a.record next = pre ++ middle ++ post) :
      peek (front ++ a.record next ++ back) (front.length + pre.length) middle.length = some middle := by
    have happend := peek_append (front ++ pre) middle (post ++ back)
    rw [List.length_append] at happend
    rw [h]
    simp only [List.append_assoc] at happend ⊢
    exact happend
  have hoffset := hpeek [] (leBytes 4 next) _ (by simp only [record, List.nil_append, List.append_assoc]; rfl)
  have hname := hpeek (leBytes 4 next ++ [a.flags]) (leBytes 1 a.name.length) _
    (by simp only [record, List.append_assoc]; rfl)
  have hvalue := hpeek (leBytes 4 next ++ [a.flags] ++ leBytes 1 a.name.length) (leBytes 2 a.value.length) _
    (by simp only [record, List.append_assoc]; rfl)
  simp only [List.length_append, length_leBytes, List.length_singleton, List.length_nil,
    Nat.add_zero] at hoffset hname hvalue
  have hname_lt : a.name.length < 256 ^ 1 := a.name_lt
  have hvalue_lt : a.value.length < 256 ^ 2 := a.value_lt
  rw [loadEa, hoffset, Option.bind_eq_bind, Option.bind_some, hname, Option.bind_some, hvalue,
    Option.bind_some, leNat_leBytes, leNat_leBytes, leNat_leBytes, Nat.mod_eq_of_lt hnext,
    Nat.mod_eq_of_lt hname_lt, Nat.mod_eq_of_lt hvalue_lt]

theorem peek_name (next : Nat) (front back : List UInt8) :
    peek (front ++ a.record next ++ back) (front.length + 8) (a.name.length + 1) = some (a.name ++ [0]) := by
  have hsplit : front ++ a.record next ++ back =
      front ++ (leBytes 4 next ++ [a.flags] ++ leBytes 1 a.name.length ++ leBytes 2 a.value.length) ++
        (a.name ++ [0]) ++ (a.value ++ back) := by
    simp only [record, List.append_assoc]
  have hpeek := peek_append (front ++ (leBytes 4 next ++ [a.flags] ++ leBytes 1 a.name.length ++
    leBytes 2 a.value.length)) (a.name ++ [0]) (a.value ++ back)
  rw [← hsplit] at hpeek
  simp only [List.length_append, length_leBytes, List.length_singleton] at hpeek
  exact hpeek

end Attribute

/-! ## The names one by one -/

/-- What a call makes of the names from one on. -/
def writeNames (size : Nat) : List Attribute → Nat → List UInt8 → Option (List UInt8 × Except Errno Nat)
  | [], dataLength, list => some (list, .ok dataLength)
  | a :: as, dataLength, list =>
    if size ≠ 0 ∧ dataLength + a.name.length + 1 > size then some (list, .error .ERANGE)
    else (if size ≠ 0 then poke list dataLength (a.name ++ [0]) else some list).bind
      (writeNames size as (dataLength + a.name.length + 1))

/-- One step of the loop, at the record of an attribute. -/
theorem readRecords_record (a : Attribute) {next : Nat} (hnext : next < 256 ^ 4) (front back : List UInt8)
    {information size readData : Nat} (hread : readData ≠ information) (fuel dataLength : Nat)
    (list : List UInt8) :
    readRecords (front ++ a.record next ++ back) information size (fuel + 1) front.length readData
        dataLength list =
      if size ≠ 0 ∧ dataLength + a.name.length + 1 > size then some (list, .error .ERANGE)
      else (if size ≠ 0 then poke list dataLength (a.name ++ [0]) else some list).bind
        (readRecords (front ++ a.record next ++ back) information size fuel (front.length + next)
          (readBehind readData ⟨next, a.name.length, a.value.length⟩)
          (dataLength + a.name.length + 1)) := by
  rw [readRecords, if_neg hread, a.loadEa_record hnext, Option.bind_eq_bind, Option.bind_some, copyName,
    a.peek_name]
  rfl

theorem padding_add {n : Nat} (h : n % 4 = 0) (k : Nat) : padding (n + k) = padding k := by
  have hmod : (n + k) % 4 = k % 4 := by omega
  rw [padding, padding, hmod]

theorem Attribute.span_mod (a : Attribute) : a.span % 4 = 0 := by
  rw [span, padding]
  split <;> omega

/-- The two counts agree behind a record: the last one is not padded, and the others are. -/
theorem readBehind_last (a : Attribute) (readData : Nat) :
    readBehind readData ⟨0, a.name.length, a.value.length⟩ = readData + a.length := by
  simp only [readBehind, Attribute.length, ne_eq, not_true_eq_false, if_false]
  omega

theorem readBehind_span (a : Attribute) {readData : Nat} (h : readData % 4 = 0) :
    readBehind readData ⟨a.span, a.name.length, a.value.length⟩ = readData + a.span := by
  have hsum : readData + 8 + a.name.length + a.value.length + 1 = readData + a.length := by
    rw [Attribute.length]
    omega
  rw [readBehind]
  simp only [hsum]
  rw [if_pos (Nat.ne_of_gt a.span_pos), padding_add h, Nat.add_assoc]
  rfl

/-- The loop over a buffer from one record on. Behind the last record, the chain has not gone on. -/
theorem readRecords_pack (size : Nat) (attributes : List Attribute) {front : List UInt8}
    {fuel off dataLength : Nat} {list : List UInt8} (hfuel : attributes.length < fuel)
    (hoff : attributes ≠ [] → off = front.length ∧ front.length % 4 = 0) :
    readRecords (front ++ pack attributes) (front ++ pack attributes).length size fuel off front.length
      dataLength list = writeNames size attributes dataLength list := by
  induction attributes generalizing front fuel off dataLength list with
  | nil =>
    cases fuel with
    | zero => exact absurd hfuel (Nat.not_lt_zero _)
    | succ fuel => rw [readRecords, pack, List.append_nil, if_pos rfl, writeNames]
  | cons a as ih =>
    obtain ⟨rfl, halign⟩ := hoff (List.cons_ne_nil a as)
    cases fuel with
    | zero => exact absurd hfuel (Nat.not_lt_zero _)
    | succ fuel =>
      have hless : as.length < fuel := Nat.lt_of_succ_lt_succ hfuel
      have hpos : 0 < a.length := Nat.succ_pos _
      by_cases hlast : as = []
      · subst hlast
        have hbytes : front ++ pack [a] = front ++ a.record 0 ++ [] := (List.append_nil _).symm
        have hread : front.length ≠ (front ++ a.record 0 ++ []).length := by
          simp only [List.length_append, Attribute.length_record, List.length_nil]
          omega
        rw [hbytes, readRecords_record a (by decide) front [] hread, readBehind_last, writeNames]
        congr 2
        funext list'
        have hrest := @ih (front ++ a.record 0) fuel (front.length + 0) (dataLength + a.name.length + 1) list'
          hless (fun hne => absurd rfl hne)
        have hfront : (front ++ a.record 0).length = front.length + a.length := by
          rw [List.length_append, a.length_record]
        rw [hfront] at hrest
        exact hrest
      · have hbytes : front ++ pack (a :: as) =
            front ++ a.record a.span ++ (List.replicate (padding a.length) 0 ++ pack as) := by
          rw [pack, if_neg (by rwa [List.isEmpty_iff]), List.append_assoc, List.append_assoc]
        have hread : front.length ≠
            (front ++ a.record a.span ++ (List.replicate (padding a.length) 0 ++ pack as)).length := by
          simp only [List.length_append, Attribute.length_record]
          omega
        rw [hbytes, readRecords_record a a.span_lt front _ hread, readBehind_span a halign, writeNames]
        congr 2
        funext list'
        have hfront : (front ++ a.record a.span ++ List.replicate (padding a.length) 0).length =
            front.length + a.span := by
          simp only [List.length_append, Attribute.length_record, List.length_replicate, Attribute.span]
          omega
        have hrest := @ih (front ++ a.record a.span ++ List.replicate (padding a.length) 0) fuel
          (front.length + a.span) (dataLength + a.name.length + 1) list' hless
          (fun _ => ⟨hfront.symm, by
            have hspan := a.span_mod
            omega⟩)
        rw [hfront, List.append_assoc] at hrest
        exact hrest

/-! ## Buffer by buffer -/

/-- What comes of the attributes that are read behind others. -/
def andThen (next : Nat → List UInt8 → Option (List UInt8 × Except Errno Nat)) :
    List UInt8 × Except Errno Nat → Option (List UInt8 × Except Errno Nat)
  | (list, .error errno) => some (list, .error errno)
  | (list, .ok dataLength) => next dataLength list

theorem writeNames_append (size : Nat) (as bs : List Attribute) (dataLength : Nat) (list : List UInt8) :
    writeNames size (as ++ bs) dataLength list =
      (writeNames size as dataLength list).bind (andThen (writeNames size bs)) := by
  induction as generalizing dataLength list with
  | nil => rfl
  | cons a as ih =>
    rw [List.cons_append, writeNames, writeNames]
    by_cases hsmall : size ≠ 0 ∧ dataLength + a.name.length + 1 > size
    · rw [if_pos hsmall, if_pos hsmall]
      rfl
    · rw [if_neg hsmall, if_neg hsmall, Option.bind_assoc]
      congr 1
      funext list'
      exact ih _ _

/-- The next buffer is delivered, at the latest into 65536 bytes. -/
theorem query_cons (c : Chunk) (chunks : List Chunk) (queryBufferSize : Nat) :
    ∃ queryBufferSize', query ntQueryEaFile (c :: chunks) queryBufferSize =
      some (chunks, queryBufferSize',
        .ok ⟨.success, pack c.attributes, (pack c.attributes).length⟩) := by
  have hlarge : ntQueryEaFile.step (c :: chunks) 65536 =
      some (chunks, ⟨.success, pack c.attributes, (pack c.attributes).length⟩) := if_pos c.fits
  by_cases hfits : (pack c.attributes).length ≤ queryBufferSize
  · have hstep : ntQueryEaFile.step (c :: chunks) queryBufferSize =
        some (chunks, ⟨.success, pack c.attributes, (pack c.attributes).length⟩) := if_pos hfits
    refine ⟨queryBufferSize, ?_⟩
    rw [query, hstep]
    rfl
  · have hstep : ntQueryEaFile.step (c :: chunks) queryBufferSize =
        some (c :: chunks, ⟨.bufferTooSmall, [], 0⟩) := if_neg hfits
    refine ⟨65536, ?_⟩
    rw [query, hstep, Option.bind_eq_bind, Option.bind_some]
    simp only [hlarge, true_or, if_true]
    rfl

/-- The function goes through all attributes as if they were in one buffer. -/
theorem queryLoop_eq (size : Nat) (chunks : List Chunk) {fuel queryBufferSize dataLength : Nat}
    {list : List UInt8} (hfuel : chunks.length + (allAttributes chunks).length + 1 < fuel) :
    queryLoop ntQueryEaFile size fuel chunks queryBufferSize dataLength list =
      writeNames size (allAttributes chunks) dataLength list := by
  induction chunks generalizing fuel queryBufferSize dataLength list with
  | nil =>
    match fuel, hfuel with
    | fuel + 2, _ => rfl
  | cons c chunks ih =>
    have hall : allAttributes (c :: chunks) = c.attributes ++ allAttributes chunks := List.flatMap_cons
    rw [hall, List.length_append, List.length_cons] at hfuel
    cases fuel with
    | zero => exact absurd hfuel (Nat.not_lt_zero _)
    | succ fuel =>
      obtain ⟨queryBufferSize', hquery⟩ := query_cons c chunks queryBufferSize
      have hrecords := @readRecords_pack size c.attributes [] fuel 0 dataLength list (by omega)
        (fun _ => ⟨rfl, rfl⟩)
      rw [List.nil_append, List.length_nil] at hrecords
      rw [hall, writeNames_append, queryLoop, hquery]
      simp only [hrecords, reduceCtorEq, if_false]
      cases writeNames size c.attributes dataLength list with
      | none => rfl
      | some r =>
        obtain ⟨list', errno | dataLength'⟩ := r
        · rfl
        · exact ih (by omega)

/-! ## All names -/

theorem names_cons (a : Attribute) (as : List Attribute) :
    names (a :: as) = a.name ++ [0] ++ names as := List.flatMap_cons

theorem length_names_cons (a : Attribute) (as : List Attribute) :
    (names (a :: as)).length = a.name.length + 1 + (names as).length := by
  rw [names_cons, List.length_append, List.length_append, List.length_singleton]

/-- Without a list, the names are counted. -/
theorem writeNames_zero (attributes : List Attribute) (dataLength : Nat) (list : List UInt8) :
    writeNames 0 attributes dataLength list = some (list, .ok (dataLength + (names attributes).length)) := by
  induction attributes generalizing dataLength with
  | nil => rfl
  | cons a as ih =>
    rw [writeNames, if_neg (fun h => h.1 rfl), if_neg (fun h => h rfl), Option.bind_some, ih,
      length_names_cons, Nat.add_assoc, Nat.add_assoc, Nat.add_assoc]

/-- Names for which there is space are written. -/
theorem writeNames_of_le {size : Nat} (hsize : size ≠ 0) (attributes : List Attribute) {dataLength : Nat}
    {list : List UInt8} (hlist : size ≤ list.length)
    (h : dataLength + (names attributes).length ≤ size) :
    writeNames size attributes dataLength list = some (overwrite list dataLength (names attributes),
      .ok (dataLength + (names attributes).length)) := by
  induction attributes generalizing dataLength list with
  | nil =>
    rw [names, List.flatMap_nil, overwrite_nil (by omega)]
    rfl
  | cons a as ih =>
    rw [length_names_cons] at h
    have hwide : (a.name ++ [0]).length = a.name.length + 1 := by rw [List.length_append, List.length_singleton]
    rw [writeNames, if_neg (by omega), if_pos hsize, poke, if_pos (by omega), Option.bind_some,
      ih (by rw [length_overwrite]; omega) (by omega), Nat.add_assoc, ← hwide, overwrite_append, names_cons,
      @List.length_append _ (a.name ++ [0]), Nat.add_assoc]

/-- Too many names are refused, after some of them have been written. -/
theorem writeNames_of_lt {size : Nat} (hsize : size ≠ 0) (attributes : List Attribute) {dataLength : Nat}
    {list : List UInt8} (hlist : size ≤ list.length) (hdata : dataLength ≤ size)
    (h : size < dataLength + (names attributes).length) :
    ∃ list', writeNames size attributes dataLength list = some (list', .error .ERANGE) ∧
      list'.length = list.length ∧ list'.drop size = list.drop size := by
  induction attributes generalizing dataLength list with
  | nil => exact absurd h (Nat.not_lt_of_le hdata)
  | cons a as ih =>
    rw [length_names_cons] at h
    by_cases hsmall : dataLength + a.name.length + 1 > size
    · exact ⟨list, by rw [writeNames, if_pos ⟨hsize, hsmall⟩], rfl, rfl⟩
    · have hle : dataLength + (a.name ++ [0]).length ≤ size := by
        rw [List.length_append, List.length_singleton]
        omega
      have hfits : dataLength + (a.name ++ [0]).length ≤ list.length := Nat.le_trans hle hlist
      obtain ⟨list₁, hpoke⟩ := exists_poke hfits
      have hlength := length_poke hpoke
      obtain ⟨list', hwrite, hlength', hdrop⟩ :=
        @ih (dataLength + a.name.length + 1) list₁ (by omega) (by omega) (by omega)
      refine ⟨list', ?_, hlength'.trans hlength, hdrop.trans ?_⟩
      · rw [writeNames, if_neg (fun hs => hsmall hs.2), if_pos hsize, hpoke, Option.bind_some, hwrite]
      · obtain ⟨-, rfl⟩ := poke_le hpoke
        obtain ⟨k, rfl⟩ := Nat.exists_eq_add_of_le hle
        rw [← List.drop_drop, drop_overwrite (by omega), List.drop_drop]

/-- However the attributes of a file are split into buffers: the names are counted without a list, written into
one that is large enough, and refused by one that is too small, of which nothing is written from its size on. -/
theorem lists_attributes (chunks : List Chunk) {list : List UInt8} {size : Nat} (hlist : size ≤ list.length)
    {fuel : Nat} (hfuel : chunks.length + (allAttributes chunks).length + 1 < fuel) :
    Lists (allAttributes chunks) list size (doListxattr ntQueryEaFile fuel chunks list size) := by
  rw [Lists, doListxattr, queryLoop_eq size chunks hfuel]
  by_cases hsize : size = 0
  · subst hsize
    rw [if_pos rfl, writeNames_zero, Nat.zero_add]
  · rw [if_neg hsize]
    by_cases hle : (names (allAttributes chunks)).length ≤ size
    · rw [if_pos hle, writeNames_of_le hsize _ hlist (by omega), overwrite_of_le (Nat.zero_le _), Nat.zero_add]
      rfl
    · rw [if_neg hle]
      exact writeNames_of_lt hsize _ hlist (Nat.zero_le _) (by omega)

/-- Two attributes, "a" with the value "12345" and "bc". -/
def twoAttributes : List Attribute :=
  [⟨0, [0x61], [0x31, 0x32, 0x33, 0x34, 0x35], by decide, by decide⟩,
    ⟨0, [0x62, 0x63], [], by decide, by decide⟩]

/-- In one buffer, and then a third one: ten bytes are enough, and four are not. -/
theorem lists_twoAttributes : ∃ c c' : Chunk, c.attributes = twoAttributes ∧
    c'.attributes = [⟨0, [0x64], [], by decide, by decide⟩] ∧
    Lists (allAttributes [c, c']) (List.replicate 10 0xff) 10
      (doListxattr ntQueryEaFile 7 [c, c'] (List.replicate 10 0xff) 10) ∧
    Lists (allAttributes [c, c']) (List.replicate 10 0xff) 4
      (doListxattr ntQueryEaFile 7 [c, c'] (List.replicate 10 0xff) 4) := by
  refine ⟨⟨twoAttributes, by decide⟩, ⟨[⟨0, [0x64], [], by decide, by decide⟩], by decide⟩, rfl, rfl, ?_, ?_⟩
  · exact lists_attributes _ (by decide) (by decide)
  · exact lists_attributes _ (by decide) (by decide)

end WindowsLibc.Xattr
