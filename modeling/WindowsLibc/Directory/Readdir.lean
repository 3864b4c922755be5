import Mathlib.Data.List.Basic
import WindowsLibc.Lib.Machine

/-!
# Directory streams (`dirent/readdir.c`)

`NtQueryDirectoryFileEx` delivers a directory in buffers of chained records. `do_readdir` follows the
chain with `offset`, and tells from a count of bytes, `read_data`, when a buffer is used up.

* A `Chunk` is what one call of the system delivers. How a directory is split into chunks is up to
  the system.
* `doReaddir` follows the C function; reading where there is no record is a fault.
* `readdir_delivers_iff` says when every entry is returned once, in order, and then NULL. The count
  is not reset when a buffer is filled again (`wlibc_rewinddir` does reset it), so it is off by the
  size of the buffer before, and only the first buffer is read to its end. Behind `rewinddir` a stream is as a
  new one (`rewinddir_delivers_iff`).
-/

namespace WindowsLibc.Directory

open WindowsLibc.Lib

/-! ## The system -/

/-- `offsetof(FILE_ID_EXTD_BOTH_DIR_INFORMATION, FileName)`. -/
def fileNameOffset : Nat := 114

/-- An entry of a directory. A name has at most 255 units, so its record is shorter than 64 KB. -/
structure Entry where
  fileId : BitVec 128
  fileAttributes : UInt32
  fileName : List UInt16
  short : fileNameOffset + 2 * fileName.length < 2 ^ 16

/-- The bytes of the record of an entry, without padding. -/
def Entry.length (e : Entry) : Nat := fileNameOffset + 2 * e.fileName.length

/-- The bytes up to the next multiple of `sizeof(LONGLONG)`. -/
def padding (n : Nat) : Nat := if n % 8 = 0 then 0 else 8 - n % 8

/-- The room a record takes when another one follows. -/
def Entry.span (e : Entry) : Nat := e.length + padding e.length

/-- `FILE_ID_EXTD_BOTH_DIR_INFORMATION`, as far as it is read. -/
structure DirInformation where
  nextEntryOffset : Nat
  entry : Entry

/-- The records of a buffer and where they stand, the first one at `start`. -/
def layout (start : Nat) : List Entry → List (Nat × DirInformation)
  | [] => []
  | e :: es =>
    (start, ⟨if es.isEmpty then 0 else e.span, e⟩) :: layout (start + e.span) es

/-- `io.Information`: the bytes of a buffer. The last record is not padded. -/
def information : List Entry → Nat
  | [] => 0
  | e :: es => if es.isEmpty then e.length else e.span + information es

/-- `DIRENT_DIR_BUFFER_SIZE`. -/
def direntDirBufferSize : Nat := 131072

/-- The entries that one call delivers. -/
structure Chunk where
  entries : List Entry
  ne_nil : entries ≠ []
  fits : information entries ≤ direntDirBufferSize

/-! ## The stream -/

/-- `d_type`. -/
inductive FileType where
  | lnk
  | dir
  | reg
  | unknown
  deriving DecidableEq, Repr

/-- `struct dirent`. `dName` is `none` if the name could not be converted. -/
structure Dirent where
  dIno : UInt64
  dOff : Nat
  dReclen : UInt16
  dType : FileType
  dNamlen : UInt8
  dName : Option (List UInt8)
  deriving DecidableEq, Repr

/-- `DIR`, and what the system has still to deliver for its descriptor. -/
structure Dir where
  pending : List Chunk
  buffer : List (Nat × DirInformation)
  offset : Nat
  readData : Nat
  receivedData : Nat

/-- `initialize_dirstream`: zeroed memory. -/
def Dir.fresh (chunks : List Chunk) : Dir := ⟨chunks, [], 0, 0, 0⟩

def fileAttributeDirectory : UInt32 := 0x10
def fileAttributeReparsePoint : UInt32 := 0x400

/-- `READONLY`, `HIDDEN`, `SYSTEM`, `ARCHIVE`, `NORMAL`, `TEMPORARY`, `SPARSE_FILE`, `COMPRESSED`,
`NOT_CONTENT_INDEXED` and `ENCRYPTED`. -/
def fileAttributesRegular : UInt32 :=
  0x1 ||| 0x2 ||| 0x4 ||| 0x20 ||| 0x80 ||| 0x100 ||| 0x200 ||| 0x800 ||| 0x2000 ||| 0x4000

/-- The type of an entry. A junction is a directory and a reparse point, hence the order. -/
def fileType (attributes : UInt32) : FileType :=
  if attributes &&& fileAttributeReparsePoint ≠ 0 then .lnk
  else if attributes &&& fileAttributeDirectory ≠ 0 then .dir
  else if attributes &&& ~~~ fileAttributesRegular = 0 then .reg
  else .unknown

/-- What `do_readdir` stores in `*entry`. `utf8` is `RtlUnicodeStringToUTF8String` into the 260 bytes
of `d_name`. -/
def toDirent (utf8 : List UInt16 → Option (List UInt8)) (offset : Nat) (e : Entry) : Dirent where
  dIno := UInt64.ofBitVec (e.fileId.setWidth 64)
  dOff := offset
  dReclen := UInt16.ofNat e.length
  dType := fileType e.fileAttributes
  dNamlen := UInt8.ofNat ((utf8 e.fileName).getD []).length
  dName := utf8 e.fileName

/-- The record at an offset of the buffer. -/
def recordAt (buffer : List (Nat × DirInformation)) (offset : Nat) : Option DirInformation :=
  (buffer.find? (fun p => p.1 == offset)).map (·.2)

/-- The call for a new buffer, made when the count says that the old one is used up. `false`:
`STATUS_NO_MORE_FILES`. -/
def refill (d : Dir) : Dir × Bool :=
  if d.readData = d.receivedData then
    match d.pending with
    | [] => ({ d with buffer := [] }, false)
    | c :: pending =>
      ({ d with
        pending := pending
        buffer := layout 0 c.entries
        offset := 0
        receivedData := information c.entries }, true)
  else (d, true)

/-- The rest of `do_readdir`: store the entry at the offset and go on to the next one. -/
def readEntry (utf8 : List UInt16 → Option (List UInt8)) (d : Dir) : Option (Dir × Option Dirent) :=
  match recordAt d.buffer d.offset with
  | none => none
  | some info =>
    let entry := toDirent utf8 d.offset info.entry
    let pad := if info.nextEntryOffset ≠ 0 then padding entry.dReclen.toNat else 0
    some ({ d with
      offset := d.offset + info.nextEntryOffset
      readData := d.readData + entry.dReclen.toNat + pad }, some entry)

/-- `do_readdir`; the entry is `none` for NULL. -/
def doReaddir (utf8 : List UInt16 → Option (List UInt8)) (d : Dir) : Option (Dir × Option Dirent) :=
  match refill d with
  | (d, false) => some (d, none)
  | (d, true) => readEntry utf8 d

/-- `wlibc_rewinddir`, when the system starts over with `c` and has `pending` behind it. A failure, which leaves
it to the system what `io.Information` is, is not modelled. -/
def rewinddir (c : Chunk) (pending : List Chunk) (d : Dir) : Dir :=
  { d with
    pending := pending
    buffer := layout 0 c.entries
    offset := 0
    readData := 0
    receivedData := information c.entries }

/-- Repeated calls of `do_readdir`. -/
def readdirMachine (utf8 : List UInt16 → Option (List UInt8)) : Machine Dir Unit (Option Dirent) where
  step d _ := doReaddir utf8 d

/-! ## What the stream is for -/

def allEntries (chunks : List Chunk) : List Entry := chunks.flatMap (·.entries)

/-- Every entry once and in order, with its offset in the buffer it comes in. -/
def listing (utf8 : List UInt16 → Option (List UInt8)) (chunks : List Chunk) : List Dirent :=
  chunks.flatMap (fun c => (layout 0 c.entries).map (fun p => toDirent utf8 p.1 p.2.entry))

/-- Repeated calls on a fresh stream return the listing and then NULL. -/
def Delivers (utf8 : List UInt16 → Option (List UInt8)) (chunks : List Chunk) : Prop :=
  ∃ d, (readdirMachine utf8).run (.fresh chunks)
      (List.replicate ((allEntries chunks).length + 1) ()) =
    some (d, (listing utf8 chunks).map some ++ [none])

/-! ## Following the chain -/

variable {utf8 : List UInt16 → Option (List UInt8)}

theorem Entry.length_pos (e : Entry) : 0 < e.length :=
  Nat.lt_of_lt_of_le (by decide) (Nat.le_add_right fileNameOffset (2 * e.fileName.length))

theorem Entry.length_le_span (e : Entry) : e.length ≤ e.span := Nat.le_add_right _ _

/-- Where the record behind the entries `es` begins. -/
def spans (es : List Entry) : Nat := (es.map Entry.span).sum

theorem spans_cons (e : Entry) (es : List Entry) : spans (e :: es) = e.span + spans es := by
  rw [spans, List.map_cons, List.sum_cons]
  rfl

@[simp] theorem spans_concat (es : List Entry) (e : Entry) : spans (es ++ [e]) = spans es + e.span := by
  rw [spans, List.map_append, List.sum_append, List.map_singleton, List.sum_singleton]
  rfl

theorem information_concat (es : List Entry) (e : Entry) :
    information (es ++ [e]) = spans es + e.length := by
  induction es with
  | nil => exact (Nat.zero_add _).symm
  | cons e' es ih =>
    have hne : (es ++ [e]).isEmpty = false := by simp
    rw [List.cons_append, information, hne, ih, spans_cons, Nat.add_assoc]
    rfl

/-- Every record but the last leaves something of the buffer. -/
theorem spans_lt_information (done : List Entry) (e : Entry) (todo : List Entry) :
    spans done < information (done ++ e :: todo) := by
  induction done with
  | nil =>
    have hpos := e.length_pos
    have hle := e.length_le_span
    rw [List.nil_append, information]
    split
    · exact hpos
    · exact Nat.lt_of_lt_of_le (Nat.lt_of_lt_of_le hpos hle) (Nat.le_add_right _ _)
  | cons e' done ih =>
    have hne : (done ++ e :: todo).isEmpty = false := by simp
    rw [List.cons_append, information, hne, spans_cons]
    exact Nat.add_lt_add_left ih _

theorem recordAt_layout (start : Nat) (done : List Entry) (e : Entry) (todo : List Entry) :
    recordAt (layout start (done ++ e :: todo)) (start + spans done) =
      some ⟨if todo.isEmpty then 0 else e.span, e⟩ := by
  induction done generalizing start with
  | nil =>
    rw [List.nil_append, layout, recordAt, List.find?_cons_of_pos (by simp [spans])]
    rfl
  | cons e' done ih =>
    have hpos := Nat.lt_of_lt_of_le e'.length_pos e'.length_le_span
    have hne : start ≠ start + (e'.span + spans done) := by omega
    rw [List.cons_append, layout, recordAt, spans_cons, List.find?_cons_of_neg (by simpa using hne),
      ← Nat.add_assoc]
    exact ih (start + e'.span)

/-- The next record to read is that of `e`, behind `done`. The count is ahead by `base`. -/
structure Reading (d : Dir) (base : Nat) (done : List Entry) (e : Entry) (todo : List Entry) :
    Prop where
  buffer : d.buffer = layout 0 (done ++ e :: todo)
  received : d.receivedData = information (done ++ e :: todo)
  offset : d.offset = spans done
  count : d.readData = base + spans done

/-- The whole buffer has been read: the offset stays at the last record. -/
structure Finished (d : Dir) (base : Nat) (es : List Entry) (e : Entry) : Prop where
  buffer : d.buffer = layout 0 (es ++ [e])
  received : d.receivedData = information (es ++ [e])
  offset : d.offset = spans es
  count : base + information (es ++ [e]) ≤ d.readData

/-- What reading the record of `e` leads to. -/
def Reads (d : Dir) (base : Nat) (done : List Entry) (e : Entry) : List Entry → Prop
  | [] => Finished d base done e ∧ d.readData = base + information (done ++ [e])
  | e' :: todo => Reading d base (done ++ [e]) e' todo

theorem toNat_dReclen (offset : Nat) (e : Entry) :
    (toDirent utf8 offset e).dReclen.toNat = e.length :=
  UInt16.toNat_ofNat_of_lt' e.short

variable (utf8) in
/-- Reading one record. -/
theorem readEntry_reading {d : Dir} {base : Nat} {done todo : List Entry} {e : Entry}
    (h : Reading d base done e todo) :
    ∃ d', readEntry utf8 d = some (d', some (toDirent utf8 (spans done) e)) ∧
      d'.pending = d.pending ∧ Reads d' base done e todo := by
  have hrecord : recordAt d.buffer d.offset = some ⟨if todo.isEmpty then 0 else e.span, e⟩ := by
    have hlayout := recordAt_layout 0 done e todo
    rwa [Nat.zero_add, ← h.buffer, ← h.offset] at hlayout
  rw [← h.offset]
  simp only [readEntry, hrecord, toNat_dReclen]
  refine ⟨_, rfl, rfl, ?_⟩
  cases todo with
  | nil =>
    have hcount : d.readData + e.length = base + information (done ++ [e]) := by
      rw [h.count, information_concat, Nat.add_assoc]
    exact ⟨⟨h.buffer, h.received, h.offset, Nat.le_of_eq hcount.symm⟩, hcount⟩
  | cons e' todo =>
    have hpos : e.span ≠ 0 := Nat.ne_of_gt (Nat.lt_of_lt_of_le e.length_pos e.length_le_span)
    have hsplit : done ++ e :: e' :: todo = (done ++ [e]) ++ e' :: todo := by simp
    simp only [List.isEmpty_cons, Bool.false_eq_true, if_false, ne_eq, hpos, not_false_eq_true,
      if_true]
    refine ⟨by rw [← hsplit]; exact h.buffer, by rw [← hsplit]; exact h.received, ?_, ?_⟩
    · rw [spans_concat, h.offset]
    · simp only [spans_concat, h.count, Entry.span]
      omega

variable (utf8) in
/-- A buffer that has been read to its end, by a count that is ahead, is never left: its last entry
is returned over and over. -/
theorem doReaddir_finished {d : Dir} {base : Nat} {es : List Entry} {e : Entry}
    (h : Finished d base es e) (hbase : 0 < base) :
    ∃ d' entry, doReaddir utf8 d = some (d', some entry) ∧ Finished d' base es e := by
  have hne : ¬ d.readData = d.receivedData := by
    have hcount := h.count
    rw [h.received]
    omega
  have hrecord : recordAt d.buffer d.offset = some ⟨0, e⟩ := by
    have hlayout := recordAt_layout 0 es e []
    rwa [Nat.zero_add, ← h.buffer, ← h.offset] at hlayout
  simp only [doReaddir, refill, if_neg hne, readEntry, hrecord]
  refine ⟨_, _, rfl, h.buffer, h.received, h.offset, ?_⟩
  exact Nat.le_trans h.count (Nat.le_trans (Nat.le_add_right _ _) (Nat.le_add_right _ _))

/-! ## Whole listings -/

theorem doReaddir_reading {d : Dir} (hne : d.readData ≠ d.receivedData) :
    doReaddir utf8 d = readEntry utf8 d := by
  rw [doReaddir, refill, if_neg hne]

variable (utf8) in
/-- A new buffer is read from its start, with the count where it was. -/
theorem doReaddir_refill {d : Dir} (heq : d.readData = d.receivedData) {c : Chunk}
    {rest : List Chunk} (hpending : d.pending = c :: rest) :
    ∃ d' e es, c.entries = e :: es ∧ d'.pending = rest ∧ Reading d' d.readData [] e es ∧
      doReaddir utf8 d = readEntry utf8 d' := by
  obtain ⟨e, es, hes⟩ := List.exists_cons_of_ne_nil c.ne_nil
  refine ⟨{ d with
    pending := rest
    buffer := layout 0 c.entries
    offset := 0
    receivedData := information c.entries }, e, es, hes, rfl, ⟨?_, ?_, rfl, rfl⟩, ?_⟩
  · rw [List.nil_append, ← hes]
  · rw [List.nil_append, ← hes]
  · rw [doReaddir, refill, if_pos heq, hpending]

theorem doReaddir_last {d : Dir} (heq : d.readData = d.receivedData) (hpending : d.pending = []) :
    doReaddir utf8 d = some ({ d with buffer := [] }, none) := by
  simp only [doReaddir, refill, if_pos heq, hpending]

/-- The listing of a buffer from the record behind `done` on. -/
def listingFrom (utf8 : List UInt16 → Option (List UInt8)) (start : Nat) (es : List Entry) :
    List Dirent :=
  (layout start es).map (fun p => toDirent utf8 p.1 p.2.entry)

theorem listingFrom_cons (start : Nat) (e : Entry) (es : List Entry) :
    listingFrom utf8 start (e :: es) =
      toDirent utf8 start e :: listingFrom utf8 (start + e.span) es := by
  rw [listingFrom, layout, List.map_cons]
  rfl

/-- With the right count, what is left of a buffer is returned, and then the count is used up. -/
theorem run_reading {d d₀ : Dir} {done todo : List Entry} {e : Entry} (h : Reading d 0 done e todo)
    (hread : doReaddir utf8 d₀ = readEntry utf8 d) :
    ∃ d', (readdirMachine utf8).run d₀ (List.replicate (todo.length + 1) ()) =
        some (d', (listingFrom utf8 (spans done) (e :: todo)).map some) ∧
      d'.pending = d.pending ∧ d'.receivedData = information (done ++ e :: todo) ∧
      d'.readData = d'.receivedData := by
  induction todo generalizing d d₀ done e with
  | nil =>
    obtain ⟨d', hentry, hpending, hnext⟩ := readEntry_reading utf8 h
    refine ⟨d', ?_, hpending, hnext.1.received, ?_⟩
    · rw [← hread] at hentry
      exact Machine.run_cons hentry []
    · rw [hnext.2, hnext.1.received, Nat.zero_add]
  | cons e' todo ih =>
    obtain ⟨d', hentry, hpending, hnext⟩ := readEntry_reading utf8 h
    have hlt : d'.readData ≠ d'.receivedData := by
      rw [hnext.count, hnext.received, Nat.zero_add]
      exact Nat.ne_of_lt (spans_lt_information _ _ _)
    obtain ⟨d'', hrun, hpending', hreceived, hend⟩ := ih hnext (doReaddir_reading hlt)
    rw [List.append_assoc] at hreceived
    refine ⟨d'', ?_, hpending'.trans hpending, hreceived, hend⟩
    rw [← hread] at hentry
    rw [List.length_cons, List.replicate_succ, Machine.run_cons hentry, hrun, listingFrom_cons,
      spans_concat]
    rfl

/-- The stream returns `k` entries and then NULL. -/
def NullAfter (utf8 : List UInt16 → Option (List UInt8)) (d : Dir) (k : Nat) : Prop :=
  ∃ (d' : Dir) (os : List Dirent), os.length = k ∧
    (readdirMachine utf8).run d (List.replicate (k + 1) ()) = some (d', os.map some ++ [none])

theorem nullAfter_zero {d : Dir} (h : NullAfter utf8 d 0) : ∃ d', doReaddir utf8 d = some (d', none) := by
  obtain ⟨d', os, hlen, hrun⟩ := h
  rw [List.length_eq_zero_iff.mp hlen] at hrun
  simp only [Nat.zero_add, List.replicate_one, Machine.run, readdirMachine] at hrun
  split at hrun
  · contradiction
  · rename_i d₁ o hstep
    cases hrun
    exact ⟨_, hstep⟩

theorem nullAfter_succ {d d₁ : Dir} {o : Option Dirent} {k : Nat} (h : NullAfter utf8 d (k + 1))
    (hstep : doReaddir utf8 d = some (d₁, o)) : NullAfter utf8 d₁ k := by
  obtain ⟨d', os, hlen, hrun⟩ := h
  obtain ⟨entry, os, rfl⟩ := List.exists_cons_of_length_eq_add_one hlen
  rw [List.replicate_succ, Machine.run_cons hstep] at hrun
  obtain ⟨⟨d₂, os₂⟩, hrun₂, hr⟩ := Option.map_eq_some_iff.mp hrun
  simp only [List.map_cons, List.cons_append, Prod.mk.injEq, List.cons.injEq] at hr
  refine ⟨d₂, os, Nat.succ.inj hlen, ?_⟩
  rw [hrun₂, hr.2.2]

/-- A call that returns an entry is not the last one. -/
theorem nullAfter_step {d d₁ : Dir} {entry : Dirent} {k : Nat} (h : NullAfter utf8 d k)
    (hstep : doReaddir utf8 d = some (d₁, some entry)) : ∃ n, k = n + 1 ∧ NullAfter utf8 d₁ n := by
  cases k with
  | zero =>
    obtain ⟨d', hnull⟩ := nullAfter_zero h
    rw [hstep] at hnull
    cases hnull
  | succ k => exact ⟨k, rfl, nullAfter_succ h hstep⟩

theorem not_nullAfter_finished {d : Dir} {base : Nat} {es : List Entry} {e : Entry}
    (h : Finished d base es e) (hbase : 0 < base) (k : Nat) : ¬ NullAfter utf8 d k := by
  induction k generalizing d with
  | zero =>
    intro hnull
    obtain ⟨d', entry, hstep, -⟩ := doReaddir_finished utf8 h hbase
    obtain ⟨n, hn, -⟩ := nullAfter_step hnull hstep
    cases hn
  | succ k ih =>
    intro hnull
    obtain ⟨d', entry, hstep, hnext⟩ := doReaddir_finished utf8 h hbase
    exact ih hnext (nullAfter_succ hnull hstep)

/-- With a count that is ahead, a buffer is left, if at all, before its last entry. -/
theorem nullAfter_reading {d d₀ : Dir} {base k rest : Nat} {done todo : List Entry} {e : Entry}
    (h : Reading d base done e todo) (hbase : 0 < base)
    (hread : doReaddir utf8 d₀ = readEntry utf8 d)
    (hlate : ∀ d' k, d'.pending = d.pending → 0 < d'.readData → d'.readData = d'.receivedData →
      NullAfter utf8 d' k → k ≤ rest)
    (hnull : NullAfter utf8 d₀ k) : k < (e :: todo).length + rest := by
  induction todo generalizing d d₀ done e k with
  | nil =>
    obtain ⟨d', hentry, -, hnext⟩ := readEntry_reading utf8 h
    obtain ⟨n, -, hn⟩ := nullAfter_step hnull (hread.trans hentry)
    exact absurd hn (not_nullAfter_finished hnext.1 hbase n)
  | cons e' todo ih =>
    obtain ⟨d', hentry, hpending, hnext⟩ := readEntry_reading utf8 h
    obtain ⟨n, rfl, hn⟩ := nullAfter_step hnull (hread.trans hentry)
    by_cases heq : d'.readData = d'.receivedData
    · -- the count happens to reach the size of the buffer: the entries behind are lost
      have hpos : 0 < d'.readData := by
        rw [hnext.count]
        exact Nat.lt_of_lt_of_le hbase (Nat.le_add_right _ _)
      have hle := hlate d' n hpending hpos heq hn
      rw [List.length_cons, List.length_cons]
      omega
    · have hlt := ih hnext (doReaddir_reading heq) (by rwa [hpending]) hn
      rw [List.length_cons]
      omega

theorem length_layout (start : Nat) (es : List Entry) : (layout start es).length = es.length := by
  induction es generalizing start with
  | nil => rfl
  | cons e es ih => rw [layout, List.length_cons, List.length_cons, ih]

theorem length_listing (chunks : List Chunk) :
    (listing utf8 chunks).length = (allEntries chunks).length := by
  rw [listing, allEntries, List.length_flatMap, List.length_flatMap]
  simp only [List.length_map, length_layout]

theorem allEntries_cons (c : Chunk) (chunks : List Chunk) :
    allEntries (c :: chunks) = c.entries ++ allEntries chunks := rfl

/-- Once a buffer has been read, NULL comes no later than it should. -/
theorem nullAfter_late {d : Dir} {chunks : List Chunk} {k : Nat} (hpending : d.pending = chunks)
    (hpos : 0 < d.readData) (heq : d.readData = d.receivedData) (hnull : NullAfter utf8 d k) :
    k ≤ (allEntries chunks).length := by
  induction chunks generalizing d k with
  | nil =>
    cases k with
    | zero => exact Nat.zero_le _
    | succ k =>
      obtain ⟨d', os, hlen, hrun⟩ := hnull
      obtain ⟨entry, os, rfl⟩ := List.exists_cons_of_length_eq_add_one hlen
      rw [List.replicate_succ, Machine.run_cons (doReaddir_last heq hpending)] at hrun
      obtain ⟨⟨d₂, os₂⟩, -, hr⟩ := Option.map_eq_some_iff.mp hrun
      simp at hr
  | cons c rest ih =>
    obtain ⟨d', e, es, hes, hpending', hreading, hread⟩ :=
      doReaddir_refill utf8 heq hpending
    have hlt := nullAfter_reading hreading hpos hread
      (fun d₁ n h₁ h₂ h₃ hn => ih (h₁.trans hpending') h₂ h₃ hn) hnull
    rw [allEntries_cons, List.length_append, hes]
    exact Nat.le_of_lt hlt

/-- And it comes too soon if there is a second buffer. -/
theorem nullAfter_late_lt {d : Dir} {c : Chunk} {rest : List Chunk} {k : Nat}
    (hpending : d.pending = c :: rest) (hpos : 0 < d.readData)
    (heq : d.readData = d.receivedData) (hnull : NullAfter utf8 d k) :
    k < (allEntries (c :: rest)).length := by
  obtain ⟨d', e, es, hes, hpending', hreading, hread⟩ :=
    doReaddir_refill utf8 heq hpending
  rw [allEntries_cons, List.length_append, hes]
  exact nullAfter_reading hreading hpos hread
    (fun d₁ n h₁ h₂ h₃ hn => nullAfter_late (h₁.trans hpending') h₂ h₃ hn) hnull

theorem information_pos {es : List Entry} (h : es ≠ []) : 0 < information es := by
  obtain ⟨e, es, rfl⟩ := List.exists_cons_of_ne_nil h
  exact Nat.lt_of_le_of_lt (Nat.zero_le _) (spans_lt_information [] e es)

variable (utf8) in
/-- The first buffer is read to its end. -/
theorem run_first (c : Chunk) (rest : List Chunk) :
    ∃ d', (readdirMachine utf8).run (.fresh (c :: rest)) (List.replicate c.entries.length ()) =
        some (d', (listingFrom utf8 0 c.entries).map some) ∧
      d'.pending = rest ∧ 0 < d'.readData ∧ d'.readData = d'.receivedData := by
  obtain ⟨d, e, es, hes, hpending, hreading, hread⟩ :=
    doReaddir_refill utf8 (d := .fresh (c :: rest)) rfl rfl
  obtain ⟨d', hrun, hpending', hreceived, heq⟩ := run_reading hreading hread
  rw [hes]
  refine ⟨d', hrun, hpending'.trans hpending, ?_, heq⟩
  rw [heq, hreceived]
  exact information_pos (by simp)

theorem delivers_nil : Delivers utf8 [] := by
  have hnull : doReaddir utf8 (.fresh []) = some (.fresh [], none) := doReaddir_last rfl rfl
  exact ⟨.fresh [], Machine.run_cons hnull []⟩

theorem delivers_singleton (c : Chunk) : Delivers utf8 [c] := by
  obtain ⟨d, hrun, hpending, -, heq⟩ := run_first utf8 c []
  have hlen : allEntries [c] = c.entries := List.append_nil _
  have hlisting : listing utf8 [c] = listingFrom utf8 0 c.entries := List.append_nil _
  refine ⟨{ d with buffer := [] }, ?_⟩
  rw [hlen, hlisting, List.replicate_add, Machine.run_append hrun, List.replicate_one,
    Machine.run_cons (doReaddir_last heq hpending)]
  rfl

theorem not_delivers (c c' : Chunk) (rest : List Chunk) : ¬ Delivers utf8 (c :: c' :: rest) := by
  rintro ⟨d, hrun⟩
  obtain ⟨d', hfirst, hpending, hpos, heq⟩ := run_first utf8 c (c' :: rest)
  have hlisting : listing utf8 (c :: c' :: rest) =
      listingFrom utf8 0 c.entries ++ listing utf8 (c' :: rest) := rfl
  rw [allEntries_cons, List.length_append, Nat.add_assoc, List.replicate_add,
    Machine.run_append hfirst] at hrun
  obtain ⟨⟨d₂, os⟩, hrun₂, hr⟩ := Option.map_eq_some_iff.mp hrun
  rw [hlisting, List.map_append, List.append_assoc, Prod.mk.injEq, List.append_cancel_left_eq] at hr
  obtain ⟨-, rfl⟩ := hr
  have hnull : NullAfter utf8 d' (allEntries (c' :: rest)).length :=
    ⟨d₂, listing utf8 (c' :: rest), length_listing _, hrun₂⟩
  exact Nat.lt_irrefl _ (nullAfter_late_lt hpending hpos heq hnull)

/-- **Directory streams.** Every entry is returned once, in order, and then NULL, if and only if the
system delivers the directory in at most one buffer. -/
theorem readdir_delivers_iff (utf8 : List UInt16 → Option (List UInt8)) (chunks : List Chunk) :
    Delivers utf8 chunks ↔ chunks.length ≤ 1 := by
  match chunks with
  | [] => exact ⟨fun _ => Nat.zero_le 1, fun _ => delivers_nil⟩
  | [c] => exact ⟨fun _ => Nat.le_refl 1, fun _ => delivers_singleton c⟩
  | c :: c' :: rest =>
    refine ⟨fun h => absurd h (not_delivers c c' rest), fun h => ?_⟩
    simp at h

/-! ## Starting over -/

/-- Whatever has been read, the next call is that of a new stream. -/
theorem doReaddir_rewinddir (utf8 : List UInt16 → Option (List UInt8)) (c : Chunk) (pending : List Chunk)
    (d : Dir) : doReaddir utf8 (rewinddir c pending d) = doReaddir utf8 (.fresh (c :: pending)) := by
  have hne : (rewinddir c pending d).readData ≠ (rewinddir c pending d).receivedData :=
    Nat.ne_of_lt (information_pos c.ne_nil)
  rw [doReaddir_reading hne]
  rfl

/-- **`rewinddir` starts over.** From any state, every entry is returned once, in order, and then NULL, if and
only if the system delivers the directory in one buffer, as for a new stream. -/
theorem rewinddir_delivers_iff (utf8 : List UInt16 → Option (List UInt8)) (c : Chunk) (pending : List Chunk)
    (d : Dir) :
    (∃ d', (readdirMachine utf8).run (rewinddir c pending d)
        (List.replicate ((allEntries (c :: pending)).length + 1) ()) =
      some (d', (listing utf8 (c :: pending)).map some ++ [none])) ↔ pending = [] := by
  have hrun : ∀ n, (readdirMachine utf8).run (rewinddir c pending d) (List.replicate (n + 1) ()) =
      (readdirMachine utf8).run (.fresh (c :: pending)) (List.replicate (n + 1) ()) := by
    intro n
    have hstep : (readdirMachine utf8).step (rewinddir c pending d) () =
        (readdirMachine utf8).step (.fresh (c :: pending)) () := doReaddir_rewinddir utf8 c pending d
    rw [List.replicate_succ, Machine.run, Machine.run, hstep]
  rw [hrun]
  refine (readdir_delivers_iff utf8 (c :: pending)).trans ?_
  rw [List.length_cons, ← List.length_eq_zero_iff]
  omega

/-! ## Two files -/

/-- Names of ASCII characters. -/
def asciiName (units : List UInt16) : Option (List UInt8) := some (units.map UInt16.toUInt8)

/-- A directory with the files `a` and `b`, each in a buffer of its own. -/
def twoChunks : List Chunk :=
  [⟨[⟨1, 0x20, [0x61], by decide⟩], by simp, by decide⟩,
    ⟨[⟨2, 0x20, [0x62], by decide⟩], by simp, by decide⟩]

/-- After `b` the count is 232 and the buffer has 116 bytes: `b` is returned again. -/
theorem readdir_two_buffers :
    ¬ Delivers (fun units => some (units.map UInt16.toUInt8)) twoChunks := by
  rintro ⟨d, hrun⟩
  have hlast := congrArg (Option.map (fun r => r.2.getLast?)) hrun
  rw [Option.map_some, List.getLast?_concat] at hlast
  revert hlast
  decide

end WindowsLibc.Directory
