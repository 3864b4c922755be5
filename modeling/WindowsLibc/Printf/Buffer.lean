import WindowsLibc.Lib.Emission
import WindowsLibc.Lib.Overwrite

/-!
# Where the output goes (`internal/buffer.h`, `internal/buffer.c`)

A `buffer_t` is a caller's array of fixed size, or memory that `memory_buffer_write` lets grow.

* The allocator is a table of answers: `alloc n` says whether a request of `n` bytes is granted.
* `sink` makes a buffer a `Sink` of byte strings. A sound one reports no error and never will.
* A growing buffer appends everything (`contents_writen`). A fixed one takes a byte string whole or
  not at all (`keep`).
* A buffer is also what `scanf` reads from. `Reads b text` says that `text` is left, and the reading
  functions take their bytes from the front of it.
-/

namespace WindowsLibc.Printf

open WindowsLibc.Lib

/-- `buffer_t`. `write` is NULL, or `memory_buffer_write` with the answers it gets. -/
structure Buffer where
  data : List UInt8
  pos : Nat
  size : Nat
  write : Option (Nat → Bool)
  error : Bool

/-- `while (size > buffer->size - buffer->pos) buffer->size *= 2`, with enough fuel. -/
def growFrom (size pos : Nat) : Nat → Nat → Nat
  | 0, capacity => capacity
  | fuel + 1, capacity =>
    if size > capacity - pos then growFrom size pos fuel (capacity * 2) else capacity

/-- `memory_buffer_write`. -/
def memoryBufferWrite (alloc : Nat → Bool) (b : Buffer) (size : Nat) : Buffer :=
  if b.error then b
  else if size = 0 then b
  else if b.size = 0 then
    let capacity := growFrom size 0 size 64
    if alloc capacity then { b with pos := 0, size := capacity, data := List.replicate capacity 0 }
    else { b with pos := 0, size := capacity, data := [], error := true }
  else
    let capacity := growFrom size b.pos size b.size
    if alloc capacity then
      { b with size := capacity, data := b.data ++ List.replicate (capacity - b.size) 0 }
    else { b with size := capacity, data := [], error := true }

namespace Buffer

/-- `memcpy` to the current position, which moves behind it. -/
def store (b : Buffer) (bytes : List UInt8) : Buffer :=
  { b with data := overwrite b.data b.pos bytes, pos := b.pos + bytes.length }

/-- `writen`. What it returns is the number of bytes written, which `printf` ignores. -/
def writen (b : Buffer) (bytes : List UInt8) : Buffer :=
  if b.error then b
  else if b.pos + bytes.length > b.size then
    match b.write with
    | none => b
    | some alloc =>
      if (memoryBufferWrite alloc b bytes.length).error then memoryBufferWrite alloc b bytes.length
      else (memoryBufferWrite alloc b bytes.length).store bytes
  else b.store bytes

/-- `writebyte`, the same for one byte. -/
def writebyte (b : Buffer) (byte : UInt8) : Buffer := b.writen [byte]

/-- `{.write = memory_buffer_write}`. -/
def growing (alloc : Nat → Bool) : Buffer := ⟨[], 0, 0, some alloc, false⟩

/-- `{.data = data, .size = size}`. -/
def fixed (data : List UInt8) (size : Nat) : Buffer := ⟨data, 0, size, none, false⟩

/-- What has been written. -/
def contents (b : Buffer) : List UInt8 := b.data.take b.pos

/-- No error, now or later. -/
def Sound (b : Buffer) : Prop :=
  b.error = false ∧ ∀ alloc, b.write = some alloc → ∀ n, alloc n = true

end Buffer

/-! ## Growing -/

theorem growFrom_enough {size pos fuel capacity : Nat} (hpos : pos ≤ capacity) (h : 0 < capacity)
    (hfuel : size ≤ fuel + (capacity - pos)) :
    capacity ≤ growFrom size pos fuel capacity ∧ size ≤ growFrom size pos fuel capacity - pos := by
  induction fuel generalizing capacity with
  | zero => exact ⟨Nat.le_refl _, by rw [growFrom]; omega⟩
  | succ fuel ih =>
    rw [growFrom]
    split
    · obtain ⟨hle, hsize⟩ := @ih (capacity * 2) (by omega) (by omega) (by omega)
      exact ⟨by omega, hsize⟩
    · exact ⟨Nat.le_refl _, by omega⟩

/-- The array is as long as `size` says and written up to `pos`. -/
structure Grows (b : Buffer) : Prop where
  write : ∃ alloc, b.write = some alloc
  length : b.data.length = b.size
  pos_le : b.pos ≤ b.size

theorem grows_growing (alloc : Nat → Bool) : Grows (Buffer.growing alloc) :=
  ⟨⟨alloc, rfl⟩, rfl, Nat.le_refl _⟩

theorem sound_growing {alloc : Nat → Bool} (h : ∀ n, alloc n = true) :
    (Buffer.growing alloc).Sound := by
  refine ⟨rfl, ?_⟩
  intro alloc' halloc
  cases halloc
  exact h

theorem sound_fixed (data : List UInt8) (size : Nat) : (Buffer.fixed data size).Sound := by
  refine ⟨rfl, ?_⟩
  intro alloc halloc
  cases halloc

/-- With every request granted there is room, and nothing written is lost. -/
theorem memoryBufferWrite_spec {b : Buffer} {alloc : Nat → Bool} (hb : Grows b)
    (herror : b.error = false) (halloc : ∀ n, alloc n = true) (size : Nat) :
    Grows (memoryBufferWrite alloc b size) ∧ (memoryBufferWrite alloc b size).error = false ∧
      (memoryBufferWrite alloc b size).pos = b.pos ∧
      (memoryBufferWrite alloc b size).contents = b.contents ∧
      b.pos + size ≤ (memoryBufferWrite alloc b size).size := by
  obtain ⟨hwrite, hlength, hpos⟩ := hb
  rw [memoryBufferWrite, if_neg (by rw [herror]; exact Bool.false_ne_true)]
  by_cases hzero : size = 0
  · rw [if_pos hzero]
    exact ⟨⟨hwrite, hlength, hpos⟩, herror, rfl, rfl, by omega⟩
  rw [if_neg hzero]
  by_cases hnew : b.size = 0
  · -- The first allocation, of at least 64 bytes.
    obtain ⟨hle, hsize⟩ :=
      @growFrom_enough size 0 size 64 (Nat.zero_le _) (by decide) (Nat.le_add_right _ _)
    have hpos0 : b.pos = 0 := by omega
    simp only [hnew, if_true, halloc]
    refine ⟨⟨hwrite, List.length_replicate, Nat.zero_le _⟩, herror, hpos0.symm, ?_, by omega⟩
    rw [Buffer.contents, Buffer.contents, hpos0, List.take_zero, List.take_zero]
  · -- A larger one, into which the old bytes are copied.
    obtain ⟨hle, hsize⟩ := @growFrom_enough size b.pos size b.size hpos (Nat.pos_of_ne_zero hnew)
      (Nat.le_add_right _ _)
    rw [if_neg hnew]
    dsimp only
    rw [if_pos (halloc _)]
    refine ⟨⟨hwrite, ?_, ?_⟩, herror, rfl, ?_, ?_⟩
    · change (b.data ++ List.replicate _ 0).length = _
      rw [List.length_append, List.length_replicate, hlength]
      exact Nat.add_sub_cancel' hle
    · exact Nat.le_trans hpos hle
    · exact List.take_append_of_le_length (by rw [hlength]; exact hpos)
    · change b.pos + size ≤ growFrom size b.pos size b.size
      omega

theorem grows_store {b : Buffer} (hb : Grows b) {bytes : List UInt8}
    (hroom : b.pos + bytes.length ≤ b.size) : Grows (b.store bytes) := by
  refine ⟨hb.write, ?_, hroom⟩
  rw [Buffer.store, length_overwrite, hb.length]
  exact Nat.max_eq_left hroom

theorem contents_store {b : Buffer} (h : b.pos ≤ b.data.length) (bytes : List UInt8) :
    (b.store bytes).contents = b.contents ++ bytes := take_overwrite h bytes

/-- **A growing buffer appends.** -/
theorem contents_writen {b : Buffer} (hb : Grows b) (hsound : b.Sound) (bytes : List UInt8) :
    Grows (b.writen bytes) ∧ (b.writen bytes).contents = b.contents ++ bytes ∧
      (b.writen bytes).pos = b.pos + bytes.length := by
  obtain ⟨herror, halloc⟩ := hsound
  rw [Buffer.writen, if_neg (by rw [herror]; exact Bool.false_ne_true)]
  split
  · obtain ⟨alloc, hwrite⟩ := hb.write
    obtain ⟨hgrows, herror', hpos, hcontents, hroom⟩ :=
      memoryBufferWrite_spec hb herror (halloc alloc hwrite) bytes.length
    simp only [hwrite]
    rw [if_neg (by rw [herror']; exact Bool.false_ne_true)]
    rw [← hpos] at hroom
    refine ⟨grows_store hgrows hroom, ?_, ?_⟩
    · rw [contents_store (by rw [hgrows.length]; exact hgrows.pos_le), hcontents]
    · rw [Buffer.store, hpos]
  · refine ⟨grows_store hb (by omega), contents_store (by rw [hb.length]; exact hb.pos_le) bytes, rfl⟩

/-! ## As a sink -/

theorem sound_memoryBufferWrite {b : Buffer} (h : b.Sound) {alloc : Nat → Bool}
    (hwrite : b.write = some alloc) (size : Nat) : (memoryBufferWrite alloc b size).Sound := by
  obtain ⟨herror, halloc⟩ := h
  have hgrant := halloc alloc hwrite
  simp only [memoryBufferWrite, herror, Bool.false_eq_true, if_false, hgrant, if_true]
  split
  · exact ⟨herror, halloc⟩
  · split
    · exact ⟨rfl, halloc⟩
    · exact ⟨rfl, halloc⟩

theorem sound_writen {b : Buffer} (h : b.Sound) (bytes : List UInt8) : (b.writen bytes).Sound := by
  obtain ⟨herror, halloc⟩ := h
  rw [Buffer.writen, if_neg (by rw [herror]; exact Bool.false_ne_true)]
  split
  · cases hwrite : b.write with
    | none => exact ⟨herror, halloc⟩
    | some alloc =>
      have hsound := sound_memoryBufferWrite ⟨herror, halloc⟩ hwrite bytes.length
      dsimp only
      rw [if_neg (by rw [hsound.1]; exact Bool.false_ne_true)]
      exact hsound
  · exact ⟨herror, halloc⟩

/-- Buffers take byte strings. -/
def sink : Sink Buffer (List UInt8) where
  put := Buffer.writen
  Sound := Buffer.Sound
  sound_put _ bytes h := sound_writen h bytes

/-- A growing buffer appends everything it is fed. -/
theorem contents_puts {b : Buffer} (hb : Grows b) (hsound : b.Sound) (ws : List (List UInt8)) :
    (sink.puts b ws).contents = b.contents ++ ws.flatten ∧
      (sink.puts b ws).pos = b.pos + ws.flatten.length := by
  induction ws generalizing b with
  | nil => exact ⟨(List.append_nil _).symm, rfl⟩
  | cons bytes ws ih =>
    obtain ⟨hgrows, hcontents, hpos⟩ := contents_writen hb hsound bytes
    obtain ⟨ihcontents, ihpos⟩ := ih hgrows (sound_writen hsound bytes)
    rw [Sink.puts_cons, List.flatten_cons]
    refine ⟨?_, ?_⟩
    · exact ihcontents.trans (by rw [hcontents, List.append_assoc])
    · exact ihpos.trans (by rw [hpos, List.length_append, Nat.add_assoc])

/-! ### A fixed buffer -/

/-- What `room` bytes keep: every byte string that still fits, whole. -/
@[grind =]
def keep : Nat → List (List UInt8) → List UInt8
  | _, [] => []
  | room, bytes :: ws =>
    if bytes.length ≤ room then bytes ++ keep (room - bytes.length) ws else keep room ws

theorem length_keep_le (room : Nat) (ws : List (List UInt8)) : (keep room ws).length ≤ room := by
  induction ws generalizing room with
  | nil => exact Nat.zero_le room
  | cons bytes ws ih =>
    rw [keep]
    split
    · have h := ih (room - bytes.length)
      rw [List.length_append]
      omega
    · exact ih room

/-- Everything is kept if there is room for everything. -/
theorem keep_of_le {room : Nat} {ws : List (List UInt8)} (h : ws.flatten.length ≤ room) :
    keep room ws = ws.flatten := by
  induction ws generalizing room with
  | nil => rfl
  | cons bytes ws ih =>
    rw [List.flatten_cons, List.length_append] at h
    rw [keep, if_pos (by omega), ih (by omega), List.flatten_cons]

theorem mem_flatten_of_mem_keep {room : Nat} {ws : List (List UInt8)} {c : UInt8}
    (h : c ∈ keep room ws) : c ∈ ws.flatten := by
  induction ws generalizing room with
  | nil => cases h
  | cons bytes ws ih =>
    rw [List.flatten_cons, List.mem_append]
    rw [keep] at h
    split at h
    · rcases List.mem_append.mp h with h | h
      · exact .inl h
      · exact .inr (ih h)
    · exact .inr (ih h)

/-- **A fixed buffer keeps what fits**, and touches nothing else. -/
theorem puts_fixed {b : Buffer} (hwrite : b.write = none) (herror : b.error = false)
    (hpos : b.pos ≤ b.size) (hlen : b.size ≤ b.data.length) (ws : List (List UInt8)) :
    sink.puts b ws = b.store (keep (b.size - b.pos) ws) := by
  induction ws generalizing b with
  | nil =>
    rw [keep, Buffer.store, overwrite_nil (Nat.le_trans hpos hlen)]
    rfl
  | cons bytes ws ih =>
    -- A string that does not fit is dropped whole, and a later one may still fit.
    have hput : sink.put b bytes =
        if bytes.length ≤ b.size - b.pos then b.store bytes else b := by
      change b.writen bytes = _
      rw [Buffer.writen, if_neg (by rw [herror]; exact Bool.false_ne_true), hwrite]
      by_cases hfit : bytes.length ≤ b.size - b.pos
      · rw [if_neg (by omega), if_pos hfit]
      · rw [if_pos (by omega), if_neg hfit]
    rw [Sink.puts_cons, hput, keep]
    by_cases hfit : bytes.length ≤ b.size - b.pos
    · rw [if_pos hfit, if_pos hfit]
      have hdata : b.size ≤ (b.store bytes).data.length := by
        rw [Buffer.store, length_overwrite]
        omega
      have hstored := @ih (b.store bytes) hwrite herror (show b.pos + bytes.length ≤ b.size by omega)
        hdata
      have hroom : (b.store bytes).size - (b.store bytes).pos = b.size - b.pos - bytes.length :=
        Nat.sub_add_eq _ _ _
      rw [hstored, hroom]
      simp only [Buffer.store, overwrite_overwrite (Nat.le_trans hpos hlen), List.length_append,
        Nat.add_assoc]
    · rw [if_neg hfit, if_neg hfit]
      exact ih hwrite herror hpos hlen

/-! ## Reading -/

namespace Buffer

/-- `peekbyte`. -/
def peekbyte (b : Buffer) (offset : Nat) : UInt8 :=
  if b.error then 0
  else if b.pos + offset ≥ b.size then 0
  else b.data.getD (b.pos + offset) 0

/-- `readbyte`. -/
def readbyte (b : Buffer) : UInt8 × Buffer :=
  if b.error then (0, b)
  else if b.pos + 1 > b.size then (0, b)
  else (b.data.getD b.pos 0, { b with pos := b.pos + 1 })

/-- `readbyte` for its effect. -/
def next (b : Buffer) : Buffer := b.readbyte.2

/-- `advance`. -/
def advance (b : Buffer) (step : Nat) : Buffer := { b with pos := min (b.pos + step) b.size }

/-- `pending`, a `size_t`. -/
def pending (b : Buffer) : Nat := (b.size + (2 ^ 64 - b.pos)) % 2 ^ 64

end Buffer

theorem readbyte_fst (b : Buffer) : b.readbyte.1 = b.peekbyte 0 := by
  unfold Buffer.readbyte Buffer.peekbyte
  split
  · rfl
  · rw [Nat.add_zero]
    split
    · next h => exact (if_pos (Nat.le_of_lt_succ h)).symm
    · next h => exact (if_neg (fun hle => h (Nat.lt_succ_of_le hle))).symm

/-- `text` is what is left to read. -/
structure Reads (b : Buffer) (text : List UInt8) : Prop where
  error : b.error = false
  pos_le : b.pos ≤ b.size
  size_le : b.size ≤ b.data.length
  text : (b.data.take b.size).drop b.pos = text

variable {b : Buffer} {text : List UInt8}

theorem reads_fixed (data : List UInt8) {size : Nat} (h : size ≤ data.length) :
    Reads (.fixed data size) (data.take size) := ⟨rfl, Nat.zero_le _, h, rfl⟩

theorem Reads.length (h : Reads b text) : text.length = b.size - b.pos := by
  rw [← h.text, List.length_drop, List.length_take, Nat.min_eq_left h.size_le]

theorem Reads.peekbyte (h : Reads b text) (offset : Nat) :
    b.peekbyte offset = text.getD offset 0 := by
  have hlength := h.length
  rw [Buffer.peekbyte, if_neg (by rw [h.error]; exact Bool.false_ne_true)]
  split
  · rw [List.getD_eq_getElem?_getD, List.getElem?_eq_none (by omega), Option.getD_none]
  · rw [← h.text, List.getD_eq_getElem?_getD, List.getD_eq_getElem?_getD, List.getElem?_drop,
      List.getElem?_take_of_lt (by omega)]

theorem Reads.peek (h : Reads b text) : b.peekbyte 0 = text.headD 0 := by
  rw [h.peekbyte 0]
  cases text <;> rfl

theorem Reads.next {c : UInt8} (h : Reads b (c :: text)) : Reads b.next text := by
  have hlength := h.length
  rw [List.length_cons] at hlength
  rw [Buffer.next, Buffer.readbyte, if_neg (by rw [h.error]; exact Bool.false_ne_true),
    if_neg (by omega)]
  refine ⟨h.error, show b.pos + 1 ≤ b.size by omega, h.size_le, ?_⟩
  show (b.data.take b.size).drop (b.pos + 1) = text
  rw [← List.drop_drop, h.text, List.drop_one, List.tail_cons]

theorem Reads.advance {front : List UInt8} (h : Reads b (front ++ text)) :
    Reads (b.advance front.length) text := by
  have hlength := h.length
  rw [List.length_append] at hlength
  have hpos : b.pos + front.length ≤ b.size := by
    have hle := h.pos_le
    omega
  refine ⟨h.error, Nat.min_le_right _ _, h.size_le, ?_⟩
  show (b.data.take b.size).drop (min (b.pos + front.length) b.size) = text
  rw [Nat.min_eq_left hpos, ← List.drop_drop, h.text, List.drop_left]

/-- `advance` goes to the end at most. -/
theorem Reads.skip (h : Reads b text) (n : Nat) : Reads (b.advance n) (text.drop n) := by
  have hlength := h.length
  refine ⟨h.error, Nat.min_le_right _ _, h.size_le, ?_⟩
  show (b.data.take b.size).drop (min (b.pos + n) b.size) = text.drop n
  rcases Nat.le_total (b.pos + n) b.size with hle | hle
  · rw [Nat.min_eq_left hle, ← List.drop_drop, h.text]
  · rw [Nat.min_eq_right hle, List.drop_of_length_le (List.length_take_le _ _),
      List.drop_of_length_le (by omega)]

/-- At the end `readbyte` stays. -/
theorem Reads.tail (h : Reads b text) : Reads b.next text.tail := by
  cases text with
  | nil =>
    have hlength := h.length
    have hpos := h.pos_le
    rw [List.length_nil] at hlength
    have hstay : b.next = b := by
      rw [Buffer.next, Buffer.readbyte, if_neg (by rw [h.error]; exact Bool.false_ne_true), if_pos (by omega)]
    rw [hstay]
    exact h
  | cons c text => exact h.next

theorem Reads.advance_zero (h : Reads b text) : b.advance 0 = b := by
  rw [Buffer.advance, Nat.add_zero, Nat.min_eq_left h.pos_le]

theorem Reads.next_eq {c : UInt8} (h : Reads b (c :: text)) : b.next = b.advance 1 := by
  have hlength := h.length
  rw [List.length_cons] at hlength
  rw [Buffer.next, Buffer.readbyte, if_neg (by rw [h.error]; exact Bool.false_ne_true),
    if_neg (by omega), Buffer.advance, Nat.min_eq_left (by omega)]

theorem Reads.next_advance {c : UInt8} (h : Reads b (c :: text)) (n : Nat) :
    b.next.advance n = b.advance (n + 1) := by
  rw [h.next_eq, Buffer.advance, Buffer.advance, Buffer.advance]
  congr 1
  show min (min (b.pos + 1) b.size + n) b.size = min (b.pos + (n + 1)) b.size
  omega

theorem Reads.pending (h : Reads b text) (hsize : b.size < 2 ^ 64) : b.pending = text.length := by
  have hpos := h.pos_le
  rw [Buffer.pending, h.length]
  omega

/-- What is left stands at the current position. -/
theorem Reads.front (h : Reads b text) : text <+: b.data.drop b.pos := by
  rw [← h.text, List.drop_take]
  exact ⟨_, List.take_append_drop _ _⟩

end WindowsLibc.Printf
