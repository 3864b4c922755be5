import WindowsLibc.Lib.Block
import WindowsLibc.Printf.Asprintf

/-!
# The growing buffer in 64 bits (`internal/buffer.h`, `internal/buffer.c`)

In `Printf.Buffer` positions and sizes are numbers, and what `realloc` hands out is zeros. Here they are
`size_t`, fresh memory is what the allocator makes of it, and a byte stored outside of the block is a fault.

* `writeBytes_refines`: below 2^62 bytes a call does what it does there. Nothing wraps around, and the loop that
  doubles the size ends.
* `growing_kept` is what a whole run of calls leaves in the buffer.
-/

namespace WindowsLibc.Printf.Growing

open WindowsLibc.Lib

/-! ## The functions -/

/-- `malloc` and `realloc`. `none` is NULL. -/
structure Allocator where
  malloc : UInt64 → Option (List UInt8)
  realloc : List UInt8 → UInt64 → Option (List UInt8)

/-- A block is as large as asked for, and `realloc` copies the old one. Of the other bytes nothing is known. -/
structure Allocator.Honest (m : Allocator) : Prop where
  malloc : ∀ {size block}, m.malloc size = some block → block.length = size.toNat
  realloc : ∀ {old size block}, old.length ≤ size.toNat → m.realloc old size = some block →
    block.length = size.toNat ∧ old <+: block

/-- No allocation fails. -/
structure Allocator.Grants (m : Allocator) : Prop where
  malloc : ∀ size, m.malloc size ≠ none
  realloc : ∀ old size, m.realloc old size ≠ none

/-- `buffer_t`. `write` is NULL or `memory_buffer_write`, and `data` the block that it points to. -/
structure Buffer where
  data : List UInt8
  pos : UInt64
  size : UInt64
  write : Option Allocator
  error : UInt32

/-- `while (size > buffer->size - buffer->pos) buffer->size *= 2`, or `none` if it goes on for more turns than
given. -/
def double (size pos : UInt64) : Nat → UInt64 → Option UInt64
  | 0, _ => none
  | turns + 1, capacity =>
    if size > capacity - pos then double size pos turns (capacity * 2) else some capacity

/-- What follows `malloc` and `realloc`: the test for NULL, and `memset` behind the old bytes. -/
def received (b : Buffer) (oldSize capacity : UInt64) : Option (List UInt8) → Option (UInt64 × Buffer)
  | none => some (0, { b with data := [], size := capacity, error := 1 })
  | some block => do
    let data ← poke block oldSize.toNat (List.replicate (capacity - oldSize).toNat 0)
    some (capacity, { b with data := data, size := capacity })

/-- `memory_buffer_write`. After 64 turns every capacity is 0, and a loop that has not ended never does. -/
def memoryBufferWrite (m : Allocator) (b : Buffer) (size : UInt64) : Option (UInt64 × Buffer) :=
  if b.error ≠ 0 then some (0, b)
  else if size = 0 then some (0, b)
  else if b.size = 0 then do
    -- `while (size > buffer->size)`, the same with nothing written
    let capacity ← double size 0 65 64
    received { b with pos := 0 } 0 capacity (m.malloc capacity)
  else do
    let capacity ← double size b.pos 65 b.size
    received b b.size capacity (m.realloc b.data capacity)

namespace Buffer

/-- `memcpy` to the current position, and the position moves. -/
def store (b : Buffer) (bytes : List UInt8) : Option (UInt64 × Buffer) := do
  let data ← poke b.data b.pos.toNat bytes
  some (.ofNat bytes.length, { b with data := data, pos := b.pos + .ofNat bytes.length })

/-- The body of `writen` and of `writebyte`. -/
def writeBytes (b : Buffer) (bytes : List UInt8) : Option (UInt64 × Buffer) :=
  if b.error ≠ 0 then some (0, b)
  else if b.pos + .ofNat bytes.length > b.size then
    match b.write with
    | none => some (0, b)
    | some m => do
      let grown ← memoryBufferWrite m b (.ofNat bytes.length)
      if grown.2.error ≠ 0 then some (0, grown.2) else grown.2.store bytes
  else b.store bytes

/-- `writen` -/
def writen (b : Buffer) (bytes : List UInt8) : Option (UInt64 × Buffer) := b.writeBytes bytes

/-- `writebyte` -/
def writebyte (b : Buffer) (byte : UInt8) : Option (UInt64 × Buffer) := b.writeBytes [byte]

/-- `{.write = memory_buffer_write}` -/
def growing (m : Allocator) : Buffer := ⟨[], 0, 0, some m, 0⟩

end Buffer

/-! ## Doubling -/

theorem toNat_doubled (capacity : UInt64) (i : Nat) :
    ((· * 2)^[i] capacity).toNat = capacity.toNat * 2 ^ i % 2 ^ 64 := by
  induction i generalizing capacity with
  | zero =>
    rw [Nat.pow_zero, Nat.mul_one]
    exact (Nat.mod_eq_of_lt capacity.toNat_lt).symm
  | succ i ih =>
    have htwice : (capacity * 2).toNat = capacity.toNat * 2 % 2 ^ 64 := UInt64.toNat_mul _ _
    rw [Function.iterate_succ_apply, ih, htwice, Nat.mod_mul_mod, Nat.mul_assoc, ← Nat.pow_succ']

theorem double_eq_none_iff {size pos capacity : UInt64} {turns : Nat} :
    double size pos turns capacity = none ↔ ∀ i < turns, size > (· * 2)^[i] capacity - pos := by
  induction turns generalizing capacity with
  | zero => exact ⟨fun _ i hi => absurd hi (Nat.not_lt_zero i), fun _ => rfl⟩
  | succ turns ih =>
    rw [double]
    split
    · next hmore =>
      rw [ih]
      constructor
      · intro h i hi
        cases i with
        | zero => exact hmore
        | succ i => exact h i (Nat.lt_of_succ_lt_succ hi)
      · intro h i hi
        exact h (i + 1) (Nat.succ_lt_succ hi)
    · next hend => exact ⟨fun h => (by cases h), fun h => absurd (h 0 (Nat.succ_pos turns)) hend⟩

/-- A loop that has gone on for 65 turns goes on for ever. -/
theorem double_forever {size pos capacity : UInt64} (h : double size pos 65 capacity = none) (turns : Nat) :
    double size pos turns capacity = none := by
  rw [double_eq_none_iff] at h ⊢
  have hzero : ∀ i, 64 ≤ i → (· * 2)^[i] capacity = 0 := by
    intro i hi
    obtain ⟨j, rfl⟩ := Nat.exists_eq_add_of_le hi
    rw [← UInt64.toNat_inj, toNat_doubled, Nat.pow_add, Nat.mul_left_comm, Nat.mul_mod_right]
    rfl
  intro i hi
  rcases Nat.lt_or_ge i 64 with hlt | hge
  · exact h i (Nat.lt_succ_of_lt hlt)
  · -- from here on nothing changes any more
    rw [hzero i hge, ← hzero 64 (Nat.le_refl 64)]
    exact h 64 (by decide)

/-- With less than 2^62 bytes in all, nothing wraps around and the loop ends. -/
theorem double_eq {size pos : UInt64} (hsum : pos.toNat + size.toNat < 2 ^ 62) {turns fuel : Nat}
    {capacity : UInt64} (hpos : pos ≤ capacity) (hturns : 2 ^ 62 ≤ capacity.toNat * 2 ^ turns)
    (hfuel : size.toNat ≤ fuel + (capacity.toNat - pos.toNat)) :
    ∃ c, double size pos (turns + 1) capacity = some c ∧
      c.toNat = growFrom size.toNat pos.toNat fuel capacity.toNat := by
  induction turns generalizing capacity fuel with
  | zero =>
    have hroom : (capacity - pos).toNat = capacity.toNat - pos.toNat := UInt64.toNat_sub_of_le _ _ hpos
    have hend : ¬ size > capacity - pos := by
      rw [gt_iff_lt, UInt64.lt_iff_toNat_lt, hroom]
      omega
    refine ⟨capacity, by rw [double, if_neg hend], ?_⟩
    cases fuel with
    | zero => rfl
    | succ fuel => rw [growFrom, if_neg (by omega)]
  | succ turns ih =>
    have hroom : (capacity - pos).toNat = capacity.toNat - pos.toNat := UInt64.toNat_sub_of_le _ _ hpos
    have htest : size > capacity - pos ↔ size.toNat > capacity.toNat - pos.toNat := by
      rw [gt_iff_lt, UInt64.lt_iff_toNat_lt, hroom]
    rw [UInt64.le_iff_toNat_le] at hpos
    rw [double]
    by_cases hmore : size > capacity - pos
    · -- the old capacity does not hold everything, so it is less than 2^62
      have hmore' := htest.mp hmore
      have htwice : (capacity * 2).toNat = capacity.toNat * 2 := by
        rw [UInt64.toNat_mul]
        exact Nat.mod_eq_of_lt (by show capacity.toNat * 2 < 2 ^ 64; omega)
      have hle : pos ≤ capacity * 2 := by
        rw [UInt64.le_iff_toNat_le, htwice]
        omega
      have hleft : 2 ^ 62 ≤ (capacity * 2).toNat * 2 ^ turns := by
        rw [htwice, Nat.mul_assoc, ← Nat.pow_succ']
        exact hturns
      have hsome : 0 < capacity.toNat := Nat.pos_of_mul_pos_right (Nat.lt_of_lt_of_le (by decide) hturns)
      obtain ⟨fuel, rfl⟩ : ∃ f, fuel = f + 1 := Nat.exists_eq_succ_of_ne_zero (by omega)
      have hfuel' : size.toNat ≤ fuel + ((capacity * 2).toNat - pos.toNat) := by omega
      obtain ⟨c, hc, hgrow⟩ := ih hle hleft hfuel'
      refine ⟨c, by rw [if_pos hmore, hc], ?_⟩
      rw [growFrom, if_pos hmore', hgrow, htwice]
    · have hmore' : ¬ size.toNat > capacity.toNat - pos.toNat := fun h => hmore (htest.mpr h)
      refine ⟨capacity, if_neg hmore, ?_⟩
      cases fuel with
      | zero => rfl
      | succ fuel => rw [growFrom, if_neg hmore']

/-! ## The numbers behind it -/

/-- The buffer with numbers for words, and every request granted. -/
def Buffer.abs (b : Buffer) : Printf.Buffer :=
  ⟨b.data, b.pos.toNat, b.size.toNat, b.write.map (fun _ _ => true), b.error ≠ 0⟩

theorem error_abs {b : Buffer} (h : b.error = 0) : b.abs.error = false := decide_eq_false (not_not_intro h)

theorem sound_abs {b : Buffer} (h : b.error = 0) : b.abs.Sound := by
  refine ⟨error_abs h, ?_⟩
  intro alloc halloc
  obtain ⟨-, -, rfl⟩ := Option.map_eq_some_iff.mp halloc
  exact fun _ => rfl

/-- A block that begins with the old bytes has zeros put behind them. -/
theorem received_some {b : Buffer} {oldSize capacity : UInt64} {old block : List UInt8}
    (hold : old.length = oldSize.toNat) (hle : oldSize ≤ capacity) (hlen : block.length = capacity.toNat)
    (hblock : old <+: block) : received b oldSize capacity (some block) = some (capacity,
      { b with data := old ++ List.replicate (capacity.toNat - oldSize.toNat) 0, size := capacity }) := by
  obtain ⟨fresh, rfl⟩ := hblock
  have hfresh : (capacity - oldSize).toNat = capacity.toNat - oldSize.toNat := UInt64.toNat_sub_of_le _ _ hle
  rw [List.length_append] at hlen
  have hzeros : (List.replicate (capacity - oldSize).toNat (0 : UInt8)).length = fresh.length := by
    rw [List.length_replicate, hfresh]
    omega
  have hset := poke_append old [] hzeros
  rw [List.append_nil, List.append_nil, hold] at hset
  rw [received, hset, hfresh]
  rfl

/-- There is a new block, or there is none and an error. -/
theorem received_spec {b : Buffer} (herror : b.error = 0) {oldSize capacity : UInt64} {old : List UInt8}
    (hold : old.length = oldSize.toNat) (hle : oldSize ≤ capacity) {block : Option (List UInt8)}
    (hblock : ∀ new, block = some new → new.length = capacity.toNat ∧ old <+: new) :
    ∃ r, received b oldSize capacity block = some r ∧ r.2.write = b.write ∧
      (r.2.error ≠ 0 → block = none) ∧ (r.2.error = 0 → r.2 =
        { b with data := old ++ List.replicate (capacity.toNat - oldSize.toNat) 0, size := capacity }) := by
  cases block with
  | none => exact ⟨_, rfl, rfl, fun _ => rfl, fun h => absurd h UInt32.zero_ne_one.symm⟩
  | some new =>
    obtain ⟨hlen, hnew⟩ := hblock new rfl
    exact ⟨_, received_some hold hle hlen hnew, rfl, fun h => absurd herror h, fun _ => rfl⟩

/-- `memory_buffer_write` does what it does on numbers, unless an allocation fails. -/
theorem memoryBufferWrite_refines {m : Allocator} (hm : m.Honest) {b : Buffer} (hb : Slack b.abs)
    (herror : b.error = 0) {size : UInt64} (hsize : size ≠ 0) (hsum : b.pos.toNat + size.toNat < 2 ^ 62) :
    ∃ r, memoryBufferWrite m b size = some r ∧ r.2.write = b.write ∧ (r.2.error ≠ 0 → ¬ m.Grants) ∧
      (r.2.error = 0 → r.2.abs = Printf.memoryBufferWrite (fun _ => true) b.abs size.toNat) := by
  have hnumbers : ¬ b.abs.error = true := by rw [error_abs herror]; exact Bool.false_ne_true
  have hsize' : size.toNat ≠ 0 := fun h => hsize (UInt64.toNat_inj.mp h)
  rw [memoryBufferWrite, if_neg (not_not_intro herror), if_neg hsize, Printf.memoryBufferWrite,
    if_neg hnumbers, if_neg hsize']
  by_cases hnew : b.size = 0
  · -- the first allocation, of at least 64 bytes
    have hnew' : b.abs.size = 0 := congrArg UInt64.toNat hnew
    have hdouble : ∃ c, double size 0 65 64 = some c ∧ c.toNat = growFrom size.toNat 0 size.toNat 64 :=
      double_eq (by rw [UInt64.toNat_zero]; omega) (by decide) (by decide) (Nat.le_add_right _ _)
    obtain ⟨c, hc, hgrow⟩ := hdouble
    rw [if_pos hnew, if_pos hnew', hc, Option.bind_eq_bind, Option.bind_some]
    have hblock : ∀ new, m.malloc c = some new → new.length = c.toNat ∧ [] <+: new :=
      fun new h => ⟨hm.malloc h, List.nil_prefix⟩
    obtain ⟨r, hr, hwrite, hfail, hok⟩ :=
      received_spec (b := { b with pos := 0 }) herror rfl UInt64.zero_le hblock
    refine ⟨r, hr, hwrite, fun h hgrants => hgrants.malloc c (hfail h), fun h => ?_⟩
    rw [hok h, if_pos rfl, ← hgrow]
    rfl
  · -- a larger block, with the old bytes in front
    have hnew' : ¬ b.abs.size = 0 := fun h => hnew (UInt64.toNat_inj.mp h)
    have hpos : b.pos ≤ b.size := UInt64.le_iff_toNat_le.mpr hb.pos_le
    have hlarge : 2 ^ 62 ≤ b.size.toNat * 2 ^ 64 := by
      have hsome : 0 < b.size.toNat := Nat.pos_of_ne_zero hnew'
      omega
    have hdouble : ∃ c, double size b.pos 65 b.size = some c ∧
        c.toNat = growFrom size.toNat b.abs.pos size.toNat b.abs.size :=
      double_eq hsum hpos hlarge (Nat.le_add_right _ _)
    obtain ⟨c, hc, hgrow⟩ := hdouble
    have hle : b.size ≤ c := by
      rw [UInt64.le_iff_toNat_le, hgrow]
      exact (growFrom_enough hb.pos_le (Nat.pos_of_ne_zero hnew') (Nat.le_add_right _ _)).1
    rw [if_neg hnew, if_neg hnew', hc, Option.bind_eq_bind, Option.bind_some]
    have hblock : ∀ new, m.realloc b.data c = some new → new.length = c.toNat ∧ b.data <+: new := by
      intro new h
      exact hm.realloc (Nat.le_trans (Nat.le_of_eq hb.length) hle) h
    obtain ⟨r, hr, hwrite, hfail, hok⟩ := received_spec herror hb.length hle hblock
    refine ⟨r, hr, hwrite, fun h hgrants => hgrants.realloc b.data c (hfail h), fun h => ?_⟩
    rw [hok h, if_pos rfl, ← hgrow]
    rfl

theorem store_abs {b : Buffer} {bytes : List UInt8} (hroom : b.pos.toNat + bytes.length ≤ b.data.length)
    (hsum : b.pos.toNat + bytes.length < 2 ^ 62) : ∃ r, b.store bytes = some r ∧ r.2.write = b.write ∧
      r.2.error = b.error ∧ r.2.abs = b.abs.store bytes := by
  have hlen : (UInt64.ofNat bytes.length).toNat = bytes.length := UInt64.toNat_ofNat_of_lt' (by
    show bytes.length < 2 ^ 64
    omega)
  have hpos : (b.pos + UInt64.ofNat bytes.length).toNat = b.pos.toNat + bytes.length := by
    rw [UInt64.toNat_add, hlen]
    exact Nat.mod_eq_of_lt (by omega)
  rw [Buffer.store, poke, if_pos hroom, Option.bind_eq_bind, Option.bind_some]
  refine ⟨_, rfl, rfl, rfl, ?_⟩
  rw [Buffer.abs, Printf.Buffer.store, hpos]
  rfl

/-- **A call does what it does on numbers**, unless an allocation fails. -/
theorem writeBytes_refines {m : Allocator} (hm : m.Honest) {b : Buffer} (hb : Slack b.abs)
    (herror : b.error = 0) (hwrite : b.write = some m) {bytes : List UInt8}
    (hsum : b.pos.toNat + bytes.length < 2 ^ 62) :
    ∃ r, b.writeBytes bytes = some r ∧ r.2.write = some m ∧ (r.2.error ≠ 0 → ¬ m.Grants) ∧
      (r.2.error = 0 → r.2.abs = b.abs.writen bytes) := by
  have hnumbers : ¬ b.abs.error = true := by rw [error_abs herror]; exact Bool.false_ne_true
  have hlen : (UInt64.ofNat bytes.length).toNat = bytes.length := UInt64.toNat_ofNat_of_lt' (by
    show bytes.length < 2 ^ 64
    omega)
  have htest : b.pos + .ofNat bytes.length > b.size ↔ b.abs.pos + bytes.length > b.abs.size := by
    rw [gt_iff_lt, UInt64.lt_iff_toNat_lt, UInt64.toNat_add, hlen, Nat.mod_eq_of_lt (by omega)]
    rfl
  rw [Buffer.writeBytes, if_neg (not_not_intro herror), Printf.Buffer.writen, if_neg hnumbers]
  by_cases hgrow : b.pos + .ofNat bytes.length > b.size
  · have hsome : (UInt64.ofNat bytes.length) ≠ 0 := by
      intro h
      have hnone : bytes.length = 0 := by rw [← hlen, h, UInt64.toNat_zero]
      have hle := hb.pos_le
      have hmore := htest.mp hgrow
      omega
    obtain ⟨grown, hgrown, hsame, hfail, hok⟩ :=
      memoryBufferWrite_refines hm hb herror hsome (by rw [hlen]; exact hsum)
    have hwrite' : b.abs.write = some (fun _ => true) := by rw [Buffer.abs, hwrite, Option.map_some]
    rw [if_pos hgrow, if_pos (htest.mp hgrow), hwrite, hwrite']
    simp only [hgrown, Option.bind_eq_bind, Option.bind_some]
    by_cases hnull : grown.2.error = 0
    · have hgrown' := hok hnull
      obtain ⟨hgrows, herror', hpos, -, hroom⟩ := memoryBufferWrite_spec hb.toGrows (error_abs herror)
        (fun _ => rfl) bytes.length
      rw [hlen] at hgrown'
      rw [← hgrown'] at hgrows herror' hpos hroom ⊢
      have hpos' : grown.2.pos.toNat = b.pos.toNat := hpos
      obtain ⟨r, hr, hrwrite, hrerror, hrabs⟩ := @store_abs grown.2 bytes
        (by rw [hpos']; exact Nat.le_trans hroom (Nat.le_of_eq hgrows.length.symm))
        (by rw [hpos']; exact hsum)
      rw [if_neg (not_not_intro hnull), if_neg (by rw [herror']; exact Bool.false_ne_true)]
      refine ⟨r, hr, hrwrite.trans (hsame.trans hwrite), fun h => ?_, fun _ => hrabs⟩
      exact absurd (hrerror.trans hnull) h
    · rw [if_pos hnull]
      exact ⟨_, rfl, hsame.trans hwrite, fun _ => hfail hnull, fun h => absurd h hnull⟩
  · have hroom : b.abs.pos + bytes.length ≤ b.abs.size := Nat.le_of_not_lt (fun h => hgrow (htest.mpr h))
    obtain ⟨r, hr, hrwrite, hrerror, hrabs⟩ := @store_abs b bytes
      (Nat.le_trans hroom (Nat.le_of_eq hb.length.symm)) hsum
    rw [if_neg hgrow, if_neg (fun h => hgrow (htest.mpr h))]
    exact ⟨r, hr, hrwrite.trans hwrite, fun h => absurd (hrerror.trans herror) h, fun _ => hrabs⟩

/-! ## Any number of calls -/

/-- `writebyte(buffer, byte)` or `writen(buffer, bytes, size)` -/
inductive Call where
  | writebyte (byte : UInt8)
  | writen (bytes : List UInt8)

def Call.bytes : Call → List UInt8
  | .writebyte byte => [byte]
  | .writen bytes => bytes

def Call.apply (b : Buffer) : Call → Option (UInt64 × Buffer)
  | .writebyte byte => b.writebyte byte
  | .writen bytes => b.writen bytes

/-- The calls one after the other. `none` is a fault or a loop without end. -/
def run (b : Buffer) : List Call → Option Buffer
  | [] => some b
  | call :: calls => do
    let r ← call.apply b
    run r.2 calls

def written (calls : List Call) : List UInt8 := (calls.map Call.bytes).flatten

theorem Call.apply_eq (b : Buffer) (call : Call) : call.apply b = b.writeBytes call.bytes := by
  cases call with
  | writebyte byte => rfl
  | writen bytes => rfl

/-- After an error nothing happens any more. -/
theorem run_failed {b : Buffer} (h : b.error ≠ 0) (calls : List Call) : run b calls = some b := by
  induction calls with
  | nil => rfl
  | cons call calls ih =>
    rw [run, Call.apply_eq, Buffer.writeBytes, if_pos h, Option.bind_eq_bind, Option.bind_some]
    exact ih

/-- What has been written is there and zeros are behind it. -/
structure Kept (b : Buffer) (bytes : List UInt8) : Prop where
  contents : b.data.take b.pos.toNat = bytes
  pos : b.pos.toNat = bytes.length
  pos_le : b.pos ≤ b.size
  length : b.data.length = b.size.toNat
  zeros : b.data.drop b.pos.toNat = List.replicate (b.size.toNat - b.pos.toNat) 0
  size : b.size = 0 ∨ ∃ k, b.size.toNat = 64 * 2 ^ k

theorem kept_of_slack {b : Buffer} (hb : Slack b.abs) {bytes : List UInt8} (hbytes : b.abs.contents = bytes) :
    Kept b bytes := by
  have hpos : b.pos.toNat ≤ b.data.length := by
    show b.abs.pos ≤ b.abs.data.length
    rw [hb.length]
    exact hb.pos_le
  refine ⟨hbytes, ?_, UInt64.le_iff_toNat_le.mpr hb.pos_le, hb.length, hb.zeros, ?_⟩
  · rw [← hbytes]
    exact (List.length_take_of_le hpos).symm
  · rcases hb.least with ⟨-, hnew⟩ | ⟨-, k, hk, -⟩
    · exact .inl (UInt64.toNat_inj.mp hnew)
    · exact .inr ⟨k, hk⟩

/-- From any buffer with what has been written before. -/
theorem run_kept {m : Allocator} (hm : m.Honest) (calls : List Call) {b : Buffer} (hb : Slack b.abs)
    (herror : b.error = 0) (hwrite : b.write = some m)
    (hsum : b.pos.toNat + (written calls).length < 2 ^ 62) :
    ∃ b', run b calls = some b' ∧ (b'.error ≠ 0 → ¬ m.Grants) ∧
      (b'.error = 0 → Kept b' (b.abs.contents ++ written calls)) := by
  induction calls generalizing b with
  | nil =>
    refine ⟨b, rfl, fun h => absurd herror h, fun _ => ?_⟩
    exact kept_of_slack hb (List.append_nil _).symm
  | cons call calls ih =>
    have hsplit : written (call :: calls) = call.bytes ++ written calls := rfl
    rw [hsplit, List.length_append] at hsum
    have hfirst : b.pos.toNat + call.bytes.length < 2 ^ 62 := by omega
    obtain ⟨r, hr, hrwrite, hfail, hok⟩ := writeBytes_refines hm hb herror hwrite hfirst
    rw [run, Call.apply_eq, hr, Option.bind_eq_bind, Option.bind_some]
    by_cases hnull : r.2.error = 0
    · obtain ⟨-, hcontents, hpos⟩ := contents_writen hb.toGrows (sound_abs herror) call.bytes
      have hslack := slack_writen hb (sound_abs herror) call.bytes
      rw [← hok hnull] at hcontents hpos hslack
      have hpos' : r.2.pos.toNat = b.pos.toNat + call.bytes.length := hpos
      rw [hsplit, ← List.append_assoc, ← hcontents]
      exact ih hslack hnull hrwrite (by omega)
    · exact ⟨r.2, run_failed hnull calls, fun _ => hfail hnull, fun h => absurd h hnull⟩

/-- **The growing buffer.** However many calls write however many bytes, less than 2^62 in all: there is no
fault and no loop without end, and unless an allocation has failed everything is kept. -/
theorem growing_kept {m : Allocator} (hm : m.Honest) {calls : List Call}
    (hsum : (written calls).length < 2 ^ 62) :
    ∃ b, run (.growing m) calls = some b ∧ (m.Grants → b.error = 0) ∧
      (b.error = 0 → Kept b (written calls)) := by
  obtain ⟨b, hrun, hfail, hok⟩ := run_kept hm calls (b := .growing m) (slack_growing _) rfl rfl
    (by rw [Buffer.growing, UInt64.toNat_zero, Nat.zero_add]; exact hsum)
  refine ⟨b, hrun, fun hgrants => ?_, hok⟩
  by_cases hnull : b.error = 0
  · exact hnull
  · exact absurd hgrants (hfail hnull)

/-- Fresh memory is full of 0xCC. -/
def dirty : Allocator where
  malloc size := some (List.replicate size.toNat 0xCC)
  realloc old size := some (old.take size.toNat ++ List.replicate (size.toNat - old.length) 0xCC)

theorem honest_dirty : dirty.Honest where
  malloc h := by
    cases h
    exact List.length_replicate
  realloc hle h := by
    cases h
    rw [List.take_of_length_le hle]
    refine ⟨?_, List.prefix_append _ _⟩
    rw [List.length_append, List.length_replicate]
    omega

/-- One byte in a block of 64, then 300, which take three doublings, then none. -/
theorem growing_kept_dirty :
    ∃ b, run (.growing dirty) [.writebyte 97, .writen (List.replicate 300 98), .writen []] = some b ∧
      Kept b (97 :: List.replicate 300 98) := by
  have hwritten : written [.writebyte 97, .writen (List.replicate 300 98), .writen []] =
      97 :: List.replicate 300 98 := by
    simp only [written, Call.bytes, List.map_cons, List.map_nil, List.flatten_cons, List.flatten_nil,
      List.append_nil, List.singleton_append]
  have hsum : (written [.writebyte 97, .writen (List.replicate 300 98), .writen []]).length < 2 ^ 62 := by
    rw [hwritten, List.length_cons, List.length_replicate]
    decide
  have hgrants : dirty.Grants := ⟨fun _ h => (by cases h), fun _ _ h => (by cases h)⟩
  obtain ⟨b, hrun, hok, hkept⟩ := growing_kept honest_dirty hsum
  rw [hwritten] at hkept
  exact ⟨b, hrun, hkept (hok hgrants)⟩

end WindowsLibc.Printf.Growing
