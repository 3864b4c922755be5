import WindowsLibc.Printf.Entry

/-!
# The terminator of `asprintf`

`wlibc_vasprintf` hands its buffer on as it is. Nothing puts a terminator behind the output: there is one
because fresh memory is zeroed and the buffer is larger than what is in it.

* `Slack` says how large that is: 64 times the least power of two that holds the output, whatever the
  pieces were that it came in. The rest is zeros.
* `vasprintf_terminates_iff`: there is room for the terminator unless the output fills the buffer exactly,
  or is empty, when there is no buffer.
-/

namespace WindowsLibc.Printf

open WindowsLibc.Lib

/-- `growFrom` doubles no further than it has to. -/
theorem growFrom_doubles (size fuel : Nat) {pos k : Nat} (hpos : pos ≤ 64 * 2 ^ k) :
    ∃ k', growFrom size pos fuel (64 * 2 ^ k) = 64 * 2 ^ k' ∧ k ≤ k' ∧
      (k < k' → 32 * 2 ^ k' < pos + size) := by
  induction fuel generalizing k with
  | zero => exact ⟨k, rfl, Nat.le_refl _, fun hlt => absurd hlt (Nat.lt_irrefl k)⟩
  | succ fuel ih =>
    rw [growFrom]
    split
    · next hsize =>
      have hdouble : 64 * 2 ^ k * 2 = 64 * 2 ^ (k + 1) := by rw [Nat.mul_assoc, ← Nat.pow_succ]
      rw [hdouble]
      obtain ⟨k', heq, hle, hneeded⟩ := ih (k := k + 1) (by omega)
      refine ⟨k', heq, by omega, fun _ => ?_⟩
      rcases Nat.eq_or_lt_of_le hle with hk | hk
      · rw [← hk]
        omega
      · exact hneeded hk
    · exact ⟨k, rfl, Nat.le_refl _, fun hlt => absurd hlt (Nat.lt_irrefl k)⟩

/-- A growing buffer: nothing has been written, or its size is the least that holds what has been. -/
structure Slack (b : Buffer) : Prop extends Grows b where
  least : (b.pos = 0 ∧ b.size = 0) ∨
    (0 < b.pos ∧ ∃ k, b.size = 64 * 2 ^ k ∧ (0 < k → 32 * 2 ^ k < b.pos))
  zeros : b.data.drop b.pos = List.replicate (b.size - b.pos) 0

theorem slack_growing (alloc : Nat → Bool) : Slack (Buffer.growing alloc) :=
  ⟨grows_growing alloc, .inl ⟨rfl, rfl⟩, rfl⟩

/-- A piece that fits leaves zeros behind it. -/
theorem zeros_store {b : Buffer} {bytes : List UInt8} (hpos : b.pos ≤ b.data.length)
    (hzeros : b.data.drop b.pos = List.replicate (b.size - b.pos) 0) :
    (b.store bytes).data.drop (b.store bytes).pos =
      List.replicate ((b.store bytes).size - (b.store bytes).pos) 0 := by
  show (overwrite b.data b.pos bytes).drop (b.pos + bytes.length) =
    List.replicate (b.size - (b.pos + bytes.length)) 0
  rw [drop_overwrite hpos, ← List.drop_drop, hzeros, List.drop_replicate, Nat.sub_sub]

/-- The buffer after `memory_buffer_write` has made room. -/
theorem memoryBufferWrite_slack {b : Buffer} {alloc : Nat → Bool} (hb : Slack b)
    (herror : b.error = false) (halloc : ∀ n, alloc n = true) {size : Nat} (hsize : 0 < size) :
    ∃ k, (memoryBufferWrite alloc b size).size = 64 * 2 ^ k ∧ (0 < k → 32 * 2 ^ k < b.pos + size) ∧
      (memoryBufferWrite alloc b size).data.drop b.pos =
        List.replicate ((memoryBufferWrite alloc b size).size - b.pos) 0 := by
  rw [memoryBufferWrite, if_neg (by rw [herror]; exact Bool.false_ne_true),
    if_neg (Nat.pos_iff_ne_zero.mp hsize)]
  rcases hb.least with ⟨hpos, hnew⟩ | ⟨hpos, k, hk, hneeded⟩
  · -- the first allocation
    obtain ⟨k, hgrow, -, hneeded⟩ :=
      growFrom_doubles size size (Nat.zero_le (64 * 2 ^ 0))
    rw [Nat.pow_zero, Nat.mul_one] at hgrow
    simp only [hnew, if_true, halloc]
    refine ⟨k, hgrow, ?_, ?_⟩
    · rw [hpos]
      exact hneeded
    · rw [hpos, List.drop_zero, Nat.sub_zero]
  · have hold : b.pos ≤ 64 * 2 ^ k := hk ▸ hb.pos_le
    obtain ⟨k', hgrow, hle, hdoubled⟩ := growFrom_doubles size size hold
    rw [← hk] at hgrow
    have hsome : b.size ≠ 0 := by
      have hle := hb.pos_le
      omega
    rw [if_neg hsome]
    dsimp only
    rw [if_pos (halloc _)]
    refine ⟨k', hgrow, fun hk' => ?_, ?_⟩
    · rcases Nat.eq_or_lt_of_le hle with heq | hlt
      · have h := hneeded (by omega)
        rw [← heq]
        omega
      · exact hdoubled hlt
    · have hlarger : b.size ≤ growFrom size b.pos size b.size := by
        rw [hgrow, hk]
        exact Nat.mul_le_mul_left 64 (Nat.pow_le_pow_right (by decide) hle)
      have hlen : b.pos ≤ b.data.length := by
        rw [hb.length]
        exact hb.pos_le
      have hpos_le := hb.pos_le
      show (b.data ++ List.replicate (growFrom size b.pos size b.size - b.size) 0).drop b.pos =
        List.replicate (growFrom size b.pos size b.size - b.pos) 0
      rw [List.drop_append_of_le_length hlen, hb.zeros, List.replicate_append_replicate]
      congr 1
      omega

theorem slack_writen {b : Buffer} (hb : Slack b) (hsound : b.Sound) (bytes : List UInt8) :
    Slack (b.writen bytes) := by
  have hgrows := (contents_writen hb.toGrows hsound bytes).1
  obtain ⟨herror, halloc⟩ := hsound
  have hnoerror : ¬ b.error = true := by rw [herror]; exact Bool.false_ne_true
  by_cases hroom : b.pos + bytes.length > b.size
  · -- the buffer grows, as far as these bytes need
    have hle := hb.pos_le
    obtain ⟨alloc, hwrite⟩ := hb.write
    have hgrant := halloc alloc hwrite
    obtain ⟨hgrown, herror', hpos, -, -⟩ :=
      memoryBufferWrite_spec hb.toGrows herror hgrant bytes.length
    obtain ⟨k, hsize, hneeded, hzeros⟩ :=
      memoryBufferWrite_slack hb herror hgrant (show 0 < bytes.length by omega)
    have hwriten : b.writen bytes = (memoryBufferWrite alloc b bytes.length).store bytes := by
      rw [Buffer.writen, if_neg hnoerror, if_pos hroom, hwrite]
      dsimp only
      rw [if_neg (by rw [herror']; exact Bool.false_ne_true)]
    rw [hwriten] at hgrows ⊢
    rw [← hpos] at hzeros hneeded
    refine { toGrows := hgrows, least := .inr ⟨?_, k, hsize, hneeded⟩, zeros := ?_ }
    · show 0 < (memoryBufferWrite alloc b bytes.length).pos + bytes.length
      omega
    · exact zeros_store (by rw [hgrown.length]; exact hgrown.pos_le) hzeros
  · have hwriten : b.writen bytes = b.store bytes := by
      rw [Buffer.writen, if_neg hnoerror, if_neg hroom]
    rw [hwriten] at hgrows ⊢
    refine { toGrows := hgrows, least := ?_, zeros := ?_ }
    · rcases hb.least with ⟨hpos, hnew⟩ | ⟨hpos, k, hk, hneeded⟩
      · refine .inl ⟨?_, hnew⟩
        show b.pos + bytes.length = 0
        omega
      · refine .inr ⟨Nat.lt_of_lt_of_le hpos (Nat.le_add_right _ _), k, hk, fun hk' => ?_⟩
        exact Nat.lt_of_lt_of_le (hneeded hk') (Nat.le_add_right _ _)
    · exact zeros_store (by rw [hb.length]; exact hb.pos_le) hb.zeros

/-- Whatever is written, in whatever pieces. -/
theorem slack_puts {b : Buffer} (hb : Slack b) (hsound : b.Sound) (ws : List (List UInt8)) :
    Slack (sink.puts b ws) := by
  induction ws generalizing b with
  | nil => exact hb
  | cons bytes ws ih =>
    rw [Sink.puts_cons]
    exact ih (slack_writen hb hsound bytes) (sound_writen hsound bytes)

/-- Behind what has been written there is a zero, or the end of the buffer. -/
theorem Slack.nul_iff {b : Buffer} (hb : Slack b) : b.data[b.pos]? = some 0 ↔ b.pos < b.size := by
  have hhead : b.data[b.pos]? = (b.data.drop b.pos)[0]? := by rw [List.getElem?_drop, Nat.add_zero]
  rw [hhead, hb.zeros]
  constructor
  · intro h
    by_contra hfull
    rw [show b.size - b.pos = 0 by omega] at h
    contradiction
  · intro hlt
    rw [List.getElem?_replicate, if_pos (by omega)]

/-- A buffer is full at 64 bytes and the powers of two behind it, and nowhere else. -/
theorem Slack.lt_size_iff {b : Buffer} (hb : Slack b) :
    b.pos < b.size ↔ b.pos ≠ 0 ∧ ∀ k, b.pos ≠ 64 * 2 ^ k := by
  have hle := hb.pos_le
  rcases hb.least with ⟨hpos, hnew⟩ | ⟨hpos, k, hk, hneeded⟩
  · rw [hpos, hnew]
    exact ⟨fun h => absurd h (Nat.lt_irrefl 0), fun h => absurd rfl h.1⟩
  constructor
  · intro hlt
    refine ⟨Nat.pos_iff_ne_zero.mp hpos, fun j hj => ?_⟩
    have hjk : j < k := by
      by_contra hge
      have hpow : 2 ^ k ≤ 2 ^ j := Nat.pow_le_pow_right (by decide) (Nat.le_of_not_lt hge)
      omega
    have hhalf : 2 * 2 ^ j ≤ 2 ^ k := by
      rw [Nat.mul_comm, ← Nat.pow_succ]
      exact Nat.pow_le_pow_right (by decide) hjk
    have h := hneeded (Nat.zero_lt_of_lt hjk)
    omega
  · rintro ⟨-, hfull⟩
    exact Nat.lt_of_le_of_ne hle (fun heq => hfull k (heq.trans hk))

/-! ## The result -/

/-- What `asprintf` promises of its result and of the memory that `*buffer` addresses. -/
structure Terminated (result : Int32) (data out : List UInt8) : Prop where
  result : result.toInt = out.length
  room : out.length + 1 ≤ data.length
  output : data.take out.length = out
  nul : data[out.length]? = some 0

/-- **The terminator of `asprintf`.** When memory is granted, the result is terminated if and only if
the output is not empty, is shorter than `2 ^ 31` bytes, and its length is none of 64, 128, 256, ... -/
theorem vasprintf_terminates_iff {format : List UInt8} {list : Nat → UInt64} {mem mem' : Memory}
    {result : Int32} {data out : List UInt8}
    (hrun : vasprintf (fun _ => true) (some format) list mem = some (result, data, mem'))
    (hout : Prints format list mem out) :
    Terminated result data out ↔ out ≠ [] ∧ out.length < 2 ^ 31 ∧ ∀ k, out.length ≠ 64 * 2 ^ k := by
  have hsound := @sound_growing (fun _ => true) (fun _ => rfl)
  obtain ⟨ws, hws⟩ := exists_writes hsound (by
    obtain ⟨_, _, _, hprint, -⟩ := hout
    rw [hprint]
    rfl)
  obtain rfl := (prints_iff hws).mp hout
  obtain ⟨mem'', hemits⟩ := hws
  rw [vasprintf, hemits _ hsound] at hrun
  cases hrun
  obtain ⟨hcontents, hpos⟩ := contents_puts (grows_growing fun _ => true) hsound ws
  have hslack := slack_puts (slack_growing fun _ => true) hsound ws
  generalize sink.puts (Buffer.growing fun _ => true) ws = b at hcontents hpos hslack ⊢
  have hcount : b.pos = ws.flatten.length := hpos.trans (Nat.zero_add _)
  have hnil : ws.flatten ≠ [] ↔ b.pos ≠ 0 := by
    rw [hcount, ne_eq, ne_eq, List.length_eq_zero_iff]
  rw [hnil, ← hcount]
  constructor
  · intro h
    have hlt : (ws.flatten.length : Int) < 2 ^ 31 := by
      rw [← h.result]
      exact Int32.toInt_lt _
    have hnul := h.nul
    rw [← hcount, hslack.nul_iff, hslack.lt_size_iff] at hnul
    exact ⟨hnul.1, by omega, hnul.2⟩
  · rintro ⟨hne, hlt, hfull⟩
    have hroom := hslack.lt_size_iff.mpr ⟨hne, hfull⟩
    refine ⟨toInt_count (by omega), ?_, ?_, ?_⟩
    · rw [← hcount, hslack.length]
      exact hroom
    · rw [← hcount]
      exact hcontents
    · rw [← hcount]
      exact hslack.nul_iff.mpr hroom

/-- `asprintf(&p, "ab%d", 1234)`. -/
theorem vasprintf_terminates_digits :
    ∃ result data mem', vasprintf (fun _ => true) (some [97, 98, 37, 100]) (fun _ => 1234)
        (fun _ => 0) = some (result, data, mem') ∧
      Terminated result data [97, 98, 49, 50, 51, 52] := by
  have hout : (printfInternal [97, 98, 37, 100] (fun _ => 1234) (fun _ => 0)
      (.growing fun _ => true)).map (fun p => p.2.contents) = some [97, 98, 49, 50, 51, 52] := by
    decide +kernel
  obtain ⟨⟨⟨result, mem'⟩, b⟩, hprint, hcontents⟩ := Option.map_eq_some_iff.mp hout
  have hrun : vasprintf (fun _ => true) (some [97, 98, 37, 100]) (fun _ => 1234) (fun _ => 0) =
      some (result, b.data, mem') := by rw [vasprintf, hprint]
  refine ⟨result, b.data, mem', hrun, ?_⟩
  refine (vasprintf_terminates_iff hrun ⟨result, mem', b, hprint, hcontents⟩).mpr ⟨?_, ?_, ?_⟩
  · exact List.cons_ne_nil _ _
  · decide
  · intro k
    show 6 ≠ 64 * 2 ^ k
    omega

/-- 64 bytes of text fill the buffer, and the caller has no string. -/
theorem not_vasprintf_terminates :
    ¬ ∀ format list mem result data mem' out,
      vasprintf (fun _ => true) (some format) list mem = some (result, data, mem') →
        Prints format list mem out → Terminated result data out := by
  intro h
  have hlength : (printfInternal (List.replicate 64 97) (fun _ => 0) (fun _ => 0)
      (.growing fun _ => true)).map (fun p => (p.2.contents.length, p.2.data.length)) = some (64, 64) := by
    decide +kernel
  obtain ⟨⟨⟨result, mem'⟩, b⟩, hprint, hfull⟩ := Option.map_eq_some_iff.mp hlength
  simp only [Prod.mk.injEq] at hfull
  have hroom := (h (List.replicate 64 97) _ _ result b.data mem' b.contents (by rw [vasprintf, hprint])
    ⟨result, mem', b, hprint, rfl⟩).room
  omega

end WindowsLibc.Printf
