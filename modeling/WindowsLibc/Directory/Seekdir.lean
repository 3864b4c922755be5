import WindowsLibc.Directory.Readdir

/-!
# Going back in a directory (`dirent/telldir.c`, `dirent/seekdir.c`)

`wlibc_telldir` returns the offset of the next record in the buffer, and `wlibc_seekdir` puts it back. The
count of bytes, by which `do_readdir` tells that the buffer is used up, stays as it is, though
`wlibc_rewinddir` resets it.

* `Position` says where a scan is, and how many entries may still come.
* `doReaddir_moves` is what one call does to the buffer, and `Moves` what several do.
* `seekdir_continues_iff`: going back is right only where nothing has been read in between. Else the count
  is ahead of the offset, and NULL comes too soon or never.
-/

namespace WindowsLibc.Directory

open WindowsLibc.Lib

/-- `wlibc_telldir`. -/
def telldir (d : Dir) : Nat := d.offset

/-- `wlibc_seekdir`. -/
def seekdir (pos : Nat) (d : Dir) : Dir := { d with offset := pos }

/-- Each of `n` calls returns an entry. -/
def Scans (utf8 : List UInt16 → Option (List UInt8)) (d : Dir) (n : Nat) (d' : Dir) : Prop :=
  ∃ os : List Dirent,
    (readdirMachine utf8).run d (List.replicate n ()) = some (d', os.map some)

/-- The calls from here on return what follows the first `m` entries, each once, and then NULL. -/
def Continues (utf8 : List UInt16 → Option (List UInt8)) (chunks : List Chunk) (m : Nat) (d : Dir) :
    Prop :=
  ∃ d', (readdirMachine utf8).run d (List.replicate ((allEntries chunks).length - m + 1) ()) =
    some (d', ((listing utf8 chunks).drop m).map some ++ [none])

variable {utf8 : List UInt16 → Option (List UInt8)}

/-! ## Calls that return an entry -/

theorem scans_zero {d d' : Dir} : Scans utf8 d 0 d' ↔ d' = d := by
  constructor
  · rintro ⟨os, hrun⟩
    exact (congrArg Prod.fst (Option.some.inj hrun)).symm
  · rintro rfl
    exact ⟨[], rfl⟩

theorem scans_succ {d d' : Dir} {n : Nat} (h : Scans utf8 d (n + 1) d') :
    ∃ d₁ entry, doReaddir utf8 d = some (d₁, some entry) ∧ Scans utf8 d₁ n d' := by
  obtain ⟨os, hrun⟩ := h
  rw [List.replicate_succ, Machine.run] at hrun
  split at hrun
  · contradiction
  · next d₁ o hstep =>
    obtain ⟨⟨d₂, os'⟩, hrest, hr⟩ := Option.map_eq_some_iff.mp hrun
    cases os with
    | nil => cases hr
    | cons entry os =>
      cases hr
      exact ⟨d₁, entry, hstep, os, hrest⟩

/-- What holds from one call to the next, holds of a scan. -/
theorem Scans.invariant {I : Nat → Dir → Prop}
    (hstep : ∀ m d d' entry, I m d → doReaddir utf8 d = some (d', some entry) → I (m + 1) d')
    {d d' : Dir} {m n : Nat} (hI : I m d) (h : Scans utf8 d n d') : I (m + n) d' := by
  induction n generalizing d m with
  | zero =>
    rw [scans_zero.mp h]
    exact hI
  | succ n ih =>
    obtain ⟨d₁, entry, hcall, hrest⟩ := scans_succ h
    have hlast := ih (hstep m d d₁ entry hI hcall) hrest
    rwa [Nat.add_assoc, Nat.add_comm 1 n] at hlast

theorem NullAfter.scans {d d' : Dir} {n k : Nat} (hnull : NullAfter utf8 d k) (h : Scans utf8 d n d') :
    ∃ k', k = n + k' ∧ NullAfter utf8 d' k' := by
  induction n generalizing d k with
  | zero =>
    rw [scans_zero.mp h]
    exact ⟨k, (Nat.zero_add k).symm, hnull⟩
  | succ n ih =>
    obtain ⟨d₁, entry, hcall, hrest⟩ := scans_succ h
    obtain ⟨k₁, rfl, hnull₁⟩ := nullAfter_step hnull hcall
    obtain ⟨k', rfl, hnull'⟩ := ih hnull₁ hrest
    exact ⟨k', by omega, hnull'⟩

theorem Scans.nullAfter {d d' : Dir} {n k : Nat} (h : Scans utf8 d n d') (hnull : NullAfter utf8 d' k) :
    NullAfter utf8 d (n + k) := by
  obtain ⟨os, hrun⟩ := h
  obtain ⟨d₂, os', hlen, hrun'⟩ := hnull
  have hcount := Machine.length_run hrun
  rw [List.length_map, List.length_replicate] at hcount
  refine ⟨d₂, os ++ os', by rw [List.length_append, hcount, hlen], ?_⟩
  rw [Nat.add_assoc, List.replicate_add, Machine.run_append hrun, hrun', Option.map_some,
    List.map_append, List.append_assoc]

theorem Continues.nullAfter {chunks : List Chunk} {m : Nat} {d : Dir} (h : Continues utf8 chunks m d) :
    NullAfter utf8 d ((allEntries chunks).length - m) := by
  obtain ⟨d', hrun⟩ := h
  exact ⟨d', _, by rw [List.length_drop, length_listing], hrun⟩

/-! ## What a call does to the buffer -/

/-- The buffer is the same, or one of those that were pending. The count has grown. -/
structure Moves (d d' : Dir) : Prop where
  count : d.readData < d'.readData
  buffer :
    (d.readData ≠ d.receivedData ∧ d'.pending = d.pending ∧ d'.buffer = d.buffer ∧
      d'.receivedData = d.receivedData) ∨
    ∃ es, es ≠ [] ∧ d'.buffer = layout 0 es ∧ d'.receivedData = information es ∧
      es.length + (allEntries d'.pending).length ≤ (allEntries d.pending).length

theorem Moves.trans {d d' d'' : Dir} (h : Moves d d') (h' : Moves d' d'') : Moves d d'' := by
  refine ⟨h.count.trans h'.count, ?_⟩
  rcases h.buffer with ⟨hne, hpending, hbuffer, hreceived⟩ | ⟨es, hes, hbuffer, hreceived, hle⟩ <;>
    rcases h'.buffer with ⟨hne', hpending', hbuffer', hreceived'⟩ | ⟨es', hes', hbuffer', hreceived', hle'⟩
  · exact .inl ⟨hne, hpending'.trans hpending, hbuffer'.trans hbuffer, hreceived'.trans hreceived⟩
  · exact .inr ⟨es', hes', hbuffer', hreceived', by rwa [hpending] at hle'⟩
  · exact .inr ⟨es, hes, hbuffer'.trans hbuffer, hreceived'.trans hreceived, by rwa [hpending']⟩
  · exact .inr ⟨es', hes', hbuffer', hreceived', by omega⟩

/-- A record that is read moves the count on, and nothing but the offset else. -/
theorem readEntry_moves {d d' : Dir} {entry : Option Dirent} (h : readEntry utf8 d = some (d', entry)) :
    d.readData < d'.readData ∧ d'.pending = d.pending ∧ d'.buffer = d.buffer ∧
      d'.receivedData = d.receivedData := by
  rw [readEntry] at h
  split at h
  · contradiction
  · next info _ =>
    cases h
    refine ⟨?_, rfl, rfl, rfl⟩
    have hpos := info.entry.length_pos
    simp only [toNat_dReclen]
    omega

theorem doReaddir_moves {d d' : Dir} {entry : Dirent} (h : doReaddir utf8 d = some (d', some entry)) :
    Moves d d' := by
  by_cases heq : d.readData = d.receivedData
  · cases hpending : d.pending with
    | nil =>
      rw [doReaddir_last heq hpending] at h
      cases h
    | cons c rest =>
      obtain ⟨d₁, e, es, hes, hpending₁, hreading, hread⟩ := doReaddir_refill utf8 heq hpending
      rw [hread] at h
      obtain ⟨hlt, hpending', hbuffer, hreceived⟩ := readEntry_moves h
      refine ⟨?_, .inr ⟨e :: es, by simp, ?_, ?_, ?_⟩⟩
      · rwa [hreading.count] at hlt
      · rw [hbuffer, hreading.buffer, List.nil_append]
      · rw [hreceived, hreading.received, List.nil_append]
      · rw [hpending', hpending₁, hpending, allEntries_cons, List.length_append, hes]
  · rw [doReaddir_reading heq] at h
    obtain ⟨hlt, hrest⟩ := readEntry_moves h
    exact ⟨hlt, .inl ⟨heq, hrest⟩⟩

theorem Scans.moves {d d' : Dir} {n : Nat} (h : Scans utf8 d (n + 1) d') : Moves d d' := by
  induction n generalizing d with
  | zero =>
    obtain ⟨d₁, entry, hcall, hrest⟩ := scans_succ h
    rw [scans_zero.mp hrest]
    exact doReaddir_moves hcall
  | succ n ih =>
    obtain ⟨d₁, entry, hcall, hrest⟩ := scans_succ h
    exact (doReaddir_moves hcall).trans (ih hrest)

/-! ## Where a scan is -/

/-- Where a scan is after `m` calls, if there are `total` entries. -/
inductive Position (total m : Nat) (d : Dir) : Prop where
  /-- A buffer is to be fetched. -/
  | between (count : d.readData = d.receivedData) (offset : d.offset ≤ d.readData)
      (left : m + (allEntries d.pending).length ≤ total)
  /-- The record of `e` is next. -/
  | inside (base : Nat) (done : List Entry) (e : Entry) (todo : List Entry)
      (reading : Reading d base done e todo)
      (left : m + (e :: todo).length + (allEntries d.pending).length ≤ total)
  /-- The buffer is never left. -/
  | stuck (base : Nat) (es : List Entry) (e : Entry) (finished : Finished d base es e) (ahead : 0 < base)

theorem position_fresh (chunks : List Chunk) :
    Position (allEntries chunks).length 0 (.fresh chunks) :=
  .between rfl (Nat.le_refl 0) (Nat.le_of_eq (Nat.zero_add _))

theorem Reading.position {total m base : Nat} {d d' : Dir} {done todo : List Entry} {e : Entry}
    {entry : Option Dirent} (h : Reading d base done e todo)
    (hleft : m + (e :: todo).length + (allEntries d.pending).length ≤ total)
    (hread : readEntry utf8 d = some (d', entry)) : Position total (m + 1) d' := by
  obtain ⟨d₁, hentry, hpending, hnext⟩ := readEntry_reading utf8 h
  cases hread.symm.trans hentry
  rw [List.length_cons] at hleft
  cases todo with
  | nil =>
    obtain ⟨hfinished, hcount⟩ := hnext
    rcases Nat.eq_zero_or_pos base with rfl | hbase
    · rw [Nat.zero_add] at hcount
      refine .between (hcount.trans hfinished.received.symm) ?_ (by rw [hpending]; omega)
      rw [hcount, hfinished.offset]
      exact Nat.le_of_lt (spans_lt_information done e [])
    · exact .stuck base done e hfinished hbase
  | cons e' todo => exact .inside base (done ++ [e]) e' todo hnext (by rw [hpending]; omega)

theorem Position.step {total m : Nat} {d d' : Dir} {entry : Dirent} (h : Position total m d)
    (hcall : doReaddir utf8 d = some (d', some entry)) : Position total (m + 1) d' := by
  -- the next buffer, once this one is used up
  have hrefill (heq : d.readData = d.receivedData) (hleft : m + (allEntries d.pending).length ≤ total) :
      Position total (m + 1) d' := by
    cases hpending : d.pending with
    | nil =>
      rw [doReaddir_last heq hpending] at hcall
      cases hcall
    | cons c rest =>
      obtain ⟨d₁, e, es, hes, hpending₁, hreading, hread⟩ := doReaddir_refill utf8 heq hpending
      rw [hpending, allEntries_cons, List.length_append, hes] at hleft
      refine hreading.position ?_ (hread.symm.trans hcall)
      rw [hpending₁]
      omega
  cases h with
  | between hcount _ hleft => exact hrefill hcount hleft
  | inside base done e todo hreading hleft =>
    by_cases heq : d.readData = d.receivedData
    · exact hrefill heq (by omega)
    · exact hreading.position hleft ((doReaddir_reading heq).symm.trans hcall)
  | stuck base es e hfinished hbase =>
    obtain ⟨d₁, entry₁, hcall₁, hfinished₁⟩ := doReaddir_finished utf8 hfinished hbase
    cases hcall.symm.trans hcall₁
    exact .stuck base es e hfinished₁ hbase

theorem Scans.position {chunks : List Chunk} {d : Dir} {m : Nat} (h : Scans utf8 (.fresh chunks) m d) :
    Position (allEntries chunks).length m d := by
  have hlast := h.invariant (I := Position (allEntries chunks).length)
    (fun m d d' entry hI hcall => hI.step hcall) (position_fresh chunks)
  rwa [Nat.zero_add] at hlast

theorem Finished.scans {base n : Nat} {d d' : Dir} {es : List Entry} {e : Entry}
    (h : Finished d base es e) (hbase : 0 < base) (hscans : Scans utf8 d n d') :
    Finished d' base es e := by
  refine hscans.invariant (I := fun _ d => Finished d base es e) ?_ (m := 0) h
  intro m d d' entry hfinished hcall
  obtain ⟨d₁, entry₁, hcall₁, hfinished₁⟩ := doReaddir_finished utf8 hfinished hbase
  cases hcall.symm.trans hcall₁
  exact hfinished₁

/-! ## Going back -/

/-- Where the count is ahead of the offset, the entries from here on are not all returned. -/
theorem Reading.nullAfter_lt {base k : Nat} {d : Dir} {done todo : List Entry} {e : Entry}
    (h : Reading d base done e todo) (hbase : 0 < base) (hnull : NullAfter utf8 d k) :
    k < (e :: todo).length + (allEntries d.pending).length := by
  by_cases heq : d.readData = d.receivedData
  · have hle := nullAfter_late rfl (by rw [h.count]; omega) heq hnull
    rw [List.length_cons]
    omega
  · exact nullAfter_reading h hbase (doReaddir_reading heq)
      (fun d' k hpending hpos heq' hnull' => by
        rw [← hpending]
        exact nullAfter_late rfl hpos heq' hnull') hnull

/-- An offset with a record is the start of one. -/
theorem exists_of_recordAt {start offset : Nat} {es : List Entry} {info : DirInformation}
    (h : recordAt (layout start es) offset = some info) :
    ∃ done e todo, es = done ++ e :: todo ∧ offset = start + spans done := by
  induction es generalizing start with
  | nil => cases h
  | cons e es ih =>
    by_cases hhere : start = offset
    · exact ⟨[], e, es, rfl, hhere.symm⟩
    · rw [layout, recordAt, List.find?_cons_of_neg (by simpa using hhere)] at h
      obtain ⟨done, e', todo, rfl, hoffset⟩ := ih h
      exact ⟨e :: done, e', todo, rfl, by rw [hoffset, spans_cons, Nat.add_assoc]⟩

/-- The offset of another buffer, put into this one. -/
theorem nullAfter_elsewhere {k : Nat} {d : Dir} {es : List Entry} (hes : es ≠ [])
    (hbuffer : d.buffer = layout 0 es) (hreceived : d.receivedData = information es)
    (hlt : d.offset < d.readData) (hnull : NullAfter utf8 d k) :
    k < es.length + (allEntries d.pending).length := by
  cases hrecord : recordAt d.buffer d.offset with
  | some info =>
    rw [hbuffer] at hrecord
    obtain ⟨done, e, todo, rfl, hoffset⟩ := exists_of_recordAt hrecord
    rw [Nat.zero_add] at hoffset
    have hreading : Reading d (d.readData - spans done) done e todo :=
      ⟨hbuffer, hreceived, hoffset, by omega⟩
    have hbound := hreading.nullAfter_lt (by omega) hnull
    rw [List.length_append]
    omega
  | none =>
    have hpos := List.length_pos_iff.mpr hes
    by_cases heq : d.readData = d.receivedData
    · have hle := nullAfter_late rfl (by omega) heq hnull
      omega
    · -- there is no record to read
      have hfault : doReaddir utf8 d = none := by rw [doReaddir_reading heq, readEntry, hrecord]
      obtain ⟨d', os, -, hrun⟩ := hnull
      simp only [List.replicate_succ, Machine.run, readdirMachine, hfault] at hrun
      cases hrun

/-- Once something has been read, going back does not bring back what followed. -/
theorem not_continues {chunks : List Chunk} {m n : Nat} {d d' : Dir}
    (hpoint : Scans utf8 (.fresh chunks) m d) (hfurther : Scans utf8 d (n + 1) d') :
    ¬ Continues utf8 chunks m (seekdir (telldir d) d') := by
  intro hcontinues
  have hnull := hcontinues.nullAfter
  have hmoves := hfurther.moves
  have hcount := hmoves.count
  cases hpoint.position with
  | stuck base es e hfinished hbase =>
    have hfinished' := hfinished.scans hbase hfurther
    have hback : Finished (seekdir (telldir d) d') base es e :=
      ⟨hfinished'.buffer, hfinished'.received, hfinished.offset, hfinished'.count⟩
    exact not_nullAfter_finished hback hbase _ hnull
  | between heq hoffset hleft =>
    rcases hmoves.buffer with ⟨hne, -⟩ | ⟨es, hes, hbuffer, hreceived, hle⟩
    · exact hne heq
    · have hlt := nullAfter_elsewhere (d := seekdir (telldir d) d') hes hbuffer hreceived
        (Nat.lt_of_le_of_lt hoffset hcount) hnull
      change _ < es.length + (allEntries d'.pending).length at hlt
      omega
  | inside base done e todo hreading hleft =>
    rcases hmoves.buffer with ⟨-, hpending, hbuffer, hreceived⟩ | ⟨es, hes, hbuffer, hreceived, hle⟩
    · have hback : Reading (seekdir (telldir d) d') (d'.readData - spans done) done e todo :=
        ⟨hbuffer.trans hreading.buffer, hreceived.trans hreading.received, hreading.offset, by
          have := hreading.count
          change d'.readData = _
          omega⟩
      have hlt := hback.nullAfter_lt (by have := hreading.count; omega) hnull
      change _ < (e :: todo).length + (allEntries d'.pending).length at hlt
      rw [hpending] at hlt
      omega
    · have hoffset : d.offset ≤ d.readData := by
        rw [hreading.offset, hreading.count]
        omega
      have hlt := nullAfter_elsewhere (d := seekdir (telldir d) d') hes hbuffer hreceived
        (Nat.lt_of_le_of_lt hoffset hcount) hnull
      change _ < es.length + (allEntries d'.pending).length at hlt
      omega

/-- A fresh stream over more than one buffer returns NULL too soon, or never. -/
theorem nullAfter_fresh_lt {c c' : Chunk} {rest : List Chunk} {k : Nat}
    (hnull : NullAfter utf8 (.fresh (c :: c' :: rest)) k) : k < (allEntries (c :: c' :: rest)).length := by
  obtain ⟨d, hrun, hpending, hpos, heq⟩ := run_first utf8 c (c' :: rest)
  obtain ⟨k', rfl, hnull'⟩ := hnull.scans ⟨_, hrun⟩
  have hlt := nullAfter_late_lt hpending hpos heq hnull'
  rw [allEntries_cons, List.length_append]
  omega

/-- A scan of a directory in one buffer goes on as it should. -/
theorem continues_of_delivers {chunks : List Chunk} {m : Nat} {d : Dir} (h : Delivers utf8 chunks)
    (hpoint : Scans utf8 (.fresh chunks) m d) : Continues utf8 chunks m d := by
  obtain ⟨d', hrun⟩ := h
  have hnull : NullAfter utf8 (.fresh chunks) (allEntries chunks).length :=
    ⟨d', listing utf8 chunks, length_listing chunks, hrun⟩
  obtain ⟨k, hk, -⟩ := hnull.scans hpoint
  obtain ⟨os, hfirst⟩ := hpoint
  have hcount := Machine.length_run hfirst
  rw [List.length_map, List.length_replicate] at hcount
  rw [hk, Nat.add_assoc, List.replicate_add, Machine.run_append hfirst] at hrun
  obtain ⟨⟨d₂, os₂⟩, hrest, hr⟩ := Option.map_eq_some_iff.mp hrun
  have hos : os.map some ++ os₂ = (listing utf8 chunks).map some ++ [none] := (Prod.mk.inj hr).2
  refine ⟨d₂, ?_⟩
  rw [hk, Nat.add_sub_cancel_left, hrest]
  have hlast := congrArg (List.drop m) hos
  rw [List.drop_left' (by rw [List.length_map, hcount])] at hlast
  rw [hlast, List.drop_append_of_le_length (by rw [List.length_map, length_listing]; omega), List.map_drop]

/-- **Going back in a directory.** After `n` more calls, seeking to where the scan was returns the entries
behind it, each once, and then NULL, if and only if `n` is 0 and the directory comes in one buffer. -/
theorem seekdir_continues_iff (utf8 : List UInt16 → Option (List UInt8)) {chunks : List Chunk} {m n : Nat}
    {d d' : Dir} (hpoint : Scans utf8 (.fresh chunks) m d) (hfurther : Scans utf8 d n d') :
    Continues utf8 chunks m (seekdir (telldir d) d') ↔ n = 0 ∧ chunks.length ≤ 1 := by
  cases n with
  | succ n => exact ⟨fun h => absurd h (not_continues hpoint hfurther), fun h => absurd h.1 (Nat.succ_ne_zero n)⟩
  | zero =>
    rw [scans_zero.mp hfurther]
    change Continues utf8 chunks m d ↔ _
    constructor
    · intro h
      refine ⟨rfl, ?_⟩
      match chunks with
      | [] => exact Nat.zero_le 1
      | [c] => exact Nat.le_refl 1
      | c :: c' :: rest =>
        have hlt := nullAfter_fresh_lt (hpoint.nullAfter h.nullAfter)
        omega
    · rintro ⟨-, hone⟩
      exact continues_of_delivers ((readdir_delivers_iff utf8 chunks).mpr hone) hpoint

theorem short_a : fileNameOffset + 2 * ([0x61] : List UInt16).length < 2 ^ 16 := by decide

theorem short_b : fileNameOffset + 2 * ([0x62] : List UInt16).length < 2 ^ 16 := by decide

/-- A directory with the files `a` and `b` in one buffer. -/
def oneChunk : List Chunk :=
  [⟨[⟨1, 0x20, [0x61], short_a⟩, ⟨2, 0x20, [0x62], short_b⟩], List.cons_ne_nil _ _, by decide⟩]

/-- Seeking behind `a` when nothing else has been read. -/
theorem seekdir_continues_idle :
    ∃ d, Scans asciiName (.fresh oneChunk) 1 d ∧ Continues asciiName oneChunk 1 (seekdir (telldir d) d) := by
  refine ⟨_, ⟨[_], rfl⟩, ?_⟩
  exact (seekdir_continues_iff asciiName ⟨[_], rfl⟩ ⟨[], rfl⟩).mpr ⟨rfl, by decide⟩

/-- Behind `a`, `b` is read and sought again: the next call returns NULL. -/
theorem not_seekdir_continues :
    ∃ d d', Scans asciiName (.fresh oneChunk) 1 d ∧ Scans asciiName d 1 d' ∧
      ¬ Continues asciiName oneChunk 1 (seekdir (telldir d) d') := by
  refine ⟨_, _, ⟨[_], rfl⟩, ⟨[_], rfl⟩, ?_⟩
  rintro ⟨d, hrun⟩
  have hfirst := congrArg (Option.map fun r => r.2.head?) hrun
  simp only [Option.map_some] at hfirst
  revert hfirst
  decide

end WindowsLibc.Directory
