import WindowsLibc.Acl.Packed

/-!
# The growth of access control lists

Where entries find room, every call leads from a packed list to a packed list. A list grows to twice the space
of its entries, which does not count the header and is recorded in 16 bits: from none or one entry, and from
432 entries on, this is less than one more entry needs. A list for more entries than can be recorded starts
without a header.

`right_iff_roomy`: along a run, the lists are as they should be exactly if every new entry finds room.
-/

namespace WindowsLibc.Acl

open WindowsLibc.Lib

/-! ## Packed lists -/

namespace Packed

variable {p : Packed}

theorem roomFor_iff : RoomFor p.header.size p.header.count ↔
    76 ≤ p.free.length ∨ 2 ≤ p.entries.length ∧ 152 * p.entries.length < 65536 := by
  have hsize := p.size_eq
  rw [RoomFor, p.count_eq, hsize]
  simp only [slot]
  omega

theorem create_moves (h : RoomFor p.header.size p.header.count) : ∃ p' : Packed,
    createEntry p.bytes true = some (p'.bytes, .ok (slot p.entries.length)) ∧
      slot p.entries.length + 76 ≤ p'.bytes.length ∧ ∃ e, p'.entries = p.entries ++ [e] := by
  have hfits (q : Packed) {e : List UInt8} (hq : q.entries = p.entries ++ [e]) :
      slot p.entries.length + 76 ≤ q.bytes.length := by
    have hle := q.slot_le
    rw [hq, List.length_append, List.length_singleton] at hle
    rw [q.length_bytes]
    simp only [slot] at hle ⊢
    omega
  by_cases hspace : 76 ≤ p.free.length
  · exact ⟨_, createEntry_of_space hspace, hfits _ rfl, _, rfl⟩
  · have hgrow := (roomFor_iff.mp h).resolve_left hspace
    obtain ⟨_, _, hcreate⟩ := createEntry_of_grow (Nat.lt_of_not_le hspace) hgrow.1 hgrow.2
    exact ⟨_, hcreate, hfits _ rfl, _, rfl⟩

/-- What a call does to a packed list. -/
theorem step_cases (p : Packed) (call : Call) (h : Roomy p.bytes call) :
    (∃ errno, step p.bytes call = some (p.bytes, .failed errno)) ∨
      ∃ (p' : Packed) (outcome : Outcome), step p.bytes call = some (p'.bytes, outcome) ∧
        Moves p'.bytes.length p.entries p'.entries call outcome := by
  cases call with
  | create entry =>
    cases entry with
    | false => exact .inl ⟨_, rfl⟩
    | true =>
      obtain ⟨size, count, hsize, hcount, hroom⟩ := h
      cases hsize.symm.trans p.aclSize_eq
      cases hcount.symm.trans p.aclCount_eq
      obtain ⟨p', hcreate, hle, hentries⟩ := create_moves hroom
      refine .inr ⟨p', .entry (slot p.entries.length), ?_, rfl, hle, hentries⟩
      rw [step, hcreate]
      rfl
  | delete entry =>
    cases entry with
    | none => exact .inl ⟨_, rfl⟩
    | some entry =>
      cases hfound : findEntry p.header.count entry with
      | none =>
        refine .inl ⟨.ESRCH, ?_⟩
        rw [step, deleteEntry_of_none hfound]
        rfl
      | some k =>
        obtain ⟨hk, rfl⟩ := findEntry_eq_some.mp hfound
        rw [p.count_eq] at hk
        refine .inr ⟨p.erase k hk, .done, ?_, k, hk, rfl, rfl⟩
        rw [step, deleteEntry_eq hk]
        rfl
  | copy k source =>
    by_cases hk : k < p.entries.length
    · refine .inr ⟨p.set k source, .done, ?_, rfl⟩
      rw [step, p.aclCount_eq, Option.bind_eq_bind, Option.bind_some, p.count_eq, if_pos hk, copyEntry_eq hk]
      rfl
    · refine .inl ⟨.EINVAL, ?_⟩
      rw [step, p.aclCount_eq, Option.bind_eq_bind, Option.bind_some, p.count_eq, if_neg hk]
      rfl

theorem right_of_roomy (call : Call) (h : Roomy p.bytes call) : Right p.bytes call := by
  rcases step_cases p call h with ⟨errno, hstep⟩ | ⟨p', outcome, hstep, hmoves⟩
  · exact ⟨_, _, hstep, .inl ⟨errno, rfl⟩⟩
  · exact ⟨_, _, hstep, .inr ⟨_, _, _, p'.aclSize_eq, p.entriesOf_eq, p'.entriesOf_eq, p'.slot_le, hmoves⟩⟩

end Packed

/-! ## No room -/

theorem length_store16 {block block' : List UInt8} {off : Nat} {word : UInt16}
    (h : store16 block off word = some block') : block'.length = block.length := length_poke h

/-- A word elsewhere is not changed. -/
theorem load16_store16 {block block' : List UInt8} {off off' : Nat} {word : UInt16}
    (h : store16 block off word = some block') (hdisjoint : off' + 2 ≤ off ∨ off + 2 ≤ off') :
    load16 block' off' = load16 block off' := by
  rw [load16, load16, peek_poke_disjoint h (by rw [length_leBytes]; exact hdisjoint)]

theorem countEntry_cases {acl acl' : List UInt8} {used : Nat} (h : countEntry acl used = some acl') :
    acl'.length = acl.length ∧ (8 ≤ used → aclSize acl' = aclSize acl) := by
  obtain ⟨acl₁, hstore, h⟩ := Option.bind_eq_some_iff.mp h
  obtain ⟨count, _, hcount⟩ := Option.bind_eq_some_iff.mp h
  refine ⟨(length_store16 hcount).trans (length_store16 hstore), fun hused => ?_⟩
  rw [aclSize, load16_store16 hcount (.inl (Nat.le_refl 4)), load16_store16 hstore (.inl (by omega))]
  rfl

/-- An entry that is created: the list that is counted on has grown or was left as it is. -/
theorem createEntry_cases {acl acl' : List UInt8} {r : Except Errno Nat}
    (h : createEntry acl true = some (acl', r)) : ∃ size count acl₁, aclSize acl = some size ∧
      aclCount acl = some count ∧ countEntry acl₁ (usedSize count).toNat = some acl' ∧
      r = .ok (usedSize count).toNat ∧
      (NeedsSpace size (usedSize count) ∧ acl₁.length = (allocatedSize count).toNat ∨
        ¬ NeedsSpace size (usedSize count) ∧ acl₁ = acl) := by
  simp only [createEntry, Bool.not_true, Bool.false_eq_true, if_false] at h
  obtain ⟨size, hsize, h⟩ := Option.bind_eq_some_iff.mp h
  obtain ⟨count, hcount, h⟩ := Option.bind_eq_some_iff.mp h
  by_cases hspace : NeedsSpace size (usedSize count)
  · simp only [if_pos hspace] at h
    obtain ⟨acl₁, hmore, h⟩ := Option.bind_eq_some_iff.mp h
    obtain ⟨acl₂, hentry, h⟩ := Option.bind_eq_some_iff.mp h
    cases h
    have hlength := length_store16 hmore
    rw [reallocateZeroed, List.length_append, List.length_take, List.length_replicate] at hlength
    exact ⟨size, count, acl₁, hsize, hcount, hentry, rfl, .inl ⟨hspace, by omega⟩⟩
  · simp only [if_neg hspace] at h
    obtain ⟨_, hsame, h⟩ := Option.bind_eq_some_iff.mp h
    cases hsame
    obtain ⟨acl₂, hentry, h⟩ := Option.bind_eq_some_iff.mp h
    cases h
    exact ⟨size, count, acl, hsize, hcount, hentry, rfl, .inr ⟨hspace, rfl⟩⟩

/-- The space for twice the entries of a full list is too small for one more. -/
theorem Packed.not_right {p : Packed} (h : ¬ RoomFor p.header.size p.header.count) :
    ¬ Right p.bytes (.create true) := by
  rintro ⟨acl', outcome, hstep, hright⟩
  obtain ⟨⟨acl₂, r⟩, hcreate, heq⟩ := Option.map_eq_some_iff.mp hstep
  cases heq
  obtain ⟨size, count, acl₁, hsize, hcount, hentry, rfl, hmore⟩ := createEntry_cases hcreate
  cases hsize.symm.trans p.aclSize_eq
  cases hcount.symm.trans p.aclCount_eq
  rw [Packed.roomFor_iff] at h
  rw [p.needsSpace_iff] at hmore
  have hgrown : acl₁.length = (allocatedSize p.header.count).toNat := by
    rcases hmore with ⟨_, hgrown⟩ | ⟨hnot, _⟩
    · exact hgrown
    · exact absurd (Or.inl (Nat.le_of_not_lt hnot)) h
  rcases hright with ⟨errno, hfailed⟩ | ⟨_, es, _, _, hes, _, _, hoffset, hin, _⟩
  · cases hfailed
  · cases hes.symm.trans p.entriesOf_eq
    have hlt := p.length_lt
    rw [hoffset] at hin
    change slot p.entries.length + 76 ≤ acl₂.length at hin
    rw [(countEntry_cases hentry).1, hgrown, allocatedSize, UInt16.toNat_ofNat', p.count_eq] at hin
    simp only [slot] at hin
    rcases Nat.lt_or_ge (76 * p.entries.length * 2) 65536 with hsmall | hlarge
    · rw [Nat.mod_eq_of_lt hsmall] at hin
      omega
    · rw [Nat.mod_eq_sub_mod hlarge, Nat.mod_eq_of_lt (by omega)] at hin
      omega

/-! ## Lists without a header -/

theorem load16_zero {n off : Nat} (h : off + 2 ≤ n) : load16 (List.replicate n 0) off = some 0 := by
  rw [load16, peek, if_pos (by rwa [List.length_replicate]), List.drop_replicate, List.take_replicate,
    Nat.min_eq_left (by omega)]
  rfl

theorem load16_zero_eq {n off : Nat} {word : UInt16} (h : load16 (List.replicate n 0) off = some word) :
    word = 0 := by
  by_cases hle : off + 2 ≤ n
  · exact (Option.some.inj (h.symm.trans (load16_zero hle)))
  · rw [load16, peek, if_neg (by rwa [List.length_replicate])] at h
    cases h

theorem not_roomFor_zero : ¬ RoomFor 0 0 := by decide

theorem not_right_zero (n : Nat) : ¬ Right (List.replicate n 0) (.create true) := by
  rintro ⟨acl', outcome, hstep, hright⟩
  obtain ⟨⟨acl₂, r⟩, hcreate, heq⟩ := Option.map_eq_some_iff.mp hstep
  cases heq
  obtain ⟨size, count, acl₁, hsize, hcount, hentry, rfl, hmore⟩ := createEntry_cases hcreate
  cases load16_zero_eq hsize
  cases load16_zero_eq hcount
  have hsame : acl₁ = List.replicate n 0 := by
    rcases hmore with ⟨hspace, _⟩ | ⟨_, hsame⟩
    · exact absurd hspace (by decide)
    · exact hsame
  rcases hright with ⟨errno, hfailed⟩ | ⟨size', es, es', hsize', _, _, hle, _⟩
  · cases hfailed
  · rw [(countEntry_cases hentry).2 (by decide), hsame, hsize] at hsize'
    cases hsize'
    simp only [slot, UInt16.toNat_zero] at hle
    omega

/-- Calls that create nothing leave a list without a header as it is. -/
theorem step_zero {n : Nat} {call : Call} (hcall : call ≠ .create true)
    (h : Roomy (List.replicate n 0) call) :
    ∃ errno, step (List.replicate n 0) call = some (List.replicate n 0, .failed errno) := by
  cases call with
  | create entry =>
    cases entry with
    | false => exact ⟨_, rfl⟩
    | true => exact absurd rfl hcall
  | delete entry =>
    cases entry with
    | none => exact ⟨_, rfl⟩
    | some entry =>
      obtain ⟨count, hcount⟩ := h
      cases load16_zero_eq hcount
      refine ⟨.ESRCH, ?_⟩
      rw [step, deleteEntry, hcount]
      rfl
  | copy k source =>
    obtain ⟨count, hcount⟩ := h
    cases load16_zero_eq hcount
    refine ⟨.EINVAL, ?_⟩
    rw [step, hcount, Option.bind_eq_bind, Option.bind_some, UInt16.toNat_zero, if_neg (Nat.not_lt_zero k)]
    rfl

/-- A call that needs the count finds it. -/
theorem roomy_of_right {acl : List UInt8} {call : Call} (hcall : call ≠ .create true)
    (h : Right acl call) : Roomy acl call := by
  obtain ⟨acl', outcome, hstep, _⟩ := h
  cases call with
  | create entry =>
    cases entry with
    | false => exact trivial
    | true => exact absurd rfl hcall
  | delete entry =>
    cases entry with
    | none => exact trivial
    | some entry =>
      obtain ⟨r, hdelete, _⟩ := Option.map_eq_some_iff.mp hstep
      obtain ⟨count, hcount, _⟩ := Option.bind_eq_some_iff.mp hdelete
      exact ⟨count, hcount⟩
  | copy k source =>
    obtain ⟨count, hcount, _⟩ := Option.bind_eq_some_iff.mp hstep
    exact ⟨count, hcount⟩

/-! ## Runs -/

/-- The lists that calls lead to: packed, or still as they were allocated. -/
def Reached (acl : List UInt8) : Prop := (∃ p : Packed, acl = p.bytes) ∨ ∃ n, acl = List.replicate n 0

theorem Reached.right_iff {acl : List UInt8} (h : Reached acl) (call : Call) :
    Right acl call ↔ Roomy acl call := by
  by_cases hcall : call = .create true
  · subst hcall
    rcases h with ⟨p, rfl⟩ | ⟨n, rfl⟩
    · refine ⟨fun hright => ?_, Packed.right_of_roomy _⟩
      by_contra hroomy
      refine Packed.not_right (fun hroom => hroomy ?_) hright
      exact ⟨_, _, p.aclSize_eq, p.aclCount_eq, hroom⟩
    · refine ⟨fun hright => absurd hright (not_right_zero n), ?_⟩
      rintro ⟨size, count, hsize, hcount, hroom⟩
      cases load16_zero_eq hsize
      cases load16_zero_eq hcount
      exact absurd hroom not_roomFor_zero
  · refine ⟨roomy_of_right hcall, fun hroomy => ?_⟩
    rcases h with ⟨p, rfl⟩ | ⟨n, rfl⟩
    · exact Packed.right_of_roomy call hroomy
    · obtain ⟨errno, hstep⟩ := step_zero hcall hroomy
      exact ⟨_, _, hstep, .inl ⟨errno, rfl⟩⟩

/-- A call that finds room leads on to such a list. -/
theorem Reached.step {acl acl' : List UInt8} {call : Call} {outcome : Outcome} (h : Reached acl)
    (hroomy : Roomy acl call) (hstep : step acl call = some (acl', outcome)) : Reached acl' := by
  rcases h with ⟨p, rfl⟩ | ⟨n, rfl⟩
  · rcases Packed.step_cases p call hroomy with ⟨_, hsame⟩ | ⟨p', _, hmoved, _⟩
    · cases hstep.symm.trans hsame
      exact .inl ⟨p, rfl⟩
    · cases hstep.symm.trans hmoved
      exact .inl ⟨p', rfl⟩
  · have hcall : call ≠ .create true := by
      rintro rfl
      obtain ⟨size, count, hsize, hcount, hroom⟩ := hroomy
      cases load16_zero_eq hsize
      cases load16_zero_eq hcount
      exact not_roomFor_zero hroom
    obtain ⟨_, hsame⟩ := step_zero hcall hroomy
    cases hstep.symm.trans hsame
    exact .inr ⟨n, rfl⟩

variable {rtlCreateAcl : List UInt8 → Nat → UInt8 → List UInt8}

/-- An empty list of which the header tells the truth, or what was allocated. -/
theorem reached_aclInit (hcreate : CreatesAcl rtlCreateAcl) {count : Int} {acl : List UInt8}
    (h : aclInit rtlCreateAcl count = .ok acl) : Reached acl := by
  unfold aclInit at h
  split at h
  · cases h
  · cases h
    generalize hk : (if count ≠ 0 then count.toNat else 1) = k
    by_cases hrefused : (8 + k * 76) % 2 ^ 32 < 8 ∨ 65535 < (8 + k * 76) % 2 ^ 32
    · exact .inr ⟨_, hcreate.refused _ _ _ hrefused⟩
    · generalize hsize : (8 + k * 76) % 2 ^ 32 = size at hrefused ⊢
      have hdvd : 4 ∣ size := by omega
      have hword : (UInt16.ofNat size).toNat = size := by
        rw [UInt16.toNat_ofNat']
        omega
      let p : Packed :=
        { header := ⟨2, 0, UInt16.ofNat size, 0, 0⟩
          entries := []
          free := List.replicate (size - 8) 0
          width := by
            intro e he
            cases he
          count_eq := rfl
          size_eq := by
            rw [hword, List.length_replicate, List.length_nil, slot]
            omega }
      refine .inl ⟨p, ?_⟩
      rw [hcreate.created _ _ _ List.length_replicate (by omega) (by omega) hdvd, List.drop_replicate]
      change _ = [2, 0] ++ leBytes 2 (UInt16.ofNat size).toNat ++ leBytes 2 0 ++ leBytes 2 0 ++
        ([] ++ List.replicate (size - 8) 0)
      rw [hword, List.nil_append]

theorem right_iff_roomy (hcreate : CreatesAcl rtlCreateAcl) {count : Int} {acl : List UInt8}
    (hinit : aclInit rtlCreateAcl count = .ok acl) (calls : List Call) :
    machine.Along Right acl calls ↔ machine.Along Roomy acl calls :=
  Machine.along_iff (fun _ call h => h.right_iff call) (fun _ _ _ _ h hroomy hstep => h.step hroomy hstep)
    calls (reached_aclInit hcreate hinit)

/-! ## Two runs -/

/-- `RtlCreateAcl` as it is documented. -/
def writeHeader (acl : List UInt8) (length : Nat) (revision : UInt8) : List UInt8 :=
  if length < 8 ∨ 65535 < length then acl
  else [revision, 0] ++ leBytes 2 length ++ leBytes 2 0 ++ leBytes 2 0 ++ acl.drop 8

theorem createsAcl_writeHeader : CreatesAcl writeHeader where
  refused _ _ _ h := if_pos h
  created _ _ _ _ hmin hmax _ := if_neg (by omega)

/-- A list for two entries grows when the third one is created. -/
theorem right_grown : ∃ acl, aclInit writeHeader 2 = .ok acl ∧ machine.Along Right acl
    [.create true, .create true, .create true, .delete (some 84), .create true] :=
  ⟨_, rfl, (@right_iff_roomy _ createsAcl_writeHeader 2 _ rfl _).mpr (by decide +kernel)⟩

/-- A list for one entry does not. -/
theorem not_right_grown : ∃ acl, aclInit writeHeader 1 = .ok acl ∧
    ¬ machine.Along Right acl [.create true, .create true] := by
  refine ⟨_, rfl, ?_⟩
  rintro ⟨_, hrest⟩
  obtain ⟨⟨acl', outcome, hstep, hright⟩, _⟩ := hrest _ _ rfl
  cases hstep
  rcases hright with ⟨errno, hfailed⟩ | ⟨_, _, es', _, _, hes', _⟩
  · cases hfailed
  · cases hes'

end WindowsLibc.Acl
