import WindowsLibc.Path.Coalesce

/-!
# What the coalescing loop computes

The loop keeps, below the device, exactly the stack that `Marks.keep` describes on the components of
the rest of the buffer (`coalesce_spec`). From there:

* `coalesce_contained`: whatever the buffer is, the path stays below its device.
* `coalesce_normalises_iff`: it is the normalised path exactly when the path climbs back to the
  device after every blank component. The loop pushes a blank component like a name, so a `..`
  behind a doubled separator removes the blank one and not a name.
-/

namespace WindowsLibc.Path

open WindowsLibc.Lib

/-! ## Components of a text -/

/-- `.`, `..` and the empty component. -/
def marks : Marks (List WChar) where
  here := [dot]
  parent := [dot, dot]
  blank := []
  blank_ne_here := by decide
  blank_ne_parent := by decide
  here_ne_parent := by decide

/-- The components of what follows the device. -/
def components : List WChar → List (List WChar)
  | [] => []
  | _ :: text => text.splitOn backslash

/-- Units of a component: neither a separator nor a terminator. -/
def Clean (c : List WChar) : Prop := backslash ∉ c ∧ 0 ∉ c

theorem clean_splitOn {text : List WChar} (h0 : 0 ∉ text) :
    ∀ c ∈ text.splitOn backslash, Clean c :=
  fun _ hc => ⟨not_mem_of_mem_splitOn hc, fun hin => h0 (mem_of_mem_splitOn hc hin)⟩

/-! ## The array of components -/

/-- The array is there, its size is the global's, and `index` is inside. -/
structure Sound (s : Components) : Prop where
  size_pos : 0 < s.size
  array : ∃ a, s.array = some a ∧ a.length = s.size
  index_le : s.index ≤ s.size

theorem texts_length {s : Components} (h : Sound s) (buffer : List WChar) :
    (s.texts buffer).length = s.index := by
  obtain ⟨a, ha, hlen⟩ := h.array
  rw [Components.texts, ha, Option.getD_some, List.length_map, List.length_take, hlen]
  exact Nat.min_eq_left h.index_le

/-- Pushing, on an array of the right size. -/
theorem push_spec {a : List PathComponent} {size index : Nat} (hlen : a.length = size)
    (hindex : index < size) (buffer : List WChar) (p : PathComponent) :
    Sound ⟨some (a.set index p), size, index + 1⟩ ∧
      Components.texts buffer ⟨some (a.set index p), size, index + 1⟩ =
        (a.take index).map (PathComponent.text buffer) ++ [p.text buffer] := by
  refine ⟨⟨Nat.zero_lt_of_lt hindex, ⟨_, rfl, by rw [List.length_set, hlen]⟩, hindex⟩, ?_⟩
  have htake : (a.set index p).take (index + 1) = a.take index ++ [p] := by
    rw [List.take_succ_eq_append_getElem (by rw [List.length_set]; omega), List.getElem_set_self,
      List.take_set_of_le (Nat.le_refl index)]
  simp only [Components.texts, Option.getD_some, htake, List.map_append, List.map_singleton]

theorem addComponent_spec (heap : Nat → PathComponent) {s : Components} (h : Sound s)
    (buffer : List WChar) (start length : Nat) :
    ∃ s', addComponent (some heap) s start length = .ok s' ∧ Sound s' ∧
      s'.texts buffer = s.texts buffer ++ [PathComponent.text buffer ⟨start, length⟩] := by
  obtain ⟨a, ha, hlen⟩ := h.array
  have hpos := h.size_pos
  have hle := h.index_le
  have htexts : s.texts buffer = (a.take s.index).map (PathComponent.text buffer) := by
    rw [Components.texts, ha]
    rfl
  by_cases hfull : s.index = s.size
  · -- The array doubles.
    have hlen' : (a ++ (List.range' s.size s.size).map heap).length = s.size * 2 := by
      rw [List.length_append, hlen, List.length_map, List.length_range']
      omega
    obtain ⟨hs', ht'⟩ := push_spec hlen' (show s.index < s.size * 2 by omega) buffer
      ⟨start, length⟩
    refine ⟨_, ?_, hs', ?_⟩
    · have hin : s.index < (a ++ (List.range' s.size s.size).map heap).length := by omega
      simp only [addComponent, allocate, ha, bind, Except.bind, if_pos hfull, if_pos hin]
    · rw [ht', htexts, List.take_append_of_le_length (by omega)]
  · obtain ⟨hs', ht'⟩ := push_spec hlen (show s.index < s.size by omega) buffer ⟨start, length⟩
    refine ⟨_, ?_, hs', by rw [ht', htexts]⟩
    have hin : s.index < a.length := by omega
    simp only [addComponent, allocate, ha, bind, Except.bind, if_neg hfull, if_pos hin]

/-- The first push allocates the array. -/
theorem addComponent_first (heap : Nat → PathComponent) {size : Nat} (hsize : 0 < size)
    (buffer : List WChar) (start length : Nat) :
    ∃ s', addComponent (some heap) ⟨none, size, 0⟩ start length = .ok s' ∧ Sound s' ∧
      s'.texts buffer = [PathComponent.text buffer ⟨start, length⟩] := by
  have hlen : ((List.range size).map heap).length = size := by
    rw [List.length_map, List.length_range]
  obtain ⟨hs', ht'⟩ := push_spec hlen hsize buffer ⟨start, length⟩
  refine ⟨_, ?_, hs', ht'⟩
  have hin : 0 < ((List.range size).map heap).length := by omega
  simp only [addComponent, allocate, bind, Except.bind, if_neg (Nat.ne_of_lt hsize), if_pos hin]

/-! ## One component -/

/-- The text between two offsets of the buffer. -/
theorem text_between {pre c post buffer : List WChar} (hb : buffer = pre ++ (c ++ post)) :
    PathComponent.text buffer ⟨pre.length, c.length * 2⟩ = c := by
  rw [PathComponent.text, hb, List.drop_left, Nat.mul_div_cancel _ (by decide), List.take_left]

theorem matchesAt_between {pre c post buffer : List WChar} (hb : buffer = pre ++ (c ++ post))
    (text : List WChar) (hlen : c.length = text.length) :
    matchesAt buffer pre.length text = true ↔ c = text := by
  rw [matchesAt, hb, List.drop_left, ← hlen, List.take_left, beq_iff_eq]

/-- The loop body does to the components below the device what `Marks.keep` does. -/
theorem coalesceComponent_spec (heap : Nat → PathComponent) {s : Components} (h : Sound s)
    {buffer pre c post : List WChar} (hb : buffer = pre ++ (c ++ post)) {dev : List WChar}
    {stack : List (List WChar)} (ht : s.texts buffer = dev :: stack) :
    ∃ s', coalesceComponent (some heap) buffer s pre.length (pre.length + c.length) = .ok s' ∧
      Sound s' ∧ s'.texts buffer = dev :: marks.keep stack c := by
  have hi : pre.length + c.length - pre.length = c.length := Nat.add_sub_cancel_left ..
  have hpush : c ≠ marks.parent → c ≠ marks.here →
      ∃ s', addComponent (some heap) s pre.length (c.length * 2) = .ok s' ∧ Sound s' ∧
        s'.texts buffer = dev :: marks.keep stack c := by
    intro hparent hhere
    obtain ⟨s', hadd, hs', ht'⟩ := addComponent_spec heap h buffer pre.length (c.length * 2)
    refine ⟨s', hadd, hs', ?_⟩
    rw [ht', ht, text_between hb, Marks.keep, if_neg hparent, if_neg hhere, List.cons_append]
  have hlen := texts_length h buffer
  rw [ht, List.length_cons] at hlen
  have hdotdot : (c.length = 2 ∧ matchesAt buffer pre.length [dot, dot] = true) ↔
      c = marks.parent := by
    constructor
    · rintro ⟨hc, hm⟩
      exact (matchesAt_between hb [dot, dot] hc).mp hm
    · rintro rfl
      exact ⟨rfl, (matchesAt_between hb [dot, dot] rfl).mpr rfl⟩
  have hdot : (c.length = 1 ∧ matchesAt buffer pre.length [dot] = true) ↔ c = marks.here := by
    constructor
    · rintro ⟨hc, hm⟩
      exact (matchesAt_between hb [dot] hc).mp hm
    · rintro rfl
      exact ⟨rfl, (matchesAt_between hb [dot] rfl).mpr rfl⟩
  simp only [coalesceComponent, hi, hdotdot, hdot]
  by_cases hparent : c = marks.parent
  · -- The index never falls below the device's.
    have hshort : ¬ c.length > 2 := by rw [hparent]; decide
    rw [if_neg hshort, if_pos hparent, Marks.keep, if_pos hparent]
    have hindex : max (s.index - 1) 1 = stack.dropLast.length + 1 := by
      rw [List.length_dropLast]
      omega
    refine ⟨_, rfl, ⟨h.size_pos, h.array, ?_⟩, ?_⟩
    · have := h.index_le
      have := h.size_pos
      simp only
      omega
    · have htake : Components.texts buffer { s with index := max (s.index - 1) 1 } =
          (s.texts buffer).take (max (s.index - 1) 1) := by
        simp only [Components.texts, List.map_take, List.take_take]
        congr 1
        omega
      rw [htake, ht, hindex, List.take_succ_cons, List.dropLast_eq_take, List.length_take,
        List.take_eq_take_min]
      congr 2
      omega
  · by_cases hhere : c = marks.here
    · have hshort : ¬ c.length > 2 := by rw [hhere]; decide
      rw [if_neg hshort, if_neg hparent, if_pos hhere, Marks.keep, if_neg hparent, if_pos hhere]
      exact ⟨s, rfl, h, ht⟩
    · rw [if_neg hparent, if_neg hhere, ite_self]
      exact hpush hparent hhere

/-! ## The loop -/

/-- Units that end no component are passed over. -/
theorem coalesceFrom_skip (heap : Heap) (buffer : List WChar) {c : List WChar} (hc : Clean c)
    (rest : List WChar) (i start : Nat) (s : Components) :
    coalesceFrom heap buffer (c ++ rest) i start s =
      coalesceFrom heap buffer rest (i + c.length) start s := by
  induction c generalizing i with
  | nil => rfl
  | cons x c ih =>
    have hx : ¬ (x = backslash ∨ x = 0) := by
      rintro (rfl | rfl)
      · exact hc.1 List.mem_cons_self
      · exact hc.2 List.mem_cons_self
    have hc' : Clean c := ⟨fun h => hc.1 (List.mem_cons_of_mem x h),
      fun h => hc.2 (List.mem_cons_of_mem x h)⟩
    rw [List.cons_append, coalesceFrom, if_neg hx, ih hc', List.length_cons]
    congr 1
    omega

/-- The loop over components that are joined by separators and ended by the terminator. -/
theorem coalesceFrom_components (heap : Nat → PathComponent) (buffer tail : List WChar)
    {cs : List (List WChar)} (hcs : ∀ c ∈ cs, Clean c) (hne : cs ≠ []) {pre : List WChar}
    (hb : buffer = pre ++ ([backslash].intercalate cs ++ 0 :: tail)) {s : Components}
    (h : Sound s) {dev : List WChar} {stack : List (List WChar)}
    (ht : s.texts buffer = dev :: stack) :
    ∃ s', coalesceFrom (some heap) buffer ([backslash].intercalate cs ++ 0 :: tail) pre.length
        pre.length s = .ok s' ∧ Sound s' ∧ s'.texts buffer = dev :: cs.foldl marks.keep stack := by
  induction cs generalizing pre s stack with
  | nil => exact absurd rfl hne
  | cons c cs ih =>
    have hc := hcs c List.mem_cons_self
    -- The last component ends at the terminator, every other one at a separator.
    cases cs with
    | nil =>
      rw [List.intercalate_singleton] at hb ⊢
      obtain ⟨s', hstep, hs', ht'⟩ := coalesceComponent_spec heap h hb ht
      refine ⟨s', ?_, hs', ht'⟩
      rw [coalesceFrom_skip _ _ hc, coalesceFrom, if_pos (Or.inr rfl), hstep]
      rfl
    | cons d ds =>
      rw [List.intercalate_cons_cons, List.append_assoc, List.append_assoc] at hb ⊢
      obtain ⟨s₁, hstep, hs₁, ht₁⟩ := coalesceComponent_spec heap h hb ht
      have hb' : buffer = (pre ++ (c ++ [backslash])) ++
          ([backslash].intercalate (d :: ds) ++ 0 :: tail) := by
        rw [hb]
        simp only [List.append_assoc]
      obtain ⟨s', hrest, hs', ht'⟩ := ih (fun e he => hcs e (List.mem_cons_of_mem c he))
        (List.cons_ne_nil d ds) hb' hs₁ ht₁
      refine ⟨s', ?_, hs', ht'⟩
      have hlen : (pre ++ (c ++ [backslash])).length = pre.length + c.length + 1 := by
        simp only [List.length_append, List.length_singleton]
        omega
      rw [hlen] at hrest
      rw [coalesceFrom_skip _ _ hc, List.singleton_append, coalesceFrom, if_pos (Or.inl rfl), hstep]
      exact hrest

/-- A buffer is the device, then nothing or a separator and more. -/
structure Buffer where
  /-- `NAME` of `\Device\NAME`. -/
  name : List WChar
  below : List WChar
  name_clean : Clean name
  below_no_zero : 0 ∉ below
  below_start : below = [] ∨ below.head? = some backslash

def Buffer.device (b : Buffer) : List WChar := devicePrefix ++ b.name

/-- `ntpath_buffer`, with its terminator. -/
def Buffer.units (b : Buffer) : List WChar := b.device ++ b.below ++ [0]

/-- **The loop keeps the device and, below it, what `Marks.kept` does.** -/
theorem coalesce_spec (heap : Nat → PathComponent) (doublings : Nat) (b : Buffer) :
    ∃ s, coalesce (some heap) (16 * 2 ^ doublings) b.units = .ok s ∧
      s.texts b.units = b.device :: marks.kept (components b.below) := by
  generalize hsizeEq : 16 * 2 ^ doublings = size
  have hsize : 0 < size := hsizeEq ▸ Nat.mul_pos (by decide) (Nat.two_pow_pos doublings)
  have hdevice : b.device.length = 8 + b.name.length := List.length_append
  have hskip : ∀ rest, coalesceFrom (some heap) b.units (b.name ++ rest) 8 0 ⟨none, size, 0⟩ =
      coalesceFrom (some heap) b.units rest b.device.length 0 ⟨none, size, 0⟩ := by
    intro rest
    rw [coalesceFrom_skip _ _ b.name_clean, hdevice]
  -- The loop starts at unit 8, behind `\Device\`, with the first component starting at 0.
  have hdrop : b.units.drop 8 = b.name ++ (b.below ++ [0]) := by
    simp only [Buffer.units, Buffer.device, List.append_assoc]
    exact List.drop_left' rfl
  have hpush : coalesceComponent (some heap) b.units ⟨none, size, 0⟩ 0 b.device.length =
      addComponent (some heap) ⟨none, size, 0⟩ 0 (b.device.length * 2) := by
    rw [coalesceComponent, Nat.sub_zero, if_pos (by omega)]
  obtain ⟨s₁, hadd, hs₁, ht₁⟩ := addComponent_first heap hsize b.units 0 (b.device.length * 2)
  have htext : PathComponent.text b.units ⟨0, b.device.length * 2⟩ = b.device := by
    have hb : b.units = [] ++ (b.device ++ (b.below ++ [0])) := by
      simp only [Buffer.units, List.append_assoc, List.nil_append]
    exact text_between hb
  rw [htext] at ht₁
  rw [coalesce, hdrop, hskip]
  cases hbelow : b.below with
  | nil =>
    -- A bare device: the terminator ends it.
    refine ⟨s₁, ?_, ht₁⟩
    rw [List.nil_append, coalesceFrom, if_pos (Or.inr rfl), hpush, hadd]
    rfl
  | cons x text =>
    have hx : x = backslash := by
      rcases b.below_start with hnil | hhead
      · rw [hbelow] at hnil
        cases hnil
      · rw [hbelow] at hhead
        exact Option.some.inj hhead
    have h0 : 0 ∉ text := by
      intro h
      exact b.below_no_zero (hbelow ▸ List.mem_cons_of_mem x h)
    have hunits : b.units = (b.device ++ [backslash]) ++
        ([backslash].intercalate (text.splitOn backslash) ++ 0 :: []) := by
      rw [List.intercalate_splitOn, Buffer.units, hbelow, hx]
      simp only [List.append_assoc, List.cons_append, List.nil_append]
    obtain ⟨s', hrest, _, ht'⟩ := coalesceFrom_components heap b.units [] (clean_splitOn h0)
      (List.splitOn_ne_nil backslash text) hunits hs₁ ht₁
    refine ⟨s', ?_, ht'⟩
    rw [List.intercalate_splitOn, List.length_append, List.length_singleton] at hrest
    rw [hx, List.cons_append, coalesceFrom, if_pos (Or.inl rfl), hpush, hadd]
    exact hrest

/-! ## The path that is returned -/

/-- The components joined by separators; a bare volume gets a trailing one. -/
def joined (texts : List (List WChar)) : List WChar :=
  [backslash].intercalate texts ++ if texts.length = 1 then [backslash] else []

/-- Appending, as long as `Length` does not wrap. -/
theorem append_spec {u : UnicodeString} (hu : u.length.toNat = 2 * u.buffer.length)
    (units : List WChar) (hfit : 2 * (u.buffer.length + units.length) < 2 ^ 16) :
    (u.append units).buffer = u.buffer ++ units ∧
      (u.append units).length.toNat = 2 * (u.append units).buffer.length := by
  have hhalf : u.length.toNat / 2 = u.buffer.length := by omega
  have hbuf : (u.append units).buffer = u.buffer ++ units := by
    rw [UnicodeString.append, hhalf, overwrite_length]
  refine ⟨hbuf, ?_⟩
  rw [hbuf, List.length_append, UnicodeString.append]
  simp only [UInt16.toNat_add, UInt16.toNat_ofNat', hu]
  omega

theorem assembleFrom_spec (texts : List (List WChar)) {u : UnicodeString}
    (hu : u.length.toNat = 2 * u.buffer.length)
    (hfit : 2 * (u.buffer.length + ([backslash].intercalate texts).length) < 2 ^ 16) :
    (assembleFrom u texts).buffer = u.buffer ++ [backslash].intercalate texts ∧
      (assembleFrom u texts).length.toNat = 2 * (assembleFrom u texts).buffer.length := by
  induction texts generalizing u with
  | nil => exact ⟨(List.append_nil _).symm, hu⟩
  | cons c cs ih =>
    cases cs with
    | nil =>
      rw [List.intercalate_singleton] at hfit ⊢
      exact append_spec hu c hfit
    | cons d ds =>
      rw [List.intercalate_cons_cons] at hfit ⊢
      simp only [List.length_append, List.length_singleton] at hfit
      -- Two appends, the component and its separator, keep `Length` at twice the units.
      obtain ⟨hb₁, hl₁⟩ := append_spec hu c (by omega)
      obtain ⟨hb₂, hl₂⟩ := append_spec hl₁ [backslash]
        (by rw [hb₁, List.length_append, List.length_singleton]; omega)
      have hrest := ih hl₂ (by
        rw [hb₂, hb₁, List.length_append, List.length_append, List.length_singleton]
        omega)
      rw [hb₂, hb₁] at hrest
      rw [assembleFrom]
      · simpa only [List.append_assoc] using hrest
      · exact List.cons_ne_nil d ds

/-- The copy is the joined path, as long as its length in bytes is a `USHORT`. -/
theorem assemble_eq {texts : List (List WChar)} (hfit : 2 * (joined texts).length < 2 ^ 16) :
    assemble texts = joined texts := by
  have hstart : (⟨[], 0⟩ : UnicodeString).length.toNat = 2 * ([] : List WChar).length := rfl
  have hwhole : ∀ u : UnicodeString, u.length.toNat = 2 * u.buffer.length →
      u.buffer.take (u.length.toNat / 2) = u.buffer := by
    intro u hu
    rw [hu, Nat.mul_div_cancel_left _ (by decide), List.take_length]
  rw [joined, List.length_append] at hfit
  obtain ⟨hbuf, hlen⟩ := assembleFrom_spec texts hstart (by rw [List.length_nil]; omega)
  rw [List.nil_append] at hbuf
  simp only [assemble, joined]
  by_cases hone : texts.length = 1
  · rw [if_pos hone, List.length_singleton] at hfit
    obtain ⟨hbuf', hlen'⟩ := append_spec hlen [backslash]
      (by rw [hbuf, List.length_singleton]; omega)
    rw [if_pos hone, if_pos hone, hwhole _ hlen', hbuf', hbuf]
  · rw [if_neg hone, if_neg hone, hwhole _ hlen, hbuf, List.append_nil]

/-! ## Containment -/

/-- The path `out` stays below the device of the buffer. -/
structure Contained (b : Buffer) (out : List WChar) : Prop where
  device : b.device <+: out
  no_dots : ∀ c ∈ components (out.drop b.device.length), c ≠ [dot] ∧ c ≠ [dot, dot]
  from_input : (components (out.drop b.device.length)).Sublist (components b.below) ∨
    out = b.device ++ [backslash]
  length_le : out.length ≤ (b.device ++ b.below).length + 1

theorem joined_cons (dev : List WChar) {cs : List (List WChar)} (hcs : cs ≠ []) :
    joined (dev :: cs) = dev ++ backslash :: [backslash].intercalate cs := by
  obtain ⟨c, cs, rfl⟩ := List.exists_cons_of_ne_nil hcs
  rw [joined, if_neg (by simp), List.append_nil, List.intercalate_cons_cons, List.append_assoc]
  rfl

theorem length_intercalate {cs : List (List WChar)} (hcs : cs ≠ []) :
    ([backslash].intercalate cs).length + 1 = (cs.map (fun c => c.length + 1)).sum := by
  induction cs with
  | nil => exact absurd rfl hcs
  | cons c cs ih =>
    cases cs with
    | nil => rw [List.intercalate_singleton, List.map_singleton, List.sum_singleton]
    | cons d ds =>
      have ih := ih (List.cons_ne_nil d ds)
      rw [List.intercalate_cons_cons, List.map_cons, List.sum_cons, ← ih]
      simp only [List.length_append, List.length_singleton]
      omega

/-- A path made of some components of another is no longer than it. -/
theorem length_intercalate_le {cs ds : List (List WChar)} (hcs : cs ≠ []) (h : cs.Sublist ds) :
    ([backslash].intercalate cs).length ≤ ([backslash].intercalate ds).length := by
  have hds : ds ≠ [] := fun hnil => hcs (List.sublist_nil.mp (hnil ▸ h))
  have hsum : (cs.map (fun c => c.length + 1)).sum ≤ (ds.map (fun c => c.length + 1)).sum := by
    -- The sums are monotone over the sublist, also when nothing is left of it.
    clear hcs hds
    induction h with
    | slnil => exact Nat.le_refl _
    | cons a h ih =>
      rw [List.map_cons, List.sum_cons]
      exact Nat.le_add_left_of_le ih
    | cons_cons a h ih =>
      rw [List.map_cons, List.map_cons, List.sum_cons, List.sum_cons]
      exact Nat.add_le_add_left ih _
  have hlc := length_intercalate hcs
  have hld := length_intercalate hds
  omega

theorem joined_contained (b : Buffer) {cs : List (List WChar)}
    (hsub : cs.Sublist (components b.below)) (hdots : [dot] ∉ cs ∧ [dot, dot] ∉ cs) :
    Contained b (joined (b.device :: cs)) := by
  by_cases hne : cs = []
  · subst hne
    have hout : joined [b.device] = b.device ++ [backslash] := by
      rw [joined, List.intercalate_singleton]
      rfl
    rw [hout]
    refine ⟨List.prefix_append _ _, ?_, Or.inr rfl, ?_⟩
    · intro c hc
      rw [List.drop_left] at hc
      have hc' : c = [] := List.mem_singleton.mp hc
      rw [hc']
      exact ⟨marks.blank_ne_here, marks.blank_ne_parent⟩
    · simp only [List.length_append, List.length_singleton]
      omega
  · cases hbelow : b.below with
    | nil =>
      rw [hbelow] at hsub
      exact absurd (List.sublist_nil.mp hsub) hne
    | cons x text =>
      have h0 : 0 ∉ text := fun h => b.below_no_zero (hbelow ▸ List.mem_cons_of_mem x h)
      rw [hbelow] at hsub
      have hclean : ∀ c ∈ cs, backslash ∉ c := fun c hc => (clean_splitOn h0 c (hsub.subset hc)).1
      -- Splitting the built path gives back the components it was joined from.
      have hback : components (backslash :: [backslash].intercalate cs) = cs :=
        List.splitOn_intercalate backslash hclean hne
      have hlen := length_intercalate_le hne hsub
      rw [components, List.intercalate_splitOn] at hlen
      rw [joined_cons b.device hne]
      refine ⟨List.prefix_append _ _, ?_, ?_, ?_⟩
      · intro c hc
        rw [List.drop_left, hback] at hc
        exact ⟨fun h => hdots.1 (h ▸ hc), fun h => hdots.2 (h ▸ hc)⟩
      · rw [List.drop_left, hback, hbelow]
        exact Or.inl hsub
      · rw [hbelow]
        simp only [List.length_append, List.length_cons]
        omega

/-- **Containment.** Whatever follows the device, the path that is built stays below it.
Earlier calls have doubled `path_components_size` some number of times; a buffer of more than 65535
bytes cannot be asked for. -/
theorem coalesce_contained (heap : Nat → PathComponent) (doublings : Nat) (b : Buffer) :
    ∃ s, coalesce (some heap) (16 * 2 ^ doublings) b.units = .ok s ∧
      Contained b (joined (s.texts b.units)) ∧
      (2 * b.units.length < 2 ^ 16 → assemble (s.texts b.units) = joined (s.texts b.units)) := by
  obtain ⟨s, hs, ht⟩ := coalesce_spec heap doublings b
  have hcontained : Contained b (joined (s.texts b.units)) := by
    rw [ht]
    exact joined_contained b (marks.kept_sublist _) (marks.mark_not_mem_kept _)
  refine ⟨s, hs, hcontained, ?_⟩
  intro hfit
  apply assemble_eq
  have hle := hcontained.length_le
  rw [Buffer.units, List.length_append, List.length_singleton] at hfit
  omega

/-! ## Normalisation -/

/-- The path ends with a separator. -/
def endsBlank (cs : List (List WChar)) : Bool := cs.getLast? == some []

/-- The components without the one behind a trailing separator. -/
def interior (cs : List (List WChar)) : List (List WChar) :=
  if endsBlank cs then cs.dropLast else cs

/-- The normalised path: the device, the names that are left, and a trailing separator where there
was one. -/
def normalised (device below : List WChar) : List (List WChar) :=
  device :: (marks.resolved (components below) ++ if endsBlank (components below) then [[]] else [])

theorem kept_eq_normalised_iff (device below : List WChar) :
    device :: marks.kept (components below) = normalised device below ↔
      marks.Climbs (interior (components below)) := by
  generalize hcs : components below = cs
  rw [normalised, hcs, List.cons_inj_right, ← marks.kept_eq_resolved_iff]
  rcases List.eq_nil_or_concat cs with rfl | ⟨ds, c, rfl⟩
  · exact iff_of_true rfl rfl
  · rw [List.concat_eq_append]
    by_cases hc : c = []
    · have hends : endsBlank (ds ++ [c]) = true := by simp [endsBlank, hc]
      have hblank : c = marks.blank := hc
      have hkeep : marks.keep (marks.kept ds) c = marks.kept ds ++ [[]] := by
        rw [hblank, Marks.keep, if_neg marks.blank_ne_parent, if_neg marks.blank_ne_here]
        rfl
      -- A trailing separator is kept by both, so the comparison is about the components before it.
      rw [interior, if_pos hends, if_pos hends, List.dropLast_concat, Marks.kept_concat,
        Marks.resolved_concat, hkeep, Marks.resolve, if_pos hblank, List.append_left_inj]
    · have hends : ¬ endsBlank (ds ++ [c]) = true := by simp [endsBlank, hc]
      rw [interior, if_neg hends, if_neg hends, List.append_nil]

/-- What follows the device in the buffer. -/
def Located.below : Located → List WChar
  | .absolute path => backslashed path
  | .relative rootdir path =>
    rootdir ++ (if rootdir.getLast? = some backslash then [] else [backslash]) ++ backslashed path

/-- No unit is a terminator, and what is appended to the device begins with a separator. -/
def Located.WellFormed : Located → Prop
  | .absolute path =>
    0 ∉ path ∧ (path = [] ∨ path.head? = some 47 ∨ path.head? = some backslash)
  | .relative rootdir path =>
    0 ∉ rootdir ∧ 0 ∉ path ∧ (rootdir = [] ∨ rootdir.head? = some backslash)

theorem zero_not_mem_backslashed {path : List WChar} (h : 0 ∉ path) : 0 ∉ backslashed path := by
  intro hin
  obtain ⟨c, hc, heq⟩ := List.mem_map.mp hin
  split at heq
  · exact absurd heq (by decide)
  · exact h (heq ▸ hc)

theorem Located.WellFormed.below_no_zero {loc : Located} (h : loc.WellFormed) : 0 ∉ loc.below := by
  cases loc with
  | absolute path => exact zero_not_mem_backslashed h.1
  | relative rootdir path =>
    simp only [Located.below, List.mem_append, not_or]
    refine ⟨⟨h.1, ?_⟩, zero_not_mem_backslashed h.2.1⟩
    split <;> decide

theorem Located.WellFormed.below_start {loc : Located} (h : loc.WellFormed) :
    loc.below = [] ∨ loc.below.head? = some backslash := by
  cases loc with
  | absolute path =>
    rcases h.2 with rfl | hhead
    · exact Or.inl rfl
    · right
      rw [Located.below, backslashed, List.head?_map]
      rcases hhead with hhead | hhead <;> rw [hhead] <;> rfl
  | relative rootdir path =>
    right
    rcases h.2.2 with rfl | hhead
    · rfl
    · obtain ⟨x, rest, rfl⟩ := List.exists_cons_of_ne_nil (fun hnil : rootdir = [] => by
        rw [hnil] at hhead
        cases hhead)
      exact hhead

/-- The separator between the root directory and the path does not depend on the device. -/
theorem ntpathBuffer_eq {device : List WChar} (hdev : device.getLast? ≠ some backslash)
    (loc : Located) : ntpathBuffer device loc = device ++ loc.below := by
  cases loc with
  | absolute path => rfl
  | relative rootdir path =>
    have hlast : (device ++ rootdir).getLast? = some backslash ↔
        rootdir.getLast? = some backslash := by
      rw [List.getLast?_append]
      cases rootdir.getLast? with
      | none => simpa using hdev
      | some c => simp
    simp only [ntpathBuffer, Located.below, hlast, List.append_assoc]

/-- **The loop normalises a path exactly when the path climbs back to the device after every blank
component that is not the last.** -/
theorem coalesce_normalises_iff (heap : Nat → PathComponent) (doublings : Nat) {name : List WChar}
    (hname : Clean name) (hne : name ≠ []) (loc : Located) (hloc : loc.WellFormed) :
    ∃ s, coalesce (some heap) (16 * 2 ^ doublings)
        (ntpathBuffer (devicePrefix ++ name) loc ++ [0]) = .ok s ∧
      (s.texts (ntpathBuffer (devicePrefix ++ name) loc ++ [0]) =
          normalised (devicePrefix ++ name) loc.below ↔
        marks.Climbs (interior (components loc.below))) := by
  let b : Buffer := ⟨name, loc.below, hname, hloc.below_no_zero, hloc.below_start⟩
  have hlast : (devicePrefix ++ name).getLast? ≠ some backslash := by
    rw [List.getLast?_append, List.getLast?_eq_some_getLast hne, Option.some_or]
    intro h
    exact hname.1 (Option.some.inj h ▸ List.getLast_mem hne)
  have hunits : ntpathBuffer (devicePrefix ++ name) loc ++ [0] = b.units := by
    rw [ntpathBuffer_eq hlast]
    rfl
  obtain ⟨s, hs, ht⟩ := coalesce_spec heap doublings b
  refine ⟨s, hunits ▸ hs, ?_⟩
  rw [hunits, ht]
  exact kept_eq_normalised_iff b.device b.below

/-- `HarddiskVolume1`. -/
def harddiskVolume1 : List WChar :=
  [72, 97, 114, 100, 100, 105, 115, 107, 86, 111, 108, 117, 109, 101, 49]

theorem clean_harddiskVolume1 : Clean harddiskVolume1 := ⟨by decide, by decide⟩

/-- `C:/a/../b/`, without a blank component but the last. -/
theorem volume_normalised :
    ∃ s, coalesce (some fun _ => ⟨0, 0⟩) (16 * 2 ^ 0)
        (ntpathBuffer (devicePrefix ++ harddiskVolume1)
          (.absolute [47, 97, 47, 46, 46, 47, 98, 47]) ++ [0]) = .ok s ∧
      s.texts (ntpathBuffer (devicePrefix ++ harddiskVolume1)
          (.absolute [47, 97, 47, 46, 46, 47, 98, 47]) ++ [0]) =
        normalised (devicePrefix ++ harddiskVolume1)
          (Located.absolute [47, 97, 47, 46, 46, 47, 98, 47]).below := by
  obtain ⟨s, hs, hiff⟩ := coalesce_normalises_iff (fun _ => ⟨0, 0⟩) 0 clean_harddiskVolume1
    (by decide) (.absolute [47, 97, 47, 46, 46, 47, 98, 47]) ⟨by decide, by decide⟩
  refine ⟨s, hs, hiff.mpr ?_⟩
  intro pre suf h
  have hin : marks.blank ∈ interior (components
      (Located.absolute [47, 97, 47, 46, 46, 47, 98, 47]).below) := h ▸ by simp
  exact absurd hin (by decide)

/-- `C:/a//../b`: the `..` removes the blank component and leaves `a`. -/
theorem volume_not_normalised :
    Clean harddiskVolume1 ∧ (Located.absolute [47, 97, 47, 47, 46, 46, 47, 98]).WellFormed ∧
      ∃ s, coalesce (some fun _ => ⟨0, 0⟩) 16
          (ntpathBuffer (devicePrefix ++ harddiskVolume1)
            (.absolute [47, 97, 47, 47, 46, 46, 47, 98]) ++ [0]) = .ok s ∧
        s.texts (ntpathBuffer (devicePrefix ++ harddiskVolume1)
            (.absolute [47, 97, 47, 47, 46, 46, 47, 98]) ++ [0]) =
          [devicePrefix ++ harddiskVolume1, [97], [98]] ∧
        s.texts (ntpathBuffer (devicePrefix ++ harddiskVolume1)
            (.absolute [47, 97, 47, 47, 46, 46, 47, 98]) ++ [0]) ≠
          normalised (devicePrefix ++ harddiskVolume1)
            (Located.absolute [47, 97, 47, 47, 46, 46, 47, 98]).below :=
  ⟨clean_harddiskVolume1, ⟨by decide, by decide⟩, ⟨_, rfl, by decide, by decide⟩⟩

end WindowsLibc.Path
