import WindowsLibc.Printf.Loop
import WindowsLibc.Printf.Text

/-!
# Formats that print nothing

Which output is empty can be told from the format, the arguments and the memory they point into. A
byte of the format is printed as it is, so only conversions are left, and of these only a few can be
without text: `%n`, the conversions of decimal floating point, and characters and strings with nothing
to show and no width to fill.

* `Silent` says so of a conversion and `Quiet` of the rest of a format.
* `printArg_silent_iff` and `printfLoop_quiet_iff`: what is written is empty exactly then.
-/

namespace WindowsLibc.Printf

open WindowsLibc.Lib

/-- Nothing is written for the characters of a string: there are none, or they have no encoding. -/
def Blank (mem : Memory) (config : PrintConfig) : Prop :=
  match config.modifier with
  | .long => stringCount mem config = 0 ∨
      (utf16Decode (stringUnit mem config.data 0) (stringUnit mem config.data 2)).2 = 0
  | .longLong => ∀ i < stringCount mem config, 0x10FFFF < stringChar mem config.data (4 * i)
  | _ => stringCount mem config = 0

/-- A conversion without text. -/
def Silent (mem : Memory) (config : PrintConfig) : Prop :=
  match config.type with
  | .char => config.width ≤ 1 ∧ preTemp config = []
  | .string => config.width.toNat ≤ stringCount mem config ∧ Blank mem config
  | .result => True
  | .doubleNormal => True
  | .doubleScientific => True
  | .doubleScientificShort => True
  | .unknown => True
  | _ => False

/-- Nothing but such conversions is left of the format. Nothing is counted for them, and `%n` may
change the memory for those behind it. -/
inductive Quiet : Loop → Prop
  | done {l : Loop} : l.format = [] → Quiet l
  | skip {l : Loop} {config : PrintConfig} {rest : List UInt8} {args : VariadicArgs} :
      l.directive = some (config, rest, args) → Silent l.mem config →
      Quiet (l.behind rest args 0 (stored l.mem config)) → Quiet l

/-! ## Texts that are not empty -/

/-- What an action writes does not depend on how it is cut into strings. -/
theorem emits_unique {α : Type} {x : Output α} {ws vs : List (List UInt8)} {a b : α}
    (h : sink.Emits x ws a) (h' : sink.Emits x vs b) : a = b ∧ ws.flatten = vs.flatten := by
  have hsound := @sound_growing (fun _ => true) (fun _ => rfl)
  have hgrows := grows_growing fun _ => true
  obtain ⟨rfl, hputs⟩ := h.run hsound (h' _ hsound)
  refine ⟨rfl, ?_⟩
  have hws := (contents_puts hgrows hsound ws).1
  have hvs := (contents_puts hgrows hsound vs).1
  rw [hputs, hws] at hvs
  exact List.append_cancel_left hvs

theorem Spaced.ne_nil {inner text : List UInt8} (h : Spaced inner text) (hinner : inner ≠ []) :
    text ≠ [] := by
  obtain ⟨left, right, rfl⟩ := h
  simp [hinner]

theorem digitsFrom_ne_nil {base : Nat} (hbase : 1 < base) {digit : Nat → UInt8} {room x : Nat}
    {temp text : List UInt8} (h : digitsFrom base digit room x temp = some text) : text ≠ [] := by
  rw [digitsFrom_eq hbase h]
  simp [(numeral_digitsOf hbase x).ne_nil]

theorem decFrom_ne_nil {group : Bool} {turns x sep : Nat} {temp text : List UInt8}
    (h : decFrom group turns x sep temp = some text) : text ≠ [] := by
  induction turns generalizing x sep temp with
  | zero => cases h
  | succ turns ih =>
    rw [decFrom] at h
    generalize (if sep = 3 ∧ group = true then 44 :: temp else temp) = temp at h
    split at h
    · cases h
    · split at h
      · exact ih h
      · cases h
        exact List.cons_ne_nil _ _

theorem intToDecCommon_ne_nil {x : Int} {forceSign group : Bool} {text : List UInt8}
    (h : intToDecCommon x forceSign group = some text) : text ≠ [] := by
  rw [intToDecCommon] at h
  split at h
  · cases h
    exact List.cons_ne_nil _ _
  · split at h
    · obtain ⟨digits, -, rfl⟩ := Option.map_eq_some_iff.mp h
      exact List.cons_ne_nil _ _
    · split at h
      · obtain ⟨digits, -, rfl⟩ := Option.map_eq_some_iff.mp h
        exact List.cons_ne_nil _ _
      · exact decFrom_ne_nil h

theorem float64ToHex_ne_nil {upper : Bool} {v : UInt64} {text : List UInt8}
    (h : float64ToHex upper v = some text) : text ≠ [] := by
  simp only [float64ToHex] at h
  split at h
  · cases h
    apply List.append_ne_nil_of_right_ne_nil
    split
    · cases upper <;> decide
    · cases upper <;> decide
  · obtain ⟨digits, -, h⟩ := Option.bind_eq_some_iff.mp h
    obtain ⟨power, -, rfl⟩ := Option.map_eq_some_iff.mp h
    simp

/-- A sign that is taken off is written. -/
theorem takeSign_ne_nil (config : PrintConfig) {temp : List UInt8} (h : temp ≠ []) (zeros : Nat) :
    signText (takeSign config temp).1 ++ (List.replicate zeros 48 ++ (takeSign config temp).2.2) ≠
      [] := by
  fun_cases takeSign config temp
  case case1 => simp [signText]
  case case2 =>
    have hsign : (if config.flags.emptySpace = true then (32 : UInt8) else 43) ≠ 0 := by
      split <;> decide
    simp [signText, hsign]
  case case3 => simp [h]

/-- What is decoded has an encoding. -/
theorem utf8Encode_utf16Decode (high low : UInt16) :
    utf8Encode (utf16Decode high low).2 ≠ [] := by
  rw [Ne, utf8Encode_eq_nil_iff, UInt32.lt_iff_toNat_lt, Nat.not_lt]
  change _ ≤ 0x10FFFF
  rw [utf16Decode]
  split
  · have hhigh := high.toNat_lt
    rw [UInt16.toNat_toUInt32]
    omega
  · split
    · -- two fields of ten bits each
      have hfield : ∀ unit : UInt16, (unit.toUInt32 &&& 0x3FF).toNat < 2 ^ 10 := by
        intro unit
        rw [UInt32.toNat_and]
        exact Nat.lt_of_le_of_lt Nat.and_le_right (by decide)
      have hshift : ((high.toUInt32 &&& 0x3FF) <<< 10).toNat < 2 ^ 20 := by
        have := hfield high
        rw [UInt32.toNat_shiftLeft]
        change (_ <<< 10) % _ < _
        rw [Nat.shiftLeft_eq]
        omega
      have hor := Nat.or_lt_two_pow hshift (Nat.lt_trans (hfield low) (by decide))
      rw [← UInt32.toNat_or] at hor
      rw [UInt32.toNat_add]
      change (_ + 0x10000) % _ ≤ _
      omega
    · exact Nat.zero_le _

/-! ## One conversion -/

theorem emits_writeUtf16_blank (mem : Memory) (data : UInt64) (n : Nat) (result : UInt32) :
    ∃ ws a, sink.Emits (writeUtf16 mem data n n 0 0 result) ws a ∧
      (ws.flatten = [] ↔
        n = 0 ∨ (utf16Decode (stringUnit mem data 0) (stringUnit mem data 2)).2 = 0) := by
  cases n with
  | zero => exact ⟨[], _, Sink.emits_pure _, by simp⟩
  | succ n =>
    simp only [writeUtf16, if_pos (Nat.succ_pos n)]
    split
    · next hzero => exact ⟨[], _, Sink.emits_pure _, by simp [hzero]⟩
    · next hzero =>
      obtain ⟨vs, hvs⟩ := emits_writeUtf16 mem data (n + 1) n
        (if (utf16Decode (stringUnit mem data 0) (stringUnit mem data 2)).1 = 4 then 0 + 2 else 0 + 1)
        (0 + (utf16Decode (stringUnit mem data 0) (stringUnit mem data 2)).1)
      refine ⟨_, _, Sink.emits_bind (emits_writen _) (hvs _), ?_⟩
      simp [hzero, utf8Encode_utf16Decode]

theorem emits_writeUtf32_blank (mem : Memory) (data : UInt64) (n i : Nat) (result : UInt32) :
    ∃ ws a, sink.Emits (writeUtf32 mem data n i result) ws a ∧
      (ws.flatten = [] ↔ ∀ j < n, 0x10FFFF < stringChar mem data (4 * (i + j))) := by
  induction n generalizing i result with
  | zero => exact ⟨[], _, Sink.emits_pure _, by simp⟩
  | succ n ih =>
    obtain ⟨ws, a, hws, hblank⟩ := ih (i + 1)
      (result + UInt32.ofNat (utf8Encode (stringChar mem data (4 * i))).length)
    refine ⟨_, a, Sink.emits_bind (emits_writen _) hws, ?_⟩
    rw [List.flatten_append, List.flatten_singleton, List.append_eq_nil_iff, hblank,
      utf8Encode_eq_nil_iff]
    constructor
    · rintro ⟨hfirst, hrest⟩ j hj
      cases j with
      | zero => exact hfirst
      | succ j =>
        rw [show i + (j + 1) = i + 1 + j by omega]
        exact hrest j (Nat.lt_of_succ_lt_succ hj)
    · intro hall
      refine ⟨hall 0 (Nat.succ_pos n), fun j hj => ?_⟩
      rw [show i + 1 + j = i + (j + 1) by omega]
      exact hall (j + 1) (Nat.succ_lt_succ hj)

theorem emits_writeString_blank (mem : Memory) (config : PrintConfig) (result : UInt32) :
    ∃ ws a, sink.Emits (writeString mem config (stringCount mem config) result) ws a ∧
      (ws.flatten = [] ↔ Blank mem config) := by
  rw [writeString]
  split
  · next hmodifier =>
    simp only [Blank, hmodifier]
    exact emits_writeUtf16_blank mem config.data _ result
  · next hmodifier =>
    obtain ⟨ws, a, hws, hblank⟩ := emits_writeUtf32_blank mem config.data (stringCount mem config) 0
      result
    simp only [Nat.zero_add] at hblank
    simp only [Blank, hmodifier]
    exact ⟨ws, a, hws, hblank⟩
  · next hlong hlongLong =>
    refine ⟨_, _, Sink.emits_bind (emits_writen _) (Sink.emits_pure _), ?_⟩
    cases hmodifier : config.modifier with
    | long => exact absurd hmodifier hlong
    | longLong => exact absurd hmodifier hlongLong
    | _ => simp [Blank, hmodifier]

theorem emits_printString_silent (mem : Memory) (config : PrintConfig) :
    ∃ ws a, sink.Emits (printString mem config) ws a ∧
      (ws.flatten = [] ↔ config.width.toNat ≤ stringCount mem config ∧ Blank mem config) := by
  simp only [printString]
  split
  · obtain ⟨ws, a, hws, hblank⟩ := emits_writeString_blank mem config 0
    refine ⟨_, _, Sink.emits_bind hws (Sink.emits_bind (emits_padTimes 32 _) (Sink.emits_pure _)), ?_⟩
    simp [hblank, Nat.sub_eq_zero_iff_le, and_comm]
  · obtain ⟨ws, a, hws, hblank⟩ := emits_writeString_blank mem config
      (UInt32.ofNat (config.width.toNat - stringCount mem config))
    refine ⟨_, _, Sink.emits_bind (emits_padTimes 32 _) hws, ?_⟩
    simp [hblank, Nat.sub_eq_zero_iff_le]

theorem emits_printChar_silent {config : PrintConfig} (h : CharFits config) :
    ∃ ws a, sink.Emits (printChar config) ws a ∧
      (ws.flatten = [] ↔ config.width ≤ 1 ∧ preTemp config = []) := by
  simp only [printChar]
  split
  · next hwidth =>
    rw [if_neg (Nat.not_lt.mpr (h hwidth))]
    refine ⟨_, _, Sink.emits_bind (emits_writen _) (Sink.emits_pure _), ?_⟩
    have hspaces : (config.width - 1).toNat ≠ 0 := by
      have hle : 1 ≤ config.width := UInt32.le_of_lt hwidth
      rw [UInt32.toNat_sub_of_le _ _ hle]
      exact Nat.sub_ne_zero_of_lt hwidth
    split <;> simp [hspaces, UInt32.not_le.mpr hwidth]
  · next hwidth =>
    refine ⟨_, _, Sink.emits_bind (emits_writen _) (Sink.emits_pure _), ?_⟩
    simp [UInt32.not_lt.mp hwidth]

/-- A conversion that stages its text prints no less. -/
theorem emits_staged_loud {text : Option (List UInt8)} {print : List UInt8 → Output UInt32}
    {inner : List UInt8 → Nat → List UInt8} (htext : text.isSome)
    (hprint : ∀ temp, ∃ zeros, PrintsSpaced (print temp) (inner temp zeros))
    (hinner : ∀ temp zeros, text = some temp → inner temp zeros ≠ []) (mem : Memory) :
    ∃ ws a, sink.Emits (StateT.lift text >>= fun temp => print temp >>= fun result =>
      pure (result, mem)) ws a ∧ ws.flatten ≠ [] := by
  obtain ⟨temp, htemp⟩ := Option.isSome_iff_exists.mp htext
  obtain ⟨zeros, hspaced⟩ := hprint temp
  obtain ⟨ws, hws, htext⟩ := emits_staged_spaced htemp hspaced mem
  exact ⟨ws, _, hws, htext.ne_nil (hinner temp zeros htemp)⟩

/-- Digits in base 2, 8 or 16 are printed whatever comes in front of them. -/
theorem emits_digits_loud {base : Nat} (hbase : 1 < base) {digit : Nat → UInt8} {room x : Nat}
    {temp : List UInt8} {config : PrintConfig}
    (htext : (digitsFrom base digit room x temp).isSome) (mem : Memory) :
    ∃ ws a, sink.Emits (StateT.lift (digitsFrom base digit room x temp) >>= fun temp =>
      printUintFormatted config temp >>= fun result => pure (result, mem)) ws a ∧
        ws.flatten ≠ [] := by
  apply emits_staged_loud htext (printUintFormatted_spaced config)
  intro text zeros htext
  simp [digitsFrom_ne_nil hbase htext]

/-- The conversions of numbers all print something. -/
theorem printArg_loud {mem : Memory} {config : PrintConfig} (h : Staged config)
    (hsilent : ¬ Silent mem config) (hchar : config.type ≠ .char) (hstring : config.type ≠ .string) :
    ∃ ws a, sink.Emits (printArg mem config) ws a ∧ ws.flatten ≠ [] := by
  have huint := uint_lt config
  cases htype : config.type with
  | intNumber =>
    obtain ⟨hlo, hhi⟩ := int_bounds config
    simp only [printArg, htype]
    apply emits_staged_loud (intToDecCommon_isSome hlo hhi _ _) (printIntFormatted_spaced config)
    intro temp zeros htemp
    exact takeSign_ne_nil config (intToDecCommon_ne_nil htemp) zeros
  | uintNumber =>
    simp only [printArg, htype]
    apply emits_staged_loud (uintToDecCommon_isSome huint _) (printIntFormatted_spaced config)
    intro temp zeros htemp
    exact takeSign_ne_nil config (decFrom_ne_nil htemp) zeros
  | uintBinary =>
    simp only [printArg, htype]
    exact emits_digits_loud (by decide) ((uintToBinCommon_isSome_iff _).mpr (h.1 htype)) mem
  | uintOctal =>
    simp only [printArg, htype]
    exact emits_digits_loud (by decide) (uintToOctCommon_isSome huint) mem
  | uintHex =>
    simp only [printArg, htype]
    exact emits_digits_loud (by decide) (uintToHexCommon_isSome huint _) mem
  | doubleHex =>
    obtain ⟨temp, htemp⟩ := Option.isSome_iff_exists.mp
      (float64ToHex_isSome config.flags.upperCase config.data)
    simp only [printArg, htype, htemp]
    refine ⟨_, _, Sink.emits_bind (Sink.emits_lift temp)
      (Sink.emits_bind (emits_writen temp) (Sink.emits_pure _)), ?_⟩
    simp [float64ToHex_ne_nil htemp]
  | pointer =>
    obtain ⟨vs, hvs, hspaced⟩ := printPointer_spaced config
    simp only [printArg, htype]
    refine ⟨_, _, Sink.emits_bind hvs (Sink.emits_pure _), ?_⟩
    rw [List.append_nil]
    exact hspaced.ne_nil (List.cons_ne_nil _ _)
  | char => exact absurd htype hchar
  | string => exact absurd htype hstring
  | result | doubleNormal | doubleScientific | doubleScientificShort | unknown =>
    simp [Silent, htype] at hsilent

/-- **The conversions that print nothing.** -/
theorem printArg_silent_iff {mem : Memory} {config : PrintConfig} {ws : List (List UInt8)}
    {a : UInt32 × Memory} (h : Staged config) (hws : sink.Emits (printArg mem config) ws a) :
    ws.flatten = [] ↔ Silent mem config := by
  -- It is enough to know some strings that are written.
  suffices hsome : ∃ vs b, sink.Emits (printArg mem config) vs b ∧
      (vs.flatten = [] ↔ Silent mem config) by
    obtain ⟨vs, b, hvs, hsilent⟩ := hsome
    rw [(emits_unique hws hvs).2, hsilent]
  cases htype : config.type with
  | char =>
    obtain ⟨vs, b, hvs, hsilent⟩ := emits_printChar_silent (h.2 htype)
    simp only [printArg, Silent, htype]
    refine ⟨_, _, Sink.emits_bind hvs (Sink.emits_pure _), ?_⟩
    rwa [List.append_nil]
  | string =>
    obtain ⟨vs, b, hvs, hsilent⟩ := emits_printString_silent mem config
    simp only [printArg, Silent, htype]
    refine ⟨_, _, Sink.emits_bind hvs (Sink.emits_pure _), ?_⟩
    rwa [List.append_nil]
  | result | doubleNormal | doubleScientific | doubleScientificShort | unknown =>
    simp only [printArg, Silent, htype]
    exact ⟨[], _, Sink.emits_pure _, by simp⟩
  | _ =>
    have hsilent : ¬ Silent mem config := by simp [Silent, htype]
    obtain ⟨vs, b, hvs, hne⟩ := printArg_loud h hsilent (by simp [htype]) (by simp [htype])
    exact ⟨vs, b, hvs, iff_of_false hne hsilent⟩

/-! ## The whole format -/

theorem quiet_iff_of_none {l : Loop} (h : l.directive = none) : Quiet l ↔ l.format = [] := by
  refine ⟨fun hquiet => ?_, .done⟩
  cases hquiet with
  | done hnil => exact hnil
  | skip hdirective _ _ =>
    rw [h] at hdirective
    cases hdirective

theorem quiet_iff_of_directive {l : Loop} {config : PrintConfig} {rest : List UInt8}
    {args : VariadicArgs} (h : l.directive = some (config, rest, args)) :
    Quiet l ↔ Silent l.mem config ∧ Quiet (l.behind rest args 0 (stored l.mem config)) := by
  refine ⟨fun hquiet => ?_, fun ⟨hsilent, hrest⟩ => .skip h hsilent hrest⟩
  cases hquiet with
  | done hnil =>
    rw [Loop.directive, hnil] at h
    cases h
  | skip hdirective hsilent hrest =>
    cases h.symm.trans hdirective
    exact ⟨hsilent, hrest⟩

/-- A turn that is not at a conversion prints something, unless the format has ended. -/
theorem printfIteration_none_loud {l : Loop} {ws : List (List UInt8)} {it : Iteration}
    (h : l.directive = none) (hne : l.format ≠ []) (hws : sink.Emits (printfIteration l) ws it) :
    ws.flatten ≠ [] := by
  have hbyte : ∀ byte it', sink.Emits (printfIteration l) [[byte]] it' → ws.flatten ≠ [] := by
    intro byte it' hemits
    rw [(emits_unique hws hemits).2]
    exact List.cons_ne_nil _ _
  revert hbyte
  clear hws
  fun_cases printfIteration l
  case case1 hnil => exact absurd hnil hne
  case case2 =>
    exact fun hbyte => hbyte 37 _ (Sink.emits_bind (emits_writebyte 37) (Sink.emits_pure _))
  case case3 format _ => exact fun hbyte => hbyte 37 _ (emits_printByte l 37 format)
  case case4 format _ _ _ _ _ _ _ _ => exact fun hbyte => hbyte 37 _ (emits_printByte l 37 format)
  case case5 format hnil hpercent hformat config rest args hparse hknown =>
    rw [directive_of_format hformat hnil hpercent, hparse, if_neg hknown] at h
    cases h
  case case6 byte format _ _ _ _ => exact fun hbyte => hbyte byte _ (emits_printByte l byte format)

/-- A turn of a quiet run writes nothing and goes on with a quiet one, and there is no other such
turn. -/
theorem printfIteration_quiet_iff {l : Loop} (h : l.Staged) :
    ∃ ws it, sink.Emits (printfIteration l) ws it ∧ Follows l ws it ∧
      (Quiet l ↔ ws.flatten = [] ∧ ∀ l', it = .next l' → Quiet l') := by
  obtain ⟨ws, it, hws, hfollows⟩ := printfIteration_emits h
  refine ⟨ws, it, hws, hfollows, ?_⟩
  cases hdirective : l.directive with
  | none =>
    rw [quiet_iff_of_none hdirective]
    by_cases hnil : l.format = []
    · have hdone : sink.Emits (printfIteration l) [] (.done l) := by
        rw [printfIteration, hnil]
        exact Sink.emits_pure _
      obtain ⟨rfl, hflatten⟩ := emits_unique hws hdone
      simp [hnil, hflatten]
    · have hne := printfIteration_none_loud hdirective hnil hws
      simp [hnil, hne]
  | some d =>
    obtain ⟨config, rest, args⟩ := d
    have hstaged := h config rest args hdirective
    obtain ⟨vs, hvs⟩ := printArg_emits l.mem hstaged
    have hsilent := printArg_silent_iff hstaged hvs
    have hnext : sink.Emits (printfIteration l) (vs ++ [])
        (.next (l.behind rest args (count vs) (stored l.mem config))) := by
      rw [(printfIteration_of_directive hdirective).1]
      exact Sink.emits_bind hvs (emits_checkError _)
    obtain ⟨rfl, hflatten⟩ := emits_unique hws hnext
    rw [quiet_iff_of_directive hdirective, hflatten, List.append_nil, ← hsilent]
    -- What prints nothing adds nothing to the count.
    apply and_congr_right
    intro hnil
    have hcount : count vs = 0 := by rw [count, hnil]; rfl
    rw [hcount]
    simp

/-- **The formats that print nothing.** -/
theorem printfLoop_quiet_iff {fuel : Nat} {l : Loop} (hfuel : l.format.length < fuel) {b : Buffer}
    (hb : b.Sound) (h : StagedRun b l) :
    ∃ ws a, sink.Emits (printfLoop fuel l) ws a ∧ (ws.flatten = [] ↔ Quiet l) := by
  induction fuel generalizing l b with
  | zero => exact absurd hfuel (Nat.not_lt_zero _)
  | succ fuel ih =>
    obtain ⟨ws, it, hws, hfollows, hquiet⟩ := printfIteration_quiet_iff (h b l .start)
    cases it with
    | next l' =>
      have hlength := hfollows.length_lt
      have hstep := hws b hb
      obtain ⟨vs, a, hvs, hrest⟩ := ih (show l'.format.length < fuel by omega)
        (sink.sound_puts hb ws) (fun b' l'' hruns => h b' l'' (hruns.head hstep))
      refine ⟨ws ++ vs, a, printfLoop_next hws hvs, ?_⟩
      rw [List.flatten_append, List.append_eq_nil_iff, hrest, hquiet]
      simp
    | done l' =>
      refine ⟨ws ++ [], _, Sink.emits_bind hws (Sink.emits_pure _), ?_⟩
      rw [List.append_nil, hquiet]
      simp
    | failed _ => exact hfollows.elim

end WindowsLibc.Printf
