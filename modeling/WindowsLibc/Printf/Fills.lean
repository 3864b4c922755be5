import WindowsLibc.Printf.Silent

/-!
# How much is printed

What a conversion prints is at least as long as its width, and for an integer as its precision, as
they are as words of 32 bits.

* `layout_fills`: padding writes what is missing, whatever the sums that bound it have wrapped to.
* `printArg_fills` is this of integers, `printPointer_width` of pointers; for a string the spaces are
  counted (`printString_bytes`), since its text may be shorter than it has characters.
-/

namespace WindowsLibc.Printf

open WindowsLibc.Lib

/-- Conversions of integers. -/
def PrintType.isInteger : PrintType → Bool
  | .intNumber | .uintNumber | .uintBinary | .uintOctal | .uintHex => true
  | _ => false

/-- How many bytes are written. -/
def bytes (ws : List (List UInt8)) : Nat := ws.flatten.length

@[simp] theorem bytes_nil : bytes [] = 0 := rfl

@[simp] theorem bytes_append (ws vs : List (List UInt8)) : bytes (ws ++ vs) = bytes ws + bytes vs := by
  rw [bytes, List.flatten_append, List.length_append]
  rfl

@[simp] theorem bytes_singleton (text : List UInt8) : bytes [text] = text.length := by
  rw [bytes, List.flatten_singleton]

@[simp] theorem bytes_replicate (n : Nat) (byte : UInt8) : bytes (List.replicate n [byte]) = n := by
  rw [bytes, List.flatten_replicate_singleton, List.length_replicate]

/-- What is printed is as long as the width and the precision ask. Padding with zeros takes no notice
of the precision. -/
structure Fills (config : PrintConfig) (n : Nat) : Prop where
  width : config.width.toNat ≤ n
  precision : config.flags.zeroPadded = false → config.precision.toNat ≤ n

theorem toNat_add_le (a b : UInt32) : (a + b).toNat ≤ a.toNat + b.toNat := by
  rw [UInt32.toNat_add]
  exact Nat.mod_le _ _

theorem toNat_ofNat_le (n : Nat) : (UInt32.ofNat n).toNat ≤ n := by
  rw [UInt32.toNat_ofNat']
  exact Nat.mod_le _ _

/-- The digits without their separators are no more than the digits. -/
theorem toNat_sub_period_le {size period : UInt32} {n : Nat} (hsize : size = UInt32.ofNat n)
    (hn : n ≠ 0) (hperiod : period = 0 ∨ period = (size - 1) / 3) : (size - period).toNat ≤ n := by
  have hmod : size.toNat = n % 2 ^ 32 := by rw [hsize, UInt32.toNat_ofNat']
  have hlt := (size - period).toNat_lt
  by_cases hzero : size.toNat = 0
  · omega
  · have hle : period ≤ size := by
      rw [UInt32.le_iff_toNat_le]
      rcases hperiod with rfl | rfl
      · exact Nat.zero_le _
      · rw [UInt32.toNat_div, UInt32.toNat_sub_of_le _ _ (by rw [UInt32.le_iff_toNat_le]; show 1 ≤ _; omega)]
        show (size.toNat - 1) / 3 ≤ _
        omega
    rw [UInt32.toNat_sub_of_le _ _ hle]
    omega

theorem toNat_max (a b : UInt32) : (max a b).toNat = max a.toNat b.toNat := by
  change (if a ≤ b then b else a).toNat = _
  split
  · next hle => exact (Nat.max_eq_right (UInt32.le_iff_toNat_le.mp hle)).symm
  · next hnot =>
    rw [UInt32.le_iff_toNat_le] at hnot
    exact (Nat.max_eq_left (Nat.le_of_not_le hnot)).symm

theorem le_max_of_not_gt {width a b : UInt32} (h : ¬ width > max a b) :
    width.toNat ≤ max a.toNat b.toNat := by
  rw [← toNat_max]
  exact Nat.le_of_not_lt fun hlt => h (UInt32.lt_iff_toNat_lt.mpr hlt)

/-- The sum that bounds the padding is no more than what is then printed. -/
theorem toNat_bound_le {precision size period sign : UInt32} {zeros : Nat}
    (hzeros : precision.toNat ≤ zeros + (size - period).toNat) :
    (max precision (size - period) + sign + period).toNat ≤ zeros + size.toNat + sign.toNat := by
  change ((if precision ≤ size - period then size - period else precision) + sign + period).toNat ≤ _
  split
  · rw [show size - period + sign + period = size + sign by grind]
    have hsum := toNat_add_le size sign
    omega
  · next hnot =>
    have hge : size - period ≤ precision := by
      rw [UInt32.le_iff_toNat_le] at hnot ⊢
      omega
    have hsub := UInt32.toNat_sub_of_le _ _ hge
    rw [show precision + sign + period =
      precision - (size - period) + (size + sign) by grind]
    have hsum := toNat_add_le (precision - (size - period)) (size + sign)
    have hsum' := toNat_add_le size sign
    omega

/-- The padding is enough, though the sums may wrap. -/
theorem layout_fills (config : PrintConfig) {extra size period : UInt32} {e n : Nat} (hextra : extra.toNat ≤ e)
    (hsize : size.toNat ≤ n) (hdigits : (size - period).toNat ≤ n) :
    Fills config ((layout config extra size period).left +
      (e + ((layout config extra size period).zeros + n) + (layout config extra size period).right)) := by
  have hzeros := toNat_ofNat_le (config.precision.toNat - (size - period).toNat)
  simp only [layout]
  split
  · have hsum := toNat_add_le (size + UInt32.ofNat (config.precision.toNat - (size - period).toNat)) extra
    have hsum' := toNat_add_le size (UInt32.ofNat (config.precision.toNat - (size - period).toNat))
    exact ⟨by dsimp only; omega, fun _ => by dsimp only; omega⟩
  · split
    · split
      · next hpadded =>
        have hsum := toNat_add_le extra size
        exact ⟨by dsimp only; omega, fun hnot => absurd (hpadded.symm.trans hnot) (by decide)⟩
      · have hbound := @toNat_bound_le config.precision size period extra _ (show config.precision.toNat ≤
          (config.precision.toNat - (size - period).toNat) + (size - period).toNat by omega)
        exact ⟨by dsimp only; omega, fun _ => by dsimp only; omega⟩
    · next hwide =>
      have hmax := le_max_of_not_gt hwide
      exact ⟨by dsimp only; omega, fun _ => by dsimp only; omega⟩

theorem printIntFormatted_fills (config : PrintConfig) (temp : List UInt8)
    (hdigits : (takeSign config temp).2.2 ≠ []) :
    ∃ ws a, sink.Emits (printIntFormatted config temp) ws a ∧ Fills config (bytes ws) := by
  obtain ⟨ws, hws, htext⟩ := printIntFormatted_layout config temp
  refine ⟨ws, _, hws, ?_⟩
  rw [bytes, htext, Layout.length_text]
  refine layout_fills config ?_ (toNat_ofNat_le _)
    (toNat_sub_period_le rfl (fun h => hdigits (List.length_eq_zero_iff.mp h)) ?_)
  · rcases takeSign_spec config temp with ⟨hsign, hone⟩ | ⟨hsign, hzero⟩
    · rw [hone, signText, if_pos hsign]
      exact Nat.le_refl 1
    · rw [hzero]
      exact Nat.zero_le _
  · rw [separators]
    split
    · exact .inr rfl
    · exact .inl rfl

theorem printUintFormatted_fills (config : PrintConfig) (temp : List UInt8) :
    ∃ ws a, sink.Emits (printUintFormatted config temp) ws a ∧ Fills config (bytes ws) := by
  obtain ⟨ws, hws, htext⟩ := printUintFormatted_layout config temp
  refine ⟨ws, _, hws, ?_⟩
  rw [bytes, htext, Layout.length_text]
  refine layout_fills config (toNat_ofNat_le _) (toNat_ofNat_le _) ?_
  rw [UInt32.sub_zero]
  exact toNat_ofNat_le _

/-- Without its sign there is still a digit. -/
theorem takeSign_uintToDec (config : PrintConfig) {x : Nat} {group : Bool} {temp : List UInt8}
    (h : uintToDecCommon x group = some temp) : (takeSign config temp).2.2 ≠ [] := by
  obtain ⟨d, rest, rfl⟩ := decFrom_cons h
  rw [takeSign_digit config d.isLt]
  exact List.cons_ne_nil _ _

theorem takeSign_intToDec (config : PrintConfig) {x : Int} {forceSign group : Bool}
    {temp : List UInt8} (h : intToDecCommon x forceSign group = some temp) :
    (takeSign config temp).2.2 ≠ [] := by
  rw [intToDecCommon] at h
  split at h
  · cases h
    exact List.cons_ne_nil _ _
  · split at h
    · obtain ⟨digits, hdigits, rfl⟩ := Option.map_eq_some_iff.mp h
      obtain ⟨d, rest, rfl⟩ := decFrom_cons hdigits
      exact List.cons_ne_nil _ _
    · split at h
      · obtain ⟨digits, hdigits, rfl⟩ := Option.map_eq_some_iff.mp h
        obtain ⟨d, rest, rfl⟩ := decFrom_cons hdigits
        exact List.cons_ne_nil _ _
      · exact takeSign_uintToDec config h

/-- An action that writes something does not fault. -/
theorem emits_some {α : Type} {x : Output α} {ws : List (List UInt8)} {a : α}
    (h : sink.Emits x ws a) : ∃ b, x b ≠ none := by
  refine ⟨.growing fun _ => true, ?_⟩
  rw [h _ (sound_growing fun _ => rfl)]
  exact nofun

theorem fills_of_staged {config : PrintConfig} {text : Option (List UInt8)}
    {print : List UInt8 → Output UInt32} {mem : Memory} {ws : List (List UInt8)}
    {a : UInt32 × Memory}
    (h : sink.Emits (StateT.lift text >>= fun temp => print temp >>= fun result =>
      pure (result, mem)) ws a)
    (hprint : ∀ temp, text = some temp →
      ∃ ws a, sink.Emits (print temp) ws a ∧ Fills config (bytes ws)) :
    Fills config (bytes ws) := by
  cases text with
  | none =>
    obtain ⟨b, hb⟩ := emits_some h
    exact absurd rfl hb
  | some temp =>
    obtain ⟨vs, r, hvs, hfills⟩ := hprint temp rfl
    obtain ⟨-, htext⟩ := emits_unique h
      (Sink.emits_bind (Sink.emits_lift temp) (Sink.emits_bind hvs (Sink.emits_pure _)))
    rw [List.nil_append, List.append_nil] at htext
    rw [bytes, htext]
    exact hfills

/-- **An integer is printed as wide as the width and the precision ask.** -/
theorem printArg_fills {mem : Memory} {config : PrintConfig} (htype : config.type.isInteger)
    {ws : List (List UInt8)} {a : UInt32 × Memory} (h : sink.Emits (printArg mem config) ws a) :
    Fills config (bytes ws) := by
  cases hconfig : config.type with
  | intNumber =>
    simp only [printArg, hconfig] at h
    exact fills_of_staged h fun temp htemp =>
      printIntFormatted_fills config temp (takeSign_intToDec config htemp)
  | uintNumber =>
    simp only [printArg, hconfig] at h
    exact fills_of_staged h fun temp htemp =>
      printIntFormatted_fills config temp (takeSign_uintToDec config htemp)
  | uintBinary | uintOctal | uintHex =>
    simp only [printArg, hconfig] at h
    exact fills_of_staged h fun temp _ => printUintFormatted_fills config temp
  | _ =>
    rw [hconfig] at htype
    cases htype

/-- A pointer is printed as wide as the width asks. -/
theorem printPointer_width (config : PrintConfig) :
    ∃ ws a, sink.Emits (printPointer config) ws a ∧ config.width.toNat ≤ bytes ws := by
  simp only [printPointer]
  generalize pointerEncode config.data = temp
  have hsize := toNat_ofNat_le temp.length
  split
  · next hwide =>
    have hsub := UInt32.toNat_sub_of_le _ _ (UInt32.le_iff_toNat_le.mpr
      (Nat.le_of_lt (UInt32.lt_iff_toNat_lt.mp hwide)))
    split
    · refine ⟨_, _, Sink.emits_bind (emits_writen temp) (Sink.emits_bind (emits_padTimes 32 _)
        (Sink.emits_pure _)), ?_⟩
      simp only [bytes_append, bytes_replicate, bytes_singleton, bytes_nil]
      omega
    · refine ⟨_, _, Sink.emits_bind (emits_padTimes 32 _) (Sink.emits_bind (emits_writen temp)
        (Sink.emits_pure _)), ?_⟩
      simp only [bytes_append, bytes_replicate, bytes_singleton, bytes_nil]
      omega
  · next hwide =>
    refine ⟨_, _, Sink.emits_bind (emits_writen temp) (Sink.emits_pure _), ?_⟩
    have hle := Nat.le_of_not_lt fun hlt => hwide (UInt32.lt_iff_toNat_lt.mpr hlt)
    simp only [bytes_append, bytes_singleton, bytes_nil]
    omega

/-- A string is printed with the spaces that it lacks. -/
theorem printString_bytes (mem : Memory) (config : PrintConfig) {vs : List (List UInt8)}
    (hvs : ∀ result, sink.Emits (writeString mem config (stringCount mem config) result) vs
      (result + count vs)) :
    ∃ ws a, sink.Emits (printString mem config) ws a ∧
      bytes ws = bytes vs + (config.width.toNat - stringCount mem config) := by
  simp only [printString]
  split
  · refine ⟨_, _, Sink.emits_bind (hvs 0) (Sink.emits_bind (emits_padTimes 32 _)
      (Sink.emits_pure _)), ?_⟩
    simp only [bytes_append, bytes_replicate, bytes_nil]
    omega
  · refine ⟨_, _, Sink.emits_bind (emits_padTimes 32 _) (hvs _), ?_⟩
    simp only [bytes_append, bytes_replicate]
    omega

/-- An action that returns a count beside the memory writes the same. -/
theorem bytes_beside {x : Output UInt32} {mem : Memory} {ws vs : List (List UInt8)}
    {a : UInt32 × Memory} {r : UInt32} (h : sink.Emits (x >>= fun result => pure (result, mem)) ws a)
    (hx : sink.Emits x vs r) : bytes ws = bytes vs := by
  obtain ⟨-, htext⟩ := emits_unique h (Sink.emits_bind hx (Sink.emits_pure _))
  rw [List.append_nil] at htext
  rw [bytes, htext]
  rfl

/-- A width that is negative as an `int` is no width for a character. -/
theorem not_charFits {config : PrintConfig} (h : 2 ^ 31 ≤ config.width.toNat) : ¬ CharFits config := by
  have hone : (1 : UInt32).toNat = 1 := rfl
  have hwide : 1 < config.width := by
    rw [UInt32.lt_iff_toNat_lt, hone]
    omega
  have hsub := UInt32.toNat_sub_of_le config.width 1 (by
    rw [UInt32.le_iff_toNat_le, hone]
    omega)
  intro hfits
  have hle := hfits hwide
  omega

end WindowsLibc.Printf
