import WindowsLibc.Printf.Snprintf
import WindowsLibc.Scanf.Number

/-!
# What `printf` prints, `scanf` reads

A list of directives is printed with all the flags, widths and precisions one likes, and scanned with
the letters and modifiers alone.

* `Listing ds text` is a text for several directives: their numbers, with any number of spaces around
  them and at least one in between. `printfLoop_listing` prints one and `scanfLoop_listing` reads any.
* `storeAll` is what is stored. If the destinations do not overlap, each of them holds its number
  (`load_storeAll`).
* `scanf_printf_round_trip` puts these together.
-/

namespace WindowsLibc.Scanf

open WindowsLibc.Lib WindowsLibc.Printf

/-! ## Lists of numbers -/

/-- A text for the directives `ds`. -/
inductive Listing : List Directive → List UInt8 → Prop
  | nil (n : Nat) : Listing [] (List.replicate n 32)
  | cons {d : Directive} {ds : List Directive} {inner rest : List UInt8} (n : Nat) :
      Inner d inner → Separated rest → Listing ds rest →
      Listing (d :: ds) (List.replicate n 32 ++ (inner ++ rest))

variable {ds : List Directive} {text : List UInt8}

theorem Listing.space (h : Listing ds text) : Listing ds (32 :: text) := by
  cases h with
  | nil n => exact .nil (n + 1)
  | cons n hinner hsep hrest => exact .cons (n + 1) hinner hsep hrest

theorem Listing.spaces (h : Listing ds text) (n : Nat) :
    Listing ds (List.replicate n 32 ++ text) := by
  induction n with
  | zero => exact h
  | succ n ih => exact ih.space

theorem Listing.ne_zero (h : Listing ds text) : ∀ c ∈ text, c ≠ 0 := by
  induction h with
  | nil n =>
    intro c hc
    rw [List.eq_of_mem_replicate hc]
    decide
  | cons n hinner hsep hrest ih =>
    intro c hc
    rcases List.mem_append.mp hc with hc | hc
    · rw [List.eq_of_mem_replicate hc]
      decide
    rcases List.mem_append.mp hc with hc | hc
    · have hgraphic := (graphic_inner hinner).2 c hc
      rintro rfl
      exact absurd hgraphic (by decide)
    · exact ih c hc

/-- A list begins with the spaces in front of its first number. -/
theorem separated_listing (n : Nat) (text : List UInt8) :
    Separated (List.replicate n 32 ++ (32 :: text)) ∧ Separated (List.replicate n 32) := by
  cases n with
  | zero => exact ⟨.inr rfl, .inl rfl⟩
  | succ n => exact ⟨.inr rfl, .inr rfl⟩

/-- What is printed for one directive more. -/
theorem Listing.of_spaced {d : Directive} {inner shown : List UInt8} (hinner : Inner d inner)
    (hspaced : Spaced inner shown) :
    Listing [d] shown ∧ ∀ {ds text}, Listing ds text → Listing (d :: ds) (shown ++ 32 :: text) := by
  obtain ⟨left, right, rfl⟩ := hspaced
  refine ⟨?_, ?_⟩
  · exact .cons left hinner (separated_listing right []).2 (.nil right)
  · intro ds text h
    rw [List.append_assoc, List.append_assoc]
    exact .cons left hinner (separated_listing right text).1 (h.space.spaces right)

/-! ## Formats -/

/-- No byte of a directive ends the format, numbers an argument or begins another directive. -/
theorem directive_bytes (d : Directive) :
    ∀ c ∈ d.front ++ d.ending, c ≠ 0 ∧ c ≠ 36 ∧ c ≠ 37 := by
  have hfield : ∀ field : Field, ∀ c ∈ field.text, c ≠ 0 ∧ c ≠ 36 ∧ c ≠ 37 := by
    have hdigit : ∀ e : Fin 10, digitChar e ≠ 0 ∧ digitChar e ≠ 36 ∧ digitChar e ≠ 37 := by decide
    intro field c hc
    cases field with
    | digits es =>
      obtain ⟨e, -, rfl⟩ := List.mem_map.mp hc
      exact hdigit e
    | star value =>
      rw [List.mem_singleton.mp hc]
      decide
  intro c hc
  simp only [Directive.front, Directive.ending, List.mem_append, List.mem_map] at hc
  rcases hc with (⟨f, -, rfl⟩ | hc | hc) | hc | hc
  · cases f <;> decide
  · exact hfield _ c hc
  · cases hprecision : d.precision with
    | none =>
      rw [hprecision] at hc
      cases hc
    | some field =>
      rw [hprecision] at hc
      rcases List.mem_cons.mp hc with rfl | hc
      · decide
      · exact hfield field c hc
  · revert c
    rw [← List.forall_iff_forall_mem]
    cases d.modifier <;> decide
  · rw [List.mem_singleton.mp hc]
    cases d.letter <;> decide

theorem joined_cons {text : List UInt8} {texts : List (List UInt8)} (h : texts ≠ []) :
    joined (text :: texts) = text ++ 32 :: joined texts := by
  cases texts with
  | nil => exact absurd rfl h
  | cons _ _ => rfl

/-- A property of every text, and of the space. -/
theorem forall_mem_joined {P : UInt8 → Prop} (hspace : P 32) {texts : List (List UInt8)}
    (h : ∀ text ∈ texts, ∀ c ∈ text, P c) : ∀ c ∈ joined texts, P c := by
  induction texts with
  | nil => exact fun _ hc => absurd hc List.not_mem_nil
  | cons text texts ih =>
    have hrest := ih fun t ht => h t (List.mem_cons_of_mem _ ht)
    intro c hc
    by_cases hnil : texts = []
    · subst hnil
      exact h text List.mem_cons_self c hc
    · rw [joined_cons hnil] at hc
      rcases List.mem_append.mp hc with hc | hc
      · exact h text List.mem_cons_self c hc
      rcases List.mem_cons.mp hc with rfl | hc
      · exact hspace
      · exact hrest c hc

/-- A format of directives ends where it should, and numbers no argument. -/
theorem joined_bytes {text : Directive → List UInt8}
    (h : ∀ d, ∀ c ∈ text d, c = 37 ∨ c ∈ d.front ++ d.ending) (ds : List Directive) :
    ∀ c ∈ joined (ds.map text), c ≠ 0 ∧ c ≠ 36 := by
  refine @forall_mem_joined (fun c => c ≠ 0 ∧ c ≠ 36) (by decide) _ ?_
  intro bytes hbytes c hc
  obtain ⟨d, -, rfl⟩ := List.mem_map.mp hbytes
  rcases h d c hc with rfl | hc
  · decide
  · have hbyte := directive_bytes d c hc
    exact ⟨hbyte.1, hbyte.2.1⟩

theorem printFormat_bytes (ds : List Directive) : ∀ c ∈ printFormat ds, c ≠ 0 ∧ c ≠ 36 := by
  apply joined_bytes
  intro d c hc
  exact List.mem_cons.mp hc

theorem scanFormat_bytes (ds : List Directive) : ∀ c ∈ scanFormat ds, c ≠ 0 ∧ c ≠ 36 := by
  apply joined_bytes
  intro d c hc
  exact (List.mem_cons.mp hc).imp_right (List.mem_append_right _)

/-- The format for `scanf` is the shorter one. -/
theorem length_scanFormat_le (ds : List Directive) :
    (scanFormat ds).length ≤ (printFormat ds).length := by
  have htext : ∀ d : Directive, d.scanText.length ≤ d.printText.length := by
    intro d
    rw [Directive.scanText, Directive.printText, List.length_cons, List.length_cons,
      List.length_append]
    omega
  rw [scanFormat, printFormat]
  induction ds with
  | nil => exact Nat.le_refl _
  | cons d ds ih =>
    have hd := htext d
    by_cases hnil : ds = []
    · subst hnil
      exact hd
    · have hne : ∀ f : Directive → List UInt8, ds.map f ≠ [] := fun f => mt List.map_eq_nil_iff.mp hnil
      rw [List.map_cons, List.map_cons, joined_cons (hne _), joined_cons (hne _), List.length_append,
        List.length_append, List.length_cons, List.length_cons]
      omega

/-- There are no more arguments than bytes in the format. -/
theorem length_printArgs_le (ds : List Directive) :
    ds.length ≤ (printArgs ds).length ∧ (printArgs ds).length ≤ (printFormat ds).length := by
  have hfield : ∀ field : Field, field.args.length ≤ field.text.length := by
    intro field
    cases field with
    | digits es => exact Nat.zero_le _
    | star value => exact Nat.le_refl _
  have htext : ∀ d : Directive, 1 ≤ d.args.length ∧ d.args.length ≤ d.printText.length := by
    intro d
    have hwidth := hfield d.width
    have hprecision : (precisionArgs d.precision).length ≤ (precisionText d.precision).length := by
      cases d.precision with
      | none => exact Nat.le_refl _
      | some field => exact Nat.le_succ_of_le (hfield field)
    simp only [Directive.args, Directive.printText, Directive.front, List.length_append,
      List.length_cons, List.length_nil]
    omega
  rw [printFormat]
  induction ds with
  | nil => exact ⟨Nat.le_refl _, Nat.le_refl _⟩
  | cons d ds ih =>
    have hd := htext d
    rw [printArgs, List.flatMap_cons, List.length_append, List.length_cons]
    rw [printArgs] at ih
    by_cases hnil : ds = []
    · subst hnil
      exact ⟨by simpa using hd.1, by simpa [joined] using hd.2⟩
    · rw [List.map_cons, joined_cons (mt List.map_eq_nil_iff.mp hnil), List.length_append,
        List.length_cons]
      omega

/-! ## Printing -/

variable {list : Nat → UInt64} {k : Nat}

/-- A turn at a directive prints its number. -/
theorem printfIteration_directive {l : Loop} {d : Directive} {rest : List UInt8}
    (hformat : l.format = d.printText ++ rest) (hdollar : ∀ c ∈ l.format, c ≠ 36)
    (h : At list k l.args) (hargs : Supplies list k d.args) :
    ∃ ws args' inner, sink.Emits (printfIteration l) ws (.next (l.behind rest args' (count ws) l.mem)) ∧
      At list (k + d.args.length) args' ∧ Inner d inner ∧ Spaced inner ws.flatten := by
  have hspec : l.format = 37 :: (d.front ++ (d.ending ++ rest)) := by
    rw [hformat, Directive.printText, List.cons_append, List.append_assoc]
  obtain ⟨config, args', hparse, hat, htype, hmodifier, hdata, hgroup⟩ :=
    parsePrintSpecifier_directive d rest
      (fun c hc => hdollar c (by rw [hspec]; exact List.mem_cons_of_mem _ hc)) h hargs
  have hknown : config.type ≠ .unknown := htype ▸ (conversion_letter d.letter).2
  have hnumber : config.type.isNumber := by
    rw [htype]
    cases d.letter <;> rfl
  -- the directive is not empty, and is no `%%`
  have hne : d.front ++ d.ending ≠ [] := by simp [Directive.ending]
  have hpercent : ∀ more, d.front ++ (d.ending ++ rest) = 37 :: more → False := by
    intro more heq
    cases hbytes : d.front ++ d.ending with
    | nil => exact hne hbytes
    | cons c bytes =>
      rw [← List.append_assoc, hbytes] at heq
      have hc := directive_bytes d c (by rw [hbytes]; exact List.mem_cons_self)
      exact hc.2.2 (List.cons.inj heq).1
  have hdirective := directive_of_format hspec (by simp [Directive.ending]) hpercent
  rw [hparse, if_neg hknown] at hdirective
  obtain ⟨ws, inner, hws, htext, hspaced⟩ := @printArg_number l.mem
    { config with result := l.result.toUInt64 } hnumber hgroup
  refine ⟨ws ++ [], args', inner, ?_, hat, ⟨_, htype, hmodifier, hdata, htext⟩, ?_⟩
  · rw [(printfIteration_of_directive hdirective).1, count_append, count_nil, UInt32.add_zero]
    exact Sink.emits_bind hws (emits_checkError _)
  · rwa [List.append_nil]

/-- A list of directives is printed as one. -/
theorem printfLoop_listing {fuel : Nat} {l : Loop} (hformat : l.format = printFormat ds)
    (hfuel : l.format.length < fuel) (h : At list k l.args)
    (hargs : Supplies list k (printArgs ds)) :
    ∃ ws r, sink.Emits (printfLoop fuel l) ws (r, l.mem) ∧ Listing ds ws.flatten := by
  induction ds generalizing l k fuel with
  | nil => exact ⟨[], _, printfLoop_end hformat (Nat.zero_lt_of_lt hfuel), .nil 0⟩
  | cons d ds ih =>
    have hdollar : ∀ c ∈ l.format, c ≠ 36 := by
      rw [hformat]
      exact fun c hc => (printFormat_bytes _ c hc).2
    have hsplit : printArgs (d :: ds) = d.args ++ printArgs ds := List.flatMap_cons
    rw [hsplit] at hargs
    obtain ⟨hhere, hmore⟩ := hargs.append
    obtain ⟨fuel, rfl⟩ : ∃ n, fuel = n + 1 := ⟨fuel - 1, by omega⟩
    by_cases hnil : ds = []
    · subst hnil
      obtain ⟨ws, args', inner, hws, -, hinner, hspaced⟩ := @printfIteration_directive _ _ l d []
        (by rw [hformat, List.append_nil]; rfl) hdollar h hhere
      refine ⟨ws ++ [], _, printfLoop_next hws (printfLoop_end rfl ?_), ?_⟩
      · rw [hformat] at hfuel
        exact Nat.zero_lt_of_lt (Nat.lt_of_succ_lt_succ hfuel)
      · rw [List.append_nil]
        exact (Listing.of_spaced hinner hspaced).1
    · have hrest : l.format = d.printText ++ 32 :: printFormat ds := by
        rw [hformat]
        exact joined_cons (mt List.map_eq_nil_iff.mp hnil)
      obtain ⟨ws, args', inner, hws, hat, hinner, hspaced⟩ :=
        printfIteration_directive hrest hdollar h hhere
      have hlength : (d.printText ++ 32 :: printFormat ds).length < fuel + 1 := hrest ▸ hfuel
      rw [List.length_append, List.length_cons] at hlength
      have hpos : 0 < d.printText.length := Nat.succ_pos _
      obtain ⟨fuel, rfl⟩ : ∃ n, fuel = n + 1 := ⟨fuel - 1, by omega⟩
      -- the space between two directives is printed
      generalize hbehind : l.behind (32 :: printFormat ds) args' (count ws) l.mem = l₁ at hws
      have hmem : l₁.mem = l.mem := by rw [← hbehind]; rfl
      have hargs₁ : l₁.args = args' := by rw [← hbehind]; rfl
      have hspace := emits_printByte l₁ 32 (printFormat ds)
      rw [← printfIteration_literal (by rw [← hbehind]; rfl) (by decide)] at hspace
      obtain ⟨vs, r, hvs, hlisting⟩ := @ih (k + d.args.length) fuel
        { l₁ with format := printFormat ds, result := l₁.result + 1 } rfl
        (show (printFormat ds).length < fuel by omega) (hargs₁ ▸ hat) hmore
      refine ⟨ws ++ ([[32]] ++ vs), r, ?_, ?_⟩
      · rw [← hmem]
        exact printfLoop_next hws (printfLoop_next hspace hvs)
      · rw [List.flatten_append, List.flatten_append]
        exact (Listing.of_spaced hinner hspaced).2 hlisting

/-! ## Scanning -/

variable {b : Buffer} {inner rest : List UInt8} {d : Directive}

theorem consumeWhitespaces_replicate {n : Nat} (h : Reads b (List.replicate n 32 ++ text))
    (htext : ¬ isSpace (text.headD 0)) :
    ∃ b', consumeWhitespaces b = ⟨(), UInt32.ofNat n, b'⟩ ∧ Reads b' text := by
  have hspaces : ∀ c ∈ List.replicate n (32 : UInt8), isSpace c := by
    intro c hc
    rw [List.eq_of_mem_replicate hc]
    decide
  have hskip := consumeWhitespaces_reads hspaces h htext
  rwa [List.length_replicate] at hskip

/-- A number does not begin with a space. -/
theorem head_inner (h : Inner d inner) (rest : List UInt8) :
    ¬ isSpace ((inner ++ rest).headD 0) := by
  obtain ⟨hne, hgraphic⟩ := graphic_inner h
  cases inner with
  | nil => exact absurd rfl hne
  | cons c inner =>
    have hc := hgraphic c List.mem_cons_self
    simp only [isGraphic, decide_eq_true_eq] at hc
    exact hc.2

/-- The number in front is read, with the spaces before it. -/
theorem scanArg_inner {sc : ScanConfig} {n : Nat} (hinner : Inner d inner)
    (htype : sc.type = d.letter.scanType) (hmodifier : sc.modifier = d.modifier)
    (hgroup : sc.flags.groupDigits = false) (hwidth : sc.width = 0) (hrest : Separated rest)
    (h : Reads b (List.replicate n 32 ++ (inner ++ rest))) (env : ScanEnv) (st : Store) :
    ∃ b', scanArg env sc b st = some (UInt32.ofNat (n + inner.length), b',
        st.put sc.data d.bytes d.value.toNat) ∧ Reads b' rest := by
  have hkeeps : sc.type.keepsSpace = false := by
    rw [htype]
    cases d.letter <;> rfl
  obtain ⟨b₁, hspaces, hreads⟩ := consumeWhitespaces_replicate h (head_inner hinner rest)
  obtain ⟨b', hscan, hreads'⟩ := doScan_inner hinner htype hmodifier hgroup hrest hreads env st
  refine ⟨b', ?_, hreads'⟩
  simp only [scanArg, hkeeps, hspaces, hwidth, Bool.false_eq_true, if_false, hscan]
  rw [if_neg (by decide), Option.map_some, UInt32.ofNat_add]

/-- A turn at a directive stores its number, and counts it. -/
theorem scanfIteration_directive {env : ScanEnv} {l : ScanLoop} {n : Nat} {format : List UInt8}
    (hformat : l.format = d.scanText ++ format) (hdollar : ∀ c ∈ l.format, c ≠ 36)
    (hinner : Inner d inner) (hrest : Separated rest)
    (h : Reads l.buffer (List.replicate n 32 ++ (inner ++ rest)))
    (hlength : n + inner.length < 2 ^ 32) (hat : At list k l.args) :
    ∃ args' b' processed, scanfIteration env l = some (.next
        ⟨format, args', b', l.store.put (some (list k)) d.bytes d.value.toNat, processed,
          l.result + 1⟩) ∧
      At list (k + 1) args' ∧ Reads b' rest := by
  have hspec : l.format = 37 :: (d.ending ++ format) := hformat
  obtain ⟨config, args', hparse, hat', htype, hmodifier, hgroup, hsuppress, hwidth, hdata⟩ :=
    parseScanSpecifier_directive d format
      (fun c hc => hdollar c (by rw [hspec]; exact List.mem_cons_of_mem _ hc)) hat
  obtain ⟨b', hscan, hreads⟩ := @scanArg_inner l.buffer inner rest d
    { config with result := l.processed.toUInt64 } n hinner htype hmodifier hgroup hwidth hrest
    h env l.store
  simp only [hdata] at hscan
  -- what is counted is not 0, for there is a digit
  have hcount : UInt32.ofNat (n + inner.length) ≠ 0 := by
    have hpos := List.length_pos_iff.mpr (graphic_inner hinner).1
    intro hzero
    have hnat := congrArg UInt32.toNat hzero
    rw [UInt32.toNat_ofNat_of_lt' hlength, UInt32.toNat_zero] at hnat
    omega
  have hturn : scanfIteration env l = scanDirective env l (d.ending ++ format) := by
    cases hbytes : d.ending with
    | nil => exact absurd hbytes (by simp [Directive.ending])
    | cons c bytes =>
      have hc := directive_bytes d c (List.mem_append_right _ (by rw [hbytes]; exact List.mem_cons_self))
      rw [hbytes] at hspec
      exact scanfIteration_percent hspec hc.2.2
  have hknown : config.type ≠ .unknown ∧ config.type ≠ .result := by
    rw [htype]
    cases d.letter <;> decide
  have hcounts : config.type ≠ .result ∧ ¬ config.flags.suppressInput = true := by
    refine ⟨hknown.2, ?_⟩
    rw [hsuppress]
    exact Bool.false_ne_true
  refine ⟨args', b', l.processed + UInt32.ofNat (n + inner.length), ?_, hat', hreads⟩
  rw [hturn, scanDirective, hparse]
  simp only [Option.bind_eq_bind, Option.bind_some, if_neg hknown.1, hscan, hreads.error,
    Bool.false_eq_true, if_false, if_pos hcounts, hcount, false_and, hdata]
  rfl

/-- The space between two directives takes all the spaces there are. -/
theorem scanfIteration_space {env : ScanEnv} {l : ScanLoop} {n : Nat} {format : List UInt8}
    (hformat : l.format = 32 :: format) (hinner : Inner d inner)
    (h : Reads l.buffer (List.replicate n 32 ++ (inner ++ rest))) :
    ∃ b' processed, scanfIteration env l = some (.next
        ⟨format, l.args, b', l.store, processed, l.result⟩) ∧
      Reads b' (inner ++ rest) := by
  obtain ⟨b', hspaces, hreads⟩ := consumeWhitespaces_replicate h (head_inner hinner rest)
  refine ⟨b', l.processed + UInt32.ofNat n, ?_, hreads⟩
  have hspace : isSpace 32 = true := rfl
  simp [scanfIteration, hformat, hspace, hspaces]

/-- What is stored for the directives, in the arguments from number `k` on. -/
def storeAll (list : Nat → UInt64) : Nat → List Directive → Store → Store
  | _, [], st => st
  | k, d :: ds, st => storeAll list (k + 1) ds (st.put (some (list k)) d.bytes d.value.toNat)

theorem scanfLoop_next {env : ScanEnv} {fuel : Nat} {l l' : ScanLoop}
    (hturn : scanfIteration env l = some (.next l')) :
    scanfLoop env (fuel + 1) l = scanfLoop env fuel l' := by
  rw [scanfLoop, hturn]
  rfl

/-- A text for the directives is read, and everything is stored. -/
theorem scanfLoop_listing {env : ScanEnv} {fuel : Nat} {l : ScanLoop}
    (hformat : l.format = scanFormat ds) (hfuel : l.format.length < fuel)
    (hlisting : Listing ds text) (h : Reads l.buffer text) (hlength : text.length < 2 ^ 32)
    (hat : At list k l.args) :
    scanfLoop env fuel l =
      some ((l.result + UInt32.ofNat ds.length).toInt32, storeAll list k ds l.store) := by
  induction ds generalizing l k fuel text with
  | nil =>
    obtain ⟨fuel, rfl⟩ : ∃ n, fuel = n + 1 := ⟨fuel - 1, by omega⟩
    have hturn : scanfIteration env l = some (.done l) := by
      rw [scanfIteration, hformat]
      rfl
    rw [scanfLoop, hturn, Option.bind_some, List.length_nil,
      show l.result + UInt32.ofNat 0 = l.result from UInt32.add_zero _, storeAll]
  | cons d ds ih =>
    have hdollar : ∀ c ∈ l.format, c ≠ 36 := by
      rw [hformat]
      exact fun c hc => (scanFormat_bytes _ c hc).2
    obtain ⟨fuel, rfl⟩ : ∃ n, fuel = n + 1 := ⟨fuel - 1, by omega⟩
    have hresult : l.result + UInt32.ofNat (d :: ds).length = l.result + 1 + UInt32.ofNat ds.length := by
      rw [List.length_cons, Nat.add_comm, UInt32.ofNat_add, ← UInt32.add_assoc]
      rfl
    cases hlisting with
    | @cons _ _ inner rest n hinner hsep hrest =>
      rw [List.length_append, List.length_append, List.length_replicate] at hlength
      rw [hresult]
      cases ds with
      | nil =>
        obtain ⟨args', b', processed, hturn, hat', hreads⟩ := @scanfIteration_directive list k inner
          rest d env l n [] (by rw [hformat, List.append_nil]; rfl) hdollar hinner hsep h (by omega) hat
        rw [scanfLoop_next hturn]
        refine ih rfl ?_ hrest hreads (by omega) hat'
        rw [hformat] at hfuel
        exact Nat.zero_lt_of_lt (Nat.lt_of_succ_lt_succ hfuel)
      | cons e es =>
        have hspec : l.format = d.scanText ++ 32 :: scanFormat (e :: es) := hformat
        have hlong : (d.scanText ++ 32 :: scanFormat (e :: es)).length < fuel + 1 := hspec ▸ hfuel
        rw [List.length_append, List.length_cons] at hlong
        have hpos : 0 < d.scanText.length := Nat.succ_pos _
        obtain ⟨fuel, rfl⟩ : ∃ n, fuel = n + 1 := ⟨fuel - 1, by omega⟩
        obtain ⟨args', b', processed, hturn, hat', hreads⟩ := @scanfIteration_directive list k inner
          rest d env l n _ hspec hdollar hinner hsep h (by omega) hat
        cases hrest with
        | @cons _ _ inner' rest' m hinner' hsep' hrest' =>
          obtain ⟨b'', processed', hspace, hreads'⟩ := @scanfIteration_space inner' rest' e env
            ⟨32 :: scanFormat (e :: es), args', b', _, processed, l.result + 1⟩ m _ rfl hinner' hreads
          rw [List.length_append] at hlength
          rw [scanfLoop_next hturn, scanfLoop_next hspace]
          exact ih rfl (by show (scanFormat (e :: es)).length < fuel; omega)
            (.cons 0 hinner' hsep' hrest') hreads'
            (by rw [List.replicate_zero, List.nil_append]; omega) hat'

/-! ## Destinations -/

/-- The bytes of a number, least significant first. -/
def loadResult (mem : Memory) (address : UInt64) : Nat → Nat
  | 0 => 0
  | n + 1 => loadResult mem address n + (mem (address + UInt64.ofNat n)).toNat * 256 ^ n

/-- The letters for numbers with a sign. -/
def Letter.signed : Letter → Bool
  | .d => true
  | .i => true
  | _ => false

namespace Directive

/-- The number that is printed: the argument in the type of the modifier, or a whole pointer. -/
def number (d : Directive) : Int :=
  if d.letter.signed then (BitVec.ofNat (8 * d.bytes) d.value.toNat).toInt
  else (d.value.toNat % 2 ^ (8 * d.bytes) : Nat)

/-- The number that is at an address, in that type. -/
def load (d : Directive) (mem : Memory) (address : UInt64) : Int :=
  if d.letter.signed then (BitVec.ofNat (8 * d.bytes) (loadResult mem address d.bytes)).toInt
  else loadResult mem address d.bytes

end Directive

/-- The bytes for `d` at `a` and those for `e` at `b` are different ones. -/
def Apart (d : Directive) (a : UInt64) (e : Directive) (b : UInt64) : Prop :=
  ∀ x, (x - a).toNat < d.bytes → ¬ (x - b).toNat < e.bytes

/-- Destinations that lie one behind the other. -/
theorem apart_of_le {d e : Directive} {a b : UInt64} (hab : a.toNat + d.bytes ≤ b.toNat)
    (hb : b.toNat + e.bytes ≤ 2 ^ 64) : Apart d a e b ∧ Apart e b d a := by
  have hne : ∀ x : UInt64, (x - a).toNat < d.bytes → ¬ (x - b).toNat < e.bytes := by
    intro x
    have hx := x.toNat_lt
    have ha := a.toNat_lt
    have hb' := b.toNat_lt
    rw [UInt64.toNat_sub, UInt64.toNat_sub]
    omega
  exact ⟨hne, fun x hx hx' => hne x hx' hx⟩

/-- No two destinations overlap. -/
def Separate (ds : List Directive) (dests : List UInt64) : Prop :=
  ∀ (i j : Nat) d e a b, i ≠ j → ds[i]? = some d → ds[j]? = some e → dests[i]? = some a →
    dests[j]? = some b → Apart d a e b

theorem directive_bytes_le (d : Directive) : d.bytes ≤ 8 := by
  rw [Directive.bytes]
  split
  · exact Nat.le_refl 8
  · cases d.modifier <;> decide

theorem toNat_offset (address : UInt64) {n : Nat} (h : n < 8) :
    (address + UInt64.ofNat n - address).toNat = n := by
  rw [UInt64.add_comm, UInt64.add_sub_cancel]
  exact UInt64.toNat_ofNat_of_lt' (Nat.lt_trans h (by decide))

theorem loadResult_storeResult (mem : Memory) (address : UInt64) {bytes n : Nat} (v : Nat)
    (hn : n ≤ bytes) (hbytes : bytes ≤ 8) :
    loadResult (storeResult mem address bytes v) address n = v % 256 ^ n := by
  induction n with
  | zero => rw [pow_zero, Nat.mod_one]; rfl
  | succ n ih =>
    have hoffset := toNat_offset address (show n < 8 by omega)
    have hbyte : (UInt8.ofNat (v / 256 ^ n)).toNat = v / 256 ^ n % 256 := UInt8.toNat_ofNat'
    rw [loadResult, ih (by omega), storeResult, hoffset, if_pos (by omega), hbyte, Nat.mul_comm,
      Nat.mod_pow_succ]

theorem loadResult_congr {mem mem' : Memory} {address : UInt64} {n : Nat} (hn : n ≤ 8)
    (h : ∀ x, (x - address).toNat < n → mem x = mem' x) :
    loadResult mem address n = loadResult mem' address n := by
  induction n with
  | zero => rfl
  | succ n ih =>
    have hoffset := toNat_offset address (show n < 8 by omega)
    rw [loadResult, loadResult, ih (by omega) (fun x hx => h x (Nat.lt_succ_of_lt hx)),
      h _ (by rw [hoffset]; exact Nat.lt_succ_self n)]

theorem load_put (d : Directive) (st : Store) (address : UInt64) :
    d.load (st.put (some address) d.bytes d.value.toNat).mem address = d.number := by
  have hload := loadResult_storeResult st.mem address d.value.toNat (Nat.le_refl d.bytes)
    (directive_bytes_le d)
  have hpow : 256 ^ d.bytes = 2 ^ (8 * d.bytes) := by rw [Nat.pow_mul]
  rw [hpow] at hload
  rw [Directive.load, Directive.number, Store.put]
  dsimp only
  rw [hload]
  split
  · congr 1
    apply BitVec.eq_of_toNat_eq
    rw [BitVec.toNat_ofNat, BitVec.toNat_ofNat, Nat.mod_mod]
  · rfl

/-- What no destination covers is left as it is. -/
theorem storeAll_untouched {x : UInt64} (st : Store)
    (h : ∀ (i : Nat) e, ds[i]? = some e → ¬ (x - list (k + i)).toNat < e.bytes) :
    (storeAll list k ds st).mem x = st.mem x := by
  induction ds generalizing k st with
  | nil => rfl
  | cons d ds ih =>
    rw [storeAll, ih]
    · exact if_neg (h 0 d rfl)
    · intro i e he
      rw [Nat.add_assoc, Nat.add_comm 1 i]
      exact h (i + 1) e he

/-- **Each destination holds its number.** -/
theorem load_storeAll (st : Store)
    (h : ∀ i j d e, i ≠ j → ds[i]? = some d → ds[j]? = some e →
      Apart d (list (k + i)) e (list (k + j)))
    {i : Nat} {d : Directive} (hi : ds[i]? = some d) :
    d.load (storeAll list k ds st).mem (list (k + i)) = d.number := by
  induction ds generalizing k st i with
  | nil => cases hi
  | cons e ds ih =>
    have hshift : ∀ j, k + (j + 1) = k + 1 + j := fun j => by omega
    cases i with
    | zero =>
      cases hi
      -- nothing that is stored later touches it
      have hkeep : ∀ x, (x - list k).toNat < d.bytes →
          (storeAll list k (d :: ds) st).mem x =
            (st.put (some (list k)) d.bytes d.value.toNat).mem x := by
        intro x hx
        apply @storeAll_untouched ds list (k + 1) x
        intro j e he
        rw [← hshift]
        exact h 0 (j + 1) d e (Nat.succ_ne_zero j).symm rfl he x hx
      rw [← load_put d st (list k), Directive.load, Directive.load, Nat.add_zero,
        loadResult_congr (directive_bytes_le d) hkeep]
    | succ i =>
      rw [hshift]
      refine ih _ ?_ hi
      intro i j d e hij hd he
      rw [← hshift, ← hshift]
      exact h (i + 1) (j + 1) d e (fun heq => hij (Nat.succ.inj heq)) hd he

/-! ## The round trip -/

/-- What is printed is a list of numbers. -/
theorem prints_listing (mem : Memory) (hformat : (printFormat ds).length ≤ 65536) :
    ∃ text, Listing ds text ∧
      ∀ out, Prints (printFormat ds) (fun i => (printArgs ds).getD i 0) mem out ↔ out = text := by
  have hstart : Loop.start (printFormat ds) (fun i => (printArgs ds).getD i 0) mem =
      ⟨printFormat ds, .init fun i => (printArgs ds).getD i 0, mem, 0⟩ := by
    rw [Loop.start, take_format (fun c hc => (printFormat_bytes ds c hc).1) hformat]
  obtain ⟨ws, r, hws, hlisting⟩ := @printfLoop_listing ds (fun i => (printArgs ds).getD i 0) 0
    ((printFormat ds).length + 1)
    ⟨printFormat ds, .init fun i => (printArgs ds).getD i 0, mem, 0⟩ rfl (Nat.lt_succ_self _)
    (at_init _) (supplies_getD _)
  have hsound := @sound_growing (fun _ => true) (fun _ => rfl)
  have hcontents := (contents_puts (grows_growing fun _ => true) hsound ws).1
  have hemits : sink.Emits (printfInternal (printFormat ds) (fun i => (printArgs ds).getD i 0) mem) ws
      (r, mem) := by
    rw [printfInternal, hstart]
    exact hws
  refine ⟨ws.flatten, hlisting, fun out => ⟨?_, ?_⟩⟩
  · rintro ⟨result, mem', b, hrun, rfl⟩
    obtain ⟨-, rfl⟩ := hemits.run hsound hrun
    exact hcontents
  · rintro rfl
    exact ⟨r, mem, _, hemits _ hsound, hcontents⟩

/-- A text for the directives is scanned, with anything behind its end. -/
theorem vsscanf_listing (env : ScanEnv) (st : Store) {out : List UInt8} (hlisting : Listing ds out)
    (hlength : out.length ≤ 65536) (hformat : (scanFormat ds).length ≤ 65536) (list : Nat → UInt64)
    (junk : List UInt8) :
    vsscanf env (some (out ++ 0 :: junk)) (some (scanFormat ds)) list st =
      some ((UInt32.ofNat ds.length).toInt32, storeAll list 0 ds st) := by
  have hzero := hlisting.ne_zero
  have hstr : (((out ++ 0 :: junk).takeWhile (· ≠ 0)).take 65536).length = out.length := by
    rw [List.takeWhile_append_of_pos (by simpa using hzero), List.takeWhile_cons_of_neg (by decide),
      List.append_nil, List.take_of_length_le hlength]
  have hreads := reads_fixed (out ++ 0 :: junk) (show out.length ≤ (out ++ 0 :: junk).length by
    rw [List.length_append]; exact Nat.le_add_right _ _)
  rw [List.take_left] at hreads
  simp only [vsscanf, hstr, scanfInternal]
  rw [take_format (fun c hc => (scanFormat_bytes ds c hc).1) hformat]
  have hloop := @scanfLoop_listing ds out list 0 env ((scanFormat ds).length + 1)
    ⟨scanFormat ds, .init list, .fixed (out ++ 0 :: junk) out.length, st, 0, 0⟩ rfl
    (Nat.lt_succ_self _) hlisting hreads (by omega) (at_init list)
  rw [hloop, UInt32.zero_add]

/-- **The round trip.** A list of directives prints something. If the format and the output have at
most 65536 bytes each, then scanning the output, with anything behind it in memory, counts all of the
directives, and each destination holds the number that was printed. The argument caches of both
engines serve as many arguments as there are. -/
theorem scanf_printf_round_trip (env : ScanEnv) (ds : List Directive) (dests : List UInt64)
    (mem : Memory) (st : Store) (junk : List UInt8) (hdests : dests.length = ds.length)
    (hsep : Separate ds dests) (hformat : (printFormat ds).length ≤ 65536) :
    Serves (printArgs ds) (List.replicate (printArgs ds).length 0) ∧
      Serves dests (List.replicate dests.length 0) ∧
      (∃ out, Prints (printFormat ds) (fun i => (printArgs ds).getD i 0) mem out) ∧
      ∀ out, Prints (printFormat ds) (fun i => (printArgs ds).getD i 0) mem out →
        out.length ≤ 65536 →
        ∃ result st', vsscanf env (some (out ++ 0 :: junk)) (some (scanFormat ds))
            (fun i => dests.getD i 0) st = some (result, st') ∧
          result.toInt = ds.length ∧
          ∀ (i : Nat) d a, ds[i]? = some d → dests[i]? = some a → d.load st'.mem a = d.number := by
  have hcount := length_printArgs_le ds
  obtain ⟨text, hlisting, hprints⟩ := prints_listing mem hformat
  refine ⟨serves_in_turn (by omega), serves_in_turn (by omega), ⟨text, (hprints _).mpr rfl⟩, ?_⟩
  intro out hout hlength
  obtain rfl := (hprints out).mp hout
  have hscan := vsscanf_listing env st hlisting hlength
    (Nat.le_trans (length_scanFormat_le ds) hformat) (fun i => dests.getD i 0) junk
  refine ⟨_, _, hscan, toInt_ofNat (by omega), ?_⟩
  have hdest : ∀ {i : Nat} {a : UInt64}, dests[i]? = some a → dests.getD (0 + i) 0 = a := by
    intro i a ha
    rw [Nat.zero_add, List.getD_eq_getElem?_getD, ha, Option.getD_some]
  intro i d a hd ha
  have hload := @load_storeAll ds (fun i => dests.getD i 0) 0 st ?_ i d hd
  · rwa [hdest ha] at hload
  · intro i j d e hij hd he
    obtain ⟨a, ha⟩ : ∃ a, dests[i]? = some a := by
      obtain ⟨hlt, -⟩ := List.getElem?_eq_some_iff.mp hd
      exact ⟨_, List.getElem?_eq_getElem (by omega)⟩
    obtain ⟨b, hb⟩ : ∃ b, dests[j]? = some b := by
      obtain ⟨hlt, -⟩ := List.getElem?_eq_some_iff.mp he
      exact ⟨_, List.getElem?_eq_getElem (by omega)⟩
    rw [hdest ha, hdest hb]
    exact hsep i j d e a b hij hd he ha hb

/-- `%+08d` for -42 and `%#hhx` for 0x1ff. -/
def pair : List Directive :=
  [⟨[.forceSign, .zeroPadded], .digits [8], nofun, none, .none, .d, 0xFFFFFFFFFFFFFFD6⟩,
    ⟨[.alternateForm], .digits [], nofun, none, .shortShort, .x, 0x1FF⟩]

theorem separate_pair : Separate pair [4096, 8192] := by
  intro i j d e a b hij hd he ha hb
  match i, j with
  | 0, 0 => exact absurd rfl hij
  | 1, 1 => exact absurd rfl hij
  | 0, 1 =>
    cases hd; cases he; cases ha; cases hb
    exact (apart_of_le (by decide) (by decide)).1
  | 1, 0 =>
    cases hd; cases he; cases ha; cases hb
    exact (apart_of_le (by decide) (by decide)).2
  | i + 2, _ => cases hd
  | _, j + 2 => cases he

/-- `printf("%+08d %#hhx", -42, 0x1ff)` prints `-0000042 0xff`, and `scanf("%d %hhx", p, q)` reads -42
and 255 from that. -/
theorem scanf_printf_pair :
    ∃ result st', vsscanf plainEnv
        (some ([45, 48, 48, 48, 48, 48, 52, 50, 32, 48, 120, 102, 102] ++ [0]))
        (some (scanFormat pair)) (fun i => [4096, 8192].getD i 0) ⟨fun _ => 0, []⟩ =
          some (result, st') ∧
      result.toInt = pair.length ∧
      ∀ (i : Nat) d a, pair[i]? = some d → [(4096 : UInt64), 8192][i]? = some a →
        d.load st'.mem a = d.number := by
  obtain ⟨-, -, ⟨out, hprints⟩, hscan⟩ := scanf_printf_round_trip plainEnv pair [4096, 8192]
    (fun _ => 0) ⟨fun _ => 0, []⟩ [] rfl separate_pair (by decide)
  have hout : out = [45, 48, 48, 48, 48, 48, 52, 50, 32, 48, 120, 102, 102] := by
    obtain ⟨_, _, b, hrun, rfl⟩ := hprints
    have h : (printfInternal (printFormat pair) (fun i => (printArgs pair).getD i 0) (fun _ => 0)
        (.growing fun _ => true)).map (fun p => p.2.contents) =
        some [45, 48, 48, 48, 48, 48, 52, 50, 32, 48, 120, 102, 102] := by decide +kernel
    rw [hrun] at h
    exact Option.some.inj h
  rw [← hout]
  exact hscan out hprints (by rw [hout]; decide)

/-- These are the numbers. -/
example : pair.map Directive.number = [-42, 255] := by decide

end WindowsLibc.Scanf
