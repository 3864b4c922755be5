import Mathlib.Data.List.TakeWhile
import WindowsLibc.Printf.Counted

/-!
# The loop over the format (`wlibc_printf_internal`)

One turn of the loop prints a byte of the format or one conversion. The state of the loop is what is
left of the format, the arguments, the memory they point into and the count; the buffer is the state
of the monad.

* `printfIteration_emits`: a turn writes the same to every sound buffer and adds what it writes to the
  count, and the format behind what it reads has no part in it.
* `printfLoop_emits` is the same of the whole loop, by induction over its turns.
* `Runs` are the states that a run goes through. `StagedRun` asks of each of them that the conversion
  it is at stages within its arrays; this is what it takes for the run to end (`stagedRun_iff`).
* `printfInternal_count` puts the count, the buffers and `%n` together.
-/

namespace WindowsLibc.Printf

open WindowsLibc.Lib

/-- The variables of the loop; `format` is what is left of `in`. -/
structure Loop where
  format : List UInt8
  args : VariadicArgs
  mem : Memory
  result : UInt32

/-- How a turn ends: with the next one, at the end of the format, or with an error of the buffer. -/
inductive Iteration where
  | next (l : Loop)
  | done (l : Loop)
  | failed (l : Loop)

/-- `if (buffer->error) return -1`. -/
def checkError (l : Loop) : Output Iteration := do
  if (← get).error then return .failed l else return .next l

/-- Print a byte and go on at `format`. -/
def printByte (l : Loop) (byte : UInt8) (format : List UInt8) : Output Iteration := do
  writebyte byte
  return .next { l with format := format, result := l.result + 1 }

/-- One turn. -/
def printfIteration (l : Loop) : Output Iteration :=
  match l.format with
  | [] => pure (.done l)
  | [37] => do
    writebyte 37
    return .done { l with format := [], result := l.result + 1 }
  | 37 :: 37 :: format => printByte l 37 format
  | 37 :: format =>
    let (config, rest, args) := parsePrintSpecifier format l.args
    if config.type = .unknown then printByte l 37 format
    else do
      let (size, mem) ← printArg l.mem { config with result := l.result.toUInt64 }
      checkError ⟨rest, args, mem, l.result + size⟩
  | byte :: format => printByte l byte format

/-- The loop. A turn takes at least one byte, so the fuel need only exceed what is left. -/
def printfLoop : Nat → Loop → Output (Int32 × Memory)
  | 0, l => pure (l.result.toInt32, l.mem)
  | fuel + 1, l => do
    match ← printfIteration l with
    | .next l => printfLoop fuel l
    | .done l => return (l.result.toInt32, l.mem)
    | .failed l => return (-1, l.mem)

/-- The loop at its start. `strnlen` looks at 65536 bytes of the format at most. -/
def Loop.start (format : List UInt8) (list : Nat → UInt64) (mem : Memory) : Loop :=
  ⟨(format.takeWhile (· ≠ 0)).take 65536, .init list, mem, 0⟩

/-- `wlibc_printf_internal`: the value it returns, and the memory it leaves. -/
def printfInternal (format : List UInt8) (list : Nat → UInt64) (mem : Memory) :
    Output (Int32 × Memory) :=
  printfLoop ((Loop.start format list mem).format.length + 1) (Loop.start format list mem)

/-! ## One turn -/

/-- The conversion that the loop is at, if it is at one, and what follows it. -/
def Loop.directive (l : Loop) : Option (PrintConfig × List UInt8 × VariadicArgs) :=
  match l.format with
  | 37 :: 37 :: _ => none
  | 37 :: byte :: format =>
    let (config, rest, args) := parsePrintSpecifier (byte :: format) l.args
    if config.type = .unknown then none
    else some ({ config with result := l.result.toUInt64 }, rest, args)
  | _ => none

/-- The conversion the loop is at stages within its arrays. -/
def Loop.Staged (l : Loop) : Prop :=
  ∀ config rest args, l.directive = some (config, rest, args) → Printf.Staged config

/-- The loop behind a conversion. -/
def Loop.behind (l : Loop) (rest : List UInt8) (args : VariadicArgs) (size : UInt32) (mem : Memory) :
    Loop := ⟨rest, args, mem, l.result + size⟩

theorem directive_of_format {l : Loop} {format : List UInt8} (h : l.format = 37 :: format)
    (hnil : format = [] → False) (hpercent : ∀ rest, format = 37 :: rest → False) :
    l.directive =
      if (parsePrintSpecifier format l.args).1.type = .unknown then none
      else some ({ (parsePrintSpecifier format l.args).1 with result := l.result.toUInt64 },
        (parsePrintSpecifier format l.args).2) := by
  cases format with
  | nil => exact (hnil rfl).elim
  | cons byte format =>
    have hbyte : byte = 37 → False := by
      rintro rfl
      exact hpercent format rfl
    simp [Loop.directive, h]

theorem directive_of_literal {l : Loop} {byte : UInt8} {format : List UInt8}
    (h : l.format = byte :: format) (hbyte : byte ≠ 37) : l.directive = none := by
  simp [Loop.directive, h, hbyte]

/-- A turn at a conversion prints it. -/
theorem printfIteration_of_directive {l : Loop} {config : PrintConfig} {rest : List UInt8}
    {args : VariadicArgs} (h : l.directive = some (config, rest, args)) :
    (printfIteration l = do
        let (size, mem) ← printArg l.mem config
        checkError (l.behind rest args size mem)) ∧
      config.result = l.result.toUInt64 := by
  fun_cases printfIteration l
  case case5 format hnil hpercent hformat config' rest' args' hparse hknown =>
    rw [directive_of_format hformat hnil hpercent, hparse, if_neg hknown] at h
    cases h
    exact ⟨rfl, rfl⟩
  case case4 format hnil hpercent hformat config' rest' args' hparse hunknown =>
    rw [directive_of_format hformat hnil hpercent, hparse, if_pos hunknown] at h
    cases h
  case case6 byte format _ _ hbyte hformat =>
    rw [directive_of_literal hformat hbyte] at h
    cases h
  all_goals
    next hformat =>
      rw [Loop.directive, hformat] at h
      cases h

/-- A conversion that is complete is the same whatever follows it. -/
theorem directive_behind {l : Loop} {config : PrintConfig} {rest : List UInt8} {args : VariadicArgs}
    (h : l.directive = some (config, rest, args)) :
    ∃ front, front ≠ [] ∧ l.format = front ++ rest ∧
      ∀ rest', { l with format := front ++ rest' }.directive = some (config, rest', args) := by
  revert h
  fun_cases Loop.directive l
  case case3 byte format hpercent hformat config' rest₀ args₀ hparse hknown =>
    intro h
    cases h
    obtain ⟨spec, hspec, heq, hbehind⟩ := parsePrintSpecifier_known hparse hknown
    refine ⟨37 :: spec, List.cons_ne_nil _ _, ?_, ?_⟩
    · rw [hformat, heq]
      rfl
    · intro rest'
      cases spec with
      | nil => exact absurd rfl hspec
      | cons byte' spec =>
        cases heq
        have hdirective := @directive_of_format { l with format := 37 :: (byte :: spec ++ rest') }
          (byte :: spec ++ rest') rfl (fun h => by cases h)
          (fun rest h => hpercent (List.cons.inj h).1)
        dsimp only at hdirective
        rw [hbehind rest', if_neg hknown] at hdirective
        exact hdirective
  all_goals
    intro h
    cases h

/-- The format may be cut anywhere behind `front`: the turn that reads `front` writes `ws` all the
same. Only a `%` that is last ends the loop. -/
def Local (l : Loop) (ws : List (List UInt8)) (front : List UInt8) (l' : Loop) : Prop :=
  ∀ rest, rest <+: l'.format →
    sink.Emits (printfIteration { l with format := front ++ rest }) ws
        (.next { l' with format := rest }) ∨
      rest = [] ∧ sink.Emits (printfIteration { l with format := front ++ rest }) ws
        (.done { l' with format := rest })

/-- What a turn leaves behind it, having written `ws`. -/
def Follows (l : Loop) (ws : List (List UInt8)) : Iteration → Prop
  | .next l' => l'.result = l.result + count ws ∧
      ∃ front, front ≠ [] ∧ l.format = front ++ l'.format ∧ Local l ws front l'
  | .done l' => l'.result = l.result + count ws
  | .failed _ => False

theorem Follows.length_lt {l l' : Loop} {ws : List (List UInt8)} (h : Follows l ws (.next l')) :
    l'.format.length < l.format.length := by
  obtain ⟨-, front, hfront, hformat, -⟩ := h
  have hpos := List.length_pos_iff.mpr hfront
  rw [hformat, List.length_append]
  omega

theorem emits_printByte (l : Loop) (byte : UInt8) (format : List UInt8) :
    sink.Emits (printByte l byte format) [[byte]]
      (.next { l with format := format, result := l.result + 1 }) :=
  Sink.emits_bind (emits_writebyte byte) (Sink.emits_pure _)

theorem printfIteration_literal {l : Loop} {byte : UInt8} {format : List UInt8}
    (h : l.format = byte :: format) (hbyte : byte ≠ 37) :
    printfIteration l = printByte l byte format := by
  simp [printfIteration, h, hbyte]

theorem printfIteration_unknown {l : Loop} {byte : UInt8} {format : List UInt8}
    (h : l.format = 37 :: byte :: format) (hbyte : byte ≠ 37)
    (hunknown : (parsePrintSpecifier (byte :: format) l.args).1.type = .unknown) :
    printfIteration l = printByte l 37 (byte :: format) := by
  simp [printfIteration, h, hbyte, hunknown]

/-- What is no specification is none when it is cut short. -/
theorem unknown_of_cut {format rest : List UInt8} {args : VariadicArgs} (h : rest <+: format)
    (hunknown : (parsePrintSpecifier format args).1.type = .unknown) :
    (parsePrintSpecifier rest args).1.type = .unknown := by
  obtain ⟨more, rfl⟩ := h
  obtain ⟨config, rest', args', hparse⟩ :
      ∃ config rest' args', parsePrintSpecifier rest args = (config, rest', args') := ⟨_, _, _, rfl⟩
  rw [hparse]
  by_contra hknown
  obtain ⟨spec, -, rfl, hbehind⟩ := parsePrintSpecifier_known hparse hknown
  rw [List.append_assoc, hbehind] at hunknown
  exact hknown hunknown

/-- A turn that is not at a conversion prints one byte, or ends the loop. -/
theorem printfIteration_of_none {l : Loop} (h : l.directive = none) :
    ∃ ws it, sink.Emits (printfIteration l) ws it ∧ Follows l ws it := by
  fun_cases printfIteration l
  case case1 => exact ⟨[], _, Sink.emits_pure _, (UInt32.add_zero _).symm⟩
  case case2 =>
    exact ⟨_, _, Sink.emits_bind (emits_writebyte 37) (Sink.emits_pure _), rfl⟩
  case case3 format hformat =>
    refine ⟨_, _, emits_printByte l 37 format, rfl, [37, 37], by decide, hformat, ?_⟩
    intro rest _
    exact .inl (emits_printByte l 37 rest)
  case case4 format hnil hpercent hformat config rest args hparse hunknown =>
    -- the specification is not one: the loop is put back behind the `%`
    refine ⟨_, _, emits_printByte l 37 format, rfl, [37], by decide, hformat, ?_⟩
    rintro rest ⟨more, hmore⟩
    cases rest with
    | nil =>
      exact .inr ⟨rfl, Sink.emits_bind (emits_writebyte 37) (Sink.emits_pure _)⟩
    | cons byte rest =>
      have hbyte : byte ≠ 37 := by
        rintro rfl
        exact hpercent _ hmore.symm
      have hcut := @unknown_of_cut format (byte :: rest) l.args ⟨more, hmore⟩
        (by rw [hparse]; exact hunknown)
      have heq := @printfIteration_unknown { l with format := 37 :: byte :: rest } byte rest rfl
        hbyte hcut
      left
      rw [List.singleton_append, heq]
      exact emits_printByte l 37 (byte :: rest)
  case case5 format hnil hpercent hformat config rest args hparse hknown =>
    rw [directive_of_format hformat hnil hpercent, hparse, if_neg hknown] at h
    cases h
  case case6 byte format _ _ hbyte hformat =>
    refine ⟨_, _, emits_printByte l byte format, rfl, [byte], List.cons_ne_nil _ _, hformat, ?_⟩
    intro rest _
    have heq := @printfIteration_literal { l with format := byte :: rest } byte rest rfl hbyte
    left
    rw [List.singleton_append, heq]
    exact emits_printByte l byte rest

/-- A sound buffer reports no error. -/
theorem emits_checkError (l : Loop) : sink.Emits (checkError l) [] (.next l) := by
  intro b hb
  change (if b.error then pure (.failed l) else pure (.next l) : Output Iteration) b = _
  rw [hb.1]
  rfl

/-- **A turn writes the same to every sound buffer, and counts it.** -/
theorem printfIteration_emits {l : Loop} (h : l.Staged) :
    ∃ ws it, sink.Emits (printfIteration l) ws it ∧ Follows l ws it := by
  cases hdirective : l.directive with
  | none => exact printfIteration_of_none hdirective
  | some d =>
    obtain ⟨config, rest, args⟩ := d
    obtain ⟨ws, hws⟩ := printArg_emits l.mem (h config rest args hdirective)
    obtain ⟨front, hfront, hformat, hbehind⟩ := directive_behind hdirective
    have hnext : ∀ rest', sink.Emits (printfIteration { l with format := front ++ rest' }) (ws ++ [])
        (.next (l.behind rest' args (count ws) (stored l.mem config))) := by
      intro rest'
      rw [(printfIteration_of_directive (hbehind rest')).1]
      exact Sink.emits_bind hws (emits_checkError _)
    refine ⟨ws ++ [], .next (l.behind rest args (count ws) (stored l.mem config)), ?_, ?_, front,
      hfront, hformat, fun rest' _ => .inl (hnext rest')⟩
    · have hself : { l with format := front ++ rest } = l := by rw [← hformat]
      rw [← hself]
      exact hnext rest
    · rw [List.append_nil]
      rfl

theorem printfIteration_fault {l : Loop} (h : ¬ l.Staged) (b : Buffer) :
    printfIteration l b = none := by
  simp only [Loop.Staged, not_forall] at h
  obtain ⟨config, rest, args, hdirective, hstaged⟩ := h
  rw [(printfIteration_of_directive hdirective).1]
  change (printArg l.mem config b).bind _ = none
  rw [printArg_fault l.mem hstaged b, Option.bind_none]

/-- `%n` writes nothing, and stores the count. -/
theorem printfIteration_result {l : Loop} {config : PrintConfig} {rest : List UInt8}
    {args : VariadicArgs} (h : l.directive = some (config, rest, args))
    (htype : config.type = .result) :
    ∃ l', sink.Emits (printfIteration l) [] (.next l') ∧
      l'.mem = storeResult l.mem config.data config.modifier.resultBytes l.result.toNat := by
  obtain ⟨heq, hresult⟩ := printfIteration_of_directive h
  refine ⟨l.behind rest args 0 (storeResult l.mem config.data config.modifier.resultBytes
    config.result.toNat), ?_, ?_⟩
  · rw [heq]
    simp only [printArg, htype]
    exact Sink.emits_bind (Sink.emits_pure _) (emits_checkError _)
  · rw [Loop.behind, hresult, UInt32.toNat_toUInt64]

/-! ## The whole loop -/

/-- The states that a run goes through, with the buffer at each. -/
inductive Runs (b₀ : Buffer) (l₀ : Loop) : Buffer → Loop → Prop
  | start : Runs b₀ l₀ b₀ l₀
  | step {b b' : Buffer} {l l' : Loop} :
      Runs b₀ l₀ b l → printfIteration l b = some (.next l', b') → Runs b₀ l₀ b' l'

/-- Every conversion of the run stages within its arrays. -/
def StagedRun (b₀ : Buffer) (l₀ : Loop) : Prop := ∀ b l, Runs b₀ l₀ b l → l.Staged

theorem Runs.head {b b₁ b' : Buffer} {l l₁ l' : Loop}
    (h : printfIteration l b = some (.next l₁, b₁)) (hruns : Runs b₁ l₁ b' l') :
    Runs b l b' l' := by
  induction hruns with
  | start => exact .step .start h
  | step _ hstep ih => exact .step ih hstep

theorem printfLoop_end {fuel : Nat} {l : Loop} (h : l.format = []) (hfuel : 0 < fuel) :
    sink.Emits (printfLoop fuel l) [] (l.result.toInt32, l.mem) := by
  cases fuel with
  | zero => exact absurd hfuel (Nat.not_lt_zero _)
  | succ fuel =>
    have hturn : printfIteration l = pure (.done l) := by
      rw [printfIteration, h]
    rw [printfLoop, hturn]
    exact Sink.emits_bind (Sink.emits_pure _) (Sink.emits_pure _)

/-- A turn, and what the loop does then. -/
theorem printfLoop_next {fuel : Nat} {l l' : Loop} {ws vs : List (List UInt8)} {a : Int32 × Memory}
    (hturn : sink.Emits (printfIteration l) ws (.next l'))
    (hloop : sink.Emits (printfLoop fuel l') vs a) :
    sink.Emits (printfLoop (fuel + 1) l) (ws ++ vs) a := by
  rw [printfLoop]
  exact Sink.emits_bind hturn hloop

/-- **The loop writes the same to every sound buffer, and returns how much.** -/
theorem printfLoop_emits {fuel : Nat} {l : Loop} (hfuel : l.format.length < fuel) {b : Buffer}
    (hb : b.Sound) (h : StagedRun b l) :
    ∃ ws mem, sink.Emits (printfLoop fuel l) ws ((l.result + count ws).toInt32, mem) := by
  induction fuel generalizing l b with
  | zero => exact absurd hfuel (Nat.not_lt_zero _)
  | succ fuel ih =>
    obtain ⟨ws, it, hws, hfollows⟩ := printfIteration_emits (h b l .start)
    cases it with
    | next l' =>
      -- Every turn but the last reads some of the format, so the fuel lasts.
      have hlength := hfollows.length_lt
      have hresult := hfollows.1
      have hstep := hws b hb
      obtain ⟨vs, mem, hvs⟩ := ih (show l'.format.length < fuel by omega) (sink.sound_puts hb ws)
        (fun b' l'' hruns => h b' l'' (hruns.head hstep))
      refine ⟨ws ++ vs, mem, ?_⟩
      rw [count_append, ← UInt32.add_assoc, ← hresult]
      exact printfLoop_next hws hvs
    | done l' =>
      refine ⟨ws ++ [], l'.mem, ?_⟩
      rw [count_append, count_nil, UInt32.add_zero, ← show l'.result = _ from hfollows]
      exact Sink.emits_bind hws (Sink.emits_pure _)
    | failed _ => exact hfollows.elim

/-- A run that ends, ends from every state it goes through. -/
theorem Runs.resume {fuel : Nat} {l l' : Loop} {b b' out : Buffer} {a : Int32 × Memory}
    (hfuel : l.format.length < fuel) (hb : b.Sound) (h : printfLoop fuel l b = some (a, out))
    (hruns : Runs b l b' l') :
    b'.Sound ∧ l'.Staged ∧
      ∃ fuel', l'.format.length < fuel' ∧ printfLoop fuel' l' b' = some (a, out) := by
  -- A turn that is not staged faults, so every state of a run that ends is staged.
  have hstaged : ∀ {fuel l b}, printfLoop fuel l b = some (a, out) → l.format.length < fuel →
      l.Staged := by
    intro fuel l b h hfuel
    by_contra hnot
    cases fuel with
    | zero => exact absurd hfuel (Nat.not_lt_zero _)
    | succ fuel =>
      change (printfIteration l b).bind _ = _ at h
      rw [printfIteration_fault hnot b] at h
      cases h
  induction hruns with
  | start => exact ⟨hb, hstaged h hfuel, fuel, hfuel, h⟩
  | step _ hstep ih =>
    obtain ⟨hb', hstaged', fuel', hfuel', h'⟩ := ih
    obtain ⟨ws, it, hws, hfollows⟩ := printfIteration_emits hstaged'
    obtain ⟨rfl, rfl⟩ := hws.run hb' hstep
    cases fuel' with
    | zero => exact absurd hfuel' (Nat.not_lt_zero _)
    | succ fuel' =>
      change (printfIteration _ _).bind _ = _ at h'
      rw [hstep] at h'
      have hlength := hfollows.length_lt
      exact ⟨sink.sound_puts hb' ws, hstaged h' (by omega), fuel', by omega, h'⟩

/-- The loop ends exactly if everything it stages fits. -/
theorem stagedRun_iff {fuel : Nat} {l : Loop} (hfuel : l.format.length < fuel) {b : Buffer}
    (hb : b.Sound) : StagedRun b l ↔ (printfLoop fuel l b).isSome := by
  constructor
  · intro h
    obtain ⟨ws, mem, hws⟩ := printfLoop_emits hfuel hb h
    rw [hws b hb]
    rfl
  · intro h b' l' hruns
    obtain ⟨⟨a, out⟩, hout⟩ := Option.isSome_iff_exists.mp h
    exact (hruns.resume hfuel hb hout).2.1

/-- `before` leads from `l` to `l'` and writes `ws`, whatever part of the rest of the format is there
to follow. -/
def LocalRun (l : Loop) (ws : List (List UInt8)) (before : List UInt8) (l' : Loop) : Prop :=
  ∀ rest, rest <+: l'.format → ∀ vs a,
    (∀ fuel, rest.length < fuel →
      sink.Emits (printfLoop fuel { l' with format := rest }) vs a) →
    ∀ fuel, (before ++ rest).length < fuel →
      sink.Emits (printfLoop fuel { l with format := before ++ rest }) (ws ++ vs) a

/-- A turn, and what the loop does then. -/
theorem Local.loop {l l' : Loop} {ws vs : List (List UInt8)} {front rest : List UInt8}
    {a : Int32 × Memory} (h : Local l ws front l') (hfront : front ≠ []) (hrest : rest <+: l'.format)
    (hloop : ∀ fuel, rest.length < fuel →
      sink.Emits (printfLoop fuel { l' with format := rest }) vs a)
    {fuel : Nat} (hfuel : (front ++ rest).length < fuel) :
    sink.Emits (printfLoop fuel { l with format := front ++ rest }) (ws ++ vs) a := by
  have hpos := List.length_pos_iff.mpr hfront
  rw [List.length_append] at hfuel
  cases fuel with
  | zero => exact absurd hfuel (Nat.not_lt_zero _)
  | succ fuel =>
    rcases h rest hrest with hnext | ⟨rfl, hdone⟩
    · exact printfLoop_next hnext (hloop fuel (by omega))
    · -- the loop ends one turn early, in front of nothing
      intro b hb
      have hturn := hdone b hb
      have hempty := hloop 1 Nat.one_pos (sink.puts b ws) (sink.sound_puts hb ws)
      rw [sink.puts_append, ← hempty]
      change (printfIteration _ b).bind _ = _
      rw [hturn]
      rfl

/-- At every state of a run, the count is that of what has been written, and that is what the part of
the format before it writes. -/
theorem Runs.count_eq {b b' : Buffer} {l l' : Loop} (hb : b.Sound) (h : StagedRun b l)
    (hruns : Runs b l b' l') :
    ∃ ws before, b' = sink.puts b ws ∧ l'.result = l.result + count ws ∧
      l.format = before ++ l'.format ∧ LocalRun l ws before l' := by
  induction hruns with
  | start =>
    exact ⟨[], [], rfl, (UInt32.add_zero _).symm, rfl, fun _ _ _ _ hloop fuel => hloop fuel⟩
  | step hruns hstep ih =>
    obtain ⟨ws, before, rfl, hresult, hformat, hbefore⟩ := ih
    obtain ⟨vs, it, hvs, hfollows⟩ := printfIteration_emits (h _ _ hruns)
    obtain ⟨rfl, rfl⟩ := hvs.run (sink.sound_puts hb ws) hstep
    obtain ⟨hresult', front, hfront, hformat', hlocal⟩ := hfollows
    refine ⟨ws ++ vs, before ++ front, (sink.puts_append b ws vs).symm, ?_, ?_, ?_⟩
    · rw [count_append, ← UInt32.add_assoc, ← hresult]
      exact hresult'
    · rw [hformat, hformat', List.append_assoc]
    · intro rest hrest us a hloop fuel hfuel
      -- What is cut behind `front` is cut behind `before` for the turns before this one.
      have hcut : front ++ rest <+: front ++ _ := (List.prefix_append_right_inj front).mpr hrest
      rw [← hformat'] at hcut
      have hmore := hbefore (front ++ rest) hcut (vs ++ us) a
        (fun fuel hfuel => hlocal.loop hfront hrest hloop hfuel) fuel
      rw [List.append_assoc] at hfuel ⊢
      rw [List.append_assoc]
      exact hmore hfuel

/-- A format of so many bytes is read to its end. -/
theorem take_format {format : List UInt8} (hzero : ∀ c ∈ format, c ≠ 0)
    (hlength : format.length ≤ 65536) : (format.takeWhile (· ≠ 0)).take 65536 = format := by
  rw [List.takeWhile_eq_self_iff.mpr (by simpa using hzero), List.take_of_length_le hlength]

/-- And so is one that is cut short. -/
theorem start_of_cut {format before rest : List UInt8} {list : Nat → UInt64} {mem : Memory}
    (h : (Loop.start format list mem).format = before ++ rest) :
    Loop.start before list mem = { Loop.start format list mem with format := before } := by
  have hmem : ∀ byte ∈ before, byte ≠ 0 := by
    intro byte hbyte
    have hin : byte ∈ (Loop.start format list mem).format := by
      rw [h]
      exact List.mem_append_left rest hbyte
    simpa using List.mem_takeWhile_imp (List.mem_of_mem_take hin)
  have hlength : before.length ≤ 65536 := by
    have hle := List.length_take_le 65536 (format.takeWhile (· ≠ 0))
    have heq := congrArg List.length h
    rw [List.length_append] at heq
    exact Nat.le_trans (Nat.le.intro heq.symm) hle
  exact congrArg (fun cut => Loop.mk cut (.init list) mem 0) (take_format hmem hlength)

/-- The part of the format before a state of a run prints what has been printed there. -/
theorem Runs.printfInternal_before {format : List UInt8} {list : Nat → UInt64} {mem : Memory}
    {b b' : Buffer} {l : Loop} (hb : b.Sound) (h : StagedRun b (.start format list mem))
    (hruns : Runs b (.start format list mem) b' l) :
    ∃ before a, (Loop.start format list mem).format = before ++ l.format ∧
      printfInternal before list mem b = some (a, b') := by
  obtain ⟨ws, before, rfl, -, hformat, hbefore⟩ := hruns.count_eq hb h
  have hemits := hbefore [] List.nil_prefix [] (l.result.toInt32, l.mem)
    (fun fuel hfuel => printfLoop_end rfl hfuel)
  rw [List.append_nil, List.append_nil] at hemits
  refine ⟨before, (l.result.toInt32, l.mem), hformat, ?_⟩
  rw [printfInternal, start_of_cut hformat]
  exact hemits _ (Nat.lt_succ_self _) b hb

/-- What has been written at a state of a run stays written. -/
theorem Runs.contents_kept {fuel : Nat} {l l' : Loop} {b b' out : Buffer} {a : Int32 × Memory}
    (hfuel : l.format.length < fuel) (hb : b.Sound) (hgrows : Grows b)
    (h : printfLoop fuel l b = some (a, out)) (hruns : Runs b l b' l') :
    b'.contents <+: out.contents := by
  have hstaged := (stagedRun_iff hfuel hb).mpr (by rw [h]; rfl)
  obtain ⟨vs, -, rfl, -, -, -⟩ := hruns.count_eq hb hstaged
  obtain ⟨hb', -, fuel', hfuel', hrest⟩ := hruns.resume hfuel hb h
  have hstaged' := (stagedRun_iff hfuel' hb').mpr (by rw [hrest]; rfl)
  obtain ⟨us, mem, hus⟩ := printfLoop_emits hfuel' hb' hstaged'
  obtain ⟨-, rfl⟩ := hus.run hb' hrest
  rw [← sink.puts_append, (contents_puts hgrows hb vs).1, (contents_puts hgrows hb (vs ++ us)).1,
    List.flatten_append, ← List.append_assoc]
  exact List.prefix_append _ _

theorem toNat_count {ws : List (List UInt8)} (h : ws.flatten.length < 2 ^ 31) :
    (count ws).toNat = ws.flatten.length :=
  UInt32.toNat_ofNat_of_lt' (Nat.lt_trans h (by decide))

theorem toInt_ofNat {n : Nat} (h : n < 2 ^ 31) : (UInt32.ofNat n).toInt32.toInt = n := by
  have hnat : (UInt32.ofNat n).toNat = n := UInt32.toNat_ofNat_of_lt' (Nat.lt_trans h (by decide))
  change (UInt32.ofNat n).toBitVec.toInt = _
  rw [BitVec.toInt_eq_toNat_of_lt]
  · exact congrArg Int.ofNat hnat
  · change 2 * (UInt32.ofNat n).toNat < 2 ^ 32
    omega

theorem toInt_count {ws : List (List UInt8)} (h : ws.flatten.length < 2 ^ 31) :
    (count ws).toInt32.toInt = ws.flatten.length := toInt_ofNat h

/-- **What `printf` returns is what it prints**, into memory that grows or any fixed buffer, and `%n`
stores how much the part of the format before it prints. -/
theorem printfInternal_count (format : List UInt8) (list : Nat → UInt64) (mem : Memory)
    {alloc : Nat → Bool} (halloc : ∀ n, alloc n = true)
    (hstaged : StagedRun (.growing alloc) (.start format list mem)) :
    ∃ result mem' out,
      printfInternal format list mem (.growing alloc) = some ((result, mem'), out) ∧
      (out.contents.length < 2 ^ 31 →
        result.toInt = out.contents.length ∧
        (∀ data size, ∃ out',
          printfInternal format list mem (.fixed data size) = some ((result, mem'), out')) ∧
        ∀ b l config rest args, Runs (.growing alloc) (.start format list mem) b l →
          l.directive = some (config, rest, args) → config.type = .result →
          (∃ before a, (Loop.start format list mem).format = before ++ l.format ∧
            printfInternal before list mem (.growing alloc) = some (a, b)) ∧
          ∃ l', printfIteration l b = some (.next l', b) ∧
            l'.mem = storeResult l.mem config.data config.modifier.resultBytes
              b.contents.length) := by
  have hgrows := grows_growing alloc
  have hsound := sound_growing halloc
  have hfuel := Nat.lt_succ_self (Loop.start format list mem).format.length
  obtain ⟨ws, mem', hws⟩ := printfLoop_emits hfuel hsound hstaged
  have hout := hws _ hsound
  have hcontents : (sink.puts (.growing alloc) ws).contents = ws.flatten :=
    (contents_puts hgrows hsound ws).1
  refine ⟨_, mem', _, hout, ?_⟩
  rw [hcontents]
  intro hlen
  refine ⟨?_, ?_, ?_⟩
  · rw [← toInt_count hlen]
    exact congrArg (fun n => (UInt32.toInt32 n).toInt) (UInt32.zero_add _)
  · intro data size
    exact ⟨_, hws (.fixed data size) (sound_fixed data size)⟩
  · intro b l config rest args hruns hdirective htype
    -- What is written before `%n` is part of the whole output, so its length is below `2 ^ 31` too.
    obtain ⟨vs, -, rfl, hresult, -, -⟩ := hruns.count_eq hsound hstaged
    obtain ⟨hb, -, -⟩ := hruns.resume hfuel hsound hout
    obtain ⟨l', hl', hmem⟩ := printfIteration_result hdirective htype
    refine ⟨hruns.printfInternal_before hsound hstaged, l', hl' _ hb, ?_⟩
    have hbefore : (sink.puts (.growing alloc) vs).contents = vs.flatten :=
      (contents_puts hgrows hsound vs).1
    have hle := (hruns.contents_kept hfuel hsound hgrows hout).length_le
    rw [hbefore, hcontents] at hle
    rw [hmem, hresult, hbefore]
    apply congrArg
    rw [← toNat_count (Nat.lt_of_le_of_lt hle hlen)]
    exact congrArg UInt32.toNat (UInt32.zero_add _)

/-- `printf("a%nbc%c%n", p, 'd', q)` prints and returns four bytes. -/
theorem printfInternal_count_abcd :
    ∃ result mem' out,
      printfInternal [97, 37, 110, 98, 99, 37, 99, 37, 110] (fun i => [4096, 100, 8192].getD i 0)
        (fun _ => 0) (.growing fun _ => true) = some ((result, mem'), out) ∧
      out.contents = [97, 98, 99, 100] ∧ result.toInt = 4 := by
  have hstaged : StagedRun (.growing fun _ => true) (.start [97, 37, 110, 98, 99, 37, 99, 37, 110]
      (fun i => [4096, 100, 8192].getD i 0) (fun _ => 0)) :=
    (stagedRun_iff (Nat.lt_succ_self _) (sound_growing fun _ => rfl)).mpr (by decide +kernel)
  obtain ⟨result, mem', out, hrun, hcount⟩ :=
    printfInternal_count _ _ _ (fun _ => rfl) hstaged
  have hcontents : out.contents = [97, 98, 99, 100] := by
    have h : (printfInternal [97, 37, 110, 98, 99, 37, 99, 37, 110]
        (fun i => [4096, 100, 8192].getD i 0) (fun _ => 0) (.growing fun _ => true)).map
          (fun p => p.2.contents) = some [97, 98, 99, 100] := by decide +kernel
    rw [hrun] at h
    exact Option.some.inj h
  refine ⟨result, mem', out, hrun, hcontents, ?_⟩
  have hresult := (hcount (by rw [hcontents]; decide)).1
  rw [hresult, hcontents]
  rfl

end WindowsLibc.Printf
