import WindowsLibc.Spawn.RoundTrip

/-!
# Command lines that are too long (`spawn/spawn.c`)

Windows takes command lines of up to 32767 UTF-16 units and a terminator. `wlibc_common_spawn` compares the
size that `convert_argv_to_wargv` reports with this limit. That size is a sum of lengths which have been
narrowed to 16 bits, one for each argument, and so is what is converted.

* `spawnArguments` is the conversion and the test behind it.
* `limit_kept_iff` says which command lines are treated as they should be: rejected when they are too long,
  and built as a whole when they are not.
-/

namespace WindowsLibc.Spawn

open WindowsLibc.Lib

/-! ## The test -/

/-- The error that ends `wlibc_common_spawn` at its arguments. -/
inductive ArgumentError where
  /-- `convert_argv_to_wargv` has failed. -/
  | notConverted
  | e2big
  deriving DecidableEq, Repr

/-- The beginning of `wlibc_common_spawn`: the command line with which it goes on. -/
def spawnArguments (U : Utf8ToUtf16) (argv : List CString) : Except ArgumentError (List UInt16) :=
  match convertArgvToWargv U argv with
  | .failed => .error .notConverted
  | .empty => .ok []
  | .line units => if 65536 ≤ argvSize argv then .error .e2big else .ok units

/-- What `convert_argv_to_wargv` returns, NULL for no arguments being a line of nothing. -/
def Wargv.units : Wargv → Option (List UInt16)
  | .empty => some []
  | .failed => none
  | .line units => some units

/-- The arguments, quoted and joined by spaces. -/
def commandLine (args : List (List UInt16)) : List UInt16 := units.join (args.map units.quote)

/-- A command line with its terminator that has 32768 units or more is rejected, any shorter one is built. -/
def LimitKept (U : Utf8ToUtf16) (argv : List CString) (args : List (List UInt16)) : Prop :=
  if 32768 ≤ (commandLine args).length + 1 then ∃ e, spawnArguments U argv = .error e
  else (convertArgvToWargv U argv).units = some (commandLine args)

/-! ## What is built -/

/-- The quoted length of an argument, in bytes. -/
def quotedLength (arg : CString) : Nat := (bytes.quote arg.bytes).length

/-- The sum of the `MaximumLength`s. -/
def narrowedTotal (argv : List CString) : Nat := (argv.map (fun arg => (quotedLength arg + 1) % 65536)).sum

theorem argvSize_eq (argv : List CString) : argvSize argv = 2 * narrowedTotal argv := by
  have hone : ∀ arg : CString, ((u8Arg arg).2 + 1).toNat = (quotedLength arg + 1) % 65536 := by
    intro arg
    have hsize := (convertArgvToWindowsCmd_spec arg.bytes).2
    rw [quotedLength, ← hsize]
    change (UInt16.ofNat (convertArgvToWindowsCmd arg.bytes).2 + 1).toNat = _
    rw [UInt16.toNat_add, UInt16.toNat_ofNat', UInt16.toNat_one]
    omega
  rw [argvSize, narrowedTotal, List.map_map, Nat.mul_comm]
  exact congrArg (fun sizes => 2 * List.sum sizes) (List.map_congr_left (fun arg _ => hone arg))

theorem cut_unique (U : Utf8ToUtf16) {argv : List CString} {cuts cuts' : List (List UInt16)}
    (h : Cut U argv cuts) (h' : Cut U argv cuts') : cuts = cuts' :=
  List.right_unique_forall₂' (fun _ _ _ hus hus' => Option.some.inj (hus.symm.trans hus')) h h'

/-- The line that is built: the texts that are converted, joined. -/
theorem convertArgvToWargv_units (U : Utf8ToUtf16) (argv : List CString) (line : List UInt16) :
    (convertArgvToWargv U argv).units = some line ↔
      ∃ cuts, Cut U argv cuts ∧ Room (argvSize argv) 0 cuts ∧ line = units.join cuts := by
  cases argv with
  | nil =>
    constructor
    · intro h
      cases h
      exact ⟨[], List.Forall₂.nil, trivial, rfl⟩
    · rintro ⟨cuts, hcuts, -, rfl⟩
      cases hcuts
      rfl
  | cons first rest =>
    have hloop := @convertFrom_cut U (argvSize (first :: rest)) (first :: rest) []
    rw [convertArgvToWargv, if_neg (by simp)]
    cases hout : convertFrom U (argvSize (first :: rest)) [] ((first :: rest).map u8Arg) with
    | none =>
      constructor
      · intro h
        cases h
      · rintro ⟨cuts, hcuts, hroom, -⟩
        exact absurd (hout.symm.trans (hloop.mpr ⟨cuts, hcuts, hroom, rfl⟩)) (by simp)
    | some out =>
      obtain ⟨cuts, hcuts, hroom, rfl⟩ := hloop.mp hout
      have hline : (([] : List UInt16) ++ cuts.flatMap (fun us => us ++ [32])).dropLast = units.join cuts := by
        cases hcuts with
        | cons _ _ => rw [List.nil_append, dropLast_flatMap_space]
      constructor
      · intro h
        cases h
        exact ⟨cuts, hcuts, hroom, hline⟩
      · rintro ⟨cuts', hcuts', hroom', rfl⟩
        have hsame : cuts' = cuts := cut_unique U hcuts' hcuts
        rw [hsame, ← hline]
        rfl

/-- A command line is rejected, unless its texts are converted and find room, and the total is small. -/
theorem spawnArguments_error_iff (U : Utf8ToUtf16) (argv : List CString) :
    (∃ e, spawnArguments U argv = .error e) ↔
      32768 ≤ narrowedTotal argv ∨ ¬ ∃ cuts, Cut U argv cuts ∧ Room (argvSize argv) 0 cuts := by
  have hunits := convertArgvToWargv_units U argv
  have hsome : (∃ line, (convertArgvToWargv U argv).units = some line) ↔
      ∃ cuts, Cut U argv cuts ∧ Room (argvSize argv) 0 cuts := by
    constructor
    · rintro ⟨line, hline⟩
      obtain ⟨cuts, hcuts, hroom, -⟩ := (hunits line).mp hline
      exact ⟨cuts, hcuts, hroom⟩
    · rintro ⟨cuts, hcuts, hroom⟩
      exact ⟨_, (hunits _).mpr ⟨cuts, hcuts, hroom, rfl⟩⟩
  rw [← hsome]
  cases argv with
  | nil =>
    have hempty : convertArgvToWargv U [] = .empty := rfl
    have htotal : narrowedTotal [] = 0 := rfl
    simp [spawnArguments, hempty, htotal, Wargv.units]
  | cons first rest =>
    have hsize := argvSize_eq (first :: rest)
    cases hr : convertArgvToWargv U (first :: rest) with
    | empty =>
      rw [convertArgvToWargv, if_neg (by simp)] at hr
      split at hr
      · contradiction
      · contradiction
    | failed => simp [spawnArguments, hr, Wargv.units]
    | line out =>
      simp only [spawnArguments, hr, Wargv.units]
      by_cases hbig : 65536 ≤ argvSize (first :: rest)
      · rw [if_pos hbig]
        exact ⟨fun _ => Or.inl (by omega), fun _ => ⟨_, rfl⟩⟩
      · rw [if_neg hbig]
        constructor
        · rintro ⟨e, he⟩
          contradiction
        · rintro (htotal | hnone)
          · omega
          · exact absurd ⟨_, rfl⟩ hnone

/-! ## Whole lines -/

/-- The system converts a text from its front, a character at a time. -/
structure WholeCharacters (U : Utf8ToUtf16) : Prop where
  decode_append : ∀ xs ys us vs, U.decode xs = some us → U.decode (xs ++ ys) = some vs →
    ∃ ws, U.decode ys = some ws ∧ vs = us ++ ws

/-- An argument that has been cut has lost units. -/
theorem length_cut_le {U : Utf8ToUtf16} (hU : WholeCharacters U) {arg : CString} {us cs : List UInt16}
    (hus : U.decode arg.bytes = some us) (hcs : U.decode (cut arg) = some cs) :
    cs.length ≤ (units.quote us).length ∧
      (65536 ≤ quotedLength arg → cs.length < (units.quote us).length) := by
  have hwhole : U.decode (bytes.quote arg.bytes) = some (units.quote us) := by
    rw [decode_quote, hus]
    rfl
  rw [cut_eq] at hcs
  rw [← List.take_append_drop ((bytes.quote arg.bytes).length % 65536) (bytes.quote arg.bytes)] at hwhole
  obtain ⟨ws, hws, hsplit⟩ := hU.decode_append _ _ _ _ hcs hwhole
  rw [hsplit, List.length_append]
  refine ⟨Nat.le_add_right _ _, fun hlong => ?_⟩
  have hlost : ws ≠ [] := by
    rintro rfl
    have hnil := congrArg List.length (U.decode_nonempty _ hws)
    rw [List.length_drop, List.length_nil] at hnil
    rw [quotedLength] at hlong
    omega
  have hpos := List.length_pos_iff.mpr hlost
  omega

/-- The units of arguments with one behind each. -/
def spaced (args : List (List UInt16)) : Nat := (args.map (fun us => us.length + 1)).sum

theorem length_join (us : List UInt16) (args : List (List UInt16)) :
    (units.join (us :: args)).length + 1 = spaced (us :: args) := by
  induction args generalizing us with
  | nil => rw [Alphabet.join, List.intercalate_singleton]; rfl
  | cons vs args ih =>
    have ih := ih vs
    rw [Alphabet.join] at ih ⊢
    rw [List.intercalate_cons_cons, List.append_assoc, List.length_append, List.length_append,
      List.length_singleton]
    have hcons : spaced (us :: vs :: args) = us.length + 1 + spaced (vs :: args) := List.sum_cons
    omega

/-- The line is shorter where an argument has been cut. -/
theorem spaced_cut_le {U : Utf8ToUtf16} (hU : WholeCharacters U) {argv : List CString}
    {args cuts : List (List UInt16)} (hargs : Converted U argv args) (hcuts : Cut U argv cuts) :
    spaced cuts ≤ spaced (args.map units.quote) ∧
      ((∃ arg ∈ argv, 65536 ≤ quotedLength arg) → spaced cuts < spaced (args.map units.quote)) := by
  have hcons : ∀ (us : List UInt16) (args : List (List UInt16)),
      spaced (us :: args) = us.length + 1 + spaced args := fun _ _ => List.sum_cons
  induction hargs generalizing cuts with
  | nil =>
    cases hcuts
    refine ⟨Nat.le_refl _, ?_⟩
    rintro ⟨arg, harg, -⟩
    exact absurd harg List.not_mem_nil
  | cons hus hargs ih =>
    cases hcuts with
    | cons hcs hcuts =>
      obtain ⟨hle, hlt⟩ := length_cut_le hU hus hcs
      obtain ⟨hle', hlt'⟩ := ih hcuts
      rw [List.map_cons, hcons, hcons]
      refine ⟨by omega, ?_⟩
      rintro ⟨arg, harg, hlong⟩
      rcases List.mem_cons.mp harg with rfl | harg
      · have h := hlt hlong
        omega
      · have h := hlt' ⟨arg, harg, hlong⟩
        omega

/-- The whole line is built exactly if no argument is cut and every one finds room. -/
theorem convertArgvToWargv_whole_iff {U : Utf8ToUtf16} (hU : WholeCharacters U) {argv : List CString}
    {args : List (List UInt16)} (hargs : Converted U argv args) :
    (convertArgvToWargv U argv).units = some (commandLine args) ↔
      (∀ arg ∈ argv, quotedLength arg < 65536) ∧ Room (argvSize argv) 0 (args.map units.quote) := by
  rw [convertArgvToWargv_units]
  constructor
  · rintro ⟨cuts, hcuts, hroom, hline⟩
    obtain ⟨-, hlt⟩ := spaced_cut_le hU hargs hcuts
    have hspaced : spaced cuts = spaced (args.map units.quote) := by
      cases hargs with
      | nil =>
        cases hcuts
        rfl
      | cons _ _ =>
        cases hcuts with
        | cons _ _ => rw [List.map_cons, ← length_join, ← length_join, ← hline, commandLine, List.map_cons]
    have hshort : ∀ arg ∈ argv, quotedLength arg < 65536 := by
      intro arg harg
      by_contra hlong
      have h := hlt ⟨arg, harg, Nat.le_of_not_lt hlong⟩
      omega
    obtain ⟨args', hargs', rfl⟩ := (cut_iff_converted U hshort).mp hcuts
    rw [converted_unique U hargs hargs']
    exact ⟨hshort, hroom⟩
  · rintro ⟨hshort, hroom⟩
    exact ⟨_, (cut_iff_converted U hshort).mpr ⟨args, hargs, rfl⟩, hroom, rfl⟩

/-- A line that is too long: the sizes, in 16 bits, still come to the limit, or what is left of the arguments
cannot be converted or finds no room. A shorter line: no argument has 65536 bytes, and every one finds room in
16 bits. -/
def LimitMet (U : Utf8ToUtf16) (argv : List CString) (args : List (List UInt16)) : Prop :=
  if 32768 ≤ (commandLine args).length + 1 then
    32768 ≤ narrowedTotal argv ∨ ¬ ∃ cuts, Cut U argv cuts ∧ Room (argvSize argv) 0 cuts
  else (∀ arg ∈ argv, quotedLength arg < 65536) ∧ Room (argvSize argv) 0 (args.map units.quote)

/-- Lines that are too long are rejected if no quoted argument has 65535 bytes or more. -/
theorem limitMet_of_short {U : Utf8ToUtf16} {argv : List CString} {args : List (List UInt16)}
    (hargs : Converted U argv args) (hshort : Short argv) (hlong : 32768 ≤ (commandLine args).length + 1) :
    LimitMet U argv args := by
  rw [LimitMet, if_pos hlong]
  left
  have hle : spaced (args.map units.quote) ≤ narrowedTotal argv := by
    clear hlong
    induction hargs with
    | nil => exact Nat.le_refl 0
    | @cons arg us argv args hus hargs ih =>
      have hone := quote_length_le U (hshort _ List.mem_cons_self) hus
      have hsize := argvSize_eq [arg]
      rw [argvSize_cons] at hsize
      have hnil : argvSize [] = 0 := rfl
      have hcons : spaced ((us :: args).map units.quote) =
          (units.quote us).length + 1 + spaced (args.map units.quote) := List.sum_cons
      have htotal : narrowedTotal (arg :: argv) = narrowedTotal [arg] + narrowedTotal argv := by
        rw [narrowedTotal, List.map_cons, List.sum_cons]
        rfl
      have ih := ih (fun a ha => hshort a (List.mem_cons_of_mem _ ha))
      omega
  cases hargs with
  | nil =>
    have hnil : (commandLine []).length + 1 = 1 := rfl
    omega
  | cons _ _ =>
    rw [commandLine, List.map_cons, length_join] at hlong
    exact Nat.le_trans hlong hle

/-- **The limit.** When command lines that are too long are rejected, and others built as a whole. -/
theorem limit_kept_iff (U : Utf8ToUtf16) (hU : WholeCharacters U) (argv : List CString)
    (args : List (List UInt16)) (hargs : Converted U argv args) :
    LimitKept U argv args ↔ LimitMet U argv args := by
  rw [LimitKept, LimitMet]
  split
  · exact spawnArguments_error_iff U argv
  · exact convertArgvToWargv_whole_iff hU hargs

/-! ### Two command lines -/

theorem wholeCharacters_ascii : WholeCharacters ascii where
  decode_append := by
    intro xs ys us vs hus hvs
    simp only [ascii, List.all_append, Bool.and_eq_true, List.map_append, Option.ite_none_right_eq_some,
      Option.some.injEq] at hus hvs ⊢
    exact ⟨ys.map UInt8.toUInt16, ⟨hvs.1.2, rfl⟩, by rw [← hvs.2, hus.2]⟩

/-- So many times the letter a. -/
def letters (n : Nat) : CString where
  bytes := List.replicate n 97
  no_nul := fun h => absurd (List.eq_of_mem_replicate h) (by decide)

theorem quote_letters (n : Nat) : bytes.quote (letters n).bytes = List.replicate n 97 := by
  rw [Alphabet.quote, if_neg]
  · rfl
  · rintro ⟨c, hc, hspecial⟩
    rw [List.eq_of_mem_replicate hc] at hspecial
    exact absurd hspecial (by decide)

theorem decode_letters (n : Nat) : ascii.decode (letters n).bytes = some (List.replicate n 97) := by
  have hall : (List.replicate n (97 : UInt8)).all (fun c => c < 128) = true := by
    rw [List.all_eq_true]
    intro c hc
    rw [List.eq_of_mem_replicate hc]
    decide
  show (if (List.replicate n (97 : UInt8)).all (fun c => c < 128) then
    some ((List.replicate n (97 : UInt8)).map UInt8.toUInt16) else none) = _
  rw [if_pos hall, List.map_replicate]
  rfl

theorem quote_units_letters (n : Nat) : units.quote (List.replicate n 97) = List.replicate n 97 := by
  have hcommutes := decode_quote ascii (letters n).bytes
  rw [quote_letters, decode_letters, Option.map_some] at hcommutes
  exact Option.some.inj (hcommutes.symm.trans (decode_letters n))

theorem length_commandLine_letters (n : Nat) : (commandLine [List.replicate n 97]).length = n := by
  have hjoin := length_join (units.quote (List.replicate n 97)) []
  rw [spaced, List.map_singleton, List.sum_singleton, quote_units_letters, List.length_replicate] at hjoin
  rw [commandLine, List.map_singleton, quote_units_letters]
  exact Nat.succ.inj hjoin

/-- So many letters are too long for a command line, and short enough for the sizes in 16 bits. -/
theorem limitMet_letters {n : Nat} (hlong : 32768 ≤ n) (hshort : n < 65535) :
    LimitMet ascii [letters n] [List.replicate n 97] := by
  refine limitMet_of_short (.cons (decode_letters n) .nil) ?_ ?_
  · intro arg harg
    rw [List.mem_singleton.mp harg, (convertArgvToWindowsCmd_spec (letters n).bytes).2, quote_letters,
      List.length_replicate]
    exact hshort
  · rw [length_commandLine_letters]
    exact Nat.le_succ_of_le hlong

/-- `ls` is built, and 32768 letters or more are rejected. -/
theorem limit_kept_ls :
    (convertArgvToWargv ascii [⟨[108, 115], by decide⟩]).units = some (commandLine [[108, 115]]) ∧
      ∃ n, 32768 ≤ n ∧ ∃ e, spawnArguments ascii [letters n] = .error e := by
  have hshort : LimitKept ascii [⟨[108, 115], by decide⟩] [[108, 115]] := by
    apply (limit_kept_iff ascii wholeCharacters_ascii _ _ (.cons (by decide) .nil)).mpr
    rw [LimitMet, if_neg (by decide)]
    exact ⟨by decide, by simp only [Room, List.map_cons, List.map_nil]; decide⟩
  obtain ⟨n, hn, hfits⟩ : ∃ n, 32768 ≤ n ∧ n < 65535 := ⟨40000, by decide, by decide⟩
  have hlong : LimitKept ascii [letters n] [List.replicate n 97] :=
    (limit_kept_iff ascii wholeCharacters_ascii _ _ (.cons (decode_letters n) .nil)).mpr (limitMet_letters hn hfits)
  rw [LimitKept, if_neg (by decide)] at hshort
  rw [LimitKept, if_pos (by rw [length_commandLine_letters]; omega)] at hlong
  exact ⟨hshort, n, hn, hlong⟩

/-- 65536 letters are passed on as nothing. -/
theorem not_limitMet_letters {n : Nat} (hn : n = 65536) :
    ¬ LimitMet ascii [letters n] [List.replicate n 97] := by
  have hlength : quotedLength (letters n) = 65536 := by
    rw [quotedLength, quote_letters, List.length_replicate, hn]
  have htotal : narrowedTotal [letters n] = 1 := by
    rw [narrowedTotal, List.map_singleton, hlength]
    rfl
  have hcut : cut (letters n) = [] := by
    rw [cut_eq, ← quotedLength, hlength, Nat.mod_self, List.take_zero]
  have hlong : 32768 ≤ (commandLine [List.replicate n 97]).length + 1 := by
    rw [length_commandLine_letters, hn]
    decide
  rw [LimitMet, if_pos hlong, htotal]
  rintro (htotal | hnone)
  · omega
  · refine hnone ⟨[[]], .cons ?_ .nil, ?_, trivial⟩
    · rw [hcut]
      rfl
    · rw [argvSize_eq, htotal]
      decide

theorem not_limit_kept : ¬ ∀ argv args, Converted ascii argv args → LimitKept ascii argv args := by
  intro h
  obtain ⟨n, hn⟩ : ∃ n, n = 65536 := ⟨65536, rfl⟩
  have hargs : Converted ascii [letters n] [List.replicate n 97] := .cons (decode_letters n) .nil
  exact not_limitMet_letters hn
    ((limit_kept_iff ascii wholeCharacters_ascii _ _ hargs).mp (h _ _ hargs))

end WindowsLibc.Spawn
