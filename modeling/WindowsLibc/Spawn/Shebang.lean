import WindowsLibc.Lib.ArgSplit
import WindowsLibc.Lib.Overwrite
import WindowsLibc.Spawn.RoundTrip

/-!
# The command line of a script (`spawn/spawn.c`)

A script is run by the interpreter that its first line names. `prepend_shebang_to_wargv` puts the
interpreter, its argument and the script in front of the command line, in place of the script's own
first argument, whose end it has to find again in quoted text.

* Memory is a list of units, sizes are in bytes as in the source. An access outside of an allocation is
  a `fault`.
* `written_spec` is the one rule for all that is written: it appends to what is there.
-/

namespace WindowsLibc.Spawn

open WindowsLibc.Lib

/-! ## Memory -/

/-- Why there is no result. -/
inductive Stop where
  | fault
  | enomem
  deriving DecidableEq, Repr

/-- What the heap has in a new allocation. -/
abbrev Fill := Nat → UInt16

/-- `RtlAllocateHeap`, which may fail (`none`). -/
def allocate (heap : Option Fill) (bytes : Nat) : Except Stop (List UInt16) :=
  match heap with
  | none => .error .enomem
  | some fill => .ok ((List.range (bytes / 2)).map fill)

/-- A buffer and how many bytes of it are used, as `new_argv` and `new_argv_used`. -/
structure Written where
  buffer : List UInt16
  used : Nat

/-- `memcpy` of so many bytes from the front of `src` behind what is used. -/
def Written.put (w : Written) (src : List UInt16) (bytes : Nat) : Except Stop Written :=
  if bytes ≤ 2 * src.length ∧ w.used + bytes ≤ 2 * w.buffer.length then
    .ok ⟨overwrite w.buffer (w.used / 2) (src.take (bytes / 2)), w.used + bytes⟩
  else .error .fault

/-! ## The two loops -/

/-- The loop over one part of `shebang_argv`: `index` at its NULL, and whether there was a space. -/
def skipPart (index : Nat) (quote : Bool) : List UInt16 → Except Stop (Nat × Bool)
  | [] => .error .fault
  | c :: rest => if c = 0 then .ok (index, quote) else skipPart (index + 1) (quote || c == 32) rest

/-- The loop over `old_argv` from `i ≥ 1` on: `start_of_arg1`, in units. `escaped` is for the unit that the
`++i` behind a backslash steps over. -/
def startOfArg1From (quotedArg0 escaped : Bool) (i : Nat) : List UInt16 → Except Stop Nat
  | [] => .error .fault
  | c :: rest =>
    if escaped then startOfArg1From quotedArg0 false (i + 1) rest
    else if c = 0 then .ok 0
    else if quotedArg0 then
      if c = 34 then .ok (i + 2)
      else startOfArg1From quotedArg0 (c == 92 && rest.head? == some 34) (i + 1) rest
    else if c = 32 then .ok (i + 1)
    else startOfArg1From quotedArg0 false (i + 1) rest

/-- `start_of_arg1`, with the first round of the loop. -/
def startOfArg1 : List UInt16 → Except Stop Nat
  | [] => .error .fault
  | c :: rest => if c = 0 then .ok 0 else startOfArg1From (c == 34) false 1 rest

/-! ## The function -/

/-- The quote on either side of the interpreter. -/
def Written.putQuote (w : Written) (quoteExecutable : Bool) : Except Stop Written :=
  if quoteExecutable then w.put [34] 2 else .ok w

/-- The argument and a space. -/
def Written.putArg (w : Written) (arg : List UInt16) (bytes : Nat) : Except Stop Written :=
  if bytes > 0 then (w.put arg bytes).bind (fun w => w.put [32] 2) else .ok w

/-- The first part: the interpreter, its argument and the script, with a space behind each. -/
def shebangLine (heap : Option Fill) (shebangArgv : List UInt16) (shebangSize : Nat) :
    Except Stop Written := do
  let (executableEnd, quoteExecutable) ← skipPart 0 false shebangArgv
  let argStart := executableEnd + 1
  let (argEnd, _) ← skipPart argStart false (shebangArgv.drop argStart)
  let filenameStart := argEnd + 1
  -- A space in the filename sets `quote_executable`; `quote_filename` is never set.
  let (filenameEnd, quoteExecutable) ←
    skipPart filenameStart quoteExecutable (shebangArgv.drop filenameStart)
  let newArgv ← allocate heap (if quoteExecutable then shebangSize + 4 else shebangSize)
  let w ← Written.putQuote ⟨newArgv, 0⟩ quoteExecutable
  let w ← w.put shebangArgv (2 * executableEnd)
  let w ← w.putQuote quoteExecutable
  let w ← w.put [32] 2
  let w ← w.putArg (shebangArgv.drop argStart) (2 * argEnd - 2 * argStart)
  let w ← w.put (shebangArgv.drop filenameStart) (2 * filenameEnd - 2 * filenameStart)
  w.put [32] 2

/-- `prepend_shebang_to_wargv`: the new command line and `*new_size`. -/
def prependShebangToWargv (newHeap finalHeap : Option Fill) (oldArgv : Option (List UInt16))
    (oldSize : Nat) (shebangArgv : List UInt16) (shebangSize : Nat) :
    Except Stop (List UInt16 × Nat) := do
  let w ← shebangLine newHeap shebangArgv shebangSize
  let start ←
    match oldArgv with
    | none => pure 0
    | some oldArgv => startOfArg1 oldArgv
  let start := 2 * start
  -- Sanity constraint.
  let start := if start > oldSize then 0 else start
  let oldArgvNeeded :=
    if oldSize > 0 then if start = 0 then 0 else oldSize - start
    else oldSize
  let finalArgv ← allocate finalHeap (w.used + oldArgvNeeded + 2)
  let f ← Written.put ⟨finalArgv, 0⟩ w.buffer w.used
  let f ←
    if oldArgvNeeded > 0 then f.put ((oldArgv.getD []).drop (start / 2)) oldArgvNeeded
    else f.put [0] 2
  return (f.buffer, w.used + oldArgvNeeded)

/-! ## What is written -/

/-- `text` is written, `trailing` is still as the heap had it. -/
def Written.of (text trailing : List UInt16) : Written := ⟨text ++ trailing, 2 * text.length⟩

@[simp] theorem Written.buffer_of (text trailing : List UInt16) :
    (of text trailing).buffer = text ++ trailing := rfl

@[simp] theorem Written.used_of (text trailing : List UInt16) :
    (of text trailing).used = 2 * text.length := rfl

/-- Writing appends. -/
theorem Written.put_of {text trailing piece : List UInt16} (h : piece.length ≤ trailing.length)
    (more : List UInt16) :
    (of text trailing).put (piece ++ more) (2 * piece.length) =
      .ok (of (text ++ piece) (trailing.drop piece.length)) := by
  rw [put, of, of]
  simp only
  rw [if_pos (by simp only [List.length_append]; omega), Nat.mul_div_cancel_left _ (by decide),
    Nat.mul_div_cancel_left _ (by decide), List.take_left, overwrite_of_le (by simp), List.take_left,
    List.drop_append, List.drop_eq_nil_of_le (by omega), List.nil_append, List.length_append, Nat.mul_add,
    Nat.add_sub_cancel_left]

/-- All of `piece`. -/
theorem Written.put_whole {text trailing piece : List UInt16} (h : piece.length ≤ trailing.length)
    {bytes : Nat} (hbytes : bytes = 2 * piece.length) :
    (of text trailing).put piece bytes =
      .ok (of (text ++ piece) (trailing.drop piece.length)) := by
  have hput := @put_of text _ _ h []
  rwa [List.append_nil, ← hbytes] at hput

theorem Written.put_unit {text trailing : List UInt16} (h : 1 ≤ trailing.length) (c : UInt16) :
    (of text trailing).put [c] 2 = .ok (of (text ++ [c]) (trailing.drop 1)) :=
  @put_whole _ _ [c] h _ rfl

theorem Written.putQuote_of (text : List UInt16) {trailing marks : List UInt16} {quoteExecutable : Bool}
    (hmarks : marks = if quoteExecutable then [34] else []) (h : marks.length ≤ trailing.length) :
    (of text trailing).putQuote quoteExecutable =
      .ok (of (text ++ marks) (trailing.drop marks.length)) := by
  cases quoteExecutable with
  | false =>
    rw [hmarks]
    simp [putQuote]
  | true =>
    rw [hmarks] at h ⊢
    exact put_unit h 34

theorem skipPart_spec {part : List UInt16} (h : 0 ∉ part) (index : Nat) (quote : Bool)
    (rest : List UInt16) :
    skipPart index quote (part ++ 0 :: rest) =
      .ok (index + part.length, quote || decide (32 ∈ part)) := by
  induction part generalizing index quote with
  | nil =>
    rw [List.nil_append, skipPart, if_pos rfl, decide_eq_false List.not_mem_nil, Bool.or_false]
    rfl
  | cons c part ih =>
    have hc : c ≠ 0 := fun h' => h (h' ▸ List.mem_cons_self)
    rw [List.cons_append, skipPart, if_neg hc, ih (fun h' => h (List.mem_cons_of_mem c h')),
      List.length_cons, Bool.or_assoc]
    have hmem : decide (32 ∈ c :: part) = ((c == 32) || decide (32 ∈ part)) := by
      rw [Bool.eq_iff_iff, Bool.or_eq_true, decide_eq_true_iff, decide_eq_true_iff, List.mem_cons,
        beq_iff_eq, eq_comm]
    rw [hmem, Nat.add_assoc, Nat.add_comm 1]

/-- `shebang_argv`. -/
def shebangBuffer (executable normalized filename : List UInt16) : List UInt16 :=
  executable ++ 0 :: (normalized ++ 0 :: (filename ++ [0]))

/-- The quote on either side of the interpreter. -/
def quoteText (executable filename : List UInt16) : List UInt16 :=
  if 32 ∈ executable ∨ 32 ∈ filename then [34] else []

/-- The argument as it is written, with its space. -/
def argText (normalized : List UInt16) : List UInt16 :=
  if normalized = [] then [] else normalized ++ [32]

/-- The first part of the new command line. -/
def shebangText (executable normalized filename : List UInt16) : List UInt16 :=
  quoteText executable filename ++ executable ++ quoteText executable filename ++ [32] ++
    argText normalized ++ filename ++ [32]

theorem Written.putArg_of (text : List UInt16) {trailing : List UInt16} (normalized more : List UInt16)
    (h : (argText normalized).length ≤ trailing.length) :
    (of text trailing).putArg (normalized ++ more) (2 * normalized.length) =
      .ok (of (text ++ argText normalized) (trailing.drop (argText normalized).length)) := by
  rw [putArg]
  by_cases hnil : normalized = []
  · rw [if_neg (by rw [hnil, List.length_nil]; omega), argText, if_pos hnil]
    simp
  · have hpos : 0 < normalized.length := List.length_pos_of_ne_nil hnil
    rw [argText, if_neg hnil, List.length_append, List.length_singleton] at h ⊢
    rw [if_pos (by omega), put_of (by omega), Except.bind,
      put_unit (by rw [List.length_drop]; omega), List.append_assoc, List.drop_drop]

/-- The first part fits. -/
theorem shebangLine_spec (fill : Fill) {executable normalized filename : List UInt16}
    (hexecutable : 0 ∉ executable) (hnormalized : 0 ∉ normalized) (hfilename : 0 ∉ filename) :
    ∃ trailing, shebangLine (some fill) (shebangBuffer executable normalized filename)
        (2 * (shebangBuffer executable normalized filename).length) =
      .ok (.of (shebangText executable normalized filename) trailing) := by
  have hskip₁ := skipPart_spec hexecutable 0 false (normalized ++ 0 :: (filename ++ [0]))
  have hdrop₁ : (shebangBuffer executable normalized filename).drop (executable.length + 1) =
      normalized ++ 0 :: (filename ++ [0]) := by
    rw [shebangBuffer, List.append_cons, List.drop_left' (by simp)]
  have hskip₂ := skipPart_spec hnormalized (executable.length + 1) false (filename ++ [0])
  have hdrop₂ : (shebangBuffer executable normalized filename).drop
      (executable.length + 1 + normalized.length + 1) = filename ++ [0] := by
    rw [Nat.add_assoc, ← List.drop_drop, hdrop₁, List.append_cons, List.drop_left' (by simp)]
  have hskip₃ := skipPart_spec hfilename (executable.length + 1 + normalized.length + 1)
    (decide (32 ∈ executable)) []
  have hlength : (shebangBuffer executable normalized filename).length =
      executable.length + normalized.length + filename.length + 3 := by
    simp only [shebangBuffer, List.length_append, List.length_cons, List.length_nil]
    omega
  have harg : (argText normalized).length ≤ normalized.length + 1 := by
    rw [argText]
    split
    · exact Nat.zero_le _
    · exact Nat.le_of_eq List.length_append
  rw [Nat.zero_add, Bool.false_or, ← shebangBuffer] at hskip₁
  have hbytes₁ : 2 * (executable.length + 1 + normalized.length) - 2 * (executable.length + 1) =
      2 * normalized.length := by omega
  have hbytes₂ : 2 * (executable.length + 1 + normalized.length + 1 + filename.length) -
      2 * (executable.length + 1 + normalized.length + 1) = 2 * filename.length := by omega
  simp only [shebangLine, bind, Except.bind, hskip₁, hdrop₁, hskip₂, hdrop₂, hskip₃, allocate, hbytes₁,
    hbytes₂]
  have hmarks : quoteText executable filename =
      if decide (32 ∈ executable) || decide (32 ∈ filename) then [34] else [] := by
    simp only [quoteText, Bool.or_eq_true, decide_eq_true_iff]
  rw [shebangText]
  generalize (decide (32 ∈ executable) || decide (32 ∈ filename)) = quote at hmarks ⊢
  generalize quoteText executable filename = marks at hmarks ⊢
  generalize hroom : (if quote then 2 * (shebangBuffer executable normalized filename).length + 4
    else 2 * (shebangBuffer executable normalized filename).length) / 2 = room
  have hroom : executable.length + normalized.length + filename.length + 3 + 2 * marks.length =
      room := by
    rw [← hroom, hlength, hmarks]
    cases quote with
    | false => simp
    | true => simp; omega
  have halloc : ((List.range room).map fill).length = room := by
    rw [List.length_map, List.length_range]
  generalize (List.range room).map fill = trailing at halloc
  have hof : (⟨trailing, 0⟩ : Written) = .of [] trailing := rfl
  -- Every piece finds room for itself and for what is still to come.
  rw [hof, Written.putQuote_of [] hmarks (by omega)]
  dsimp only
  rw [shebangBuffer, Written.put_of (by simp only [List.length_drop]; omega)]
  dsimp only
  rw [Written.putQuote_of _ hmarks (by simp only [List.length_drop]; omega)]
  dsimp only
  rw [Written.put_unit (by simp only [List.length_drop]; omega)]
  dsimp only
  rw [Written.putArg_of _ _ _ (by simp only [List.length_drop]; omega)]
  dsimp only
  rw [Written.put_of (by simp only [List.length_drop]; omega)]
  dsimp only
  rw [Written.put_unit (by simp only [List.length_drop]; omega), List.nil_append]
  exact ⟨_, rfl⟩

/-- What is put behind the first part: the old command line from `start` on with all that is behind it,
or a NULL. -/
def oldTail (oldArgv : List UInt16) (start : Nat) : List UInt16 :=
  if start = 0 ∨ start = oldArgv.length then [0] else oldArgv.drop start

/-- **Everything that is written fits**, and this is the result. The space for one more NULL stays as the
heap had it. -/
theorem prependShebangToWargv_spec (newFill finalFill : Fill)
    {executable normalized filename oldArgv : List UInt16} {start : Nat}
    (hexecutable : 0 ∉ executable) (hnormalized : 0 ∉ normalized) (hfilename : 0 ∉ filename)
    (hstart : startOfArg1 oldArgv = .ok start) (hbound : start ≤ oldArgv.length) :
    ∃ trailing size,
      prependShebangToWargv (some newFill) (some finalFill) (some oldArgv) (2 * oldArgv.length)
          (shebangBuffer executable normalized filename)
          (2 * (shebangBuffer executable normalized filename).length) =
        .ok (shebangText executable normalized filename ++ oldTail oldArgv start ++ trailing, size) ∧
      ∀ c ∈ trailing, ∃ i, c = finalFill i := by
  obtain ⟨trailing, hline⟩ := shebangLine_spec newFill hexecutable hnormalized hfilename
  have hpos : 0 < oldArgv.length := by
    cases oldArgv with
    | nil => cases hstart
    | cons c rest => exact Nat.succ_pos _
  have hfill : ∀ {room n : Nat}, ∀ c ∈ ((List.range room).map finalFill).drop n, ∃ i, c = finalFill i := by
    intro room n c hc
    obtain ⟨i, -, hi⟩ := List.mem_map.mp (List.mem_of_mem_drop hc)
    exact ⟨i, hi.symm⟩
  have halloc : ∀ room, ((List.range room).map finalFill).length = room := by
    intro room
    rw [List.length_map, List.length_range]
  generalize shebangText executable normalized filename = text at hline ⊢
  simp only [prependShebangToWargv, bind, Except.bind, hline, hstart, allocate, pure, Except.pure,
    Written.buffer_of, Written.used_of]
  rw [if_neg (by omega : ¬ 2 * start > 2 * oldArgv.length), if_pos (by omega : 2 * oldArgv.length > 0)]
  have hof : ∀ room, (⟨(List.range room).map finalFill, 0⟩ : Written) =
      .of [] ((List.range room).map finalFill) := fun room => rfl
  rw [oldTail]
  by_cases hnone : start = 0 ∨ start = oldArgv.length
  · have hneeded : (if 2 * start = 0 then 0 else 2 * oldArgv.length - 2 * start) = 0 := by
      split <;> omega
    rw [if_pos hnone, hneeded, hof]
    rw [Written.put_of (by rw [halloc]; omega)]
    dsimp only
    rw [if_neg (Nat.lt_irrefl 0), List.nil_append, Written.put_unit (by
      rw [List.length_drop, halloc]; omega)]
    refine ⟨_, _, rfl, ?_⟩
    rw [List.drop_drop]
    exact hfill
  · have hneeded : (if 2 * start = 0 then 0 else 2 * oldArgv.length - 2 * start) =
        2 * (oldArgv.drop start).length := by
      rw [if_neg (by omega), List.length_drop]
      omega
    have htail : 0 < (oldArgv.drop start).length := by
      rw [List.length_drop]
      omega
    rw [if_neg hnone, hneeded, hof]
    rw [Written.put_of (by rw [halloc]; omega)]
    dsimp only
    rw [if_pos (by omega), Nat.mul_div_cancel_left _ (by decide), Option.getD_some, List.nil_append,
      Written.put_whole (by
      simp only [List.length_drop, halloc]; omega) rfl]
    refine ⟨_, _, rfl, ?_⟩
    rw [List.drop_drop]
    exact hfill

end WindowsLibc.Spawn
