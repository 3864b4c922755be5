import WindowsLibc.Lib.ArgQuote

/-!
# The command line of a child process (`spawn/spawn.c`)

`convert_argv_to_windows_cmd` quotes one argument, in two passes: the first counts, the second
writes. `convert_argv_to_wargv` quotes every argument, converts it to UTF-16 and puts a space behind
it, the last of which it then overwrites with the terminator.

* The two functions are modelled on lists of bytes. The conversion itself is the system's
  (`Utf8ToUtf16`, with what is documented of it).
* `convertArgvToWargv_split_iff` compares what the runtime of the child makes of the command line
  with the arguments. An empty argument is written as nothing.
-/

namespace WindowsLibc.Spawn

open WindowsLibc.Lib

/-- A C string. -/
structure CString where
  bytes : List UInt8
  no_nul : 0 ∉ bytes

/-! ## One argument -/

/-- The variables of the first pass; `size` is `*size`. -/
structure Counts where
  hasWhitespaces : Bool
  doubleQuotes : Nat
  backslashesBeforeQuote : Nat
  backslashesAtTheEnd : Nat
  size : Nat

/-- The first pass. `pending` is the run of backslashes that the inner loop has counted so far. -/
@[grind =]
def countFrom (pending : Nat) (n : Counts) : List UInt8 → Counts
  | [] =>
    { n with
      size := n.size + pending
      backslashesAtTheEnd := if pending > 0 then pending else n.backslashesAtTheEnd }
  | c :: arg =>
    if c = 92 then countFrom (pending + 1) n arg
    else if c = 34 then
      countFrom 0 { n with
        doubleQuotes := n.doubleQuotes + 1
        backslashesBeforeQuote := n.backslashesBeforeQuote + pending
        size := n.size + pending + 1 } arg
    else
      countFrom 0 { n with
        hasWhitespaces := n.hasWhitespaces || c == 32 || c == 9
        size := n.size + pending + 1 } arg

/-- The second pass, between the quotes and up to the loop behind it. A quote repeats the `pending`
backslashes that are written already. -/
@[grind =]
def writeFrom (pending : Nat) : List UInt8 → List UInt8
  | [] => []
  | c :: arg =>
    if c = 34 then List.replicate pending 92 ++ 92 :: 34 :: writeFrom 0 arg
    else if c = 92 then 92 :: writeFrom (pending + 1) arg
    else c :: writeFrom 0 arg

/-- `convert_argv_to_windows_cmd`: the new argument, NULL (`none`) when the old one will do, and
`*size`. -/
def convertArgvToWindowsCmd (arg : List UInt8) : Option (List UInt8) × Nat :=
  let n := countFrom 0 ⟨false, 0, 0, 0, 0⟩ arg
  if n.hasWhitespaces || n.doubleQuotes > 0 then
    (some (34 :: (writeFrom 0 arg ++ List.replicate n.backslashesAtTheEnd 92 ++ [34])),
      n.size + 2 + n.doubleQuotes + n.backslashesBeforeQuote + n.backslashesAtTheEnd)
  else (none, n.size)

/-! ## All arguments -/

/-- The system's conversion from UTF-8 to UTF-16, `none` for bytes that are not UTF-8. An ASCII byte
stands for itself and is no part of another character; other characters have no ASCII
unit, and none has more units than bytes. -/
structure Utf8ToUtf16 where
  decode : List UInt8 → Option (List UInt16)
  decode_nil : decode [] = some []
  decode_ascii : ∀ xs c ys, c < 128 →
    decode (xs ++ c :: ys) =
      (decode xs).bind (fun us => (decode ys).map (fun vs => us ++ c.toUInt16 :: vs))
  decode_wide : ∀ xs us, (∀ x ∈ xs, 128 ≤ x) → decode xs = some us → ∀ u ∈ us, 128 ≤ u
  decode_nonempty : ∀ xs, decode xs = some [] → xs = []
  decode_length : ∀ xs us, decode xs = some us → us.length ≤ xs.length

/-- `RtlUTF8StringToUnicodeString` into a buffer of `maximumLength` bytes, terminator included. -/
def rtlUTF8StringToUnicodeString (U : Utf8ToUtf16) (source : List UInt8) (maximumLength : UInt16) :
    Option (List UInt16) :=
  (U.decode source).bind (fun units =>
    if 2 * units.length + 2 ≤ maximumLength.toNat then some units else none)

/-- `u8_args[i]`: `Buffer` and the 16-bit `Length`. -/
def u8Arg (arg : CString) : List UInt8 × UInt16 :=
  let (newArg, size) := convertArgvToWindowsCmd arg.bytes
  (newArg.getD arg.bytes, UInt16.ofNat size)

/-- The second loop of `convert_argv_to_wargv`. `wargv` is written up to `argv_used` bytes. -/
def convertFrom (U : Utf8ToUtf16) (argvSize : Nat) (wargv : List UInt16) :
    List (List UInt8 × UInt16) → Option (List UInt16)
  | [] => some wargv
  | (buffer, length) :: args =>
    match rtlUTF8StringToUnicodeString U (buffer.take length.toNat)
        (UInt16.ofNat (argvSize - 2 * wargv.length)) with
    | none => none
    | some units => convertFrom U argvSize (wargv ++ units ++ [32]) args

/-- What `convert_argv_to_wargv` leaves in `*size` and returns: 0 and NULL for no arguments, -1 after
an error, else the command line. -/
inductive Wargv where
  | empty
  | failed
  | line (units : List UInt16)

/-- `argv_size`: the sum of the `MaximumLength`s, in units. -/
def argvSize (argv : List CString) : Nat :=
  ((argv.map u8Arg).map (fun a => (a.2 + 1).toNat)).sum * 2

/-- `convert_argv_to_wargv`. The last space becomes the terminator. -/
def convertArgvToWargv (U : Utf8ToUtf16) (argv : List CString) : Wargv :=
  if argv.length = 0 then .empty
  else
    match convertFrom U (argvSize argv) [] (argv.map u8Arg) with
    | none => .failed
    | some wargv => .line wargv.dropLast

end WindowsLibc.Spawn
