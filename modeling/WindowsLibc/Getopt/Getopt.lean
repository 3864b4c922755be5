import WindowsLibc.Lib.Machine

/-!
# `getopt` (`getopt/getopt.c`)

`wlibc_common_getopt` is called again and again. What it remembers from one call to the next are the
globals of `getopt.h`, its static variables, and the argument vector itself, which it permutes.

* `State` holds all of these. `argv` is a list of C strings; behind its end is NULL.
* `Request` holds what a caller passes, and what else the function reads: `opterr`, the environment
  and the name of the program.
* `scanArguments` is the loop over the arguments. It looks at the same slot again after it has moved
  the operand there to the end, so it takes fuel; that this never runs out is proved in `Progress`.
* Everything is translated, the branches that leave `optind` or `index` where they were included.
-/

namespace WindowsLibc.Getopt

open WindowsLibc.Lib

/-! ## Strings -/

/-- A C string: its bytes up to the terminating zero. -/
@[ext]
structure CString where
  bytes : List UInt8
  nonzero : 0 ∉ bytes
  deriving DecidableEq

namespace CString

/-- `s[i]`, for an `i` up to the length. -/
def get (s : CString) (i : Nat) : UInt8 := s.bytes.getD i 0

/-- `&s[n]`. -/
def drop (s : CString) (n : Nat) : CString :=
  ⟨s.bytes.drop n, fun h => s.nonzero (List.mem_of_mem_drop h)⟩

def empty : CString := ⟨[], List.not_mem_nil⟩

end CString

/-- A `char` as an `int`: `char` is signed. -/
def charValue (ch : UInt8) : Int := if ch < 128 then ch.toNat else (ch.toNat : Int) - 256

def dash : UInt8 := 45

def colon : UInt8 := 58

def questionMark : UInt8 := 63

/-! ## The state, and what a call is given -/

/-- `struct option`. A `flag` is the address of a variable. -/
structure LongOption where
  name : CString
  hasArg : Int
  flag : Option Nat
  val : Int

/-- The globals, the static variables, and the argument vector. -/
structure State where
  argv : List CString
  optarg : Option CString
  optind : Nat
  optopt : Int
  index : Nat
  exchange : Int
  errorReturn : UInt8
  processingShortOption : Bool
  processingLongOption : Bool
  stopAtFirstNonoption : Bool
  assignNonoptionToOne : Bool
  skipFirstCharOption : Bool
  getoptInitialized : Bool

/-- Before the first call. -/
def State.start (argv : List CString) : State where
  argv := argv
  optarg := none
  optind := 1
  optopt := charValue questionMark
  index := 0
  exchange := 0
  errorReturn := 0
  processingShortOption := false
  processingLongOption := false
  stopAtFirstNonoption := false
  assignNonoptionToOne := false
  skipFirstCharOption := false
  getoptInitialized := false

/-- What a caller passes, and what else is read. `longopts` ends with its first NULL name. -/
structure Request where
  optstring : Option CString
  longopts : Option (List LongOption)
  /-- `longindex` is not NULL. -/
  longindex : Bool
  opterr : Int
  /-- `POSIXLY_CORRECT` is in the environment. -/
  posixlyCorrect : Bool
  programInvocationName : CString

/-- What a call returns, and writes besides the state. -/
structure Outcome where
  value : Int
  longindex : Option Nat
  flag : Option (Nat × Int)
  stderr : List UInt8

/-- A call that returns `value` and writes nothing. -/
def Outcome.plain (value : Int) : Outcome := ⟨value, none, none, []⟩

/-- What `fprintf(stderr, ...)` prints, if errors are to be printed. -/
def Request.message (r : Request) (before : String) (about : List UInt8) (behind : String) :
    List UInt8 :=
  if r.opterr = 0 then []
  else r.programInvocationName.bytes ++ before.toUTF8.toList ++ about ++ behind.toUTF8.toList

/-- `argv[optind]`, unless it is NULL or one of the operands that have been moved to the end. -/
def State.parameter (s : State) : Option CString :=
  if (s.optind : Int) < s.exchange then s.argv[s.optind]? else none

/-! ## Long options -/

/-- The table entry for the text between `--` and an equals sign, if there is one. -/
def findLong (table : List LongOption) (text : CString) (length : Nat) : Option Nat :=
  table.findIdx? fun o => o.name.bytes = text.bytes.take length

/-- A parameter of a long option that is a word of its own does not begin with a dash. -/
def State.longParameter (s : State) : Option CString :=
  match s.parameter with
  | none => none
  | some parameter => if parameter.get 0 = dash then none else some parameter

/-- The `switch` over `has_arg`: the state, or what is reported. `behindEqual` is the parameter that
follows an equals sign. -/
def longArgument (r : Request) (s : State) (hasArg : Int) (text : CString)
    (behindEqual : Option CString) : Except (List UInt8) State :=
  if hasArg = 0 then
    match behindEqual with
    | some _ => .error (r.message ": option '--" text.bytes "' does not allow a paramter\n")
    | none => .ok { s with optarg := none }
  else if hasArg = 1 then
    match behindEqual with
    | some value => .ok { s with optarg := some value }
    | none =>
      match s.longParameter with
      | none => .error (r.message ": '--" text.bytes "' requires a parameter\n")
      | some parameter => .ok { s with optarg := some parameter, optind := s.optind + 1 }
  else if hasArg = 2 then
    match behindEqual with
    | some value => .ok { s with optarg := some value }
    | none =>
      match s.longParameter with
      | none => .ok { s with optarg := none }
      | some parameter => .ok { s with optarg := some parameter, optind := s.optind + 1 }
  else .ok s

/-- A long option; `index` is behind the dashes. -/
def longOption (r : Request) (s : State) (argument : CString) : Outcome × State :=
  match r.longopts with
  | none =>
    (.plain (charValue s.errorReturn), { s with index := 0, optind := s.optind + 1 })
  | some table =>
    let text := argument.drop s.index
    let equalPos := text.bytes.findIdx? (· = 61)
    let length := equalPos.getD text.bytes.length
    match findLong table text length with
    | none =>
      (⟨-1, none, none, r.message ": unrecognized option '--" text.bytes "'\n"⟩, s)
    | some j =>
      let o := table.getD j ⟨.empty, 0, none, 0⟩
      let longindex := if r.longindex then some j else none
      let s := { s with index := 0, optind := s.optind + 1 }
      match longArgument r s o.hasArg text (equalPos.map fun n => text.drop (n + 1)) with
      | .error stderr => (⟨charValue s.errorReturn, longindex, none, stderr⟩, s)
      | .ok s =>
        match o.flag with
        | none => (⟨o.val, longindex, none, []⟩, s)
        | some address => (⟨0, longindex, some (address, o.val), []⟩, s)

/-! ## Short options -/

/-- What may follow an option letter. -/
inductive Arity where
  | flag
  | required
  | optional
  deriving DecidableEq

/-- The option string from `found` on: `none` if the letter is not in it. -/
def findShort (letters : List UInt8) (option : UInt8) : Option Arity :=
  match letters.dropWhile (· ≠ option) with
  | [] => none
  | _ :: rest =>
    if rest.getD 0 0 = colon ∧ rest.getD 1 0 = colon then some .optional
    else if rest.getD 0 0 = colon then some .required
    else some .flag

/-- `&optstring[1]` if its first character is a mark, and `&optstring[0]` if not. -/
def State.letters (s : State) (optstring : CString) : List UInt8 :=
  if s.skipFirstCharOption then optstring.bytes.drop 1 else optstring.bytes

/-- Step over the letter at `index`, and over the whole word behind its last letter. -/
def State.step (s : State) (argument : CString) : State :=
  if argument.get (s.index + 1) = 0 then { s with optind := s.optind + 1, index := 0 }
  else { s with index := s.index + 1 }

/-- The parameter of a short option: the rest of the word, or else the next word. -/
def State.shortParameter (s : State) (argument : CString) : Option CString × State :=
  if s.index ≠ 0 then
    (some (argument.drop s.index), { s with optind := s.optind + 1, index := 0 })
  else
    match s.parameter with
    | some parameter => (some parameter, { s with optind := s.optind + 1 })
    | none => (none, s)

/-- A short option; `index` is at its letter. -/
def shortOption (r : Request) (s : State) (optstring argument : CString) : Outcome × State :=
  if optstring.bytes = [] then (.plain (-1), s)
  else
    let option := argument.get s.index
    let found := findShort (s.letters optstring) option
    let s := s.step argument
    match found with
    | none =>
      (⟨charValue s.errorReturn, none, none, r.message ": unrecognized option '-" [option] "'\n"⟩,
        { s with optarg := none, optopt := charValue option })
    | some .flag => (.plain (charValue option), { s with optarg := none })
    | some .optional =>
      let (optarg, s) := s.shortParameter argument
      (.plain (charValue option), { s with optarg := optarg })
    | some .required =>
      match s.shortParameter argument with
      | (some parameter, s) => (.plain (charValue option), { s with optarg := some parameter })
      | (none, s) =>
        (⟨charValue s.errorReturn, none, none,
          r.message ": option '-" [option] "' requires an argument\n"⟩, { s with optarg := none })

/-! ## The loop -/

/-- `argument[0] == '-' && argument[1] != '\0'`. -/
def isOption (argument : CString) : Bool := argument.get 0 = dash && argument.get 1 ≠ 0

/-- Move the argument in slot `i` to the end. -/
def rotate (argv : List CString) (i : Nat) : List CString :=
  argv.take i ++ argv.drop (i + 1) ++ [argv.getD i .empty]

/-- The start of a word: which kind of option it is, if it is one. -/
def State.classify (s : State) (argument : CString) : State :=
  if s.index = 0 then
    let s := { s with processingLongOption := false, processingShortOption := false }
    if argument.get 0 = dash ∧ argument.get 1 = dash then
      { s with index := 2, processingLongOption := true }
    else if argument.get 0 = dash ∧ argument.get 1 ≠ 0 then
      { s with index := 1, processingShortOption := true }
    else s
  else s

/-- `--` alone, at the start of a word. -/
def State.atTerminator (s : State) (argument : CString) : Bool :=
  s.index = 0 && argument.get 0 = dash && argument.get 1 = dash && argument.get 2 = 0

/-- `for (int i = optind; i < argc; ++i)`. `none`: the fuel has run out. -/
def scanArguments (r : Request) (optstring : CString) : Nat → Nat → State → Option (Outcome × State)
  | 0, _, _ => none
  | fuel + 1, i, s =>
    if i < s.argv.length then
      let argument := s.argv.getD i .empty
      if s.atTerminator argument then
        some (.plain (-1), { s with
          processingLongOption := false, processingShortOption := false, optind := s.optind + 1 })
      else
        let s := s.classify argument
        if s.processingLongOption then some (longOption r s argument)
        else if s.processingShortOption then some (shortOption r s optstring argument)
        else if s.stopAtFirstNonoption then some (.plain (-1), s)
        else if s.assignNonoptionToOne then
          some (.plain 1, { s with optind := s.optind + 1, optarg := some argument })
        else if (s.argv.drop (i + 1)).any isOption then
          -- `--i` and `++i`: the slot is looked at again
          scanArguments r optstring fuel i
            { s with argv := rotate s.argv i, exchange := s.exchange - 1 }
        else scanArguments r optstring fuel (i + 1) s
    else some (.plain (-1), s)

/-- `if (optind == 0)`: everything is to be read anew. -/
def State.reset (s : State) : State :=
  if s.optind = 0 then
    { s with
      index := 0
      optind := 1
      processingShortOption := false
      processingLongOption := false
      stopAtFirstNonoption := false
      assignNonoptionToOne := false
      skipFirstCharOption := false
      getoptInitialized := false }
  else s

/-- `if (!getopt_intialized)`: the marks at the start of the option string. -/
def State.readMarks (r : Request) (optstring : CString) (s : State) : State :=
  if s.getoptInitialized then s
  else
    let mark := optstring.get 0
    { s with
      stopAtFirstNonoption := s.stopAtFirstNonoption || mark = 43 || r.posixlyCorrect
      assignNonoptionToOne := s.assignNonoptionToOne || mark = dash
      skipFirstCharOption := s.skipFirstCharOption || mark = 43 || mark = dash || mark = colon
      errorReturn := if mark = colon then colon else questionMark
      exchange := s.argv.length
      getoptInitialized := true }

/-- `wlibc_common_getopt`. -/
def getopt (r : Request) (s : State) : Option (Outcome × State) :=
  match r.optstring with
  | none => some (.plain (-1), s)
  | some optstring =>
    let s := s.reset.readMarks r optstring
    if s.optind = s.argv.length then some (.plain (-1), { s with index := 0 })
    else scanArguments r optstring (s.argv.length - s.optind + 1) s.optind s

/-- Calls, one after the other. -/
def getoptMachine : Machine State Request Outcome where
  step s r := (getopt r s).map Prod.swap

end WindowsLibc.Getopt
