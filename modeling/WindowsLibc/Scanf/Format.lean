import WindowsLibc.Printf.Format

/-!
# Directives (`stdio/scanf.c`)

`parse_scan_specifier` reads what follows a `%`: an argument number, flags, a width, a length modifier
and the conversion, with its set if it has one, and fetches the argument.

* Argument numbers, numbers and modifiers are read as in `printf`, by the same functions here.
* A set is 128 bits. A range that runs past them is a fault (`none`).
-/

namespace WindowsLibc.Scanf

open WindowsLibc.Printf

/-- `scan_type`. -/
inductive ScanType where
  | intNumber
  | uintNumber
  | uintBinary
  | uintOctal
  | uintHex
  | doubleNormal
  | doubleHex
  | doubleScientific
  | doubleScientificShort
  | char
  | string
  | set
  | pointer
  | result
  | unknown
  deriving DecidableEq

/-- The bits of `config->flags`. -/
structure ScanFlags where
  suppressInput : Bool := false
  allocateString : Bool := false
  upperCase : Bool := false
  groupDigits : Bool := false

/-- `scan_config`. `data` is `none` where it points to `config->suppress`; `set[0]` is the lower half
of `set`. -/
structure ScanConfig where
  type : ScanType
  modifier : Modifier
  flags : ScanFlags
  width : UInt32
  result : UInt64
  data : Option UInt64
  set : BitVec 128

/-- What a flag sets. -/
def setScanFlag (flags : ScanFlags) (byte : UInt8) : Option ScanFlags :=
  match byte with
  | 42 => some { flags with suppressInput := true }
  | 39 => some { flags with groupDigits := true }
  | 109 => some { flags with allocateString := true }
  | _ => none

/-- The loop over the flags. -/
def parseScanFlags (flags : ScanFlags) : List UInt8 → ScanFlags × List UInt8
  | [] => (flags, [])
  | byte :: format =>
    match setScanFlag flags byte with
    | some flags => parseScanFlags flags format
    | none => (flags, byte :: format)

/-- The conversion, and whether its letter is a capital that matters. -/
def scanConversion (byte : UInt8) : ScanType × Bool :=
  match byte with
  | 105 => (.intNumber, false)
  | 100 => (.intNumber, false)
  | 117 => (.uintNumber, false)
  | 66 => (.uintBinary, true)
  | 98 => (.uintBinary, false)
  | 79 => (.uintOctal, true)
  | 111 => (.uintOctal, false)
  | 88 => (.uintHex, true)
  | 120 => (.uintHex, false)
  | 65 => (.doubleHex, true)
  | 97 => (.doubleHex, false)
  | 70 => (.doubleNormal, true)
  | 102 => (.doubleNormal, false)
  | 69 => (.doubleScientific, true)
  | 101 => (.doubleScientific, false)
  | 71 => (.doubleScientificShort, true)
  | 103 => (.doubleScientificShort, false)
  | 99 => (.char, false)
  | 115 => (.string, false)
  | 91 => (.set, false)
  | 112 => (.pointer, false)
  | 110 => (.result, false)
  | _ => (.unknown, false)

/-! ## Sets -/

/-- `SET_BIT`, or `UNSET_BIT` for an excluding set. There are 128 bits. -/
def putBit (exclude : Bool) (set : BitVec 128) (byte : UInt8) : Option (BitVec 128) :=
  if byte < 128 then
    if exclude then some (set &&& ~~~(1#128 <<< byte.toNat)) else some (set ||| (1#128 <<< byte.toNat))
  else none

/-- `GET_BIT`. -/
def getBit (set : BitVec 128) (byte : UInt8) : Bool := set.getLsbD byte.toNat

/-- `while (from <= to)`. `from` starts below 128, so the loop ends, or faults there. -/
def putRange (exclude : Bool) (last : UInt8) : Nat → UInt8 → BitVec 128 → Option (BitVec 128)
  | 0, _, set => some set
  | fuel + 1, byte, set =>
    if byte ≤ last then (putBit exclude set byte).bind (putRange exclude last fuel (byte + 1))
    else some set

/-- The loop over a set behind its first byte: whether it is closed, and what is left. -/
def parseSetFrom (exclude : Bool) :
    Nat → BitVec 128 → List UInt8 → Option (Bool × BitVec 128 × List UInt8)
  | 0, set, format => some (false, set, format)
  | _ + 1, set, [] => some (false, set, [])
  | fuel + 1, set, byte :: format =>
    if byte = 93 then some (true, set, format)
    else if byte < 128 then
      if format.headD 0 = 45 ∧ format.getD 1 0 ≠ 93 then
        (putRange exclude (format.getD 1 0) 256 byte set).bind fun set =>
          parseSetFrom exclude fuel set (format.drop 2)
      else
        (putBit exclude set byte).bind fun set => parseSetFrom exclude fuel set format
    else parseSetFrom exclude fuel set format

/-- The set. What is special about the first byte is a `]`, or a `^` and the `]` behind it. -/
def parseSet (format : List UInt8) : Option (Bool × BitVec 128 × List UInt8) :=
  match format with
  | 93 :: rest => (putBit false 0 93).bind fun set => parseSetFrom false format.length set rest
  | 94 :: 93 :: rest =>
    (putBit true (BitVec.allOnes 128) 93).bind fun set => parseSetFrom true format.length set rest
  | 94 :: rest => parseSetFrom true format.length (BitVec.allOnes 128) rest
  | _ => parseSetFrom false (format.length + 1) 0 format

/-! ## The directive -/

/-- `parse_scan_specifier`. A set that is not closed is no conversion, and nothing is fetched for an
unknown one. -/
def parseScanSpecifier (format : List UInt8) (args : VariadicArgs) :
    Option (ScanConfig × List UInt8 × VariadicArgs) :=
  let (index, format) := parseArgument format
  let (flags, format) := parseScanFlags {} format
  let (width, format) := parseNumber 0 format
  let (modifier, format) := parseModifier format
  let (type, upperCase) := scanConversion (format.headD 0)
  let flags := { flags with upperCase := upperCase }
  let fetch := fun (type : ScanType) (set : BitVec 128) (format : List UInt8) =>
    if type = .unknown ∨ flags.suppressInput then
      (ScanConfig.mk type modifier flags width 0 none set, format, args)
    else
      let (data, args) := args.get index
      (ScanConfig.mk type modifier flags width 0 (some data) set, format, args)
  if type = .set then
    (parseSet format.tail).map fun (closed, set, format) =>
      fetch (if closed then .set else .unknown) set format
  else some (fetch type 0 format.tail)

end WindowsLibc.Scanf
