import WindowsLibc.Printf.Buffer
import WindowsLibc.Printf.Convert
import WindowsLibc.Printf.Format

/-!
# Printing one argument (`print_arg`)

The functions that format an argument write to the buffer and keep a count of their own beside it, in
32 bits. They are actions on the buffer that may fault, when what they stage locally does not fit.

* The model follows the branches of the source; its loops are `pad` (write until a counter reaches a
  limit) and `padTimes` (write so many times).
* `Counted` says that an action's count is the number of bytes it writes, modulo `2 ^ 32`.
* `printArg_emits`: a conversion whose staging fits writes the same whatever the buffer, and counts it.
-/

namespace WindowsLibc.Printf

open WindowsLibc.Lib

/-- An action on the output buffer. -/
abbrev Output := StateT Buffer Option

def writen (bytes : List UInt8) : Output Unit := modify (fun b => b.writen bytes)

def writebyte (byte : UInt8) : Output Unit := modify (fun b => b.writebyte byte)

/-- `while (pos + add < limit) { writebyte(buffer, byte); pos += 1; }`, with enough fuel. -/
def padFrom (byte : UInt8) (add limit : UInt32) : Nat → UInt32 → Output UInt32
  | 0, pos => pure pos
  | fuel + 1, pos =>
    if pos + add < limit then do
      writebyte byte
      padFrom byte add limit fuel (pos + 1)
    else pure pos

def pad (byte : UInt8) (pos add limit : UInt32) : Output UInt32 :=
  padFrom byte add limit limit.toNat pos

/-- `for (i = 0; i < n; ++i) writebyte(buffer, byte)`. -/
def padTimes (byte : UInt8) : Nat → Output Unit
  | 0 => pure ⟨⟩
  | n + 1 => do
    writebyte byte
    padTimes byte n

/-! ## Numbers -/

/-- The sign at the start of `temp`, as it is to be written, and how many bytes it takes. -/
def takeSign (config : PrintConfig) (temp : List UInt8) : UInt8 × UInt32 × List UInt8 :=
  match temp with
  | 45 :: temp => (45, 1, temp)
  | 43 :: temp => (if config.flags.emptySpace then 32 else 43, 1, temp)
  | temp => (0, 0, temp)

def writeSign (sign : UInt8) : Output Unit := if sign ≠ 0 then writebyte sign else pure ⟨⟩

/-- `print_int_formatted`. -/
def printIntFormatted (config : PrintConfig) (temp : List UInt8) : Output UInt32 := do
  let (sign, extra, temp) := takeSign config temp
  let size := UInt32.ofNat temp.length
  let period := if config.flags.groupDigits then (size - 1) / 3 else 0
  if config.flags.leftJustify then
    writeSign sign
    let pos ← pad 48 0 (size - period) config.precision
    writen temp
    pad 32 (size + pos + extra) 0 config.width
  else if config.width > max config.precision size then
    if config.flags.zeroPadded then
      writeSign sign
      let pos ← pad 48 (if sign ≠ 0 then extra else 0) size config.width
      writen temp
      return pos + size
    else
      let count := max config.precision (size - period) + (if sign ≠ 0 then 1 else 0) + period
      let pos ← pad 32 0 count config.width
      writeSign sign
      let pos := if sign ≠ 0 then pos + extra else pos
      let count ← pad 48 0 (size - period) config.precision
      writen temp
      return size + pos + count
  else
    writeSign sign
    let pos ← pad 48 0 (size - period) config.precision
    writen temp
    return pos + size + extra

/-- `alternate_form_char`. -/
def alternateFormChar (config : PrintConfig) : UInt8 :=
  match config.type with
  | .uintBinary => if config.flags.upperCase then 66 else 98
  | .uintOctal => if config.flags.upperCase then 79 else 111
  | .uintHex => if config.flags.upperCase then 88 else 120
  | _ => 0

/-- The alternate form, and how many bytes it takes. -/
def writeAlternateForm (config : PrintConfig) : Output UInt32 :=
  if config.flags.alternateForm then do
    writebyte 48
    writebyte (alternateFormChar config)
    return 2
  else pure 0

/-- `print_uint_formatted`. -/
def printUintFormatted (config : PrintConfig) (temp : List UInt8) : Output UInt32 := do
  let size := UInt32.ofNat temp.length
  if config.flags.leftJustify then
    let extra ← writeAlternateForm config
    let pos ← pad 48 0 size config.precision
    writen temp
    pad 32 (size + (pos + extra)) 0 config.width
  else if config.width > max config.precision size then
    if config.flags.zeroPadded then
      let pos ← writeAlternateForm config
      let pos ← pad 48 pos size config.width
      writen temp
      return pos + size
    else
      let count := max config.precision size + (if config.flags.alternateForm then 2 else 0)
      let pos ← pad 32 0 count config.width
      let extra ← writeAlternateForm config
      let count ← pad 48 0 size config.precision
      writen temp
      return size + (pos + extra) + count
  else
    let extra ← writeAlternateForm config
    let pos ← pad 48 0 size config.precision
    writen temp
    return pos + size + extra

/-- How many bits of the argument a conversion of an integer looks at. -/
def Modifier.bits : Modifier → Nat
  | .none => 32
  | .short => 16
  | .shortShort => 8
  | .longDouble => 32
  | _ => 64

/-- `VIEW_AS(config->data, ...)`, for the signed type of the modifier's width. -/
def PrintConfig.int (config : PrintConfig) : Int :=
  (BitVec.ofNat config.modifier.bits config.data.toNat).toInt

/-- `VIEW_AS(config->data, ...)`, for the unsigned type. -/
def PrintConfig.uint (config : PrintConfig) : Nat :=
  config.data.toNat % 2 ^ config.modifier.bits

/-! ## Characters and strings -/

/-- The memory that arguments point into. -/
abbrev Memory := UInt64 → UInt8

/-- `pre_temp`, the text of one character. -/
def preTemp (config : PrintConfig) : List UInt8 :=
  match config.modifier with
  | .long =>
    let (size, codepoint) := utf16Decode config.data.toUInt16 (config.data >>> 16).toUInt16
    if size ≠ 0 then utf8Encode codepoint else []
  | .longLong => utf8Encode config.data.toUInt32
  | _ => [config.data.toUInt8]

/-- `PRINT_CHAR`. With a width, the text is staged in an array of 128 bytes. -/
def printChar (config : PrintConfig) : Output UInt32 :=
  if config.width > 1 then
    let spaces := (config.width - 1).toNat
    if spaces + (preTemp config).length > 128 then StateT.lift none
    else do
      let temp := if config.flags.leftJustify then preTemp config ++ List.replicate spaces 32
        else List.replicate spaces 32 ++ preTemp config
      writen temp
      return UInt32.ofNat temp.length
  else do
    writen (preTemp config)
    return UInt32.ofNat (preTemp config).length

/-- The bytes of a string; those of NULL are zeros. -/
def stringByte (mem : Memory) (data : UInt64) (i : Nat) : UInt8 :=
  if data = 0 then 0 else mem (data + UInt64.ofNat i)

/-- The 16-bit unit `i` bytes into a string. -/
def stringUnit (mem : Memory) (data : UInt64) (i : Nat) : UInt16 :=
  (stringByte mem data i).toUInt16 + ((stringByte mem data (i + 1)).toUInt16 <<< 8)

/-- The 32-bit character `i` bytes into a string. -/
def stringChar (mem : Memory) (data : UInt64) (i : Nat) : UInt32 :=
  (stringUnit mem data i).toUInt32 + ((stringUnit mem data (i + 2)).toUInt32 <<< 16)

/-- `while (*ch++ != 0 && count < config->precision) ++count`. -/
def countChars (isNul : Nat → Bool) (precision : Nat) : Nat → Nat → Nat
  | 0, count => count
  | fuel + 1, count =>
    if !isNul count ∧ count < precision then countChars isNul precision fuel (count + 1) else count

/-- The length of a string in characters of its own width, as far as the precision goes. -/
def stringCount (mem : Memory) (config : PrintConfig) : Nat :=
  let precision := if config.flags.precision then config.precision.toNat else 4294967295
  let isNul := fun i => match config.modifier with
    | .long => stringUnit mem config.data (2 * i) == 0
    | .longLong => stringChar mem config.data (4 * i) == 0
    | _ => stringByte mem config.data i == 0
  countChars isNul precision precision 0

/-- The loop over a string of 16-bit units; `i` counts units and `pos` bytes. -/
def writeUtf16 (mem : Memory) (data : UInt64) (count : Nat) :
    Nat → Nat → Nat → UInt32 → Output UInt32
  | 0, _, _, result => pure result
  | fuel + 1, i, pos, result =>
    if i < count then
      let (size, codepoint) := utf16Decode (stringUnit mem data pos) (stringUnit mem data (pos + 2))
      if codepoint = 0 then pure result
      else do
        let temp := utf8Encode codepoint
        writen temp
        writeUtf16 mem data count fuel (if size = 4 then i + 2 else i + 1) (pos + size)
          (result + UInt32.ofNat temp.length)
    else pure result

/-- The loop over a string of 32-bit characters; `n` are left. -/
def writeUtf32 (mem : Memory) (data : UInt64) : Nat → Nat → UInt32 → Output UInt32
  | 0, _, result => pure result
  | n + 1, i, result => do
    let temp := utf8Encode (stringChar mem data (4 * i))
    writen temp
    writeUtf32 mem data n (i + 1) (result + UInt32.ofNat temp.length)

/-- The text of a string. -/
def writeString (mem : Memory) (config : PrintConfig) (count : Nat) (result : UInt32) :
    Output UInt32 :=
  match config.modifier with
  | .long => writeUtf16 mem config.data count count 0 0 result
  | .longLong => writeUtf32 mem config.data count 0 result
  | _ => do
    writen ((List.range count).map (stringByte mem config.data))
    return result + UInt32.ofNat count

/-- `PRINT_STRING`. -/
def printString (mem : Memory) (config : PrintConfig) : Output UInt32 := do
  let count := stringCount mem config
  let spaces := config.width.toNat - count
  if config.flags.leftJustify then
    let result ← writeString mem config count 0
    padTimes 32 spaces
    return result + UInt32.ofNat spaces
  else
    padTimes 32 spaces
    writeString mem config count (UInt32.ofNat spaces)

/-! ## Pointers and results -/

/-- `PRINT_POINTER`. -/
def printPointer (config : PrintConfig) : Output UInt32 := do
  let temp := pointerEncode config.data
  let size := UInt32.ofNat temp.length
  if config.width > size then
    if config.flags.leftJustify then
      writen temp
      padTimes 32 (config.width - size).toNat
      return size + UInt32.ofNat (config.width - size).toNat
    else
      padTimes 32 (config.width - size).toNat
      writen temp
      return size + UInt32.ofNat (config.width - size).toNat
  else
    writen temp
    return size

/-- The type that `%n` stores, in bytes. -/
def Modifier.resultBytes : Modifier → Nat
  | .none => 4
  | .short => 2
  | .shortShort => 1
  | .longDouble => 4
  | _ => 8

/-- `*(T *)address = (T)value`, for a `T` of `bytes` bytes. -/
def storeResult (mem : Memory) (address : UInt64) (bytes value : Nat) : Memory := fun a =>
  if (a - address).toNat < bytes then UInt8.ofNat (value / 256 ^ (a - address).toNat) else mem a

/-- `print_arg`. Conversions of decimal floating point print nothing. -/
def printArg (mem : Memory) (config : PrintConfig) : Output (UInt32 × Memory) :=
  match config.type with
  | .intNumber => do
    let forceSign := config.flags.forceSign || config.flags.emptySpace
    let temp ← StateT.lift (intToDecCommon config.int forceSign config.flags.groupDigits)
    return (← printIntFormatted config temp, mem)
  | .uintNumber => do
    let temp ← StateT.lift (uintToDecCommon config.uint config.flags.groupDigits)
    return (← printIntFormatted config temp, mem)
  | .uintBinary => do
    let temp ← StateT.lift (uintToBinCommon config.uint)
    return (← printUintFormatted config temp, mem)
  | .uintOctal => do
    let temp ← StateT.lift (uintToOctCommon config.uint)
    return (← printUintFormatted config temp, mem)
  | .uintHex => do
    let temp ← StateT.lift (uintToHexCommon config.flags.upperCase config.uint)
    return (← printUintFormatted config temp, mem)
  | .doubleHex => do
    let temp ← StateT.lift (float64ToHex config.flags.upperCase config.data)
    writen temp
    return (UInt32.ofNat temp.length, mem)
  | .char => do return (← printChar config, mem)
  | .string => do return (← printString mem config, mem)
  | .pointer => do return (← printPointer config, mem)
  | .result =>
    pure (0, storeResult mem config.data config.modifier.resultBytes config.result.toNat)
  | _ => pure (0, mem)

end WindowsLibc.Printf
