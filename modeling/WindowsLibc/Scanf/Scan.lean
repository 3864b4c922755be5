import WindowsLibc.Printf.Print
import WindowsLibc.Scanf.Convert
import WindowsLibc.Scanf.Format

/-!
# Scanning (`stdio/scanf.c`)

`do_scan` reads one conversion and stores it, `scan_arg` skips the white space in front of it and keeps
to its width, and `wlibc_scanf_internal` goes through the format.

* What the program can see afterwards is a `Store`: the memory that the arguments point into, and the
  blocks allocated for strings. A string goes into a buffer of its own first, the caller's memory or a
  block; a store outside of it is a fault (`none`).
* The allocator's answers, the addresses of its blocks and the floating-point unit are a `ScanEnv`.
-/

namespace WindowsLibc.Scanf

open WindowsLibc.Printf

/-- What the code runs on: floating point, the answers of the allocator and the address of the n-th
block it gives out. -/
structure ScanEnv where
  fpu : FloatUnit
  alloc : Nat → Bool
  block : Nat → UInt64

/-- Some environment. -/
def plainEnv : ScanEnv :=
  ⟨⟨fun _ _ => 0, fun _ _ => 0, fun _ _ => 0, fun _ => 0, fun _ => 0⟩, fun _ => true, fun _ => 0⟩

/-- Memory, and the blocks that have been given out. -/
structure Store where
  mem : Memory
  blocks : List (List UInt8)

namespace Store

/-- `*(T *)config->data = (T)value`, for a `T` of `bytes` bytes. -/
def put (st : Store) (data : Option UInt64) (bytes value : Nat) : Store :=
  match data with
  | none => st
  | some address => { st with mem := storeResult st.mem address bytes value }

/-- Bytes in memory. -/
def write (st : Store) (address : UInt64) (bytes : List UInt8) : Store :=
  { st with mem := fun a =>
      if (a - address).toNat < bytes.length then bytes.getD (a - address).toNat 0 else st.mem a }

/-- What a string or a set leaves: the caller's bytes, or a pointer to a block with them. -/
def keep (st : Store) (env : ScanEnv) (config : ScanConfig) (out : Buffer) : Store :=
  match config.data with
  | none => st
  | some address =>
    if config.flags.allocateString then
      if out.data = [] then st.put (some address) 8 0
      else
        { st.put (some address) 8 (env.block st.blocks.length).toNat with
          blocks := st.blocks ++ [out.data] }
    else st.write address out.contents

end Store

/-- A conversion: the count it returns, the buffer behind it and what it has stored. -/
abbrev Scanned := UInt32 × Buffer × Store

/-- `IS_SPACE`. -/
def isSpace (byte : UInt8) : Bool := byte = 32 ∨ (9 ≤ byte ∧ byte ≤ 13)

/-- `consume_whitespaces`. -/
def consumeWhitespaces (b : Buffer) : Taken Unit :=
  readWhile (fun _ byte => if isSpace byte then some () else none) () 0 b

/-! ## Conversions -/

/-- `config->type` is a conversion of integers: the prefix is `prefixCount` bytes, the value goes into
the type of the modifier. -/
def storeInteger (config : ScanConfig) (st : Store) (prefixCount : UInt32) (value : UInt64)
    (count : UInt32) (b : Buffer) : Scanned :=
  (prefixCount + count, b, st.put config.data config.modifier.resultBytes value.toNat)

/-- `0b` or `0x`, the letter in either case. -/
def skipPrefix (letter : UInt8) (b : Buffer) : UInt32 × Buffer :=
  if b.peekbyte 0 = 48 ∧ toLower (b.peekbyte 1) = letter then (2, b.advance 2) else (0, b)

/-- `0`, or `0o`. -/
def skipOctalPrefix (b : Buffer) : UInt32 × Buffer :=
  if b.peekbyte 0 = 48 then
    if toLower (b.next.peekbyte 0) = 111 then (2, b.next.next) else (1, b.next)
  else (0, b)

/-- A double goes into a `double` for some modifiers, and into a `float` otherwise. -/
def storeFloat (env : ScanEnv) (config : ScanConfig) (st : Store) (taken : Taken UInt64) : Scanned :=
  match config.modifier with
  | .long | .longLong | .longDouble =>
    (taken.count, taken.buffer, st.put config.data 8 taken.value.toNat)
  | _ => (taken.count, taken.buffer, st.put config.data 4 (env.fpu.toFloat32 taken.value).toNat)

/-- `utf8_decode(current(buffer), (uint8_t)pending(buffer), &codepoint)`. -/
def decodeHere (b : Buffer) : Nat × UInt32 := utf8Decode (b.data.drop b.pos) (UInt8.ofNat b.pending)

/-- `SCAN_CHAR`. -/
def scanChar (config : ScanConfig) (b : Buffer) (st : Store) : Scanned :=
  if b.pending = 0 then (0, b, st)
  else
    match config.modifier with
    | .long =>
      let (count, codepoint) := decodeHere b
      if count = 0 then (0, b.advance 0, st)
      else if codepoint > 0xFFFF then
        (UInt32.ofNat count, b.advance count, st.put config.data 2 0xFFFF)
      else
        (UInt32.ofNat count, b.advance count, st.put config.data 2 codepoint.toNat)
    | .longLong =>
      let (count, codepoint) := decodeHere b
      if count = 0 then (0, b.advance 0, st)
      else (UInt32.ofNat count, b.advance count, st.put config.data 4 codepoint.toNat)
    | _ => (1, b.next, st.put config.data 1 b.readbyte.1.toNat)

/-- The zero behind a string, in characters of its own width. -/
def terminator : Modifier → List UInt8
  | .long => [0, 0]
  | .longLong => [0, 0, 0, 0]
  | _ => [0]

/-- The buffer that a string is read into. -/
def outBuffer (env : ScanEnv) (config : ScanConfig) : Buffer :=
  if config.flags.allocateString then .growing env.alloc else .fixed [] (2 ^ 64 - 1)

/-- Bytes that are stored at `current(&out)` and then advanced over, without asking for room. -/
def storeAt (out : Buffer) (bytes : List UInt8) : Option Buffer :=
  if out.pos + bytes.length ≤ out.size then some (out.store bytes) else none

/-- The loop of `SCAN_STRING`: whether it came to the end of the string, the count, and both
buffers. -/
def stringLoop (modifier : Modifier) : Nat → UInt32 → Buffer → Buffer →
    Option (Bool × UInt32 × Buffer × Buffer)
  | 0, result, b, out => some (true, result, b, out)
  | fuel + 1, result, b, out =>
    let byte := b.peekbyte 0
    if byte = 0 ∨ isSpace byte then some (true, result, b, out)
    else
      match modifier with
      | .long =>
        let (count, codepoint) := decodeHere b
        if count = 0 then some (false, result, b, out)
        else (storeAt out (utf16Encode codepoint)).bind
          (stringLoop .long fuel (result + UInt32.ofNat count) (b.advance count))
      | .longLong =>
        let (count, codepoint) := decodeHere b
        if count = 0 then some (false, result, b, out)
        else stringLoop .longLong fuel (result + UInt32.ofNat count) (b.advance count)
          (out.writen (unitBytes codepoint.toUInt16 ++ unitBytes (codepoint >>> 16).toUInt16))
      | modifier => stringLoop modifier fuel (result + 1) b.next (out.writebyte byte)

/-- `SCAN_STRING`. There is no terminator behind a sequence that cannot be decoded. -/
def scanString (env : ScanEnv) (config : ScanConfig) (b : Buffer) (st : Store) : Option Scanned :=
  if config.flags.suppressInput then
    let taken := readWhile (fun _ byte => if isSpace byte then none else some ()) () 0 b
    some (taken.count, taken.buffer, st)
  else
    (stringLoop config.modifier (b.size - b.pos) 0 b (outBuffer env config)).map
      fun (finished, result, b, out) =>
        let out := if finished then (terminator config.modifier).foldl Buffer.writebyte out else out
        (result, b, st.keep env config out)

/-- One byte of a set, in characters of the modifier's width. -/
def setChar (byte : UInt8) : Modifier → List UInt8
  | .long => [byte, 0]
  | .longLong => [byte, 0, 0, 0]
  | _ => [byte]

/-- `SCAN_SET`. -/
def scanSet (env : ScanEnv) (config : ScanConfig) (b : Buffer) (st : Store) : Scanned :=
  let member := fun byte : UInt8 => byte ≤ 127 ∧ getBit config.set byte
  if config.flags.suppressInput then
    let taken := readWhile (fun _ byte => if member byte then some () else none) () 0 b
    (taken.count, taken.buffer, st)
  else
    let taken := readWhile (fun out byte =>
      if member byte then some ((setChar byte config.modifier).foldl Buffer.writebyte out) else none)
      (outBuffer env config) 0 b
    (taken.count, taken.buffer,
      st.keep env config ((terminator config.modifier).foldl Buffer.writebyte taken.value))

/-- `do_scan`. -/
def doScan (env : ScanEnv) (config : ScanConfig) (b : Buffer) (st : Store) : Option Scanned :=
  match config.type with
  | .intNumber =>
    let taken := intFromDecCommon config.flags.groupDigits b
    some (storeInteger config st 0 taken.value.toUInt64 taken.count taken.buffer)
  | .uintNumber =>
    let taken := uintFromDecCommon config.flags.groupDigits b
    some (storeInteger config st 0 taken.value taken.count taken.buffer)
  | .uintBinary =>
    let (skipped, b) := skipPrefix 98 b
    let taken := uintFromBinCommon b
    some (storeInteger config st skipped taken.value taken.count taken.buffer)
  | .uintOctal =>
    let (skipped, b) := skipOctalPrefix b
    let taken := uintFromOctCommon b
    some (storeInteger config st skipped taken.value taken.count taken.buffer)
  | .uintHex =>
    let (skipped, b) := skipPrefix 120 b
    let taken := uintFromHexCommon b
    some (storeInteger config st skipped taken.value taken.count taken.buffer)
  | .doubleNormal | .doubleScientific | .doubleScientificShort =>
    some (storeFloat env config st (floatFromNormalCommon env.fpu config.flags.groupDigits b))
  | .doubleHex => some (storeFloat env config st (floatFromHexCommon env.fpu b))
  | .char => some (scanChar config b st)
  | .string => scanString env config b st
  | .set => some (scanSet env config b st)
  | .pointer =>
    let taken := pointerDecode b
    some (taken.count, taken.buffer, st.put config.data 8 taken.value.toNat)
  | .result => some (0, b, st.put config.data config.modifier.resultBytes config.result.toNat)
  | .unknown => some (0, b, st)

/-- White space in front of these conversions is not skipped. -/
def ScanType.keepsSpace : ScanType → Bool
  | .result | .char | .set => true
  | _ => false

/-- `scan_arg`. With a width, the buffer ends that many bytes further on. -/
def scanArg (env : ScanEnv) (config : ScanConfig) (b : Buffer) (st : Store) : Option Scanned :=
  let spaces := if config.type.keepsSpace then ⟨⟨⟩, 0, b⟩ else consumeWhitespaces b
  let b := spaces.buffer
  if config.width > 0 then
    (doScan env config { b with size := b.pos + config.width.toNat } st).map
      fun (count, b', st) => (spaces.count + count, { b' with size := b.size }, st)
  else (doScan env config b st).map fun (count, b, st) => (spaces.count + count, b, st)

/-! ## The loop over the format -/

/-- The variables of the loop; `format` is what is left of `in`. -/
structure ScanLoop where
  format : List UInt8
  args : VariadicArgs
  buffer : Buffer
  store : Store
  processed : UInt32
  result : UInt32

/-- How a turn ends: with the next one, with a `break` or the end of the format, or with `-1`. -/
inductive ScanTurn where
  | next (l : ScanLoop)
  | done (l : ScanLoop)
  | failed (l : ScanLoop)

/-- A turn at a directive. -/
def scanDirective (env : ScanEnv) (l : ScanLoop) (format : List UInt8) : Option ScanTurn := do
  let (config, format, args) ← parseScanSpecifier format l.args
  if config.type = .unknown then return .failed l
  let config := { config with result := l.processed.toUInt64 }
  let (count, buffer, store) ← scanArg env config l.buffer l.store
  if buffer.error then return .failed { l with buffer := buffer, store := store }
  let l := { l with format := format, args := args, buffer := buffer, store := store }
  if config.type ≠ .result ∧ ¬ config.flags.suppressInput then
    if count = 0 ∧ (config.type ≠ .set ∨ format = []) then return .done l
    return .next { l with processed := l.processed + count, result := l.result + 1 }
  return .next { l with processed := l.processed + count }

/-- One turn. -/
def scanfIteration (env : ScanEnv) (l : ScanLoop) : Option ScanTurn :=
  match l.format with
  | [] => some (.done l)
  | [37] => some (.done l)
  | 37 :: 37 :: format =>
    if l.buffer.peekbyte 0 ≠ 37 then some (.done l)
    else some (.next { l with
      format := format
      buffer := l.buffer.next
      processed := l.processed + 1 })
  | 37 :: format => scanDirective env l format
  | byte :: format =>
    if isSpace byte then
      let spaces := consumeWhitespaces l.buffer
      some (.next { l with
        format := format
        buffer := spaces.buffer
        processed := l.processed + spaces.count })
    else if l.buffer.peekbyte 0 ≠ byte then some (.done l)
    else some (.next { l with
      format := format
      buffer := l.buffer.next
      processed := l.processed + 1 })

/-- The loop. A turn takes at least one byte of the format. -/
def scanfLoop (env : ScanEnv) : Nat → ScanLoop → Option (Int32 × Store)
  | 0, l => some (l.result.toInt32, l.store)
  | fuel + 1, l =>
    (scanfIteration env l).bind fun
      | .next l => scanfLoop env fuel l
      | .done l => some (l.result.toInt32, l.store)
      | .failed l => some (-1, l.store)

/-- `wlibc_scanf_internal`: the value it returns, and what it leaves in memory. -/
def scanfInternal (env : ScanEnv) (buffer : Buffer) (format : List UInt8) (list : Nat → UInt64)
    (st : Store) : Option (Int32 × Store) :=
  let format := (format.takeWhile (· ≠ 0)).take 65536
  scanfLoop env (format.length + 1) ⟨format, .init list, buffer, st, 0, 0⟩

/-- `wlibc_vfscanf`. Nothing is read from the stream: the buffer is empty. -/
def vfscanf (env : ScanEnv) (stream : Bool) (format : Option (List UInt8)) (list : Nat → UInt64)
    (st : Store) : Option (Int32 × Store) :=
  match format with
  | none => some (-1, st)
  | some format =>
    if stream then scanfInternal env (.fixed [] 0) format list st else some (-1, st)

/-- `wlibc_vsscanf`; `str` is the memory from the string on. -/
def vsscanf (env : ScanEnv) (str format : Option (List UInt8)) (list : Nat → UInt64) (st : Store) :
    Option (Int32 × Store) :=
  match str, format with
  | some str, some format =>
    scanfInternal env (.fixed str ((str.takeWhile (· ≠ 0)).take 65536).length) format list st
  | _, _ => some (-1, st)

/-! ## Turns and white space -/

theorem scanfIteration_percent {env : ScanEnv} {l : ScanLoop} {c : UInt8} {bytes : List UInt8}
    (h : l.format = 37 :: c :: bytes) (hc : c ≠ 37) :
    scanfIteration env l = scanDirective env l (c :: bytes) := by
  simp [scanfIteration, h, hc]

theorem isSpace_zero : isSpace 0 = false := by decide

/-- White space in front is skipped, all of it. -/
theorem consumeWhitespaces_reads {b : Buffer} {spaces text : List UInt8}
    (hspaces : ∀ c ∈ spaces, isSpace c) (h : Reads b (spaces ++ text))
    (htext : ¬ isSpace (text.headD 0)) :
    ∃ b', consumeWhitespaces b = ⟨(), UInt32.ofNat spaces.length, b'⟩ ∧ Reads b' text := by
  have hnul : ∀ c ∈ spaces, c ≠ 0 := by
    rintro c hc rfl
    have hspace := hspaces 0 hc
    rw [isSpace_zero] at hspace
    cases hspace
  have hrun : spaces.foldlM (fun _ byte => if isSpace byte then some () else none) () =
      some () := by
    clear h hnul
    induction spaces with
    | nil => rfl
    | cons c spaces ih =>
      rw [List.foldlM_cons, if_pos (hspaces c List.mem_cons_self)]
      exact ih fun c hc => hspaces c (List.mem_cons_of_mem _ hc)
  have hfuel : spaces.length ≤ b.size - b.pos := by
    rw [← h.length, List.length_append]
    exact Nat.le_add_right _ _
  obtain ⟨b', hread, hreads⟩ := readFrom_reads h hnul hrun (if_neg htext) hfuel 0
  refine ⟨b', ?_, hreads⟩
  rw [consumeWhitespaces, readWhile, hread, UInt32.zero_add]

end WindowsLibc.Scanf
