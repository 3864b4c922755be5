import WindowsLibc.Lib.Digits
import WindowsLibc.Printf.Buffer
import WindowsLibc.Printf.Convert

/-!
# From text to values (`internal/convert.c`)

The conversions that `scanf` uses. Each reads from the front of what is left of the input and returns
a value, the number of bytes it counts and the buffer behind them.

* Digits accumulate in 64-bit words, which wrap around; `readWhile_reads` is the loop over them.
* Doubles are their bits. What the processor does with them is a parameter (`FloatUnit`).
* `uintFrom_numeral`, `uintFromDecCommon_numeral`, `intFromDecCommon_numeral` and
  `pointerDecode_numeral`: a numeral that ends where it should is read as its number.
-/

namespace WindowsLibc.Scanf

open WindowsLibc.Lib WindowsLibc.Printf

/-- A value that has been read, the bytes counted for it, and the buffer behind it. -/
structure Taken (α : Type) where
  value : α
  count : UInt32
  buffer : Buffer

/-- `TO_LOWER`. -/
def toLower (byte : UInt8) : UInt8 := byte ||| 0x20

/-- `IS_DIGIT`. -/
def isDigit (byte : UInt8) : Bool := 48 ≤ byte ∧ byte ≤ 57

theorem isDigit_ne_zero {byte : UInt8} (h : isDigit byte = true) : byte ≠ 0 := by
  rintro rfl
  cases h

/-! ## Powers of two -/

/-- A loop `while ((byte = peekbyte(buffer, 0)) != '\0')`: `body` says what a byte makes of the value,
or breaks off (`none`). A byte is read and counted in every turn. -/
def readFrom {α : Type} (body : α → UInt8 → Option α) : Nat → α → UInt32 → Buffer → Taken α
  | 0, value, count, b => ⟨value, count, b⟩
  | fuel + 1, value, count, b =>
    if b.peekbyte 0 = 0 then ⟨value, count, b⟩
    else
      match body value (b.peekbyte 0) with
      | none => ⟨value, count, b⟩
      | some value => readFrom body fuel value (count + 1) b.next

/-- The loop with fuel for all that is left. -/
def readWhile {α : Type} (body : α → UInt8 → Option α) (value : α) (count : UInt32) (b : Buffer) :
    Taken α :=
  readFrom body (b.size - b.pos) value count b

/-- `hex_to_nibble_table`; 255 is `none`. -/
def hexNibble (byte : UInt8) : Option UInt8 :=
  if 48 ≤ byte ∧ byte ≤ 57 then some (byte - 48)
  else if 65 ≤ byte ∧ byte ≤ 70 then some (byte - 55)
  else if 97 ≤ byte ∧ byte ≤ 102 then some (byte - 87)
  else none

/-- An octal digit. -/
def octDigit (byte : UInt8) : Option UInt8 :=
  if 48 ≤ byte ∧ byte ≤ 55 then some (byte - 48) else none

/-- A binary digit. -/
def binDigit (byte : UInt8) : Option UInt8 :=
  if byte = 48 ∨ byte = 49 then some (byte - 48) else none

/-- `uint_from_hex_common` and its like: every digit is shifted in. -/
def uintFrom (shift : UInt64) (digit : UInt8 → Option UInt8) (b : Buffer) : Taken UInt64 :=
  readWhile (fun value byte => (digit byte).map fun d => (value <<< shift) + d.toUInt64) 0 0 b

/-- `uint_from_hex_common`. -/
def uintFromHexCommon : Buffer → Taken UInt64 := uintFrom 4 hexNibble

/-- `uint_from_oct_common`. -/
def uintFromOctCommon : Buffer → Taken UInt64 := uintFrom 3 octDigit

/-- `uint_from_bin_common`. -/
def uintFromBinCommon : Buffer → Taken UInt64 := uintFrom 1 binDigit

/-- `pointer_decode`. Without the prefix nothing is counted, though a `0` may have been read. -/
def pointerDecode (b : Buffer) : Taken UInt64 :=
  if b.peekbyte 0 = 48 then
    if toLower (b.next.peekbyte 0) = 120 then
      let taken := uintFromHexCommon b.next.next
      ⟨taken.value, 2 + taken.count, taken.buffer⟩
    else ⟨0, 0, b.next⟩
  else ⟨0, 0, b⟩

/-! ## Decimal -/

/-- `digit_parse_state`. -/
structure DigitParseState where
  period : UInt8 := 0
  grouping : Bool := false
  fraction : Bool := false
  groupDigits : Bool

/-- `parse_digits`: a digit, or 0. The fuel is for `goto begin`, which comes behind a byte that is
read. -/
def parseDigitsFrom : Nat → DigitParseState → UInt32 → Buffer → UInt8 × DigitParseState × UInt32 × Buffer
  | 0, state, count, b => (0, state, count, b)
  | fuel + 1, state, count, b =>
    let byte := b.peekbyte 0
    if byte = 0 then (0, state, count, b)
    else if isDigit byte then
      if state.grouping ∧ state.period = 3 then (0, state, count, b)
      else (byte, { state with period := state.period + 1 }, count + 1, b.next)
    else if byte = 44 ∧ state.groupDigits then
      -- a comma at the end is consumed
      if b.peekbyte 1 = 0 then (0, state, count + 1, b.next)
      else if state.fraction then
        if state.period ≠ 3 then (0, state, count, b)
        else parseDigitsFrom fuel { state with grouping := true, period := 0 } (count + 1) b.next
      else if state.grouping ∧ state.period ≠ 3 then (0, state, count, b)
      else if ¬ state.grouping ∧ state.period > 3 then (0, state, count, b)
      else if isDigit (b.peekbyte 1) ∧ isDigit (b.peekbyte 2) ∧ isDigit (b.peekbyte 3) then
        parseDigitsFrom fuel { state with grouping := true, period := 0 } (count + 1) b.next
      else (0, { state with grouping := true, period := 0 }, count, b)
    else (0, state, count, b)

def parseDigits (state : DigitParseState) (count : UInt32) (b : Buffer) :
    UInt8 × DigitParseState × UInt32 × Buffer :=
  parseDigitsFrom (b.size - b.pos + 1) state count b

/-- `while ((byte = parse_digits(&state, buffer, &count)) != '\0')`. -/
def digitsLoop {α : Type} (add : α → UInt8 → α) :
    Nat → DigitParseState → α → UInt32 → Buffer → Taken α
  | 0, _, value, count, b => ⟨value, count, b⟩
  | fuel + 1, state, value, count, b =>
    let (byte, state, count, b) := parseDigits state count b
    if byte = 0 then ⟨value, count, b⟩ else digitsLoop add fuel state (add value byte) count b

def readDigits {α : Type} (add : α → UInt8 → α) (state : DigitParseState) (value : α)
    (count : UInt32) (b : Buffer) : Taken α :=
  digitsLoop add (b.size - b.pos + 1) state value count b

/-- `uint_from_dec_common`. -/
def uintFromDecCommon (groupDigits : Bool) (b : Buffer) : Taken UInt64 :=
  let add := fun value byte => value * 10 + (byte - 48).toUInt64
  if b.peekbyte 0 = 43 then readDigits add { groupDigits := groupDigits } 0 1 b.next
  else readDigits add { groupDigits := groupDigits } 0 0 b

/-- `int_from_dec_common`, in words that wrap around. -/
def intFromDecCommon (groupDigits : Bool) (b : Buffer) : Taken Int64 :=
  let digit := fun byte : UInt8 => Int64.ofInt (byte.toNat - 48)
  let state : DigitParseState := { groupDigits := groupDigits }
  if b.peekbyte 0 = 45 then
    readDigits (fun value byte => value * 10 - digit byte) state 0 1 b.next
  else if b.peekbyte 0 = 43 then
    readDigits (fun value byte => value * 10 + digit byte) state 0 1 b.next
  else readDigits (fun value byte => value * 10 + digit byte) state 0 0 b

/-! ## Floating point -/

/-- What the processor does with doubles, which are given by their bits. -/
structure FloatUnit where
  add : UInt64 → UInt64 → UInt64
  mul : UInt64 → UInt64 → UInt64
  div : UInt64 → UInt64 → UInt64
  ofNat : Nat → UInt64
  toFloat32 : UInt64 → UInt32

/-- `parse_float_inf_or_nan`; a count of 0 says that it is neither. -/
def parseFloatInfOrNan (b : Buffer) (value : UInt64) : Taken UInt64 :=
  let at_ := fun (b : Buffer) i => toLower (b.peekbyte i)
  if at_ b 0 = 105 ∧ at_ b 1 = 110 ∧ at_ b 2 = 102 then
    let b := b.advance 3
    if at_ b 0 = 105 ∧ at_ b 1 = 110 ∧ at_ b 2 = 105 ∧ at_ b 3 = 116 ∧ at_ b 4 = 121 then
      ⟨0x7FF0000000000000, 8, b.advance 5⟩
    else ⟨0x7FF0000000000000, 3, b⟩
  else if at_ b 0 = 110 ∧ at_ b 1 = 97 ∧ at_ b 2 = 110 then
    ⟨0x7FFFFFFFFFFFFFFF, 3, b.advance 3⟩
  else ⟨value, 0, b⟩

/-- The sign in front: whether it is a minus, and how many bytes it takes. -/
def takeFloatSign (b : Buffer) : Bool × UInt32 × Buffer :=
  if b.peekbyte 0 = 43 ∨ b.peekbyte 0 = 45 then (b.peekbyte 0 = 45, 1, b.next) else (false, 0, b)

/-- `while (exp != 0)`: the square of `temp`, and the factor of the lowest bit. An exponent has 64
bits. -/
def powerFrom (fpu : FloatUnit) : Nat → Nat → UInt64 → UInt64 → UInt64
  | 0, _, _, factor => factor
  | fuel + 1, exp, temp, factor =>
    if exp = 0 then factor
    else
      let temp := fpu.mul temp temp
      powerFrom fpu fuel (exp / 2) temp (if exp % 2 = 1 then fpu.mul factor temp else factor)

/-- The exponent behind its letter, and what it makes of the value. -/
def scaleBy (fpu : FloatUnit) (base : Nat) (value : UInt64) (count : UInt32) (b : Buffer) :
    Taken UInt64 :=
  let (sign, signCount, b) := takeFloatSign b
  let exp := uintFromDecCommon false b
  let first := if exp.value.toNat % 2 = 1 then fpu.ofNat base else fpu.ofNat 1
  let factor := powerFrom fpu 64 (exp.value.toNat / 2) (fpu.ofNat base) first
  ⟨if sign then fpu.div value factor else fpu.mul value factor, count + signCount + exp.count,
    exp.buffer⟩

/-- `*value *= -1.0` behind a minus. -/
def negateIf (fpu : FloatUnit) (minus : Bool) (taken : Taken UInt64) : Taken UInt64 :=
  if minus then { taken with value := fpu.mul taken.value 0xBFF0000000000000 } else taken

/-- The digits behind a point, and the next divisor. -/
def addFraction (fpu : FloatUnit) (base : Nat) (acc : UInt64 × UInt64) (d : UInt8) :
    UInt64 × UInt64 :=
  (fpu.add acc.1 (fpu.div (fpu.ofNat d.toNat) acc.2), fpu.mul acc.2 (fpu.ofNat base))

/-- `float_from_hex_common`. Without the prefix nothing is counted, though bytes have been read. -/
def floatFromHexCommon (fpu : FloatUnit) (b : Buffer) : Taken UInt64 :=
  let (minus, count, b) := takeFloatSign b
  let special := parseFloatInfOrNan b 0
  if special.count ≠ 0 then
    ⟨if minus then special.value ||| 0x8000000000000000 else special.value, count + special.count,
      special.buffer⟩
  else if b.readbyte.1 ≠ 48 then ⟨0, 0, b.next⟩
  else if toLower b.next.readbyte.1 ≠ 120 then ⟨0, 0, b.next.next⟩
  else
    let whole := readWhile (fun value byte => (hexNibble byte).map fun d =>
      fpu.add (fpu.mul value (fpu.ofNat 16)) (fpu.ofNat d.toNat)) 0 (count + 2) b.next.next
    let taken :=
      if whole.buffer.peekbyte 0 = 46 then
        let fraction := readWhile
          (fun acc byte => (hexNibble byte).map (addFraction fpu 16 acc))
          (whole.value, fpu.ofNat 16) (whole.count + 1) whole.buffer.next
        ⟨fraction.value.1, fraction.count, fraction.buffer⟩
      else whole
    if toLower (taken.buffer.peekbyte 0) = 112 then
      negateIf fpu minus (scaleBy fpu 2 taken.value (taken.count + 1) taken.buffer.next)
    else negateIf fpu minus taken

/-- `float_from_normal_common`. -/
def floatFromNormalCommon (fpu : FloatUnit) (groupDigits : Bool) (b : Buffer) : Taken UInt64 :=
  let (minus, count, b) := takeFloatSign b
  let special := parseFloatInfOrNan b 0
  if special.count ≠ 0 then
    ⟨if minus then special.value ||| 0x8000000000000000 else special.value, count + special.count,
      special.buffer⟩
  else
    let whole := readDigits (fun value byte =>
      fpu.add (fpu.mul value (fpu.ofNat 10)) (fpu.ofNat (byte.toNat - 48)))
      { groupDigits := groupDigits } 0 count b
    let taken :=
      if whole.buffer.peekbyte 0 = 46 then
        let fraction := readDigits (fun acc byte => addFraction fpu 10 acc (byte - 48))
          { fraction := true, groupDigits := groupDigits } (whole.value, fpu.ofNat 10)
          (whole.count + 1) whole.buffer.next
        ⟨fraction.value.1, fraction.count, fraction.buffer⟩
      else whole
    if toLower (taken.buffer.peekbyte 0) = 101 then
      negateIf fpu minus (scaleBy fpu 10 taken.value (taken.count + 1) taken.buffer.next)
    else negateIf fpu minus taken

/-! ## Characters -/

/-- `utf8_decode` of the bytes at the front of `text`, of which there are `size`: the number of bytes
and the codepoint; 0 bytes for an invalid sequence. -/
def utf8Decode (text : List UInt8) (size : UInt8) : Nat × UInt32 :=
  let byte := text.headD 0
  let bits := fun (i : Nat) (shift : UInt32) => ((text.getD i 0 &&& 0x3F).toUInt32) <<< shift
  let continues := fun (i : Nat) => text.getD i 0 &&& 0xC0 = 0x80
  if size = 0 then (0, 0)
  else if byte ≤ 0x7F then (1, byte.toUInt32)
  else if byte &&& 0xE0 = 0xC0 then
    let codepoint := ((byte &&& 0x1F).toUInt32 <<< 6) ||| bits 1 0
    if size < 2 ∨ ¬ continues 1 ∨ codepoint < 0x80 then (0, 0) else (2, codepoint)
  else if byte &&& 0xF0 = 0xE0 then
    let codepoint := ((byte &&& 0x0F).toUInt32 <<< 12) ||| bits 1 6 ||| bits 2 0
    if size < 3 ∨ ¬ continues 1 ∨ ¬ continues 2 then (0, 0)
    else if 0xD800 ≤ codepoint ∧ codepoint ≤ 0xDFFF then (0, 0)
    else if codepoint < 0x800 then (0, 0)
    else (3, codepoint)
  else if byte &&& 0xF8 = 0xF0 then
    let codepoint := ((byte &&& 0x07).toUInt32 <<< 18) ||| bits 1 12 ||| bits 2 6 ||| bits 3 0
    if size < 4 ∨ ¬ continues 1 ∨ ¬ continues 2 ∨ ¬ continues 3 then (0, 0)
    else if codepoint < 0x10000 then (0, 0)
    else (4, codepoint)
  else (0, 0)

/-- A 16-bit unit in memory. -/
def unitBytes (unit : UInt16) : List UInt8 := [unit.toUInt8, (unit >>> 8).toUInt8]

/-- `utf16_encode`. -/
def utf16Encode (codepoint : UInt32) : List UInt8 :=
  if codepoint > 0x10FFFF then []
  else if codepoint ≤ 0xFFFF then unitBytes codepoint.toUInt16
  else
    let v := codepoint - 0x10000
    let high := (0xD800 : UInt32) ||| ((v >>> 10) &&& 0x3FF)
    let low := (0xDC00 : UInt32) ||| (v &&& 0x3FF)
    unitBytes high.toUInt16 ++ unitBytes low.toUInt16

/-! ## Reading numerals -/

variable {b : Buffer} {tail : List UInt8}

/-- The loop goes through `run` and stops behind it. -/
theorem readFrom_reads {α : Type} {body : α → UInt8 → Option α} {run : List UInt8} {v v' : α}
    (h : Reads b (run ++ tail)) (hnul : ∀ c ∈ run, c ≠ 0) (hrun : run.foldlM body v = some v')
    (hstop : body v' (tail.headD 0) = none) {fuel : Nat} (hfuel : run.length ≤ fuel) (count : UInt32) :
    ∃ b', readFrom body fuel v count b = ⟨v', count + UInt32.ofNat run.length, b'⟩ ∧
      Reads b' tail := by
  induction run generalizing b v count fuel with
  | nil =>
    cases hrun
    have hpeek : b.peekbyte 0 = tail.headD 0 := h.peek
    refine ⟨b, ?_, h⟩
    rw [List.length_nil, show count + UInt32.ofNat 0 = count from UInt32.add_zero count]
    cases fuel with
    | zero => rfl
    | succ fuel => rw [readFrom, hpeek, hstop, ite_self]
  | cons c run ih =>
    cases fuel with
    | zero => exact absurd hfuel (Nat.not_succ_le_zero _)
    | succ fuel =>
      rw [List.foldlM_cons] at hrun
      obtain ⟨v₁, hv₁, hrun⟩ := Option.bind_eq_some_iff.mp hrun
      have hpeek : b.peekbyte 0 = c := h.peek
      obtain ⟨b', hread, hreads⟩ := ih h.next (fun c hc => hnul c (List.mem_cons_of_mem _ hc)) hrun
        (Nat.le_of_succ_le_succ hfuel) (count + 1)
      refine ⟨b', ?_, hreads⟩
      rw [readFrom, hpeek, if_neg (hnul c List.mem_cons_self), hv₁, List.length_cons, Nat.add_comm,
        UInt32.ofNat_add, ← UInt32.add_assoc]
      exact hread

/-- `decode` undoes `digit`. -/
def Decodes (base : Nat) (digit : Nat → UInt8) (decode : UInt8 → Option UInt8) : Prop :=
  ∀ d < base, digit d ≠ 0 ∧ decode (digit d) = some (UInt8.ofNat d)

theorem foldlM_decode {base : Nat} {digit : Nat → UInt8} {decode : UInt8 → Option UInt8}
    (h : Decodes base digit decode) {α : Type} (f : α → UInt8 → α) {ds : List Nat}
    (hds : ∀ d ∈ ds, d < base) (v : α) :
    (ds.map digit).foldlM (fun v byte => (decode byte).map (f v)) v =
      some (ds.foldl (fun v d => f v (UInt8.ofNat d)) v) := by
  induction ds generalizing v with
  | nil => rfl
  | cons d ds ih =>
    rw [List.map_cons, List.foldlM_cons, (h d (hds d List.mem_cons_self)).2]
    exact ih (fun d hd => hds d (List.mem_cons_of_mem _ hd)) _

/-- Shifting a digit in. -/
theorem shiftLeft_add {shift : UInt64} {base : Nat} (hshift : shift.toNat < 64)
    (hbase : 2 ^ shift.toNat = base) (v d : Nat) :
    (UInt64.ofNat v <<< shift) + UInt64.ofNat d = UInt64.ofNat (v * base + d) := by
  apply UInt64.toNat_inj.mp
  rw [UInt64.toNat_add, UInt64.toNat_shiftLeft, Nat.mod_eq_of_lt hshift, Nat.shiftLeft_eq, hbase]
  simp only [UInt64.toNat_ofNat']
  simp [Nat.add_mod, Nat.mul_mod]

/-- A numeral is read as its number, in 64 bits. -/
theorem uintFrom_numeral {shift : UInt64} {base x : Nat} {digit : Nat → UInt8}
    {decode : UInt8 → Option UInt8} {ds : List Nat} (hshift : shift.toNat < 64)
    (hbase : 2 ^ shift.toNat = base) (hsmall : base ≤ 256) (hdecode : Decodes base digit decode)
    (hdigit : ∀ d ∈ ds, d < base) (hvalue : numeral base 0 ds = x)
    (h : Reads b (ds.map digit ++ tail)) (hstop : decode (tail.headD 0) = none) :
    ∃ b', uintFrom shift decode b = ⟨UInt64.ofNat x, UInt32.ofNat ds.length, b'⟩ ∧
      Reads b' tail := by
  have hread : ds.foldl (fun (v : UInt64) d => (v <<< shift) + (UInt8.ofNat d).toUInt64) 0 =
      UInt64.ofNat x := by
    have hfold := @foldl_numeral base UInt64 UInt64.ofNat
      (fun v d => (v <<< shift) + UInt64.ofNat d) (shiftLeft_add hshift hbase) 0 ds
    rw [hvalue] at hfold
    rw [← hfold]
    apply List.foldl_ext
    intro v d hd
    have hlt := hdigit d hd
    have hword : (UInt8.ofNat d).toUInt64 = UInt64.ofNat d := by
      apply UInt64.toNat_inj.mp
      rw [UInt8.toNat_toUInt64, UInt8.toNat_ofNat', UInt64.toNat_ofNat']
      omega
    rw [hword]
  have hrun := foldlM_decode hdecode (fun (v : UInt64) d => (v <<< shift) + d.toUInt64) hdigit 0
  rw [hread] at hrun
  have hnul : ∀ c ∈ ds.map digit, c ≠ 0 := by
    intro c hc
    obtain ⟨d, hd, rfl⟩ := List.mem_map.mp hc
    exact (hdecode d (hdigit d hd)).1
  have hfuel : (ds.map digit).length ≤ b.size - b.pos := by
    rw [← h.length, List.length_append]
    exact Nat.le_add_right _ _
  obtain ⟨b', hloop, hreads⟩ := readFrom_reads h hnul hrun (by rw [hstop]; rfl) hfuel 0
  refine ⟨b', ?_, hreads⟩
  rw [uintFrom, readWhile, hloop, List.length_map, UInt32.zero_add]

/-! ### Decimal -/

variable {state : DigitParseState} {count : UInt32}

theorem parseDigits_digit {c : UInt8} {text : List UInt8} (h : Reads b (c :: text))
    (hc : isDigit c) (hfull : ¬ (state.grouping = true ∧ state.period = 3)) :
    parseDigits state count b = (c, { state with period := state.period + 1 }, count + 1, b.next) := by
  have hpeek : b.peekbyte 0 = c := h.peek
  have hne : c ≠ 0 := by
    rintro rfl
    exact absurd hc (by decide)
  rw [parseDigits, parseDigitsFrom]
  simp only [hpeek]
  rw [if_neg hne, if_pos hc, if_neg hfull]

theorem parseDigits_stop {text : List UInt8} (h : Reads b text) (htext : ¬ isDigit (text.headD 0))
    (hgroup : state.groupDigits = false) : parseDigits state count b = (0, state, count, b) := by
  have hcomma : ¬ (text.headD 0 = 44 ∧ state.groupDigits = true) := by
    rintro ⟨-, hflag⟩
    exact absurd hflag (by rw [hgroup]; exact Bool.false_ne_true)
  rw [parseDigits, parseDigitsFrom]
  simp only [h.peek]
  rw [if_neg htext, if_neg hcomma, ite_self]

/-- Without grouping, the digits up to the next other byte are read. -/
theorem digitsLoop_reads {α : Type} (add : α → UInt8 → α) {run : List UInt8} {v : α} {fuel : Nat}
    (h : Reads b (run ++ tail)) (hrun : ∀ c ∈ run, isDigit c) (hstop : ¬ isDigit (tail.headD 0))
    (hgrouping : state.grouping = false) (hgroup : state.groupDigits = false)
    (hfuel : run.length < fuel) :
    digitsLoop add fuel state v count b =
      ⟨run.foldl add v, count + UInt32.ofNat run.length, b.advance run.length⟩ := by
  induction run generalizing b v count fuel state with
  | nil =>
    rw [List.length_nil, show count + UInt32.ofNat 0 = count from UInt32.add_zero count, h.advance_zero]
    cases fuel with
    | zero => rfl
    | succ fuel =>
      rw [digitsLoop, parseDigits_stop h hstop hgroup]
      exact if_pos rfl
  | cons c run ih =>
    cases fuel with
    | zero => exact absurd hfuel (Nat.not_lt_zero _)
    | succ fuel =>
      have hc := hrun c List.mem_cons_self
      have hne : c ≠ 0 := by
        rintro rfl
        exact absurd hc (by decide)
      have hloop := @ih b.next { state with period := state.period + 1 } (count + 1) (add v c) fuel h.next
        (fun c hc => hrun c (List.mem_cons_of_mem _ hc)) hgrouping hgroup (Nat.lt_of_succ_lt_succ hfuel)
      rw [digitsLoop, parseDigits_digit h hc fun hfull => by rw [hgrouping] at hfull; cases hfull.1]
      simp only [hne, if_false]
      rw [hloop, h.next_advance, List.length_cons, Nat.add_comm, UInt32.ofNat_add, ← UInt32.add_assoc]
      rfl

theorem isDigit_digitChar {d : Nat} (h : d < 10) : isDigit (digitChar d) := by
  revert d
  decide

theorem exists_digitChar {c : UInt8} (h : isDigit c) : ∃ d < 10, c = digitChar d := by
  obtain ⟨hlo, hhi⟩ := of_decide_eq_true h
  rw [UInt8.le_iff_toNat_le] at hlo hhi
  have hlo' : 48 ≤ c.toNat := hlo
  have hhi' : c.toNat ≤ 57 := hhi
  refine ⟨c.toNat - 48, by omega, ?_⟩
  rw [digitChar, Nat.sub_add_cancel hlo', UInt8.ofNat_toNat]

theorem readDigits_numeral {α : Type} (add : α → UInt8 → α) {x : Nat} {ds : List Nat} {v : α}
    (hds : Numeral 10 x ds) (h : Reads b (ds.map digitChar ++ tail))
    (hstop : ¬ isDigit (tail.headD 0)) :
    readDigits add { groupDigits := false } v count b =
      ⟨ds.foldl (fun v d => add v (digitChar d)) v, count + UInt32.ofNat ds.length, b.advance ds.length⟩ := by
  have hrun : ∀ c ∈ ds.map digitChar, isDigit c := by
    intro c hc
    obtain ⟨d, hd, rfl⟩ := List.mem_map.mp hc
    exact isDigit_digitChar (hds.digit d hd)
  have hfuel : (ds.map digitChar).length < b.size - b.pos + 1 := by
    rw [← h.length, List.length_append]
    omega
  have hloop := @digitsLoop_reads b tail { groupDigits := false } count α add (ds.map digitChar) v _ h hrun
    hstop rfl rfl hfuel
  rw [readDigits, hloop, List.foldl_map, List.length_map]

/-- What is left behind a numeral. -/
theorem reads_behind {ds : List Nat} (h : Reads b (ds.map digitChar ++ tail)) :
    Reads (b.advance ds.length) tail := by
  have hadvance := h.advance
  rwa [List.length_map] at hadvance

/-- A byte in front of what is counted. -/
theorem count_front (c : UInt8) (text : List UInt8) :
    (1 : UInt32) + UInt32.ofNat text.length = UInt32.ofNat (c :: text).length := by
  rw [List.length_cons, Nat.add_comm, UInt32.ofNat_add]
  rfl

theorem digitChar_sub {d : Nat} (h : d < 10) :
    (digitChar d - 48).toUInt64 = UInt64.ofNat d ∧ ((digitChar d).toNat : Int) - 48 = d := by
  revert d
  decide

theorem digitChar_ne_sign {d : Nat} (h : d < 10) : digitChar d ≠ 43 ∧ digitChar d ≠ 45 := by
  revert d
  decide

theorem ofNat_numeral (v d : Nat) :
    UInt64.ofNat v * 10 + UInt64.ofNat d = UInt64.ofNat (v * 10 + d) := by
  rw [UInt64.ofNat_add, UInt64.ofNat_mul]
  rfl

/-- The value of a decimal numeral. -/
theorem foldl_unsigned {x : Nat} {ds : List Nat} (hds : Numeral 10 x ds) :
    ds.foldl (fun v d => v * 10 + (digitChar d - 48).toUInt64) 0 = UInt64.ofNat x := by
  have hfold := @foldl_numeral 10 UInt64 UInt64.ofNat (fun v d => v * 10 + UInt64.ofNat d)
    ofNat_numeral 0 ds
  rw [hds.value] at hfold
  rw [← hfold]
  apply List.foldl_ext
  intro v d hd
  rw [(digitChar_sub (hds.digit d hd)).1]

/-- A decimal numeral without a sign. -/
theorem uintFromDecCommon_numeral {x : Nat} {ds : List Nat} (hds : Numeral 10 x ds)
    (h : Reads b (ds.map digitChar ++ tail)) (hstop : ¬ isDigit (tail.headD 0)) :
    ∃ b', uintFromDecCommon false b = ⟨UInt64.ofNat x, UInt32.ofNat ds.length, b'⟩ ∧
      Reads b' tail := by
  have hpeek : b.peekbyte 0 ≠ 43 := by
    cases ds with
    | nil => exact absurd rfl hds.ne_nil
    | cons d ds =>
      rw [h.peek]
      exact (digitChar_ne_sign (hds.digit d List.mem_cons_self)).1
  have hread := @readDigits_numeral b tail 0 UInt64
    (fun value byte => value * 10 + (byte - 48).toUInt64) x ds 0 hds h hstop
  refine ⟨_, ?_, reads_behind h⟩
  simp only [uintFromDecCommon]
  rw [if_neg hpeek, hread, UInt32.zero_add, foldl_unsigned hds]

/-- The value of a decimal numeral, read with the sign `s`. -/
theorem foldl_signed {x : Nat} {ds : List Nat} (hds : Numeral 10 x ds) (s : Int) :
    ds.foldl (fun v d => v * 10 + Int64.ofInt (s * ((digitChar d).toNat - 48))) 0 =
      Int64.ofInt (s * x) := by
  have hread : ∀ v d : Nat, Int64.ofInt (s * v) * 10 + Int64.ofInt (s * d) =
      Int64.ofInt (s * (v * 10 + d : Nat)) := by
    intro v d
    have hsum : s * ((v * 10 + d : Nat) : Int) = s * v * 10 + s * d := by
      rw [Int.natCast_add, Int.natCast_mul, Int.mul_add, Int.mul_assoc]
      rfl
    rw [hsum, Int64.ofInt_add, Int64.ofInt_mul (s * v) 10]
    rfl
  have hfold := @foldl_numeral 10 Int64 (fun v => Int64.ofInt (s * v))
    (fun v d => v * 10 + Int64.ofInt (s * d)) hread 0 ds
  rw [hds.value, Int.natCast_zero, Int.mul_zero] at hfold
  rw [← hfold]
  apply List.foldl_ext
  intro v d hd
  rw [(digitChar_sub (hds.digit d hd)).2]

/-- A decimal numeral that follows a sign, or none. -/
theorem intFromDecCommon_numeral {x : Int} {front : List UInt8} {ds : List Nat}
    (hds : Numeral 10 x.natAbs ds)
    (hfront : x < 0 ∧ front = [45] ∨ 0 ≤ x ∧ (front = [] ∨ front = [43]))
    (h : Reads b (front ++ (ds.map digitChar ++ tail))) (hstop : ¬ isDigit (tail.headD 0)) :
    ∃ b', intFromDecCommon false b =
        ⟨Int64.ofInt x, UInt32.ofNat (front.length + ds.length), b'⟩ ∧ Reads b' tail := by
  rcases hfront with ⟨hneg, rfl⟩ | ⟨hnonneg, rfl | rfl⟩
  · have hpeek : b.peekbyte 0 = 45 := h.peek
    have hread := @readDigits_numeral b.next tail 1 Int64
      (fun value byte => value * 10 - Int64.ofInt (byte.toNat - 48)) _ ds 0 hds h.next hstop
    have hvalue := foldl_signed hds (-1)
    simp only [Int.neg_mul, Int.one_mul, Int64.ofInt_neg, ← Int64.sub_eq_add_neg] at hvalue
    refine ⟨_, ?_, reads_behind h.next⟩
    simp only [intFromDecCommon]
    rw [if_pos hpeek, hread, hvalue, UInt32.ofNat_add, ← Int64.ofInt_neg,
      show -(x.natAbs : Int) = x by omega]
    rfl
  · have hpeek : b.peekbyte 0 ≠ 43 ∧ b.peekbyte 0 ≠ 45 := by
      cases ds with
      | nil => exact absurd rfl hds.ne_nil
      | cons d ds =>
        rw [h.peek]
        exact digitChar_ne_sign (hds.digit d List.mem_cons_self)
    have hread := @readDigits_numeral b tail 0 Int64
      (fun value byte => value * 10 + Int64.ofInt (byte.toNat - 48)) _ ds 0 hds h hstop
    have hvalue := foldl_signed hds 1
    simp only [Int.one_mul] at hvalue
    refine ⟨_, ?_, reads_behind h⟩
    simp only [intFromDecCommon]
    rw [if_neg hpeek.2, if_neg hpeek.1, hread, hvalue, show (x.natAbs : Int) = x by omega,
      List.length_nil, Nat.zero_add, UInt32.zero_add]
  · have hpeek : b.peekbyte 0 = 43 := h.peek
    have hread := @readDigits_numeral b.next tail 1 Int64
      (fun value byte => value * 10 + Int64.ofInt (byte.toNat - 48)) _ ds 0 hds h.next hstop
    have hvalue := foldl_signed hds 1
    simp only [Int.one_mul] at hvalue
    refine ⟨_, ?_, reads_behind h.next⟩
    simp only [intFromDecCommon]
    rw [if_neg (by rw [hpeek]; decide), if_pos hpeek, hread, hvalue,
      show (x.natAbs : Int) = x by omega, UInt32.ofNat_add]
    rfl

/-! ### Pointers -/

theorem pointerDecode_numeral {x : Nat} {digit : Nat → UInt8} {ds : List Nat}
    (hdecode : Decodes 16 digit hexNibble) (hds : Numeral 16 x ds)
    (h : Reads b (48 :: 120 :: ds.map digit ++ tail)) (hstop : hexNibble (tail.headD 0) = none) :
    ∃ b', pointerDecode b = ⟨UInt64.ofNat x, UInt32.ofNat (2 + ds.length), b'⟩ ∧ Reads b' tail := by
  have hzero : b.peekbyte 0 = 48 := h.peek
  have hx : b.next.peekbyte 0 = 120 := h.next.peek
  obtain ⟨b', hread, hreads⟩ := @uintFrom_numeral _ tail 4 16 x digit hexNibble ds (by decide)
    (by decide) (by decide) hdecode hds.digit hds.value h.next.next hstop
  refine ⟨b', ?_, hreads⟩
  rw [pointerDecode, if_pos hzero, hx, if_pos (by decide)]
  rw [uintFromHexCommon, hread, UInt32.ofNat_add]
  rfl

end WindowsLibc.Scanf
