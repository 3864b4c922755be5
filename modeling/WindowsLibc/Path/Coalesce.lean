import WindowsLibc.Lib.Overwrite
import WindowsLibc.Lib.PathStack

/-!
# Building an NT path (`internal/path.c`)

The last part of `get_absolute_ntpath2`: a buffer `\Device\NAME…` is cut at its backslashes, the
components go onto a stack of offsets into the buffer (`add_component` grows the array that holds
it), and what is on the stack in the end is copied out as the path.

* `ntpathBuffer` is the buffer that the function builds from a device, a root directory and a path.
* `coalesce` is the loop, `assemble` the copy. An access outside an array is a `fault`.
-/

namespace WindowsLibc.Path

open WindowsLibc.Lib

/-- A `WCHAR`. -/
abbrev WChar := UInt16

/-- `L'\\'`. -/
def backslash : WChar := 92

/-- `L'.'`. -/
def dot : WChar := 46

/-- `L"\\Device\\"`. -/
def devicePrefix : List WChar := [92, 68, 101, 118, 105, 99, 101, 92]

/-! ## The buffer -/

/-- Forward slashes become backslashes. -/
def backslashed (path : List WChar) : List WChar :=
  path.map (fun c => if c = 47 then backslash else c)

/-- Where a path starts: at the root of a volume, or in a directory of it. -/
inductive Located where
  /-- What follows the two units of the drive. -/
  | absolute (path : List WChar)
  /-- The root directory below the device, and a path relative to it. -/
  | relative (rootdir path : List WChar)

/-- `ntpath_buffer`, up to its terminator. -/
def ntpathBuffer (device : List WChar) : Located → List WChar
  | .absolute path => device ++ backslashed path
  | .relative rootdir path =>
    let root := device ++ rootdir
    root ++ (if root.getLast? = some backslash then [] else [backslash]) ++ backslashed path

/-! ## The stack of components -/

/-- `path_component`: where a component starts, in units, and how long it is, in bytes. -/
structure PathComponent where
  start : Nat
  length : Nat
  deriving DecidableEq, Repr

/-- Why the function stops early. -/
inductive Stop where
  | fault
  | enomem
  deriving DecidableEq, Repr

/-- The variables `components` (`none` for NULL) and `index`, and the global
`path_components_size`. -/
structure Components where
  array : Option (List PathComponent)
  size : Nat
  index : Nat

/-- What the heap has in a new array, or `none` when an allocation fails. -/
abbrev Heap := Option (Nat → PathComponent)

/-- The first `if` of `add_component`. -/
def allocate (heap : Heap) (s : Components) : Except Stop (List PathComponent) :=
  match s.array, heap with
  | some array, _ => .ok array
  | none, some heap => .ok ((List.range s.size).map heap)
  | none, none => .error .enomem

/-- `add_component`. -/
def addComponent (heap : Heap) (s : Components) (start length : Nat) : Except Stop Components := do
  let array ← allocate heap s
  let (array, size) ←
    if s.index = s.size then
      match heap with
      | some heap => .ok (array ++ (List.range' s.size s.size).map heap, s.size * 2)
      | none => .error .enomem
    else .ok (array, s.size)
  if s.index < array.length then
    .ok ⟨some (array.set s.index ⟨start, length⟩), size, s.index + 1⟩
  else .error .fault

/-- `memcmp(ntpath_buffer + start, text, …) == 0`. -/
def matchesAt (buffer : List WChar) (start : Nat) (text : List WChar) : Bool :=
  (buffer.drop start).take text.length == text

/-- The body of the loop at a separator or the terminator: the component `[start, i)`. -/
def coalesceComponent (heap : Heap) (buffer : List WChar) (s : Components) (start i : Nat) :
    Except Stop Components :=
  if i - start > 2 then addComponent heap s start ((i - start) * 2)
  else if i - start = 2 ∧ matchesAt buffer start [dot, dot] then
    .ok { s with index := max (s.index - 1) 1 }
  else if i - start = 1 ∧ matchesAt buffer start [dot] then .ok s
  else addComponent heap s start ((i - start) * 2)

/-- The loop, on the units from index `i` on. -/
def coalesceFrom (heap : Heap) (buffer : List WChar) :
    List WChar → Nat → Nat → Components → Except Stop Components
  | [], _, _, _ => .error .fault
  | c :: rest, i, start, s =>
    if c = backslash ∨ c = 0 then
      match coalesceComponent heap buffer s start i with
      | .error e => .error e
      | .ok s' => if c = 0 then .ok s' else coalesceFrom heap buffer rest (i + 1) (i + 1) s'
    else coalesceFrom heap buffer rest (i + 1) start s

/-- The loop starts behind `\Device\` and with no array. -/
def coalesce (heap : Heap) (size : Nat) (buffer : List WChar) : Except Stop Components :=
  coalesceFrom heap buffer (buffer.drop 8) 8 0 ⟨none, size, 0⟩

/-- The text of a component. -/
def PathComponent.text (buffer : List WChar) (p : PathComponent) : List WChar :=
  (buffer.drop p.start).take (p.length / 2)

/-- The components on the stack. -/
def Components.texts (buffer : List WChar) (s : Components) : List (List WChar) :=
  ((s.array.getD []).take s.index).map (PathComponent.text buffer)

/-! ## The copy -/

/-- `u16_ntpath`: the units stored so far, and `Length`, in bytes. -/
structure UnicodeString where
  buffer : List WChar
  length : UInt16

/-- Store units at `Length` and move it; the sum is 16 bits wide. -/
def UnicodeString.append (u : UnicodeString) (units : List WChar) : UnicodeString :=
  ⟨overwrite u.buffer (u.length.toNat / 2) units, u.length + UInt16.ofNat (units.length * 2)⟩

/-- The loop over the components: a separator after each but the last. -/
def assembleFrom (u : UnicodeString) : List (List WChar) → UnicodeString
  | [] => u
  | [c] => u.append c
  | c :: cs => assembleFrom ((u.append c).append [backslash]) cs

/-- The path that is returned; a bare volume gets a trailing separator. -/
def assemble (texts : List (List WChar)) : List WChar :=
  let u := assembleFrom ⟨[], 0⟩ texts
  let u := if texts.length = 1 then u.append [backslash] else u
  u.buffer.take (u.length.toNat / 2)

end WindowsLibc.Path
