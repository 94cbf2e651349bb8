import Csics.Serialization.View

/-!
# The JSON serializer

`JSONSerializer` of `src/serialization/JSONSerializer.cpp`, and the overloads of
`serializer::apply` for structural serializers of `include/csics/serialization/Serializer.hpp`.
They write to one buffer, `buf`; an access outside of it ends the run with `none`, and so does
popping an empty stack.
-/

namespace Csics.Json

open Base Serialization

/-! ## Values -/

/-- The types that `JSONSerializer::value` takes. -/
inductive Primitive where
  | null
  | bool (value : Bool)
  | int (num : Int32)
  | double (num : UInt64)
  | string (str : List UInt8)
  deriving DecidableEq

/-- A tree of values: `struct` has a `FieldList`, `range` and `map` are the containers. -/
inductive Value where
  | primitive (value : Primitive)
  | struct (fields : List (List UInt8 × Value))
  | range (items : List Value)
  | map (entries : List (List UInt8 × Value))

/-! ## The platform -/

/-- What the platform decides: whether `char` is signed, the token that `std::to_chars` makes of
a double, and what it leaves in a buffer that is too small for the token. -/
structure Platform where
  charSigned : Bool
  toChars : UInt64 → List UInt8
  spill : UInt64 → Nat → List UInt8
  length_spill_le (num : UInt64) (size : Nat) : (spill num size).length ≤ size

/-- `c < 0x20`. -/
def Platform.isControl (p : Platform) (c : UInt8) : Bool := c < 0x20 || p.charSigned && c ≥ 0x80

/-! ## Characters -/

def quote : UInt8 := 0x22
def comma : UInt8 := 0x2c
def colon : UInt8 := 0x3a
def backslash : UInt8 := 0x5c
def lbracket : UInt8 := 0x5b
def rbracket : UInt8 := 0x5d
def lbrace : UInt8 := 0x7b
def rbrace : UInt8 := 0x7d

/-- `hex[n]`. -/
def hexDigit (n : UInt8) : UInt8 := if n < 10 then 0x30 + n else 0x57 + n

/-- The cases of the `switch` but the default. -/
def shortEscape (c : UInt8) : Option UInt8 :=
  if c = 0x08 then some 0x62
  else if c = 0x0c then some 0x66
  else if c = 0x0a then some 0x6e
  else if c = 0x0d then some 0x72
  else if c = 0x09 then some 0x74
  else none

/-- `\u00XX`. -/
def longEscape (c : UInt8) : List UInt8 :=
  [backslash, 0x75, 0x30, 0x30, hexDigit (c >>> 4), hexDigit (c &&& 0xf)]

def trueStr : List UInt8 := [0x74, 0x72, 0x75, 0x65]

def falseStr : List UInt8 := [0x66, 0x61, 0x6c, 0x73, 0x65]

def nullStr : List UInt8 := [0x6e, 0x75, 0x6c, 0x6c]

/-- The text of a number in the format `%ld`. -/
def decimal (num : Int) : List UInt8 :=
  (if num < 0 then [0x2d] else []) ++
    (Nat.toDigits 10 num.natAbs).map fun digit => UInt8.ofNat digit.toNat

/-- What `std::snprintf` stores in `size` bytes for a text. -/
def snprintf (text : List UInt8) (size : Nat) : List UInt8 :=
  if size = 0 then [] else text.take (size - 1) ++ [0]

/-! ## The buffer -/

inductive JSONState where
  | array
  | object
  deriving DecidableEq, Repr

/-- The memory, and `state_stack` with its top first. -/
structure State where
  mem : Mem
  stateStack : List JSONState

abbrev Ser (α : Type) := StateT State Option α

/-- `bv[0] = bs[0]; bv[1] = bs[1]; …`. -/
def put (buf bv : View) (bs : List UInt8) : Ser Unit := fun s =>
  if bs = [] ∨ buf.data ≤ bv.data ∧ bv.data + bs.length ≤ buf.data + buf.size then
    some ((), { s with mem := s.mem.store bv.data bs })
  else none

/-- `*(bv.c() - 1)`. -/
def peek (buf bv : View) : Ser UInt8 := fun s =>
  if buf.data < bv.data ∧ bv.data ≤ buf.data + buf.size then some (s.mem (bv.data - 1), s) else none

/-- `state_stack.push(state)`. -/
def push (state : JSONState) : Ser Unit := fun s =>
  some ((), { s with stateStack := state :: s.stateStack })

/-- `state_stack.pop()`. -/
def pop : Ser Unit := fun s =>
  match s.stateStack with
  | [] => none
  | _ :: rest => some ((), { s with stateStack := rest })

/-- `state_stack.empty()`. -/
def stackEmpty : Ser Bool := fun s => some (s.stateStack.isEmpty, s)

/-! ## `JSONSerializer` -/

/-- `escape_char(c, bv)`. -/
def escapeChar (p : Platform) (buf : View) (bv : View) (c : UInt8) : Ser View :=
  if c = backslash ∨ c = quote then do
    put buf bv [backslash, c]
    return bv.advance 2
  else if p.isControl c then
    match shortEscape c with
    | some e => do
      put buf bv [backslash, e]
      return bv.advance 2
    | none => do
      put buf bv (longEscape c)
      return bv.advance 6
  else do
    put buf bv [c]
    return bv.increment

def key (p : Platform) (buf bv : View) (key : List UInt8) : Ser (SerializationStatus × View) := do
  let last ← peek buf bv
  let mut bv := bv
  if last = rbrace ∨ last = rbracket then
    put buf bv [comma]
    bv := bv.advance 1
  put buf bv [quote]
  bv := bv.advance 1
  bv ← key.foldlM (escapeChar p buf) bv
  put buf bv [quote, colon]
  return (.ok, bv.advance 2)

/-- `begin_obj` and `begin_array`. -/
def beginWith (buf bv : View) (opening : UInt8) (state : JSONState) :
    Ser (SerializationStatus × View) := do
  put buf bv [opening]
  push state
  return (.ok, bv.advance 1)

def beginObj (buf bv : View) : Ser (SerializationStatus × View) := beginWith buf bv lbrace .object

def beginArray (buf bv : View) : Ser (SerializationStatus × View) :=
  beginWith buf bv lbracket .array

/-- The closing byte, and a comma if there is a container around. -/
def putClosing (buf bv : View) (closing : UInt8) : Ser (SerializationStatus × View) := do
  put buf bv [closing]
  let bv := bv.advance 1
  if !(← stackEmpty) then
    put buf bv [comma]
    return (.ok, bv.advance 1)
  return (.ok, bv)

/-- `end_obj` and `end_array`. -/
def endWith (buf bv : View) (opening closing : UInt8) : Ser (SerializationStatus × View) := do
  pop
  let last ← peek buf bv
  putClosing buf (if last ≠ opening then ⟨bv.data - 1, bv.size + 1⟩ else bv) closing

def endObj (buf bv : View) : Ser (SerializationStatus × View) := endWith buf bv lbrace rbrace

def endArray (buf bv : View) : Ser (SerializationStatus × View) :=
  endWith buf bv lbracket rbracket

/-- The end of every `write_…`: `bv += len; bv[0] = ','; bv += 1;`. -/
def finish (buf bv : View) (len : Nat) : Ser (SerializationStatus × View) := do
  let bv := bv.advance len
  put buf bv [comma]
  return (.ok, bv.advance 1)

def writeNumber (p : Platform) (buf bv : View) (num : UInt64) :
    Ser (SerializationStatus × View) := do
  if (p.toChars num).length > bv.size then
    put buf bv (p.spill num bv.size)
    return (.bufferFull, bv)
  put buf bv (p.toChars num)
  finish buf bv (p.toChars num).length

def writeBool (buf bv : View) (value : Bool) : Ser (SerializationStatus × View) := do
  let str := if value then trueStr else falseStr
  if str.length ≥ bv.size then
    return (.bufferFull, bv)
  put buf bv str
  finish buf bv str.length

def writeString (p : Platform) (buf bv : View) (str : List UInt8) :
    Ser (SerializationStatus × View) := do
  if bv.size < 2 then
    return (.bufferFull, bv)
  put buf bv [quote]
  let bv ← str.foldlM (escapeChar p buf) (bv.advance 1)
  put buf bv [quote]
  finish buf bv 1

def writeInt (buf bv : View) (num : Int32) : Ser (SerializationStatus × View) := do
  let text := decimal num.toInt
  put buf bv (snprintf text bv.size)
  if text.length ≥ bv.size then
    return (.bufferFull, bv)
  finish buf bv text.length

def writeNull (buf bv : View) : Ser (SerializationStatus × View) := do
  if 4 ≥ bv.size then
    return (.bufferFull, bv)
  put buf bv nullStr
  finish buf bv 4

def value (p : Platform) (buf bv : View) : Primitive → Ser (SerializationStatus × View)
  | .null => writeNull buf bv
  | .bool value => writeBool buf bv value
  | .int num => writeInt buf bv num
  | .double num => writeNumber p buf bv num
  | .string str => writeString p buf bv str

/-! ## `serializer::apply` -/

/-- `{bv(0, bv.size() - bv_.size()), status}`. -/
def written (bv bv_ : View) (status : SerializationStatus) : SerializationResult :=
  ⟨bv.subview 0 (bv.size - bv_.size), status⟩

mutual

def apply (p : Platform) (buf : View) : Value → View → Ser SerializationResult
  | .primitive x, bv => do
    let (status, bv_) ← value p buf bv x
    return written bv bv_ status
  | .struct fields, bv => do
    let (_, bv_) ← beginObj buf bv
    let bv_ ← applyFields p buf fields bv_
    let (_, bv_) ← endObj buf bv_
    return written bv bv_ .ok
  | .range items, bv => do
    let (_, bv_) ← beginArray buf bv
    let (status, bv_) ← applyItems p buf items bv_
    if status ≠ .ok then
      return written bv bv_ status
    let (_, bv_) ← endArray buf bv_
    return written bv bv_ .ok
  | .map entries, bv => do
    let (_, bv_) ← beginObj buf bv
    let (status, bv_) ← applyEntries p buf entries bv_
    if status ≠ .ok then
      return written bv bv_ status
    let (_, bv_) ← endObj buf bv_
    return written bv bv_ .ok

/-- The fold over the fields; the statuses are dropped. -/
def applyFields (p : Platform) (buf : View) : List (List UInt8 × Value) → View → Ser View
  | [], bv_ => return bv_
  | (name, field) :: fields, bv_ => do
    let (_, bv_) ← key p buf bv_ name
    let res ← apply p buf field bv_
    applyFields p buf fields (bv_.advance res.writtenView.size)

/-- The loop over a range. -/
def applyItems (p : Platform) (buf : View) :
    List Value → View → Ser (SerializationStatus × View)
  | [], bv_ => return (.ok, bv_)
  | item :: items, bv_ => do
    let res ← apply p buf item bv_
    if res.status ≠ .ok then
      return (res.status, bv_)
    applyItems p buf items (bv_.advance res.writtenView.size)

/-- The loop over a map. -/
def applyEntries (p : Platform) (buf : View) :
    List (List UInt8 × Value) → View → Ser (SerializationStatus × View)
  | [], bv_ => return (.ok, bv_)
  | (name, entry) :: entries, bv_ => do
    let (_, bv_) ← key p buf bv_ name
    let res ← apply p buf entry bv_
    if res.status ≠ .ok then
      return (res.status, bv_)
    applyEntries p buf entries (bv_.advance res.writtenView.size)

end

/-- `serialize(s, buf, obj)` with a new `JSONSerializer`. -/
def serialize (p : Platform) (buf : View) (obj : Value) (mem : Mem) :
    Option (SerializationResult × State) :=
  (apply p buf obj buf).run ⟨mem, []⟩

end Csics.Json
