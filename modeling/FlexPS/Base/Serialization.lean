import FlexPS.Base.Fault
import FlexPS.Lib.Codec

/-! # `BinStream` and its operators

One definition for each overload of `operator<<` and `operator>>`, over the element
operators it calls. A C++ type is given by its values and by the two operators that
overload resolution picks for it.
-/

namespace FlexPS

open Codec (loop)

/-- `buffer_` and `front_`; the assertion of `pop_front_bytes` is a field. -/
structure BinStream where
  buffer : List UInt8
  front : Nat
  front_le : front ≤ buffer.length

namespace BinStream

def size (stream : BinStream) : Nat := stream.buffer.length - stream.front

/-- The bytes from `get_remained_buffer()` on. -/
def remained (stream : BinStream) : List UInt8 := stream.buffer.drop stream.front

def pushBackBytes (stream : BinStream) (src : List UInt8) : BinStream where
  buffer := stream.buffer ++ src
  front := stream.front
  front_le := by
    rw [List.length_append]
    exact Nat.le_add_right_of_le stream.front_le

end BinStream

/-- A sequence of operators on one stream. -/
abbrev Stream : Type → Type := StateT BinStream (Except Fault)

def pushBackBytes (src : List UInt8) : Stream Unit := fun stream => .ok ((), stream.pushBackBytes src)

/-- The `sz` bytes at the returned pointer, which the callers read at once. -/
def popFrontBytes (sz : Nat) : Stream (List UInt8) := fun stream =>
  if h : stream.front + sz ≤ stream.buffer.length then
    .ok (stream.remained.take sz, ⟨stream.buffer, stream.front + sz, h⟩)
  else .error .outOfRange

/-! ## Scalars -/

/-- A fixed-width type: `sizeof`, `operator<` and `operator==` on the object
representations. -/
structure Scalar where
  width : Nat
  narrow : width ≤ 16
  less : List UInt8 → List UInt8 → Bool
  equal : List UInt8 → List UInt8 → Bool

def writeScalar (x : List UInt8) : Stream Unit := pushBackBytes x

def readScalar (width : Nat) : Stream (List UInt8) := popFrontBytes width

def littleEndian : Nat → Nat → List UInt8
  | 0, _ => []
  | width + 1, n => UInt8.ofNat n :: littleEndian width (n / 256)

def ofLittleEndian : List UInt8 → Nat
  | [] => 0
  | byte :: bytes => byte.toNat + 256 * ofLittleEndian bytes

/-- `stream << len` for a `size_t`. -/
def writeSize (len : Nat) : Stream Unit := writeScalar (littleEndian 8 len)

def readSize : Stream Nat := do
  return ofLittleEndian (← readScalar 8)

def writeBool (x : Bool) : Stream Unit := writeScalar [if x then 1 else 0]

def readBool : Stream Bool := do
  return (← readScalar 1) ≠ [0]

/-- The counter of `for (int i = 0; i < len; ++i)` has to reach `len`. -/
def countInt (len : Nat) : Stream Unit := if len ≤ intMax then pure () else throw .overflow

/-! ## Strings, arrays and nested streams -/

def writeString (x : List UInt8) : Stream Unit := do
  writeSize x.length
  pushBackBytes x

def readString : Stream (List UInt8) := do
  let len ← readSize
  popFrontBytes len

/-- The first `size` items of a memory block whose items have `width` bytes. -/
def itemsOf (width : Nat) : Nat → List UInt8 → List (List UInt8)
  | 0, _ => []
  | size + 1, block => block.take width :: itemsOf width size (block.drop width)

def writeSArray (sarray : List (List UInt8)) : Stream Unit := do
  writeSize sarray.length
  pushBackBytes sarray.flatten

def readSArray (width : Nat) : Stream (List (List UInt8)) := do
  let size ← readSize
  return itemsOf width size (← popFrontBytes (size * width % 2 ^ 64))

def writeBin (bin : BinStream) : Stream Unit := do
  writeSize bin.size
  pushBackBytes bin.remained

/-- `bin.resize(len)` resets `front_`; the loop then reads byte by byte. -/
def readBin : Stream BinStream := do
  let len ← readSize
  let buffer ← loop (fun buffer => do return buffer ++ (← readScalar 1)) len []
  return ⟨buffer, 0, Nat.zero_le _⟩

/-! ## Pairs and containers -/

section Containers

variable {α β : Type}

def writePair (first : α → Stream Unit) (second : β → Stream Unit) (p : α × β) : Stream Unit := do
  first p.1
  second p.2

def readPair (first : Stream α) (second : Stream β) : Stream (α × β) := do
  let x ← first
  let y ← second
  return (x, y)

def writeVector (write : α → Stream Unit) (v : List α) : Stream Unit := do
  writeSize v.length
  forM v write
  countInt v.length

def readVector (read : Stream α) : Stream (List α) := do
  let len ← readSize
  let v ← loop (fun v => do return v ++ [← read]) len []
  countInt len
  return v

/-- `insert` of a `std::map`, whose entries are kept in the order of the keys: an
equivalent key stays as it is. -/
def mapInsert (less : α → α → Bool) (elem : α × β) : List (α × β) → List (α × β)
  | [] => [elem]
  | entry :: entries =>
    if less entry.1 elem.1 then entry :: mapInsert less elem entries
    else if less elem.1 entry.1 then elem :: entry :: entries
    else entry :: entries

/-- `insert` of a `std::unordered_map`. The language leaves the place of the new entry open. -/
def unorderedInsert (equal : α → α → Bool) (elem : α × β) (entries : List (α × β)) :
    List (α × β) :=
  if entries.any fun entry => equal entry.1 elem.1 then entries else elem :: entries

/-- Both map types: the size, and the entries in iteration order. -/
def writeMap (key : α → Stream Unit) (mapped : β → Stream Unit) (map : List (α × β)) :
    Stream Unit := do
  writeSize map.length
  forM map (writePair key mapped)

def readMap (insert : α × β → List (α × β) → List (α × β)) (key : Stream α) (mapped : Stream β) :
    Stream (List (α × β)) := do
  let len ← readSize
  let map ← loop (fun map => do return insert (← readPair key mapped) map) len []
  countInt len
  return map

/-- `std::lexicographical_compare`. -/
def lexLess (less : α → α → Bool) : List α → List α → Bool
  | _, [] => false
  | [], _ :: _ => true
  | x :: xs, y :: ys => less x y || (!less y x && lexLess less xs ys)

/-- `operator<` of `std::pair`. -/
def pairLess (first : α → α → Bool) (second : β → β → Bool) (p q : α × β) : Bool :=
  first p.1 q.1 || (!first q.1 p.1 && second p.2 q.2)

end Containers

/-! ## Types -/

/-- A type with its two stream operators.

`Valid` says which values there are, with container sizes below `2^31`; `Same` is
equality, as maps for the map types. `less` is `operator<`, and `equal` is `operator==`
of the types that also have a `std::hash`, where they exist. -/
structure CppType where
  Val : Type
  write : Val → Stream Unit
  read : Stream Val
  Valid : Val → Prop
  Same : Val → Val → Prop
  less : Option (Val → Val → Bool)
  equal : Option (Val → Val → Bool)

namespace CppType

def scalar (s : Scalar) : CppType where
  Val := List UInt8
  write := writeScalar
  read := readScalar s.width
  Valid x := x.length = s.width
  Same x y := x = y
  less := some s.less
  equal := some s.equal

def bool : CppType where
  Val := Bool
  write := writeBool
  read := readBool
  Valid _ := True
  Same x y := x = y
  less := some fun x y => !x && y
  equal := some (· == ·)

def string : CppType where
  Val := List UInt8
  write := writeString
  read := readString
  Valid x := x.length < 2 ^ 31
  Same x y := x = y
  less := some (lexLess fun x y => decide (x < y))
  equal := some (· == ·)

def sArray (s : Scalar) : CppType where
  Val := List (List UInt8)
  write := writeSArray
  read := readSArray s.width
  Valid x := x.length < 2 ^ 31 ∧ ∀ item ∈ x, item.length = s.width
  Same x y := x = y
  less := none
  equal := none

/-- What was already read from a nested stream is not part of its value. -/
def binStream : CppType where
  Val := BinStream
  write := writeBin
  read := readBin
  Valid x := x.size < 2 ^ 31
  Same x y := x.remained = y.remained
  less := none
  equal := none

def pair (A B : CppType) : CppType where
  Val := A.Val × B.Val
  write := writePair A.write B.write
  read := readPair A.read B.read
  Valid x := A.Valid x.1 ∧ B.Valid x.2
  Same x y := A.Same x.1 y.1 ∧ B.Same x.2 y.2
  less := Option.map₂ pairLess A.less B.less
  equal := none

def vector (A : CppType) : CppType where
  Val := List A.Val
  write := writeVector A.write
  read := readVector A.read
  Valid x := x.length < 2 ^ 31 ∧ ∀ item ∈ x, A.Valid item
  Same x y := List.Forall₂ A.Same x y
  less := A.less.map lexLess
  equal := none

/-- The overloads for `std::vector<bool>` go through a `bool` for each item. -/
def vectorBool : CppType := { vector bool with equal := some fun (x y : List Bool) => x == y }

def map (K V : CppType) (less : K.Val → K.Val → Bool) : CppType where
  Val := List (K.Val × V.Val)
  write := writeMap K.write V.write
  read := readMap (mapInsert less) K.read V.read
  Valid x := x.length < 2 ^ 31 ∧ (∀ entry ∈ x, (pair K V).Valid entry) ∧
    x.Pairwise fun before after => less before.1 after.1
  Same x y := List.Forall₂ (pair K V).Same x y
  less := (pair K V).less.map lexLess
  equal := none

def unorderedMap (K V : CppType) (equal : K.Val → K.Val → Bool) : CppType where
  Val := List (K.Val × V.Val)
  write := writeMap K.write V.write
  read := readMap (unorderedInsert equal) K.read V.read
  Valid x := x.length < 2 ^ 31 ∧ (∀ entry ∈ x, (pair K V).Valid entry) ∧
    x.Pairwise fun before after => equal before.1 after.1 = false
  Same x y := ∃ order, order.Perm x ∧ List.Forall₂ (pair K V).Same order y
  less := none
  equal := none

end CppType

/-- The types built by the supported type constructors. The key of a map needs an
`operator<`, the key of an unordered map a hash and an `operator==`. -/
inductive Supported : CppType → Prop where
  | scalar (s : Scalar) : Supported (.scalar s)
  | bool : Supported .bool
  | string : Supported .string
  | sArray (s : Scalar) : Supported (.sArray s)
  | binStream : Supported .binStream
  | pair : Supported A → Supported B → Supported (.pair A B)
  | vector : Supported A → Supported (.vector A)
  | vectorBool : Supported .vectorBool
  | map : Supported K → Supported V → K.less = some less → Supported (.map K V less)
  | unorderedMap : Supported K → Supported V → K.equal = some equal →
      Supported (.unorderedMap K V equal)

/-! ## Sequences of mixed types -/

/-- One value for each type. -/
def Values : List CppType → Type
  | [] => Unit
  | T :: types => T.Val × Values types

def writeAll : (types : List CppType) → Values types → Stream Unit
  | [], _ => pure ()
  | T :: types, (x, values) => do
    T.write x
    writeAll types values

def readAll : (types : List CppType) → Stream (Values types)
  | [] => pure ()
  | T :: types => do
    let x ← T.read
    let values ← readAll types
    return (x, values)

def ValidAll : (types : List CppType) → Values types → Prop
  | [], _ => True
  | T :: types, (x, values) => T.Valid x ∧ ValidAll types values

def SameAll : (types : List CppType) → Values types → Values types → Prop
  | [], _, _ => True
  | T :: types, (x, values), (y, values') => T.Same x y ∧ SameAll types values values'

end FlexPS
