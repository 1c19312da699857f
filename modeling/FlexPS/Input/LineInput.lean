import FlexPS.Input.FileSplitter

/-! # Reading lines across blocks

A `LineInputFormat` reads the blocks that the master assigns to it. It owns the lines
that start in its blocks, and reads on in the file behind a block to finish the last
one. `l` and `r` are `int`s, while `find_next` returns a `size_t`.
-/

namespace FlexPS

def newline : UInt8 := 10

/-- `boost::string_ref::npos`. -/
def npos : Nat := 2 ^ 64 - 1

/-- Conversion of an `int` to `size_t`. -/
def toSize (x : Int) : Nat := (x % 2 ^ 64).toNat

inductive LineFault where
  /-- An access behind the end of the buffer. -/
  | outOfRange
  deriving DecidableEq, Repr

/-- A block of a file, with the chunks in which the bytes behind it will be read. -/
structure FileBlock where
  file : Nat
  offset : Nat
  bytes : Bytes
  chunks : List Bytes
  deriving DecidableEq, Repr

/-- The bytes behind the block. -/
def FileBlock.rest (block : FileBlock) : Bytes := block.chunks.flatten

/-- The reader with its `HDFSFileSplitter`. -/
structure LineInputFormat where
  /-- What the master will assign. -/
  blocks : List FileBlock
  offset : Nat
  /-- What is behind the buffer in the file. -/
  chunks : List Bytes
  buffer : Bytes
  l : Int
  r : Int
  lastPart : Bytes
  deriving DecidableEq, Repr

/-- The loop goes from `l` on to the next newline. -/
def findNext (sref : Bytes) (l : Nat) : Except LineFault Nat :=
  if sref.length < l then .error .outOfRange
  else
    let r := l + (sref.drop l).findIdx (· == newline)
    if r = sref.length then .ok npos else .ok r

namespace LineInputFormat

/-- A reader before its first call of `next`. -/
def init (blocks : List FileBlock) : LineInputFormat := ⟨blocks, 0, [], [], 0, 0, []⟩

/-- `buffer_ = splitter_->fetch_block(true)`. -/
def fetchNext (format : LineInputFormat) : LineInputFormat :=
  match format.chunks with
  | [] => { format with buffer := [] }
  | chunk :: chunks => { format with buffer := chunk, chunks := chunks }

/-- `fetch_new_block`; the buffer is empty if it returns false. -/
def fetchNewBlock (format : LineInputFormat) : LineInputFormat :=
  match format.blocks with
  | [] => { format with buffer := [], offset := 0 }
  | block :: blocks => { format with
      blocks := blocks
      offset := block.offset
      chunks := block.chunks
      buffer := block.bytes
      l := 0
      r := 0 }

def clearBuffer (format : LineInputFormat) : LineInputFormat :=
  { format with buffer := [], l := 0, r := 0 }

/-- The loop of `handle_next_block`, over the chunks behind the buffer. -/
def handleChunks (format : LineInputFormat) (chunks : List Bytes) :
    Except LineFault LineInputFormat :=
  if format.buffer = [] then .ok { format with chunks := chunks }
  else do
    let format := { format with r := toInt (← findNext format.buffer 0) }
    if toSize format.r = npos then
      let format := { format with lastPart := format.lastPart ++ format.buffer }
      match chunks with
      | [] => pure { format with buffer := [], chunks := [] }
      | chunk :: chunks => handleChunks { format with buffer := chunk } chunks
    else
      let lastPart := format.lastPart ++ format.buffer.take (toSize format.r)
      pure { format with lastPart := lastPart, chunks := chunks }.clearBuffer
termination_by structural chunks

def handleNextBlock (format : LineInputFormat) : Except LineFault LineInputFormat :=
  format.handleChunks format.chunks

/-- The part of `next` behind the test for the last character. -/
def locate (format : LineInputFormat) : Except LineFault (LineInputFormat × Option Bytes) := do
  let l ← if format.offset = 0 ∧ format.r = 0 then
      pure (if format.buffer.head? = some newline then 1 else 0)
    else do
      let found ← findNext format.buffer (toSize format.r)
      pure (toInt ((found + 1) % 2 ^ 64))
  let format := { format with l, r := toInt (← findNext format.buffer (toSize l)) }
  if toSize format.r = npos then
    if format.buffer.length < toSize format.l then throw .outOfRange
    let lastPart := format.buffer.drop (toSize format.l)
    let format ← { format with lastPart }.fetchNext.handleNextBlock
    return (format, some format.lastPart)
  else
    return (format, some ((format.buffer.drop (toSize format.l)).take
      (toSize (format.r - format.l))))

/-- The part of `next` behind the test for an empty buffer. -/
def advance (format : LineInputFormat) : Except LineFault (LineInputFormat × Option Bytes) := do
  if toSize format.r = format.buffer.length - 1 then
    let format := format.fetchNext
    if format.buffer = [] then
      let format := format.fetchNewBlock
      if format.buffer = [] then return (format, none)
      format.locate
    else
      let format ← { format with lastPart := [] }.handleNextBlock
      return (format, some format.lastPart)
  else format.locate

/-- `next`, with the record it finds. -/
def next (format : LineInputFormat) : Except LineFault (LineInputFormat × Option Bytes) := do
  if format.buffer = [] then
    let format := format.fetchNewBlock
    if format.buffer = [] then return (format, none)
    format.advance
  else format.advance

/-- The records that `next` returns until it returns false. -/
inductive Reads : LineInputFormat → List Bytes → Prop where
  | done {format format' : LineInputFormat} (finished : format.next = .ok (format', none)) :
      Reads format []
  | more {format format' : LineInputFormat} {record : Bytes} {records : List Bytes}
      (found : format.next = .ok (format', some record)) (rest : Reads format' records) :
      Reads format (record :: records)

end LineInputFormat

end FlexPS
