import FlexPS.Server.AbstractModel

/-! # Sparse SSP recorders

The two recorders of the source differ only in how they keep `main_recorder_`,
the count and the pending requests of every (version, key) slot. `MainRecorder`
lists what the recorder code does with it; the recorder itself is written once.
-/

namespace FlexPS

/-- `x -= 1` on a `uint32_t`. -/
def decrementUint32 : Nat → Nat
  | 0 => 4294967295
  | x + 1 => x

class MainRecorder (Val : outParam Type) (Main : Type) where
  count : Main → Nat → Key → Nat
  pending : Main → Nat → Key → List (Message Val)
  /-- The test of `HasConflict`. -/
  hasKey : Main → Nat → Key → Bool
  /-- `main_recorder_[version][key].first += 1`. -/
  increment : Main → Nat → Key → Except Fault Main
  /-- `main_recorder_[version][key].second.push_back(msg)`. -/
  hold : Main → Nat → Key → Message Val → Except Fault Main
  /-- One turn of the first loop of `RemoveRecordAndGetNonConflictMsgs`, with the
      messages it appends to `msgs_to_be_handled`. -/
  decrement (dcheckIsOn : Bool) : Main → Nat → Key → Except Fault (Main × List (Message Val))
  removeRecord : Main → Nat → Main

section Representations

variable {Val : Type}

/-- `main_recorder_` of `UnorderedMapSparseSSPRecorder`. A level that
    `main_recorder_[version]` default-inserts holds no key and is not told apart
    from an absent one; the `DCHECK` that finds a level is left out. -/
structure MapRecorder (Val : Type) where
  slots : Nat → Key → Option (Nat × List (Message Val))

namespace MapRecorder

def slot (main : MapRecorder Val) (version : Nat) (key : Key) : Nat × List (Message Val) :=
  (main.slots version key).getD (0, [])

def setSlot (main : MapRecorder Val) (version : Nat) (key : Key)
    (slot : Option (Nat × List (Message Val))) : MapRecorder Val :=
  ⟨fun v k => if v = version ∧ k = key then slot else main.slots v k⟩

def decrement (dcheckIsOn : Bool) (main : MapRecorder Val) (version : Nat) (key : Key) :
    Except Fault (MapRecorder Val × List (Message Val)) := do
  if dcheckIsOn then
    check .keyRecorded ((main.slots version key).isSome = true)
  let slot := main.slot version key
  let count := decrementUint32 slot.1
  if count = 0 then
    return (main.setSlot version key none, slot.2)
  return (main.setSlot version key (some (count, slot.2)), [])

def increment (main : MapRecorder Val) (version : Nat) (key : Key) : MapRecorder Val :=
  let slot := main.slot version key
  main.setSlot version key (some (slot.1 + 1, slot.2))

def hold (main : MapRecorder Val) (version : Nat) (key : Key) (msg : Message Val) :
    MapRecorder Val :=
  let slot := main.slot version key
  main.setSlot version key (some (slot.1, slot.2 ++ [msg]))

instance : MainRecorder Val (MapRecorder Val) where
  count main version key := (main.slot version key).1
  pending main version key := (main.slot version key).2
  hasKey main version key := (main.slots version key).isSome
  increment main version key := .ok (main.increment version key)
  hold main version key msg := .ok (main.hold version key msg)
  decrement := decrement
  removeRecord main version := ⟨fun v k => if v = version then none else main.slots v k⟩

end MapRecorder

/-- `main_recorder_` of `VectorSparseSSPRecorder`: one preallocated slot for each
    version modulo `main_recorder_version_level_size_` and each key of the range. -/
structure VectorRecorder (Val : Type) where
  mainRecorderVersionLevelSize : Nat
  range : Range
  slots : Nat → Nat → Nat × List (Message Val)

namespace VectorRecorder

def slot (main : VectorRecorder Val) (version : Nat) (key : Key) : Nat × List (Message Val) :=
  main.slots (version % main.mainRecorderVersionLevelSize) (key.toNat - main.range.begin_)

def setSlot (main : VectorRecorder Val) (version : Nat) (key : Key)
    (slot : Nat × List (Message Val)) : VectorRecorder Val :=
  { main with slots := fun level offset =>
      if level = version % main.mainRecorderVersionLevelSize ∧
        offset = key.toNat - main.range.begin_ then slot else main.slots level offset }

/-- An index that passes through an `int`: from `2 ^ 31` on that is negative, and the access is
    outside the vector. -/
def throughInt (index : Nat) : Except Fault Unit :=
  if index ≤ intMax then .ok () else .error .outOfRange

def decrement (main : VectorRecorder Val) (version : Nat) (key : Key) :
    Except Fault (VectorRecorder Val × List (Message Val)) := do
  -- `int key_after_minus`
  throughInt (key.toNat - main.range.begin_)
  let slot := main.slot version key
  let count := decrementUint32 slot.1
  if count = 0 then
    return (main.setSlot version key (count, []), slot.2)
  return (main.setSlot version key (count, slot.2), [])

/-- A key outside the range is past the end of a level. `AddRecord` is the first
    to use the keys of a message, so the fault is raised there. -/
def increment (main : VectorRecorder Val) (version : Nat) (key : Key) :
    Except Fault (VectorRecorder Val) :=
  if main.range.Owns key then
    let slot := main.slot version key
    .ok (main.setSlot version key (slot.1 + 1, slot.2))
  else
    .error .outOfRange

def hold (main : VectorRecorder Val) (version : Nat) (key : Key) (msg : Message Val) :
    Except Fault (VectorRecorder Val) := do
  -- `int forwarded_key`, from which the beginning of the range is then subtracted
  throughInt key.toNat
  let slot := main.slot version key
  return main.setSlot version key (slot.1, slot.2 ++ [msg])

instance : MainRecorder Val (VectorRecorder Val) where
  count main version key := (main.slot version key).1
  pending main version key := (main.slot version key).2
  hasKey main version key := (main.slot version key).1 > 0
  increment := increment
  hold := hold
  decrement _ := decrement
  removeRecord main _ := main

end VectorRecorder

end Representations

structure SparseSSPRecorder (Val Main : Type) where
  staleness : Nat
  speculation : Nat
  mainRecorder : Main
  futureKeys : Tid → List (Nat × List Key)
  futureMsgs : Tid → List (Nat × Message Val)
  tooFastBuffer : List (Message Val)
  /-- Whether `DCHECK`s are compiled in. -/
  dcheckIsOn : Bool

/-- `*msgs`, the requests that can be answered now, and the calls of `HasConflict`. -/
structure NonConflict (Val : Type) where
  msgs : List (Message Val) := []
  scans : List Scan := []

namespace SparseSSPRecorder

variable {Val Main : Type}

/-- A recorder that has recorded nothing. -/
def new (staleness speculation : Nat) (mainRecorder : Main) (dcheckIsOn : Bool) :
    SparseSSPRecorder Val Main :=
  { staleness, speculation, mainRecorder, dcheckIsOn, futureKeys := fun _ => [],
    futureMsgs := fun _ => [], tooFastBuffer := [] }

/-- `check_version` of `HasConflict`, from `end_version` down to `begin_version`. -/
def checkVersions (beginVersion : Nat) (endVersion : Int) : List Nat :=
  (List.range' beginVersion ((endVersion + 1).toNat - beginVersion)).reverse

variable [MainRecorder Val Main]

/-- The key and version of the first conflict, when there is one. -/
def hasConflict (main : Main) (keys : List Key) (beginVersion : Nat) (endVersion : Int) :
    Option (Key × Nat) :=
  (checkVersions beginVersion endVersion).findSome? fun version =>
    (keys.find? (MainRecorder.hasKey main version)).map (·, version)

/-- The block that follows every call of `HasConflict`: a request in conflict is
    forwarded to the slot of the conflict, any other can be answered. -/
def forwardOrRelease (minClock : Nat) (state : SparseSSPRecorder Val Main × NonConflict Val)
    (msg : Message Val) : Except Fault (SparseSSPRecorder Val Main × NonConflict Val) :=
  let (recorder, out) := state
  let endVersion : Int := msg.version - recorder.staleness - 1
  let scans := out.scans ++ [⟨msg.keys, minClock, endVersion, MainRecorder.count recorder.mainRecorder⟩]
  match hasConflict recorder.mainRecorder msg.keys minClock endVersion with
  | some (key, version) => do
      let mainRecorder ← MainRecorder.hold recorder.mainRecorder version key msg
      return ({ recorder with mainRecorder }, { out with scans })
  | none => .ok (recorder, { msgs := out.msgs ++ [msg], scans })

/-- The first loop of `RemoveRecordAndGetNonConflictMsgs`. -/
def removeKeys (dcheckIsOn : Bool) (version : Nat) (main : Main) (keys : List Key) :
    Except Fault (Main × List (Message Val)) :=
  keys.foldlM (fun (main, handled) key => do
    let (main, msgs) ← MainRecorder.decrement dcheckIsOn main version key
    return (main, handled ++ msgs)) (main, [])

def removeRecordAndGetNonConflictMsgs (recorder : SparseSSPRecorder Val Main)
    (version minClock : Nat) (keys : List Key) :
    Except Fault (SparseSSPRecorder Val Main × NonConflict Val) := do
  let (mainRecorder, msgsToBeHandled) ←
    removeKeys recorder.dcheckIsOn version recorder.mainRecorder keys
  msgsToBeHandled.foldlM (forwardOrRelease minClock) ({ recorder with mainRecorder }, {})

/-- First half of `GetNonConflictMsgs`: the record of the iteration just clocked. -/
def removeOwnRecord (recorder : SparseSSPRecorder Val Main) (progress : Nat) (sender : Tid)
    (minClock : Nat) : Except Fault (SparseSSPRecorder Val Main × NonConflict Val) :=
  match recorder.futureKeys sender with
  | (version, keys) :: rest =>
      if version + 1 = progress then do
        let (recorder, out) ← recorder.removeRecordAndGetNonConflictMsgs version minClock keys
        return ({ recorder with
          futureKeys := Function.update recorder.futureKeys sender rest }, out)
      else
        return (recorder, {})
  | [] => return (recorder, {})

/-- What happens to the sender's own `Get` of the iteration it just entered. -/
def placeOwnGet (recorder : SparseSSPRecorder Val Main) (out : NonConflict Val) (minClock : Nat)
    (msg : Message Val) : Except Fault (SparseSSPRecorder Val Main × NonConflict Val) := do
  check .versionWindow (minClock ≤ msg.version ∧
    msg.version < minClock + recorder.staleness + recorder.speculation + 2)
  if msg.version ≤ recorder.staleness + minClock then
    return (recorder, { out with msgs := out.msgs ++ [msg] })
  else if msg.version ≤ minClock + recorder.staleness + recorder.speculation then
    forwardOrRelease minClock (recorder, out) msg
  else if msg.version = minClock + recorder.staleness + recorder.speculation + 1 then
    return ({ recorder with tooFastBuffer := recorder.tooFastBuffer ++ [msg] }, out)
  else
    .error (.check .versionBranch)

/-- Second half of `GetNonConflictMsgs`: the sender's own `Get`. -/
def takeOwnGet (recorder : SparseSSPRecorder Val Main) (out : NonConflict Val) (progress : Nat)
    (sender : Tid) (minClock : Nat) : Except Fault (SparseSSPRecorder Val Main × NonConflict Val) :=
  match recorder.futureMsgs sender with
  | (version, msg) :: rest =>
      if version = progress then do
        let (recorder, out) ← recorder.placeOwnGet out minClock msg
        return ({ recorder with
          futureMsgs := Function.update recorder.futureMsgs sender rest }, out)
      else
        return (recorder, out)
  | [] => return (recorder, out)

def getNonConflictMsgs (recorder : SparseSSPRecorder Val Main) (progress : Nat) (sender : Tid)
    (minClock : Nat) : Except Fault (SparseSSPRecorder Val Main × NonConflict Val) := do
  let (recorder, out) ← recorder.removeOwnRecord progress sender minClock
  recorder.takeOwnGet out progress sender minClock

def handleTooFastBuffer (recorder : SparseSSPRecorder Val Main) (minClock : Nat) :
    Except Fault (SparseSSPRecorder Val Main × NonConflict Val) := do
  let (recorder, out) ←
    recorder.tooFastBuffer.foldlM (forwardOrRelease minClock) (recorder, {})
  return ({ recorder with tooFastBuffer := [] }, out)

def removeRecord (recorder : SparseSSPRecorder Val Main) (version : Nat) :
    SparseSSPRecorder Val Main :=
  { recorder with mainRecorder := MainRecorder.removeRecord recorder.mainRecorder version }

def addRecord (recorder : SparseSSPRecorder Val Main) (msg : Message Val) :
    Except Fault (SparseSSPRecorder Val Main) := do
  if recorder.dcheckIsOn then
    check .futureKeysSize ((recorder.futureKeys msg.sender).length < recorder.speculation + 1)
  let mainRecorder ← msg.keys.foldlM
    (fun main key => MainRecorder.increment main msg.version key) recorder.mainRecorder
  return { recorder with
    mainRecorder
    futureKeys := Function.update recorder.futureKeys msg.sender
      (recorder.futureKeys msg.sender ++ [(msg.version, msg.keys)])
    futureMsgs :=
      if msg.version ≠ 0 then
        Function.update recorder.futureMsgs msg.sender
          (recorder.futureMsgs msg.sender ++ [(msg.version, msg)])
      else recorder.futureMsgs }

end SparseSSPRecorder

/-- What the call of `HasConflict` reports in `forwarded_key` and `forwarded_version`. -/
def Scan.conflict (scan : Scan) : Option (Key × Nat) :=
  (SparseSSPRecorder.checkVersions scan.beginVersion scan.endVersion).findSome? fun version =>
    (scan.keys.find? fun key => 0 < scan.count version key).map (·, version)

/-- `UnorderedMapSparseSSPRecorder(staleness, speculation)`. -/
def UnorderedMapSparseSSPRecorder {Val : Type} (staleness speculation : Nat) (dcheckIsOn : Bool) :
    SparseSSPRecorder Val (MapRecorder Val) :=
  .new staleness speculation ⟨fun _ _ => none⟩ dcheckIsOn

/-- `VectorSparseSSPRecorder(staleness, speculation, range)`. -/
def VectorSparseSSPRecorder {Val : Type} (staleness speculation : Nat) (range : Range)
    (dcheckIsOn : Bool) : Except Fault (SparseSSPRecorder Val (VectorRecorder Val)) := do
  if dcheckIsOn then
    check .rangeNotEmpty (range.begin_ < range.end_)
  return .new staleness speculation ⟨staleness + 2 * speculation + 3, range, fun _ _ => (0, [])⟩
    dcheckIsOn

end FlexPS
