import FlexPS.Worker.Parts

/-! # The client of a table

`KVClientTable` sends a request to the servers that own some of its keys and a `Clock` to all
servers. Only `Get` waits, for one reply of each server it was sent to.
-/

namespace FlexPS

variable {Val : Type}

structure KVClientTable (Val : Type) where
  appThreadId : Tid
  modelId : UInt32
  partitionManager : SimpleRangePartitionManager
  box : KVTableBox Val

namespace KVClientTable

-- the code leaves the version of these messages uninitialised, and no model it is used with reads it

/-- What `Send` pushes. -/
def send (table : KVClientTable Val) (sliced : SlicedKVs Val) (isAdd : Bool) : List (Message Val) :=
  sliced.map fun slice =>
    { sender := table.appThreadId, recver := slice.1, modelId := table.modelId,
      flag := if isAdd then .kAdd else .kGet, version := 0,
      data := if slice.2.keys = [] then []
        else if isAdd then [.u32 slice.2.keys, .val slice.2.vals] else [.u32 slice.2.keys] }

/-- What `Clock` pushes. -/
def clock (table : KVClientTable Val) : List (Message Val) :=
  table.partitionManager.serverThreadIds.map fun server =>
    { sender := table.appThreadId, recver := server, modelId := table.modelId, flag := .kClock,
      version := 0, data := [] }

def add (table : KVClientTable Val) (kvs : KVPairs Val) : Except Fault (List (Message Val)) := do
  let sliced ← table.partitionManager.slice kvs
  return table.send sliced true

/-- `Get_` up to `WaitRequest`: the argument of `NewRequest`, and what is pushed after it. -/
def get (table : KVClientTable Val) (keys : List Key) : Except Fault (Nat × List (Message Val)) := do
  let sliced ← table.partitionManager.slice ⟨keys, []⟩
  return (sliced.length, table.send sliced false)

end KVClientTable

/-- What a worker calls on its table. -/
inductive ClientCall (Val : Type) where
  | get (keys : List Key)
  | add (kvs : KVPairs Val)
  | clock
  deriving DecidableEq

/-- A worker thread with its table and the entry of `tracker_` for the two. -/
structure TableClient (Val : Type) where
  table : KVClientTable Val
  /-- `<expected, current>`. -/
  tracker : Nat × Nat
  /-- The keys that the finish handle refers to. -/
  keys : List Key
  /-- The worker is in `WaitRequest`. -/
  waits : Bool

namespace TableClient

def new (table : KVClientTable Val) : TableClient Val := ⟨table, (0, 0), [], false⟩

/-- A call, up to `WaitRequest`, with what it pushes. -/
def call (client : TableClient Val) :
    ClientCall Val → Except Fault (TableClient Val × List (Message Val))
  | .get keys => do
      let (expected, msgs) ← client.table.get keys
      return ({ client with tracker := (expected, 0), keys, waits := true }, msgs)
  | .add kvs => do
      let msgs ← client.table.add kvs
      return (client, msgs)
  | .clock => return (client, client.table.clock)

/-- `AddResponse`, with what the finish handle has written if it ran. -/
def addResponse (client : TableClient Val) (msg : Message Val) :
    Except Fault (TableClient Val × Option (List Val)) := do
  let box ← client.table.box.handleMsg msg
  let tracker := (client.tracker.1, client.tracker.2 + 1)
  if client.tracker.1 = client.tracker.2 + 1 then
    let (vals, box) ← box.handleFinish client.keys
    return ({ client with table := { client.table with box }, tracker }, some vals)
  else return ({ client with table := { client.table with box }, tracker }, none)

end TableClient

end FlexPS
