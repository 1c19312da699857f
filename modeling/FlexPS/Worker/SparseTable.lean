import FlexPS.Worker.TableBox

/-! # The client of a sparse table

`SparseKVClientTable` sends the `Get`s of `speculation_` iterations ahead and waits for the
answer to one at a time. Each of its calls is split into what it computes and the messages
that it then pushes one by one.
-/

namespace FlexPS

structure SparseKVClientTable (Val : Type) where
  appThreadId : Tid
  modelId : UInt32
  partitionManager : SimpleRangePartitionManager
  speculation : Nat
  keys : List (List Key)
  numReqs : List Nat
  getCount : Nat
  addCount : Nat
  recvKvs : List (KVPairs Val)

namespace SparseKVClientTable

variable {Val : Type}

/-- The members as the constructor initialises them. -/
def init (appThreadId : Tid) (modelId : UInt32) (partitionManager : SimpleRangePartitionManager)
    (speculation : Nat) (keys : List (List Key)) : SparseKVClientTable Val :=
  { appThreadId, modelId, partitionManager, speculation, keys, numReqs := [], getCount := 0,
    addCount := 0, recvKvs := [] }

/-- `Setup_`, apart from the handle it registers. `speculation_` is an `int`: a `uint32_t` past
    its largest value has become negative. -/
def setup (table : SparseKVClientTable Val) : Except Fault Unit := do
  check .speculationAtLeast (table.speculation ≤ intMax)
  check .speculationAtMost (table.speculation ≤ 50)

def new (appThreadId : Tid) (modelId : UInt32) (partitionManager : SimpleRangePartitionManager)
    (speculation : Nat) (keys : List (List Key)) : Except Fault (SparseKVClientTable Val) := do
  let table := init appThreadId modelId partitionManager speculation keys
  table.setup
  return table

theorem new_eq_ok {appThreadId : Tid} {modelId : UInt32}
    {partitionManager : SimpleRangePartitionManager} {speculation : Nat} {keys : List (List Key)}
    {table : SparseKVClientTable Val} :
    new appThreadId modelId partitionManager speculation keys = .ok table ↔
      speculation ≤ 50 ∧ table = init appThreadId modelId partitionManager speculation keys := by
  constructor
  · intro constructed
    obtain ⟨_, checked, constructed⟩ := Except.bind_eq_ok.mp constructed
    obtain ⟨_, -, checked⟩ := Except.bind_eq_ok.mp checked
    cases constructed
    exact ⟨check_eq_ok.mp checked, rfl⟩
  · rintro ⟨atMost, rfl⟩
    have atLeast : speculation ≤ intMax := Nat.le_trans atMost (by decide)
    have checked : (init appThreadId modelId partitionManager speculation keys :
        SparseKVClientTable Val).setup = .ok () :=
      Except.bind_eq_ok.mpr ⟨_, check_pos atLeast, check_pos atMost⟩
    exact Except.bind_eq_ok.mpr ⟨_, checked, rfl⟩

/-- What `Send_` pushes. -/
def send (table : SparseKVClientTable Val) (sliced : SlicedKVs Val) (isAdd : Bool) (version : Nat) :
    List (Message Val) :=
  sliced.map fun slice =>
    { sender := table.appThreadId, recver := slice.1, modelId := table.modelId,
      flag := if isAdd then .kAdd else .kGet, version,
      data := if slice.2.keys = [] then []
        else if isAdd then [.u32 slice.2.keys, .val slice.2.vals] else [.u32 slice.2.keys] }

/-- What `Clock_` pushes. -/
def clock (table : SparseKVClientTable Val) : List (Message Val) :=
  table.partitionManager.serverThreadIds.map fun server =>
    { sender := table.appThreadId, recver := server, modelId := table.modelId, flag := .kClock,
      version := table.getCount - 2, data := [] }

/-- The `Get` of one iteration: what is pushed, and `num_reqs`. -/
def sliceGet (table : SparseKVClientTable Val) (version : Nat) :
    Except Fault (List (Message Val) × Nat) :=
  match table.keys[version]? with
  | none => .error (.check .keysLeft)
  | some keys => do
      let sliced ← table.partitionManager.slice ⟨keys, []⟩
      return (table.send sliced false version, sliced.length)

/-- `Get_` up to `WaitRequest`: the argument of `NewRequest`, and what is pushed after it. -/
def get (table : SparseKVClientTable Val) :
    Except Fault (SparseKVClientTable Val × Nat × List (Message Val)) := do
  check .getAddCount (table.getCount = table.addCount)
  let table := { table with getCount := table.getCount + 1 }
  if table.getCount = 1 then
    let sent ← (List.range (table.speculation + 1)).mapM table.sliceGet
    return ({ table with numReqs := table.numReqs ++ sent.map Prod.snd },
      ((sent.map Prod.snd).head?).getD 0, sent.flatMap Prod.fst)
  else
    match table.numReqs[table.getCount - 1]? with
    | none => .error .outOfRange
    | some expected => do
        let (msgs, numReqs) ← table.sliceGet (table.getCount - 1 + table.speculation)
        return ({ table with numReqs := table.numReqs ++ [numReqs] }, expected, table.clock ++ msgs)

def add (table : SparseKVClientTable Val) (kvs : KVPairs Val) :
    Except Fault (SparseKVClientTable Val × List (Message Val)) := do
  let table := { table with addCount := table.addCount + 1 }
  check .getAddCount (table.getCount = table.addCount)
  let sliced ← table.partitionManager.slice kvs
  return (table, table.send sliced true (table.getCount - 1))

/-- The handle that `Setup_` registers. -/
def recvHandle (table : SparseKVClientTable Val) (msg : Message Val) :
    Except Fault (SparseKVClientTable Val) :=
  match msg.data with
  | [keys, vals] => .ok { table with recvKvs := table.recvKvs ++ [⟨keys.asU32, vals.asVals⟩] }
  | _ => .error (.check .twoArrays)

/-- The handle that `Get_` registers, with what it writes to `vals`. -/
def recvFinishHandle (table : SparseKVClientTable Val) :
    Except Fault (SparseKVClientTable Val × List Val) :=
  match table.keys[table.getCount - 1]? with
  | none => .error .outOfRange
  | some keys => do
      let totalKey := (table.recvKvs.map fun s => s.keys.length).sum
      check .allServers (totalKey = keys.length)
      let sorted := table.recvKvs.insertionSort fun a b => a.front ≤ b.front
      return ({ table with recvKvs := [] }, sorted.flatMap KVPairs.vals)

end SparseKVClientTable

/-- Which call of its table a worker is in. -/
inductive TableCall where
  | outside
  | get
  | add
  deriving DecidableEq, Repr

/-- A worker thread with its table and the entry of `tracker_` for the two. -/
structure SparseClient (Val : Type) where
  table : SparseKVClientTable Val
  /-- `<expected, current>`. -/
  tracker : Nat × Nat
  call : TableCall
  /-- What the call has still to push. -/
  todo : List (Message Val)

namespace SparseClient

variable {Val : Type}

def new (table : SparseKVClientTable Val) : SparseClient Val := ⟨table, (0, 0), .outside, []⟩

def get (client : SparseClient Val) : Except Fault (SparseClient Val) := do
  let (table, expected, todo) ← client.table.get
  return ⟨table, (expected, 0), .get, todo⟩

def add (client : SparseClient Val) (kvs : KVPairs Val) : Except Fault (SparseClient Val) := do
  let (table, todo) ← client.table.add kvs
  return { client with table, call := .add, todo }

/-- The call has pushed its messages, and a `Get` has what it waits for. -/
def Returns (client : SparseClient Val) : Prop :=
  client.call ≠ .outside ∧ client.todo = [] ∧
    (client.call = .get → client.tracker.1 = client.tracker.2)

instance (client : SparseClient Val) : Decidable client.Returns :=
  inferInstanceAs (Decidable (_ ∧ _ ∧ _))

/-- `AddResponse`, with what the finish handle has seen and written if it ran. -/
def addResponse (client : SparseClient Val) (msg : Message Val) :
    Except Fault (SparseClient Val × Option (List (KVPairs Val) × List Val)) := do
  let table ← client.table.recvHandle msg
  let tracker := (client.tracker.1, client.tracker.2 + 1)
  if client.tracker.1 = client.tracker.2 + 1 then
    let (finished, vals) ← table.recvFinishHandle
    return ({ client with table := finished, tracker }, some (table.recvKvs, vals))
  else return ({ client with table, tracker }, none)

end SparseClient

end FlexPS
