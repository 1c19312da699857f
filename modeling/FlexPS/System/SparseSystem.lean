import FlexPS.Lib.Link
import FlexPS.Server.SparseSSP.Guarantees
import FlexPS.Worker.Parts
import FlexPS.Worker.SparseTable

/-! # Sparse clients and servers together

Any number of workers, each with a `SparseKVClientTable`, and one `SparseSSPModel` on
every server. A pair of a worker and a server has a FIFO link in either direction; nothing
is promised about the order of two links. A worker repeats `Get` and `Add`.
-/

namespace FlexPS

/-- What `CreateTable` and the workers are given. -/
structure SparseJob (Val : Type) where
  manager : SimpleRangePartitionManager
  modelId : UInt32
  staleness : Nat
  speculation : Nat
  dcheckIsOn : Bool
  recorderType : Tid → SparseSSPRecorderType
  storage : Tid → Storage Val
  workers : List Tid
  /-- How often a worker calls `Get` and `Add`. -/
  rounds : Tid → Nat
  keys : Tid → List (List Key)
  /-- What a worker adds in an iteration. -/
  adds : Tid → Nat → KVPairs Val

namespace SparseJob

variable {Val : Type}

/-- What one server gets of a request. -/
def part (job : SparseJob Val) (send : KVPairs Val) (server : Tid) : KVPairs Val :=
  job.manager.part send server

/-- The streams that one server receives. -/
def workload (job : SparseJob Val) (server : Tid) : Workload Val :=
  { speculation := job.speculation
    server
    modelId := job.modelId
    keys := fun w version => (job.part ⟨((job.keys w)[version]?).getD [], []⟩ server).keys
    adds := fun w version => job.part (job.adds w version) server }

/-- The servers. -/
def servers (job : SparseJob Val) : List Tid := job.manager.serverThreadIds

/-- The type of `main_recorder_` on a server. -/
abbrev Main (job : SparseJob Val) (server : Tid) : Type := (job.recorderType server).Main Val

/-- The constructors of the clients' tables and of the servers' recorders return. -/
structure Constructs (job : SparseJob Val) : Prop where
  tables : ∀ w ∈ job.workers, ∃ table : SparseKVClientTable Val,
    SparseKVClientTable.new w job.modelId job.manager job.speculation (job.keys w) = .ok table
  recorders : ∀ server ∈ job.servers, ∃ recorder : SparseSSPRecorder Val (job.Main server),
    (job.recorderType server).recorder job.staleness job.speculation job.dcheckIsOn = .ok recorder

/-- What a server starts with, once its recorder is constructed and its workers are known. -/
def startStream (job : SparseJob Val) (server : Tid) : StreamState Val (job.Main server) :=
  .start (job.workload server) (job.storage server)
    (.new job.staleness job.speculation
      ((job.recorderType server).mainRecorder job.staleness job.speculation) job.dcheckIsOn) job.workers

/-- Two servers and two workers, which read and add to a key on either. -/
def twoServers : SparseJob Int :=
  { manager := ⟨[⟨0, 5⟩, ⟨5, 10⟩], [0, 1], rfl⟩
    modelId := 0
    staleness := 0
    speculation := 1
    dcheckIsOn := true
    recorderType := fun _ => .map
    storage := fun _ => .map fun _ => 0
    workers := [8, 9]
    rounds := fun _ => 2
    keys := fun _ => [[2, 7], [2, 7], [2, 7]]
    adds := fun _ _ => ⟨[2, 7], [1, 1]⟩ }

end SparseJob

structure SparseSystem {Val : Type} (job : SparseJob Val) where
  clients : Tid → SparseClient Val
  /-- From a worker to a server. -/
  requests : Tid → Tid → Link (Message Val)
  servers : (server : Tid) → SparseSSPModel Val (job.Main server)
  /-- From a server to a worker. -/
  replies : Tid → Tid → Link (Message Val)

inductive SparseInput where
  /-- The worker calls `Get`, which computes what it pushes. -/
  | get (w : Tid)
  | add (w : Tid)
  /-- The call pushes its next message. -/
  | push (w : Tid)
  | finish (w : Tid)
  /-- A server takes the next request of a worker. -/
  | serve (server w : Tid)
  /-- A worker is handed the next reply of a server. -/
  | respond (server w : Tid)
  deriving DecidableEq, Repr

inductive SparseEvent (Val : Type) where
  | served (server : Tid) (event : Event Val)
  /-- The finish handle of the `Get` with this count has run on `recvKvs`. -/
  | gotten (w : Tid) (getCount : Nat) (recvKvs : List (KVPairs Val)) (vals : List Val)

namespace SparseEvent

variable {Val : Type}

/-- What an event is at one server. -/
def at? (server : Tid) : SparseEvent Val → Option (Event Val)
  | served server' event => if server' = server then some event else none
  | gotten .. => none

end SparseEvent

namespace SparseSystem

variable {Val : Type} {job : SparseJob Val}

variable (job) in
/-- The state after the constructors. -/
def start : SparseSystem job :=
  { clients := fun w =>
      .new (.init w job.modelId job.manager job.speculation (job.keys w))
    requests := fun _ _ => .empty
    servers := fun server => (job.startStream server).model
    replies := fun _ _ => .empty }

def setClient (state : SparseSystem job) (w : Tid) (client : SparseClient Val) : SparseSystem job :=
  { state with clients := Function.update state.clients w client }

/-- Every reply enters the link to its receiver. -/
def deliver (replies : Tid → Tid → Link (Message Val)) (server : Tid) (pushed : List (Message Val)) :
    Tid → Tid → Link (Message Val) := fun server' w =>
  if server' = server then
    { replies server' w with
      inFlight := (replies server' w).inFlight ++ pushed.filter fun msg => msg.recver = w }
  else replies server' w

/-- When a step can be taken. A worker calls `Add` after every `Get`. -/
def Enabled (state : SparseSystem job) (_ : List (SparseEvent Val)) : SparseInput → Prop
  | .get w => w ∈ job.workers ∧ (state.clients w).call = .outside ∧
      (state.clients w).table.getCount = (state.clients w).table.addCount ∧
      (state.clients w).table.getCount < job.rounds w
  | .add w => w ∈ job.workers ∧ (state.clients w).call = .outside ∧
      (state.clients w).table.getCount = (state.clients w).table.addCount + 1
  | .push w => w ∈ job.workers ∧ (state.clients w).todo ≠ []
  | .finish w => w ∈ job.workers ∧ (state.clients w).Returns
  | .serve server w => server ∈ job.servers ∧ w ∈ job.workers ∧
      (state.requests w server).inFlight ≠ []
  | .respond server w => server ∈ job.servers ∧ w ∈ job.workers ∧
      (state.replies server w).inFlight ≠ []

instance (state : SparseSystem job) (events : List (SparseEvent Val)) (input : SparseInput) :
    Decidable (state.Enabled events input) :=
  match input with
  | .get _ => inferInstanceAs (Decidable (_ ∧ _ ∧ _ ∧ _))
  | .add _ => inferInstanceAs (Decidable (_ ∧ _ ∧ _))
  | .push _ | .finish _ => inferInstanceAs (Decidable (_ ∧ _))
  | .serve _ _ | .respond _ _ => inferInstanceAs (Decidable (_ ∧ _ ∧ _))

variable [AddCommMonoid Val]

def step (state : SparseSystem job) :
    SparseInput → Except Fault (SparseSystem job × List (SparseEvent Val))
  | .get w => do
      let client ← (state.clients w).get
      return (state.setClient w client, [])
  | .add w => do
      let client ← (state.clients w).add (job.adds w ((state.clients w).table.getCount - 1))
      return (state.setClient w client, [])
  | .push w =>
      match (state.clients w).todo with
      | [] => .ok (state, [])
      | msg :: todo => .ok
          ({ state.setClient w { state.clients w with todo } with
              requests := Link.set state.requests w msg.recver
                ((state.requests w msg.recver).send msg) }, [])
  | .finish w => .ok (state.setClient w { state.clients w with call := .outside }, [])
  | .serve server w =>
      match (state.requests w server).inFlight with
      | [] => .ok (state, [])
      | msg :: _ => do
          let (model, events) ← AbstractModel.handle (state.servers server) msg
          return ({ state with
              requests := Link.set state.requests w server (state.requests w server).receive
              servers := Function.update state.servers server model
              replies := deliver state.replies server (events.filterMap Event.pushed) },
            events.map (.served server))
  | .respond server w =>
      match (state.replies server w).inFlight with
      | [] => .ok (state, [])
      | msg :: _ => do
          let (client, finished) ← (state.clients w).addResponse msg
          return ({ state.setClient w client with
              replies := Link.set state.replies server w (state.replies server w).receive },
            finished.toList.map fun (recvKvs, vals) =>
              .gotten w client.table.getCount recvKvs vals)

end SparseSystem

end FlexPS
