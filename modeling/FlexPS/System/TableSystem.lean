import FlexPS.Lib.Link
import FlexPS.Server.AbstractModel
import FlexPS.Worker.ClientTable

/-! # Clients and servers of a table together

Any number of workers, each with a `KVClientTable` and a program of calls, and one model on every
server. A pair of a worker and a server has a FIFO link in either direction; nothing is promised
about the order of two links. The models are those of any kind that answer to `AbstractModel`.
-/

namespace FlexPS

/-- What `CreateTable` and the workers are given. -/
structure TableJob (Val Model : Type) where
  manager : SimpleRangePartitionManager
  modelId : UInt32
  workers : List Tid
  program : Tid → List (ClientCall Val)
  /-- What a server starts with, once its workers are known. -/
  start : Tid → Model

namespace TableJob

variable {Val Model : Type}

def servers (job : TableJob Val Model) : List Tid := job.manager.serverThreadIds

end TableJob

structure TableSystem {Val Model : Type} (job : TableJob Val Model) where
  clients : Tid → TableClient Val
  /-- How many calls of its program a worker has made. -/
  calls : Tid → Nat
  /-- From a worker to a server, with what waits in the queues of the sender. -/
  requests : Tid → Tid → Link (Message Val)
  servers : Tid → Model
  /-- From a server to a worker. -/
  replies : Tid → Tid → Link (Message Val)

inductive TableInput where
  /-- The worker makes the next call of its program. -/
  | call (w : Tid)
  /-- The worker returns from `WaitRequest`. -/
  | finish (w : Tid)
  /-- A server takes the next request of a worker. -/
  | serve (server w : Tid)
  /-- A worker is handed the next reply of a server. -/
  | respond (server w : Tid)
  deriving DecidableEq, Repr

inductive TableEvent (Val : Type) where
  | served (server : Tid) (event : Event Val)
  /-- The finish handle of this call of the program has written `vals`. -/
  | gotten (w : Tid) (call : Nat) (vals : List Val)

namespace TableEvent

variable {Val : Type}

/-- What an event is at one server. -/
def at? (server : Tid) : TableEvent Val → Option (Event Val)
  | served server' event => if server' = server then some event else none
  | gotten .. => none

end TableEvent

namespace TableSystem

variable {Val Model : Type} {job : TableJob Val Model}

variable (job) in
def start : TableSystem job :=
  { clients := fun w => .new ⟨w, job.modelId, job.manager, ⟨[]⟩⟩
    calls := fun _ => 0
    requests := fun _ _ => .empty
    servers := job.start
    replies := fun _ _ => .empty }

/-- When a step can be taken. -/
def Enabled (state : TableSystem job) (_ : List (TableEvent Val)) : TableInput → Prop
  | .call w => w ∈ job.workers ∧ (state.clients w).waits = false ∧
      state.calls w < (job.program w).length
  | .finish w => w ∈ job.workers ∧ (state.clients w).waits = true ∧
      (state.clients w).tracker.1 = (state.clients w).tracker.2
  | .serve server w => server ∈ job.servers ∧ w ∈ job.workers ∧
      (state.requests w server).inFlight ≠ []
  | .respond server w => server ∈ job.servers ∧ w ∈ job.workers ∧
      (state.replies server w).inFlight ≠ []

instance (state : TableSystem job) (events : List (TableEvent Val)) (input : TableInput) :
    Decidable (state.Enabled events input) :=
  match input with
  | .call _ | .finish _ => inferInstanceAs (Decidable (_ ∧ _ ∧ _))
  | .serve _ _ | .respond _ _ => inferInstanceAs (Decidable (_ ∧ _ ∧ _))

/-- After a call. It pushes all its messages at once: until a server takes them, they may as well
    not have been pushed. -/
def makeCall (state : TableSystem job) (w : Tid) (client : TableClient Val) (msgs : List (Message Val)) :
    TableSystem job :=
  { state with
    clients := Function.update state.clients w client
    calls := Function.update state.calls w (state.calls w + 1)
    requests := Link.post state.requests w (fun msg => msg.recver) msgs }

def finish (state : TableSystem job) (w : Tid) : TableSystem job :=
  { state with clients := Function.update state.clients w { state.clients w with waits := false } }

/-- After a server has taken the next request of a worker. -/
def serve (state : TableSystem job) (server w : Tid) (model : Model) (events : List (Event Val)) :
    TableSystem job :=
  { state with
    requests := Link.set state.requests w server (state.requests w server).receive
    servers := Function.update state.servers server model
    replies := Link.post state.replies server (fun msg => msg.recver) (events.filterMap Event.pushed) }

/-- After a worker has been handed the next reply of a server. -/
def respond (state : TableSystem job) (server w : Tid) (client : TableClient Val) : TableSystem job :=
  { state with
    clients := Function.update state.clients w client
    replies := Link.set state.replies server w (state.replies server w).receive }

variable [AbstractModel Val Model]

def step (state : TableSystem job) :
    TableInput → Except Fault (TableSystem job × List (TableEvent Val))
  | .call w =>
      match (job.program w)[state.calls w]? with
      | none => .ok (state, [])
      | some call => do
          let (client, msgs) ← (state.clients w).call call
          return (state.makeCall w client msgs, [])
  | .finish w => .ok (state.finish w, [])
  | .serve server w =>
      match (state.requests w server).inFlight with
      | [] => .ok (state, [])
      | msg :: _ => do
          let (model, events) ← AbstractModel.handle (state.servers server) msg
          return (state.serve server w model events, events.map (.served server))
  | .respond server w =>
      match (state.replies server w).inFlight with
      | [] => .ok (state, [])
      | msg :: _ => do
          let (client, finished) ← (state.clients w).addResponse msg
          return (state.respond server w client,
            finished.toList.map (.gotten w (state.calls w - 1)))

end TableSystem

end FlexPS
