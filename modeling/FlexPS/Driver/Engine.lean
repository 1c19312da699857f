import FlexPS.Base.Message
import FlexPS.Comm.Barrier
import FlexPS.Lib.Link

/-! # The tasks of the engines

Every node calls `Run` for the same tasks. `Run` lets the local servers register the
workers of the task, passes a barrier, starts the local workers and joins them. A worker
may send whatever it wants while it runs; that a `Get` makes it wait is not modelled, nor
are the replies to `Get`s, which no server receives.
-/

namespace FlexPS

/-- An `MLTask` with the worker threads that were allocated for it on each node. -/
structure EngineTask (n : Nat) where
  tables : List UInt32
  threads : Fin n → List Tid

def EngineTask.allThreadIds {n : Nat} (task : EngineTask n) : List Tid :=
  (List.finRange n).flatMap task.threads

/-- What the id mapper knows of the servers. -/
structure Cluster (n : Nat) where
  /-- `GetNodeIdForThread`. -/
  nodeOf : Tid → Fin n
  /-- `GetServerThreadsForId`. -/
  servers : Fin n → List Tid
  servers_node : ∀ i, ∀ server ∈ servers i, nodeOf server = i

/-- A message in the queue of a `Sender`. The task in which it was pushed is a ghost. -/
structure Posted (Val : Type) where
  msg : Message Val
  task : Nat
  deriving DecidableEq, Repr

/-- What is on the connection between two nodes. `kBarrier` does not pass the `Sender`. -/
inductive EnginePacket (Val : Type) where
  | barrier
  | data (posted : Posted Val)
  deriving DecidableEq, Repr

namespace EnginePacket

variable {Val : Type}

def isBarrier : EnginePacket Val → Bool
  | .barrier => true
  | .data _ => false

def posted : EnginePacket Val → Option (Posted Val)
  | .barrier => none
  | .data posted => some posted

end EnginePacket

/-- Where the main thread of a node stands in `Run`. -/
inductive EngineMain where
  /-- In the loop over the tables, these being left. -/
  | tables (rest : List UInt32)
  /-- In `InitTable`, with a message to go to each server of `todo`, and `count` replies to wait for. -/
  | initTable (table : UInt32) (id : Tid) (todo : List Tid) (count : Nat) (rest : List UInt32)
  | inBarrier
  /-- The workers that have not returned. -/
  | running (workers : List Tid)
  deriving DecidableEq, Repr

structure EngineState (Val : Type) (n : Nat) where
  /-- The number of the current task. -/
  task : Fin n → Nat
  main : Fin n → EngineMain
  mailboxes : Fin n → Mailbox n
  /-- How many calls of `Barrier` the node has begun. -/
  entered : Fin n → Nat
  /-- How many calls of `Barrier` have returned. -/
  returned : Fin n → Nat
  /-- The queue of the `Sender`. -/
  sendQueue : Fin n → List (Posted Val)
  links : Fin n → Fin n → Link (EnginePacket Val)
  serverQueue : Tid → List (Posted Val)
  /-- The ids with which a server has initialised the `ProgressTracker` of a table; the task
      is a ghost. -/
  registered : Tid → UInt32 → Option (Nat × List Tid)

inductive EngineInput (Val : Type) (n : Nat) where
  /-- `InitTable` has allocated `id` to receive the replies. -/
  | initTable (i : Fin n) (id : Tid)
  /-- One turn of the loop that pushes the messages. -/
  | pushReset (i : Fin n)
  /-- `InitTable` has all replies. -/
  | tableDone (i : Fin n)
  | enterBarrier (i : Fin n)
  | sendBarrier (i : Fin n)
  | test (i : Fin n)
  | wake (i : Fin n)
  /-- A worker sends a message to a server. -/
  | work (i : Fin n) (msg : Message Val)
  /-- A worker returns. -/
  | finish (i : Fin n) (worker : Tid)
  /-- The workers are joined and `Run` returns. -/
  | join (i : Fin n)
  /-- One turn of `Sender::Send`. -/
  | transmit (i : Fin n)
  /-- The receiver thread of `recver` takes the next message of a link. -/
  | receive (sender recver : Fin n)
  /-- A server thread takes the next message of its queue. -/
  | serve (server : Tid)
  deriving DecidableEq, Repr

inductive EngineEvent (Val : Type) where
  /-- A server has handled `kResetWorkerInModel`. -/
  | reset (server : Tid) (table : UInt32) (task : Nat) (ids : List Tid)
  /-- A server has handled a message of a worker of `task`, with these workers registered. -/
  | processed (server : Tid) (msg : Message Val) (task : Nat) (registered : Option (Nat × List Tid))
  deriving DecidableEq, Repr

/-- The assertions of `InitTable`. -/
inductive EngineCheck where
  | replyFlag
  | replyTable
  deriving DecidableEq, Repr

section Engine

variable {Val : Type} {n : Nat}

/-- The start of `Run`; after the last task nothing is left to do. -/
def startTask (tasks : List (EngineTask n)) (k : Nat) : EngineMain :=
  .tables ((tasks[k]?.map EngineTask.tables).getD [])

namespace EngineState

def init (tasks : List (EngineTask n)) : EngineState Val n where
  task _ := 0
  main _ := startTask tasks 0
  mailboxes _ := .init
  entered _ := 0
  returned _ := 0
  sendQueue _ := []
  links _ _ := .empty
  serverQueue _ := []
  registered _ _ := none

def push (state : EngineState Val n) (i : Fin n) (posted : Posted Val) : EngineState Val n :=
  { state with
    sendQueue := Function.update state.sendQueue i (state.sendQueue i ++ [posted]) }

def setMain (state : EngineState Val n) (i : Fin n) (main : EngineMain) : EngineState Val n :=
  { state with main := Function.update state.main i main }

end EngineState

/-- The message that `InitTable` pushes; the code leaves its version uninitialised. -/
def resetWorkerMsg (id server : Tid) (table : UInt32) (ids : List Tid) : Message Val :=
  { sender := id, recver := server, modelId := table, flag := .kResetWorkerInModel, version := 0,
    data := [.u32 ids] }

/-- The reply of a model; the code leaves its sender and version uninitialised. -/
def resetWorkerReply (request : Message Val) : Message Val :=
  { sender := 0, recver := request.sender, modelId := request.modelId,
    flag := .kResetWorkerInModel, version := 0, data := [] }

namespace EngineState

variable (cluster : Cluster n) (tasks : List (EngineTask n))

/-- What the workers of a node may send: a request to a server for a table of the task. -/
def MaySend (state : EngineState Val n) (i : Fin n) (workers : List Tid) (msg : Message Val) : Prop :=
  msg.sender ∈ workers ∧ (msg.flag = .kClock ∨ msg.flag = .kAdd ∨ msg.flag = .kGet) ∧
    msg.modelId ∈ (tasks[state.task i]?.map EngineTask.tables).getD [] ∧
    msg.recver ∈ cluster.servers (cluster.nodeOf msg.recver)

/-- When a step can be taken. -/
def Enabled (state : EngineState Val n) : EngineInput Val n → Prop
  | .initTable i id => match state.main i with
      | .tables (_ :: _) => cluster.nodeOf id = i ∧ id ∉ cluster.servers i
      | _ => False
  | .pushReset i => match state.main i with
      | .initTable _ _ (_ :: _) _ _ => True
      | _ => False
  | .tableDone i => match state.main i with
      | .initTable _ _ [] 0 _ => True
      | _ => False
  | .enterBarrier i => state.main i = .tables [] ∧ state.task i < tasks.length
  | .sendBarrier i => ∃ j rest, (state.mailboxes i).caller = .sending (j :: rest)
  | .test i => (state.mailboxes i).caller = .testing
  | .wake i => (state.mailboxes i).caller = .asleep
  | .work i msg => match state.main i with
      | .running workers => state.MaySend cluster tasks i workers msg
      | _ => False
  | .finish i worker => match state.main i with
      | .running workers => worker ∈ workers
      | _ => False
  | .join i => state.main i = .running []
  | .transmit i => state.sendQueue i ≠ []
  | .receive sender recver => (state.links sender recver).inFlight ≠ []
  | .serve server => state.serverQueue server ≠ []

/-- The receiver thread pushes a message to the queue of its receiver: a server, the
    `InitTable` that waits for it, or the worker helper thread, which is not modelled. -/
def deliver (state : EngineState Val n) (j : Fin n) (posted : Posted Val) :
    Except EngineCheck (EngineState Val n) :=
  if posted.msg.recver ∈ cluster.servers j then
    .ok { state with
      serverQueue := Function.update state.serverQueue posted.msg.recver
        (state.serverQueue posted.msg.recver ++ [posted]) }
  else match state.main j with
    | .initTable table id todo count rest =>
        if posted.msg.recver = id then
          if posted.msg.flag ≠ .kResetWorkerInModel then .error .replyFlag
          else if posted.msg.modelId ≠ table then .error .replyTable
          else .ok (state.setMain j (.initTable table id todo (count - 1) rest))
        else .ok state
    | _ => .ok state

/-- What a server does with a message. A model answers a reset through the `Sender`. -/
def handle (state : EngineState Val n) (server : Tid) (posted : Posted Val) :
    EngineState Val n × List (EngineEvent Val) :=
  let msg := posted.msg
  if msg.flag = .kResetWorkerInModel then
    ({ state with
        registered := Function.update state.registered server
          (Function.update (state.registered server) msg.modelId (some (posted.task, msg.keys))) }.push
        (cluster.nodeOf server) ⟨resetWorkerReply msg, posted.task⟩,
      [.reset server msg.modelId posted.task msg.keys])
  else (state, [.processed server msg posted.task (state.registered server msg.modelId)])

def step (state : EngineState Val n) :
    EngineInput Val n → Except EngineCheck (EngineState Val n × List (EngineEvent Val))
  | .initTable i id => match state.main i with
      | .tables (table :: rest) =>
          if cluster.servers i = [] then .ok (state.setMain i (.tables rest), [])
          else .ok (state.setMain i
            (.initTable table id (cluster.servers i) (cluster.servers i).length rest), [])
      | _ => .ok (state, [])
  | .pushReset i => match state.main i with
      | .initTable table id (server :: todo) count rest =>
          let ids := (tasks[state.task i]?.map EngineTask.allThreadIds).getD []
          .ok ((state.setMain i (.initTable table id todo count rest)).push i
            ⟨resetWorkerMsg id server table ids, state.task i⟩, [])
      | _ => .ok (state, [])
  | .tableDone i => match state.main i with
      | .initTable _ _ _ _ rest => .ok (state.setMain i (.tables rest), [])
      | _ => .ok (state, [])
  | .enterBarrier i => .ok ({ state.setMain i .inBarrier with
      mailboxes := Function.update state.mailboxes i (state.mailboxes i).enter
      entered := Rounds.bump state.entered i }, [])
  | .sendBarrier i => match (state.mailboxes i).caller with
      | .sending (j :: rest) => .ok ({ state with
          mailboxes := Function.update state.mailboxes i ((state.mailboxes i).sent rest)
          links := Link.set state.links i j ((state.links i j).send .barrier) }, [])
      | _ => .ok (state, [])
  | .test i =>
      let mailbox := (state.mailboxes i).test
      let workers := (tasks[state.task i]?.map (·.threads i)).getD []
      let tested := { state with mailboxes := Function.update state.mailboxes i mailbox }
      if mailbox.caller = .outside then
        .ok ({ tested.setMain i (.running workers) with
          returned := Rounds.bump state.returned i }, [])
      else .ok (tested, [])
  | .wake i => .ok ({ state with
      mailboxes := Function.update state.mailboxes i (state.mailboxes i).wake }, [])
  | .work i msg => .ok (state.push i ⟨msg, state.task i⟩, [])
  | .finish i worker => match state.main i with
      | .running workers => .ok (state.setMain i (.running (workers.erase worker)), [])
      | _ => .ok (state, [])
  | .join i => .ok ({ state.setMain i (startTask tasks (state.task i + 1)) with
      task := Rounds.bump state.task i }, [])
  | .transmit i => match state.sendQueue i with
      | posted :: rest =>
          let j := cluster.nodeOf posted.msg.recver
          .ok ({ state with
            sendQueue := Function.update state.sendQueue i rest
            links := Link.set state.links i j ((state.links i j).send (.data posted)) }, [])
      | [] => .ok (state, [])
  | .receive sender recver => do
      let link := state.links sender recver
      let received := { state with links := Link.set state.links sender recver link.receive }
      match link.inFlight with
      | .barrier :: _ => return ({ received with
          mailboxes := Function.update state.mailboxes recver
            (state.mailboxes recver).receiveBarrier }, [])
      | .data posted :: _ => return (← received.deliver cluster recver posted, [])
      | [] => return (state, [])
  | .serve server => match state.serverQueue server with
      | posted :: rest =>
          let state := { state with
            serverQueue := Function.update state.serverQueue server rest }
          .ok (state.handle cluster server posted)
      | [] => .ok (state, [])

end EngineState

end Engine

end FlexPS
