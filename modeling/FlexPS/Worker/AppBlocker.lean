import FlexPS.Base.Message
import FlexPS.Lib.Machine

/-! # `AppBlocker`

App threads block in `WaitRequest` until the background thread has passed every
response of their request to `AddResponse`. A section under `mu_` is one step, and so
are the handlers that `AddResponse` runs between its two sections.
-/

namespace FlexPS

/-- `app_thread_id` and `model_id`, the keys of the maps of `AppBlocker`. -/
abbrev PairId := Tid × UInt32

/-- Why a call does not return. -/
inductive BlockerFault where
  /-- The two lookups of `SanityCheck` in `recv_handle_`. -/
  | recvRegistered
  /-- The two lookups of `SanityCheck` in `recv_finish_handle_`. -/
  | recvFinishRegistered
  /-- The call of an empty `std::function`. -/
  | emptyFunction
  deriving DecidableEq, Repr

inductive BlockerEvent (Handle Msg : Type) where
  | registeredRecv (handle : Handle)
  | registeredFinish (handle : Handle)
  /-- `NewRequest(expected_responses)`. -/
  | requested (expected : Nat)
  /-- A response for the pair enters the queue of the background thread. -/
  | handed (msg : Msg)
  /-- A receive handle runs. -/
  | received (handle : Handle) (msg : Msg)
  /-- A finish handle runs. -/
  | finished (handle : Handle)
  /-- `WaitRequest` returns. -/
  | returned
  deriving DecidableEq, Repr

structure AppBlocker (Handle : Type) where
  /-- `<expected, current>`. -/
  tracker : PairId → UInt32 × UInt32
  recvHandle : PairId → Option Handle
  recvFinishHandle : PairId → Option Handle

namespace AppBlocker

variable {Handle Msg : Type}

def init : AppBlocker Handle := ⟨fun _ => (0, 0), fun _ => none, fun _ => none⟩

def sanityCheck (blocker : AppBlocker Handle) (id : PairId) : Except BlockerFault Unit :=
  if (blocker.recvHandle id).isNone then .error .recvRegistered
  else if (blocker.recvFinishHandle id).isNone then .error .recvFinishRegistered
  else .ok ()

def registerRecvHandle (blocker : AppBlocker Handle) (id : PairId) (recvHandle : Handle) :
    AppBlocker Handle :=
  { blocker with recvHandle := Function.update blocker.recvHandle id (some recvHandle) }

def registerRecvFinishHandle (blocker : AppBlocker Handle) (id : PairId)
    (recvFinishHandle : Handle) : AppBlocker Handle :=
  { blocker with
    recvFinishHandle := Function.update blocker.recvFinishHandle id (some recvFinishHandle) }

def newRequest (blocker : AppBlocker Handle) (id : PairId) (expectedResponses : UInt32) :
    Except BlockerFault (AppBlocker Handle) := do
  blocker.sanityCheck id
  return { blocker with tracker := Function.update blocker.tracker id (expectedResponses, 0) }

/-- The predicate of `WaitRequest`. -/
def Complete (blocker : AppBlocker Handle) (id : PairId) : Prop :=
  (blocker.tracker id).1 = (blocker.tracker id).2

instance (blocker : AppBlocker Handle) (id : PairId) : Decidable (blocker.Complete id) :=
  inferInstanceAs (Decidable (_ = _))

/-- The first section of `AddResponse`. -/
def recvFinish (blocker : AppBlocker Handle) (id : PairId) : Bool :=
  (blocker.tracker id).1 = (blocker.tracker id).2 + 1

/-- The handlers that `AddResponse` runs. -/
def runHandlers (blocker : AppBlocker Handle) (id : PairId) (msg : Msg) (recvFinish : Bool) :
    Except BlockerFault (List (BlockerEvent Handle Msg)) :=
  match blocker.recvHandle id with
  | none => .error .emptyFunction
  | some recvHandle =>
    if recvFinish then
      match blocker.recvFinishHandle id with
      | none => .error .emptyFunction
      | some recvFinishHandle => .ok [.received recvHandle msg, .finished recvFinishHandle]
    else .ok [.received recvHandle msg]

/-- The last section of `AddResponse`. -/
def addCurrent (blocker : AppBlocker Handle) (id : PairId) : AppBlocker Handle :=
  { blocker with
    tracker := Function.update blocker.tracker id
      ((blocker.tracker id).1, (blocker.tracker id).2 + 1) }

end AppBlocker

/-! ## The threads -/

/-- Where an app thread stands, and for which model. -/
inductive AppThread where
  | outside
  | registered (model : UInt32)
  /-- `NewRequest` has returned and `WaitRequest` has not been called. -/
  | requested (model : UInt32)
  /-- Blocked on `cond_`. -/
  | asleep (model : UInt32)
  /-- About to evaluate the predicate of `cond_.wait` again. -/
  | woken (model : UInt32)
  deriving DecidableEq, Repr

/-- `cond_.notify_all()`, or a wakeup without a notification. -/
def AppThread.notify : AppThread → AppThread
  | .asleep model => .woken model
  | thread => thread

/-- Where the background thread stands in `AddResponse`. -/
inductive Background (Msg : Type) where
  | idle
  | decided (id : PairId) (msg : Msg) (recvFinish : Bool)
  | handled (id : PairId) (recvFinish : Bool)
  deriving DecidableEq, Repr

structure BlockerSystem (Handle Msg : Type) where
  blocker : AppBlocker Handle
  threads : Tid → AppThread
  /-- How many responses to the pair's request are not handed to the background thread yet. -/
  owed : PairId → Nat
  /-- `work_queue_` of the background thread. -/
  workQueue : List (PairId × Msg)
  background : Background Msg

inductive BlockerInput (Handle Msg : Type) where
  | registerRecvHandle (id : PairId) (recvHandle : Handle)
  | registerRecvFinishHandle (id : PairId) (recvFinishHandle : Handle)
  | newRequest (id : PairId) (expectedResponses : UInt32)
  /-- `WaitRequest` up to the first evaluation of the predicate. -/
  | waitRequest (id : PairId)
  | wake (id : PairId)
  | test (id : PairId)
  /-- A response is pushed to the queue of the background thread. -/
  | hand (id : PairId) (msg : Msg)
  /-- `Main` pops a response, and the first section of `AddResponse`. -/
  | popAndDecide
  | runHandlers
  /-- The last section of `AddResponse`. -/
  | addCurrent

namespace BlockerSystem

variable {Handle Msg : Type}

def init : BlockerSystem Handle Msg :=
  ⟨.init, fun _ => .outside, fun _ => 0, [], .idle⟩

/-- When a step can be taken. A receive handle is registered before it is needed, every
request expects a response, and exactly the expected ones are handed over. -/
def Enabled (state : BlockerSystem Handle Msg) (_ : List (PairId × BlockerEvent Handle Msg)) :
    BlockerInput Handle Msg → Prop
  | .registerRecvHandle id _ => state.threads id.1 = .outside
  | .registerRecvFinishHandle id _ =>
      state.threads id.1 = .outside ∧ (state.blocker.recvHandle id).isSome
  | .newRequest id expectedResponses =>
      state.threads id.1 = .registered id.2 ∧ expectedResponses ≠ 0
  | .waitRequest id => state.threads id.1 = .requested id.2
  | .wake id => state.threads id.1 = .asleep id.2
  | .test id => state.threads id.1 = .woken id.2
  | .hand id _ => 0 < state.owed id
  | .popAndDecide => state.background = .idle ∧ state.workQueue ≠ []
  | .runHandlers => ∃ id msg recvFinish, state.background = .decided id msg recvFinish
  | .addCurrent => ∃ id recvFinish, state.background = .handled id recvFinish

def setThread (state : BlockerSystem Handle Msg) (tid : Tid) (thread : AppThread) :
    BlockerSystem Handle Msg :=
  { state with threads := Function.update state.threads tid thread }

/-- One evaluation of the predicate in `cond_.wait`, and what follows. -/
def evaluate (state : BlockerSystem Handle Msg) (id : PairId) :
    BlockerSystem Handle Msg × List (PairId × BlockerEvent Handle Msg) :=
  if state.blocker.Complete id then (state.setThread id.1 .outside, [(id, .returned)])
  else (state.setThread id.1 (.asleep id.2), [])

def step (state : BlockerSystem Handle Msg) : BlockerInput Handle Msg →
    Except BlockerFault (BlockerSystem Handle Msg × List (PairId × BlockerEvent Handle Msg))
  | .registerRecvHandle id recvHandle => .ok
      ({ state with blocker := state.blocker.registerRecvHandle id recvHandle },
        [(id, .registeredRecv recvHandle)])
  | .registerRecvFinishHandle id recvFinishHandle => .ok
      ({ state.setThread id.1 (.registered id.2) with
          blocker := state.blocker.registerRecvFinishHandle id recvFinishHandle },
        [(id, .registeredFinish recvFinishHandle)])
  | .newRequest id expectedResponses => do
      let blocker ← state.blocker.newRequest id expectedResponses
      return ({ state.setThread id.1 (.requested id.2) with
          blocker, owed := Function.update state.owed id expectedResponses.toNat },
        [(id, .requested expectedResponses.toNat)])
  | .waitRequest id => do
      state.blocker.sanityCheck id
      return state.evaluate id
  | .wake id => .ok (state.setThread id.1 (.woken id.2), [])
  | .test id => .ok (state.evaluate id)
  | .hand id msg => .ok
      ({ state with
          owed := Function.update state.owed id (state.owed id - 1)
          workQueue := state.workQueue ++ [(id, msg)] }, [(id, .handed msg)])
  | .popAndDecide =>
      match state.workQueue with
      | [] => .ok (state, [])
      | (id, msg) :: rest => .ok
          ({ state with
              workQueue := rest
              background := .decided id msg (state.blocker.recvFinish id) }, [])
  | .runHandlers =>
      match state.background with
      | .decided id msg recvFinish => do
          let ran ← state.blocker.runHandlers id msg recvFinish
          return ({ state with background := .handled id recvFinish }, ran.map (id, ·))
      | _ => .ok (state, [])
  | .addCurrent =>
      match state.background with
      | .handled id recvFinish => .ok
          ({ state with
              blocker := state.blocker.addCurrent id
              threads := fun tid =>
                if recvFinish then (state.threads tid).notify else state.threads tid
              background := .idle }, [])
      | _ => .ok (state, [])

end BlockerSystem

end FlexPS
