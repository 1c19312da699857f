import FlexPS.Server.SparseSSP.Recorder

/-! # The sparse SSP model -/

namespace FlexPS

structure SparseSSPModel (Val Main : Type) where
  modelId : UInt32
  storage : Storage Val
  progressTracker : ProgressTracker
  recorder : SparseSSPRecorder Val Main
  buffer : List (Message Val)
  staleness : Nat
  speculation : Nat

/-- How a `Clock` message ended, apart from the replay of `buffer_`. -/
inductive ClockOutcome where
  | buffered | minClockKept | minClockChanged
  deriving DecidableEq, Repr

namespace SparseSSPModel

variable {Val Main : Type}

/-- A model of one server, before its first `ResetWorker`. -/
def new (modelId : UInt32) (storage : Storage Val) (recorder : SparseSSPRecorder Val Main)
    (staleness speculation : Nat) : SparseSSPModel Val Main :=
  { modelId, storage, recorder, staleness, speculation, progressTracker := .init [], buffer := [] }

def getProgress (model : SparseSSPModel Val Main) (tid : Tid) : Except Fault Nat :=
  model.progressTracker.getProgress tid

def resetWorker (model : SparseSSPModel Val Main) (msg : Message Val) :
    Except Fault (SparseSSPModel Val Main × List (Event Val)) := do
  check .oneArray (msg.data.length = 1)
  -- the code leaves sender and version of the reply uninitialised
  let reply : Message Val := { sender := 0, recver := msg.sender, modelId := model.modelId,
                               flag := .kResetWorkerInModel, version := 0, data := [] }
  return ({ model with progressTracker := .init msg.keys }, [.resetDone reply])

variable [AddCommMonoid Val] [MainRecorder Val Main]

/-- Pushes the replies to the requests a recorder released. -/
def pushReplies (model : SparseSSPModel Val Main) (out : NonConflict Val) :
    Except Fault (List (Event Val)) := do
  let replies ← out.msgs.mapM (pushReply model.storage model.progressTracker)
  return out.scans.map (.scan · model.progressTracker) ++ replies

/-- The part of `Clock` that an advance of the minimum triggers, up to the replay. -/
def minClockUpdated (model : SparseSSPModel Val Main) (updatedMinClock : Nat) :
    Except Fault (SparseSSPModel Val Main × List (Event Val)) := do
  let recorder := model.recorder.removeRecord (updatedMinClock - 1)
  let (recorder, out) ← recorder.handleTooFastBuffer updatedMinClock
  let events ← model.pushReplies out
  return ({ model with recorder, storage := model.storage.finishIter }, events)

/-- `Clock` without the replay of `buffer_`. -/
def clockOnce (model : SparseSSPModel Val Main) (message : Message Val) :
    Except Fault (SparseSSPModel Val Main × List (Event Val) × ClockOutcome) := do
  let tooFast := model.staleness + model.speculation + model.progressTracker.minClock + 1
  -- an `int` sum; it also bounds the `uint32_t` sums of the recorder
  if tooFast > intMax then
    .error .overflow
  if message.version ≥ tooFast then
    check .clockVersion (message.version = tooFast)
    return ({ model with buffer := model.buffer ++ [message] }, [], .buffered)
  let (updatedMinClock, progressTracker) ←
    model.progressTracker.advanceAndGetChangedMinClock message.sender
  let progress ← progressTracker.getProgress message.sender
  let (recorder, out) ← model.recorder.getNonConflictMsgs progress message.sender
    progressTracker.minClock
  let model := { model with progressTracker, recorder }
  let events ← model.pushReplies out
  match updatedMinClock with
  | none => return (model, events, .minClockKept)
  | some updatedMinClock =>
      let (model, more) ← model.minClockUpdated updatedMinClock
      return (model, events ++ more, .minClockChanged)

/-- `Clock(msg)` for a message of `buffer_`. It may neither append to `buffer_`
    nor change the minimum, which would clear it: the loop still iterates over it. -/
def replay (state : SparseSSPModel Val Main × List (Event Val)) (msg : Message Val) :
    Except Fault (SparseSSPModel Val Main × List (Event Val)) := do
  let (model, events, outcome) ← state.1.clockOnce msg
  match outcome with
  | .minClockKept => return (model, state.2 ++ events)
  | .buffered | .minClockChanged => .error .invalidated

def clock (model : SparseSSPModel Val Main) (message : Message Val) :
    Except Fault (SparseSSPModel Val Main × List (Event Val)) := do
  let (model, events, outcome) ← model.clockOnce message
  match outcome with
  | .buffered | .minClockKept => return (model, events)
  | .minClockChanged =>
      let (model, events) ← model.buffer.foldlM replay (model, events)
      return ({ model with buffer := [] }, events)

def get (model : SparseSSPModel Val Main) (message : Message Val) :
    Except Fault (SparseSSPModel Val Main × List (Event Val)) := do
  check .threadValid (model.progressTracker.checkThreadValid message.sender)
  check .oneArray (message.data.length = 1)
  let events ←
    if message.version = 0 then do
      let event ← pushReply model.storage model.progressTracker message
      pure [event]
    else pure []
  let recorder ← model.recorder.addRecord message
  return ({ model with recorder }, events)

def add (model : SparseSSPModel Val Main) (message : Message Val) :
    Except Fault (SparseSSPModel Val Main × List (Event Val)) := do
  let progress ← model.progressTracker.getProgress message.sender
  check .addVersion (message.version = progress)
  let storage ← model.storage.add message
  return ({ model with storage }, [])

instance : AbstractModel Val (SparseSSPModel Val Main) where
  clock := clock
  add := add
  get := get
  getProgress := getProgress
  resetWorker := resetWorker

end SparseSSPModel

end FlexPS
