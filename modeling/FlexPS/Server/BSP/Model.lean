import FlexPS.Server.AbstractModel

/-! # The BSP model -/

namespace FlexPS

structure BSPModel (Val : Type) where
  modelId : UInt32
  storage : Storage Val
  progressTracker : ProgressTracker
  getBuffer : List (Message Val)
  addBuffer : List (Message Val)

namespace BSPModel

variable {Val : Type}

/-- A model of one server, before its first `ResetWorker`. -/
def new (modelId : UInt32) (storage : Storage Val) : BSPModel Val :=
  { modelId, storage, progressTracker := .init [], getBuffer := [], addBuffer := [] }

def getProgress (model : BSPModel Val) (tid : Tid) : Except Fault Nat :=
  model.progressTracker.getProgress tid

def resetWorker (model : BSPModel Val) (msg : Message Val) :
    Except Fault (BSPModel Val × List (Event Val)) := do
  check .oneArray (msg.data.length = 1)
  -- the code leaves sender and version of the reply uninitialised
  let reply : Message Val := { sender := 0, recver := msg.sender, modelId := model.modelId,
                               flag := .kResetWorkerInModel, version := 0, data := [] }
  return ({ model with progressTracker := .init msg.keys }, [.resetDone reply])

variable [AddCommMonoid Val]

/-- The part of `Clock` that an advance of the minimum triggers. -/
def minClockUpdated (model : BSPModel Val) : Except Fault (BSPModel Val × List (Event Val)) := do
  let storage ← model.addBuffer.foldlM Storage.add model.storage
  let events ← model.getBuffer.mapM (pushReply storage model.progressTracker)
  return ({ model with storage := storage.finishIter, addBuffer := [], getBuffer := [] }, events)

def clock (model : BSPModel Val) (msg : Message Val) :
    Except Fault (BSPModel Val × List (Event Val)) := do
  let (updatedMinClock, progressTracker) ←
    model.progressTracker.advanceAndGetChangedMinClock msg.sender
  let progress ← progressTracker.getProgress msg.sender
  check .bspClock (progress ≤ progressTracker.minClock + 1)
  let model := { model with progressTracker }
  match updatedMinClock with
  | none => return (model, [])
  | some _ => model.minClockUpdated

def add (model : BSPModel Val) (msg : Message Val) :
    Except Fault (BSPModel Val × List (Event Val)) := do
  check .threadValid (model.progressTracker.checkThreadValid msg.sender)
  let progress ← model.progressTracker.getProgress msg.sender
  if progress = model.progressTracker.minClock then
    return ({ model with addBuffer := model.addBuffer ++ [msg] }, [])
  else
    .error (.check .bspAdd)

def get (model : BSPModel Val) (msg : Message Val) :
    Except Fault (BSPModel Val × List (Event Val)) := do
  check .threadValid (model.progressTracker.checkThreadValid msg.sender)
  let progress ← model.progressTracker.getProgress msg.sender
  if progress = model.progressTracker.minClock + 1 then
    return ({ model with getBuffer := model.getBuffer ++ [msg] }, [])
  else if progress = model.progressTracker.minClock then
    let event ← pushReply model.storage model.progressTracker msg
    return (model, [event])
  else
    .error (.check .bspGet)

def getGetPendingSize (model : BSPModel Val) : Nat := model.getBuffer.length

def getAddPendingSize (model : BSPModel Val) : Nat := model.addBuffer.length

instance : AbstractModel Val (BSPModel Val) where
  clock := clock
  add := add
  get := get
  getProgress := getProgress
  resetWorker := resetWorker

section Cases

variable {model model' : BSPModel Val} {msg : Message Val} {events : List (Event Val)}

omit [AddCommMonoid Val] in
theorem add_cases (added : model.add msg = .ok (model', events)) :
    msg.sender ∈ model.progressTracker.threads ∧
      model.progressTracker.progresses msg.sender = model.progressTracker.minClock ∧
      model' = { model with addBuffer := model.addBuffer ++ [msg] } ∧ events = [] := by
  obtain ⟨_, valid, added⟩ := Except.bind_eq_ok.mp added
  have registered : msg.sender ∈ model.progressTracker.threads := by
    simpa [ProgressTracker.checkThreadValid] using valid
  rw [ProgressTracker.getProgress_eq registered, Except.ok_bind] at added
  split at added
  · next holds =>
      cases added
      exact ⟨registered, holds, rfl, rfl⟩
  · cases added

theorem get_cases (got : model.get msg = .ok (model', events)) :
    msg.sender ∈ model.progressTracker.threads ∧
    (model.progressTracker.progresses msg.sender = model.progressTracker.minClock + 1 ∧
        model' = { model with getBuffer := model.getBuffer ++ [msg] } ∧ events = [] ∨
      model.progressTracker.progresses msg.sender = model.progressTracker.minClock ∧
        model' = model ∧
        events = [.reply msg (model.storage.replyTo msg) model.progressTracker]) := by
  obtain ⟨_, valid, got⟩ := Except.bind_eq_ok.mp got
  have registered : msg.sender ∈ model.progressTracker.threads := by
    simpa [ProgressTracker.checkThreadValid] using valid
  rw [ProgressTracker.getProgress_eq registered, Except.ok_bind] at got
  split at got
  · next ahead =>
      cases got
      exact ⟨registered, .inl ⟨ahead, rfl, rfl⟩⟩
  · split at got
    · next holds =>
        obtain ⟨event, pushed, got⟩ := Except.bind_eq_ok.mp got
        obtain ⟨-, -, rfl⟩ := pushReply_eq_ok.mp pushed
        cases got
        exact ⟨registered, .inr ⟨holds, rfl, rfl⟩⟩
    · cases got

variable (model msg) in
/-- What a `Clock` does. -/
inductive Clocked : BSPModel Val → List (Event Val) → Prop where
  | kept {tracker} (advanced : model.progressTracker.Advanced msg.sender none tracker)
      (near : tracker.progresses msg.sender ≤ tracker.minClock + 1) :
      Clocked { model with progressTracker := tracker } []
  | changed {minClock tracker storage}
      (advanced : model.progressTracker.Advanced msg.sender (some minClock) tracker)
      (applied : model.addBuffer.foldlM Storage.add model.storage = .ok storage) :
      Clocked { model with progressTracker := tracker, storage, addBuffer := [], getBuffer := [] }
        (model.getBuffer.map fun request => .reply request (storage.replyTo request) tracker)

theorem clock_cases (clocked : model.clock msg = .ok (model', events)) :
    msg.sender ∈ model.progressTracker.threads ∧ model.Clocked msg model' events := by
  obtain ⟨⟨updated, tracker⟩, advanced, clocked⟩ := Except.bind_eq_ok.mp clocked
  obtain ⟨registered, -, advanced⟩ := ProgressTracker.advance_eq_ok.mp advanced
  have valid : msg.sender ∈ tracker.threads := advanced.threads ▸ registered
  simp only [ProgressTracker.getProgress_eq valid, Except.ok_bind] at clocked
  obtain ⟨_, near, clocked⟩ := Except.bind_eq_ok.mp clocked
  refine ⟨registered, ?_⟩
  cases updated with
  | none =>
      cases clocked
      exact .kept advanced (check_eq_ok.mp near)
  | some minClock =>
      obtain ⟨storage, applied, clocked⟩ := Except.bind_eq_ok.mp clocked
      obtain ⟨replies, pushed, clocked⟩ := Except.bind_eq_ok.mp clocked
      obtain ⟨-, rfl⟩ := mapM_pushReply_eq_ok.mp pushed
      cases clocked
      exact .changed advanced applied

variable {e : Fault}

omit [AddCommMonoid Val] in
/-- Which requests pass the progress checks. -/
theorem add_error (registered : msg.sender ∈ model.progressTracker.threads)
    (failed : model.add msg = .error e) :
    e = .check .bspAdd ∧ model.progressTracker.progresses msg.sender ≠ model.progressTracker.minClock := by
  simp only [add, ProgressTracker.checkThreadValid, registered, decide_true, check_pos,
    Except.ok_bind, ProgressTracker.getProgress_eq registered] at failed
  split at failed
  · cases failed
  · next other =>
      cases failed
      exact ⟨rfl, other⟩

theorem get_error (registered : msg.sender ∈ model.progressTracker.threads)
    (failed : model.get msg = .error e) :
    (∃ c, Storage.StorageCheck c ∧ e = .check c) ∨ e = .check .bspGet ∧
      model.progressTracker.progresses msg.sender ≠ model.progressTracker.minClock ∧
      model.progressTracker.progresses msg.sender ≠ model.progressTracker.minClock + 1 := by
  simp only [get, ProgressTracker.checkThreadValid, registered, decide_true, check_pos,
    Except.ok_bind, ProgressTracker.getProgress_eq registered] at failed
  split at failed
  · cases failed
  · next late =>
      split at failed
      · obtain failed | ⟨_, -, failed⟩ := Except.bind_eq_error.mp failed
        · exact .inl (pushReply_error failed)
        · cases failed
      · next early =>
          cases failed
          exact .inr ⟨rfl, early, late⟩

theorem minClockUpdated_error (failed : model.minClockUpdated = .error e) :
    ∃ c, Storage.StorageCheck c ∧ e = .check c := by
  obtain failed | ⟨storage, -, failed⟩ := Except.bind_eq_error.mp failed
  · obtain ⟨_, _, -, failed⟩ := Except.foldlM_eq_error failed
    exact Storage.add_error failed
  · obtain failed | ⟨_, -, failed⟩ := Except.bind_eq_error.mp failed
    · obtain ⟨_, -, failed⟩ := Except.mapM_eq_error failed
      exact pushReply_error failed
    · cases failed

theorem clock_error (registered : msg.sender ∈ model.progressTracker.threads)
    (failed : model.clock msg = .error e) :
    e = .overflow ∨
      (∃ c, Storage.StorageCheck c ∧ e = .check c) ∧
        model.progressTracker.progresses msg.sender = model.progressTracker.minClock ∨
      e = .check .bspClock ∧
        model.progressTracker.progresses msg.sender ≠ model.progressTracker.minClock := by
  obtain failed | ⟨⟨updated, tracker⟩, advanced, failed⟩ := Except.bind_eq_error.mp failed
  · exact .inl (ProgressTracker.advance_eq_error registered failed)
  obtain ⟨-, -, advanced⟩ := ProgressTracker.advance_eq_ok.mp advanced
  have valid : msg.sender ∈ tracker.threads := advanced.threads ▸ registered
  simp only [ProgressTracker.getProgress_eq valid, Except.ok_bind] at failed
  obtain failed | ⟨_, -, failed⟩ := Except.bind_eq_error.mp failed
  · obtain ⟨far, rfl⟩ := check_eq_error.mp failed
    refine .inr (.inr ⟨rfl, fun holds => far ?_⟩)
    have raised := advanced.minClock_le.1
    rw [advanced.progresses, Function.update_self]
    omega
  · cases updated with
    | none => cases failed
    | some minClock =>
        cases advanced with
        | moved unique => exact .inr (.inl ⟨minClockUpdated_error failed, unique.1⟩)

end Cases

end BSPModel

end FlexPS
