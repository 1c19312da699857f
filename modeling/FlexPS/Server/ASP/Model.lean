import FlexPS.Server.Histories

/-! # The ASP model -/

namespace FlexPS

structure ASPModel (Val : Type) where
  modelId : UInt32
  storage : Storage Val
  progressTracker : ProgressTracker

namespace ASPModel

variable {Val : Type}

/-- A model of one server, before its first `ResetWorker`. -/
def new (modelId : UInt32) (storage : Storage Val) : ASPModel Val :=
  { modelId, storage, progressTracker := .init [] }

/-- A new model after the `ResetWorker` that names `tids`. -/
def start (modelId : UInt32) (storage : Storage Val) (tids : List Tid) : ASPModel Val :=
  { new modelId storage with progressTracker := .init tids }

def getProgress (model : ASPModel Val) (tid : Tid) : Except Fault Nat :=
  model.progressTracker.getProgress tid

def resetWorker (model : ASPModel Val) (msg : Message Val) :
    Except Fault (ASPModel Val × List (Event Val)) := do
  check .oneArray (msg.data.length = 1)
  -- the code leaves sender and version of the reply uninitialised
  let reply : Message Val := { sender := 0, recver := msg.sender, modelId := model.modelId,
                               flag := .kResetWorkerInModel, version := 0, data := [] }
  return ({ model with progressTracker := .init msg.keys }, [.resetDone reply])

def clock (model : ASPModel Val) (msg : Message Val) :
    Except Fault (ASPModel Val × List (Event Val)) := do
  let (_, progressTracker) ← model.progressTracker.advanceAndGetChangedMinClock msg.sender
  return ({ model with progressTracker }, [])

variable [AddCommMonoid Val]

def add (model : ASPModel Val) (msg : Message Val) :
    Except Fault (ASPModel Val × List (Event Val)) := do
  check .threadValid (model.progressTracker.checkThreadValid msg.sender)
  let storage ← model.storage.add msg
  return ({ model with storage }, [])

def get (model : ASPModel Val) (msg : Message Val) :
    Except Fault (ASPModel Val × List (Event Val)) := do
  check .threadValid (model.progressTracker.checkThreadValid msg.sender)
  let event ← pushReply model.storage model.progressTracker msg
  return (model, [event])

instance : AbstractModel Val (ASPModel Val) where
  clock := clock
  add := add
  get := get
  getProgress := getProgress
  resetWorker := resetWorker

variable {tids : List Tid} {model model' : ASPModel Val} {msg : Message Val} {events : List (Event Val)}

/-- Every message takes effect at once. -/
theorem handle_spec (ofWorkers : msg.OfWorkers tids)
    (handled : AbstractModel.handle model msg = .ok (model', events)) :
    (∀ key, model'.storage.value key = model.storage.value key +
        if msg.flag = .kAdd then msg.kvs.contribution key else 0) ∧
      events = if msg.flag = .kGet then
        [.reply msg (model'.storage.replyTo msg) model.progressTracker] else [] := by
  obtain ⟨-, isClock | isAdd | isGet⟩ := ofWorkers
  · simp only [AbstractModel.handle, isClock] at handled
    obtain ⟨⟨updated, tracker⟩, -, handled⟩ := Except.bind_eq_ok.mp handled
    cases handled
    exact ⟨fun key => by simp [isClock], by simp [isClock]⟩
  · simp only [AbstractModel.handle, isAdd] at handled
    obtain ⟨_, -, handled⟩ := Except.bind_eq_ok.mp handled
    obtain ⟨storage, added, handled⟩ := Except.bind_eq_ok.mp handled
    cases handled
    refine ⟨fun key => ?_, by simp [isAdd]⟩
    rw [if_pos isAdd]
    exact (Storage.add_spec added).2 key
  · simp only [AbstractModel.handle, isGet] at handled
    obtain ⟨_, -, handled⟩ := Except.bind_eq_ok.mp handled
    obtain ⟨event, pushed, handled⟩ := Except.bind_eq_ok.mp handled
    obtain ⟨-, -, rfl⟩ := pushReply_eq_ok.mp pushed
    cases handled
    exact ⟨fun key => by simp [isGet], by simp [isGet]⟩

end ASPModel

variable {Val : Type} [AddCommMonoid Val] {modelId : UInt32} {initial : Storage Val} {tids : List Tid}
  {taken : List (Message Val)} {model : ASPModel Val} {events : List (Event Val)}

theorem asp_values (run : ModelRun (.start modelId initial tids) tids taken model events) (key : Key) :
    model.storage.value key = initial.value key + addedBy taken key := by
  refine run.invariant (P := fun taken model _ => model.storage.value key =
    initial.value key + addedBy taken key) (add_zero _).symm ?_
  intro taken model _ msg model' out _ before admitted handled
  rw [(ASPModel.handle_spec admitted handled).1, before, addedBy_snoc, add_assoc]

theorem asp_answered (run : ModelRun (.start modelId initial tids) tids taken model events) :
    events.filterMap Event.answered = ofFlag .kGet taken := by
  refine run.invariant (P := fun taken _ events => events.filterMap Event.answered = ofFlag .kGet taken)
    rfl ?_
  intro taken model events msg model' out _ before admitted handled
  rw [(ASPModel.handle_spec admitted handled).2, List.filterMap_append, before, ofFlag_snoc]
  split
  · rfl
  · rfl

/-- An ASP server answers every `Get` when it takes it. -/
theorem asp_answersGets (modelId : UInt32) (initial : Storage Val) (tids : List Tid) :
    AnswersGets (ASPModel.start modelId initial tids) tids ASPModel.storage where
  genuine _ ofWorkers handled event member := by
    rw [(ASPModel.handle_spec ofWorkers handled).2] at member
    split at member
    · exact ⟨_, _, List.mem_singleton.mp member⟩
    · cases member
  once run := (List.Perm.of_eq (asp_answered run)).subperm

theorem asp_waitsOnlyFor (modelId : UInt32) (initial : Storage Val) (tids : List Tid) (slack : Nat) :
    WaitsOnlyFor (ASPModel.start modelId initial tids) tids slack := by
  intro taken model events w run member unanswered
  have commute : sentBy w (ofFlag .kGet taken) = ofFlag .kGet (sentBy w taken) := List.filter_comm ..
  rw [asp_answered run, commute] at unanswered
  exact absurd unanswered (Nat.lt_irrefl _)

end FlexPS
