import FlexPS.Server.BSP.Model
import FlexPS.Server.SSP.Model
import FlexPS.Server.SparseSSP.Model

/-! # The next task

`Engine::Run` uses the models of a server again for every task. `ResetWorker` only
registers the new workers: what the models have buffered for the last task stays.
-/

namespace FlexPS

open Machine

/-! ## Models that are constructed anew -/

section Anew

variable {Val Model : Type} [AbstractModel Val Model] (fresh : Model → Model)

/-- The server as it should be: a model constructed anew handles each `ResetWorker`. -/
def handleAnew (model : Model) (msg : Message Val) : Except Fault (Model × List (Event Val)) :=
  match msg.flag with
  | .kResetWorkerInModel => AbstractModel.resetWorker (fresh model) msg
  | _ => AbstractModel.handle model msg

/-- In every run, up to the fault that ends it, the replies and the progress are those of
    models that are constructed anew. -/
def AnswersAnew (guard : Model → List (Event Val) → Message Val → Prop) (model₀ : Model) : Prop :=
  ∀ msgs model events, Runs AbstractModel.handle guard model₀ msgs model events →
    ∃ model' events', Runs (handleAnew fresh) (fun _ _ _ => True) model₀ msgs model' events' ∧
      events.filterMap Event.pushed = events'.filterMap Event.pushed ∧
      (∀ tid, AbstractModel.getProgress model tid = AbstractModel.getProgress model' tid) ∧
      ∀ msg e, guard model events msg → AbstractModel.handle model msg = .error e →
        handleAnew fresh model' msg = .error e

/-- The model meets the condition whenever it handles a `ResetWorker`. -/
def ResetsWhen (LeftNothing : Model → Prop) (model : Model) (_ : List (Event Val))
    (msg : Message Val) : Prop :=
  msg.flag = .kResetWorkerInModel → LeftNothing model

variable {fresh} {LeftNothing : Model → Prop}

theorem handleAnew_eq {model : Model} {msg : Message Val} {events : List (Event Val)}
    (clean : LeftNothing model →
      AbstractModel.resetWorker (fresh model) msg = AbstractModel.resetWorker model msg)
    (resets : ResetsWhen LeftNothing model events msg) :
    handleAnew fresh model msg = AbstractModel.handle model msg := by
  unfold handleAnew AbstractModel.handle
  cases flag : msg.flag with
  | kResetWorkerInModel => exact clean (resets flag)
  | _ => rfl

/-- `ResetWorker` makes a model with nothing left like a new one, which then answers like it. -/
theorem answersAnew_of_clean (clean : ∀ model msg, LeftNothing model →
      AbstractModel.resetWorker (fresh model) msg = AbstractModel.resetWorker model msg)
    (model₀ : Model) : AnswersAnew fresh (ResetsWhen LeftNothing) model₀ := by
  intro msgs model events run
  have anew : Runs (handleAnew fresh) (fun _ _ _ => True) model₀ msgs model events := by
    induction run with
    | nil => exact .nil
    | snoc _ resets handled ih =>
        exact .snoc ih trivial ((handleAnew_eq (clean _ _) resets).trans handled)
  exact ⟨model, events, anew, rfl, fun _ => rfl,
    fun msg e resets failed => (handleAnew_eq (clean model msg) resets).trans failed⟩

/-- Two computed runs whose replies differ. -/
theorem not_answersAnew (msgs : List (Message Val)) (P : List (Message Val) → Prop)
    [DecidablePred P] (model₀ : Model)
    (answers : (exec AbstractModel.handle (fun _ _ _ => True) model₀ [] msgs).any
      (fun result => P (result.2.filterMap Event.pushed)) = true)
    (anew : (exec (handleAnew fresh) (fun _ _ _ => True) model₀ [] msgs).any
      (fun result => ¬ P (result.2.filterMap Event.pushed)) = true) :
    ¬ AnswersAnew fresh (fun _ _ _ => True) model₀ := by
  intro same
  obtain ⟨model, events, run, holds⟩ := runs_of_exec _ _ _ _
    (fun _ events => P (events.filterMap Event.pushed)) answers
  obtain ⟨model', events', run', fails⟩ := runs_of_exec _ _ _ _
    (fun _ events => ¬ P (events.filterMap Event.pushed)) anew
  obtain ⟨_, _, run'', pushed, -, -⟩ := same msgs model events run
  obtain ⟨rfl, rfl⟩ := run'.unique run''
  exact fails (pushed ▸ holds)

end Anew

/-! ## What the models buffer -/

section Models

variable {Val : Type}

def SSPModel.anew (model : SSPModel Val) : SSPModel Val :=
  .new model.modelId model.storage model.staleness

/-- No request waits in `buffer_`. -/
def SSPModel.LeftNothing (model : SSPModel Val) : Prop :=
  ∀ clock, model.buffer.buffer clock = none

def BSPModel.anew (model : BSPModel Val) : BSPModel Val := .new model.modelId model.storage

def BSPModel.LeftNothing (model : BSPModel Val) : Prop :=
  model.getBuffer = [] ∧ model.addBuffer = []

/-- A new model with a recorder over the main recorder `empty`. -/
def SparseSSPModel.anew {Main : Type} (empty : Main → Main) (model : SparseSSPModel Val Main) :
    SparseSSPModel Val Main :=
  .new model.modelId model.storage
    (.new model.recorder.staleness model.recorder.speculation (empty model.recorder.mainRecorder)
      model.recorder.dcheckIsOn)
    model.staleness model.speculation

structure SparseSSPModel.LeftNothing {Main : Type} (empty : Main → Main)
    (model : SparseSSPModel Val Main) : Prop where
  buffer : model.buffer = []
  mainRecorder : model.recorder.mainRecorder = empty model.recorder.mainRecorder
  futureKeys : ∀ tid, model.recorder.futureKeys tid = []
  futureMsgs : ∀ tid, model.recorder.futureMsgs tid = []
  tooFastBuffer : model.recorder.tooFastBuffer = []

def MapRecorder.emptied (_ : MapRecorder Val) : MapRecorder Val := ⟨fun _ _ => none⟩

/-- The levels and the range come from the arguments of the constructor. -/
def VectorRecorder.emptied (main : VectorRecorder Val) : VectorRecorder Val :=
  { main with slots := fun _ _ => (0, []) }

theorem SSPModel.resetWorker_anew (model : SSPModel Val) (msg : Message Val)
    (nothing : model.LeftNothing) : model.anew.resetWorker msg = model.resetWorker msg := by
  have buffer : model.buffer = ⟨fun _ => none⟩ := congrArg PendingBuffer.mk (funext nothing)
  unfold resetWorker anew new
  rw [buffer]

theorem BSPModel.resetWorker_anew (model : BSPModel Val) (msg : Message Val)
    (nothing : model.LeftNothing) : model.anew.resetWorker msg = model.resetWorker msg := by
  unfold resetWorker anew new
  rw [nothing.1, nothing.2]

theorem SparseSSPModel.resetWorker_anew {Main : Type} (empty : Main → Main)
    (model : SparseSSPModel Val Main) (msg : Message Val) (nothing : model.LeftNothing empty) :
    (model.anew empty).resetWorker msg = model.resetWorker msg := by
  obtain ⟨modelId, storage, tracker, recorder, buffer, staleness, speculation⟩ := model
  obtain ⟨_, _, main, futureKeys, futureMsgs, tooFastBuffer, dcheckIsOn⟩ := recorder
  obtain rfl : buffer = [] := nothing.buffer
  obtain rfl : futureKeys = fun _ => [] := funext nothing.futureKeys
  obtain rfl : futureMsgs = fun _ => [] := funext nothing.futureMsgs
  obtain rfl : tooFastBuffer = [] := nothing.tooFastBuffer
  unfold resetWorker anew new
  dsimp only [SparseSSPRecorder.new]
  rw [← nothing.mainRecorder]

end Models

variable {Val : Type} [AddCommMonoid Val]

/-- Tasks in which nothing was left from the task before start as they should, in every
    model and with either recorder. -/
theorem answersAnew_of_leftNothing :
    (∀ modelId storage staleness,
      AnswersAnew SSPModel.anew (ResetsWhen SSPModel.LeftNothing)
        (SSPModel.new modelId storage staleness : SSPModel Val)) ∧
    (∀ modelId storage,
      AnswersAnew BSPModel.anew (ResetsWhen BSPModel.LeftNothing)
        (BSPModel.new modelId storage : BSPModel Val)) ∧
    (∀ modelId storage staleness speculation dcheckIsOn,
      AnswersAnew (SparseSSPModel.anew MapRecorder.emptied)
        (ResetsWhen (SparseSSPModel.LeftNothing MapRecorder.emptied))
        (SparseSSPModel.new modelId storage
          (UnorderedMapSparseSSPRecorder staleness speculation dcheckIsOn) staleness speculation :
          SparseSSPModel Val (MapRecorder Val))) ∧
    (∀ modelId storage staleness speculation range dcheckIsOn recorder,
      VectorSparseSSPRecorder staleness speculation range dcheckIsOn = .ok recorder →
      AnswersAnew (SparseSSPModel.anew VectorRecorder.emptied)
        (ResetsWhen (SparseSSPModel.LeftNothing VectorRecorder.emptied))
        (SparseSSPModel.new modelId storage recorder staleness speculation :
          SparseSSPModel Val (VectorRecorder Val))) :=
  ⟨fun _ _ _ => answersAnew_of_clean SSPModel.resetWorker_anew _,
    fun _ _ => answersAnew_of_clean BSPModel.resetWorker_anew _,
    fun _ _ _ _ _ => answersAnew_of_clean (SparseSSPModel.resetWorker_anew _) _,
    fun _ _ _ _ _ _ _ _ => answersAnew_of_clean (SparseSSPModel.resetWorker_anew _) _⟩

/-- The worker of the first task clocks what it has read, that of the second reads what it wrote. -/
def twoTasks : List (Message ℤ) :=
  [createMessage .kResetWorkerInModel 0 0 0 0 [1], createMessage .kGet 0 1 0 0 [0],
    createMessage .kAdd 0 1 0 0 [0] [7], createMessage .kClock 0 1 0 0,
    createMessage .kResetWorkerInModel 0 0 0 0 [2], createMessage .kGet 0 2 0 0 [0]]

/-- The first of the two tasks leaves nothing. -/
theorem twoTasks_run : ∃ (model : SparseSSPModel ℤ (MapRecorder ℤ)) (events : List (Event ℤ)),
    Runs AbstractModel.handle (ResetsWhen (SparseSSPModel.LeftNothing MapRecorder.emptied))
      (SparseSSPModel.new 0 (.map 0) (UnorderedMapSparseSSPRecorder 0 1 true) 0 1) twoTasks model events ∧
    (events.filterMap Event.pushed).getLast? = some (createMessage .kGet 0 0 2 0 [0] [7]) := by
  refine ⟨_, _, .snoc (.snoc (.snoc (.snoc (.snoc (.snoc .nil ?_ rfl) ?_ rfl) ?_ rfl) ?_ rfl) ?_ rfl)
    ?_ rfl, by rfl⟩
  · exact fun _ => ⟨rfl, rfl, fun _ => rfl, fun _ => rfl, rfl⟩
  · intro flag
    cases flag
  · intro flag
    cases flag
  · intro flag
    cases flag
  · refine fun _ => ⟨rfl, congrArg MapRecorder.mk ?_, fun tid => ?_, fun _ => rfl, rfl⟩
    · funext version key
      -- `Clock` has erased the slot and then its level
      change (if version = 0 then none else if version = 0 ∧ key = 0 then none else
        if version = 0 ∧ key = 0 then some (1, []) else none) = none
      split_ifs <;> rfl
    · change Function.update (Function.update (fun _ : Tid => ([] : List (Nat × List Key)))
        1 [(0, [0])]) 1 [] tid = []
      rw [Function.update_idem, Function.update_eq_self]
  · intro flag
    cases flag

/-- The second task starts as with a new model, over what the first has written. -/
theorem answersAnew_of_leftNothing_twoTasks :
    ∃ (model : SparseSSPModel ℤ (MapRecorder ℤ)) (events : List (Event ℤ)),
      Runs (handleAnew (SparseSSPModel.anew MapRecorder.emptied)) (fun _ _ _ => True)
        (SparseSSPModel.new 0 (.map 0) (UnorderedMapSparseSSPRecorder 0 1 true) 0 1) twoTasks model events ∧
      (events.filterMap Event.pushed).getLast? = some (createMessage .kGet 0 0 2 0 [0] [7]) := by
  obtain ⟨model, events, run, last⟩ := twoTasks_run
  obtain ⟨model', events', anew, pushed, -, -⟩ :=
    answersAnew_of_leftNothing.2.2.1 0 (.map 0) 0 1 true _ model events run
  exact ⟨model', events', anew, pushed ▸ last⟩

/-- A worker that never clocks its first iteration has asked for two of them. -/
def unclockedGets : List (Message ℤ) :=
  [createMessage .kResetWorkerInModel 0 0 0 0 [1], createMessage .kGet 0 1 0 0 [0],
    createMessage .kGet 0 1 0 1 [1], createMessage .kResetWorkerInModel 0 0 0 0 [1],
    createMessage .kClock 0 1 0 0]

/-- Each model answers, or adds, in the second task what was left from the first. -/
theorem leftover_answered :
    ¬ AnswersAnew SSPModel.anew (fun _ _ _ => True)
      (SSPModel.new 0 (.map 0) 0 : SSPModel ℤ) ∧
    ¬ AnswersAnew BSPModel.anew (fun _ _ _ => True)
      (BSPModel.new 0 (.map 0) : BSPModel ℤ) ∧
    ¬ AnswersAnew (SparseSSPModel.anew MapRecorder.emptied) (fun _ _ _ => True)
      (SparseSSPModel.new 0 (.map 0) (UnorderedMapSparseSSPRecorder 0 1 true) 0 1 :
        SparseSSPModel ℤ (MapRecorder ℤ)) ∧
    ∃ recorder, VectorSparseSSPRecorder 0 1 ⟨0, 2⟩ true = .ok recorder ∧
      ¬ AnswersAnew (SparseSSPModel.anew VectorRecorder.emptied) (fun _ _ _ => True)
        (SparseSSPModel.new 0 (.map 0) recorder 0 1 : SparseSSPModel ℤ (VectorRecorder ℤ)) := by
  refine ⟨not_answersAnew
      [createMessage .kResetWorkerInModel 0 0 0 0 [1, 2], createMessage .kClock 0 1 0 0,
        createMessage .kGet 0 1 0 1 [5], createMessage .kResetWorkerInModel 0 0 0 0 [1],
        createMessage .kClock 0 1 0 0]
      (·.length = 3) _ (by decide +kernel) (by decide +kernel),
    not_answersAnew
      [createMessage .kResetWorkerInModel 0 0 0 0 [1], createMessage .kAdd 0 1 0 0 [5] [7],
        createMessage .kResetWorkerInModel 0 0 0 0 [1], createMessage .kClock 0 1 0 0,
        createMessage .kGet 0 1 0 1 [5]]
      (·.getLast? = some (createMessage .kGet 0 0 1 1 [5] [7])) _
      (by decide +kernel) (by decide +kernel),
    not_answersAnew unclockedGets (·.length = 4) _ (by decide +kernel) (by decide +kernel),
    _, rfl, not_answersAnew unclockedGets (·.length = 4) _ (by decide +kernel) (by decide +kernel)⟩

end FlexPS
