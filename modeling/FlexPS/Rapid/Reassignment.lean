import FlexPS.Lib.Machine

/-! # Rapid reassignment

A worker that has finished its interval asks the members of its group for their
status, and then asks the slowest of them to hand over half of what it has left.
The messages between the workers may be delivered in any order.
-/

namespace FlexPS.Rapid

/-- Where a worker stands in its interval `[startPt, startPt + batchSize)`. -/
structure JobMeta where
  iter : UInt32
  startPt : UInt32
  batchSize : UInt32
  currentPt : UInt32
  deriving DecidableEq, Repr

/-- The status of another worker, in a `StatusBox`. -/
structure Status (n : Nat) extends JobMeta where
  threadId : Fin n
  deriving DecidableEq, Repr

structure StolenJob where
  helperBatchSizeNew : UInt32
  helperStartPtNew : UInt32
  helpeeBatchSizeNew : UInt32
  deriving DecidableEq, Repr

inductive Body where
  | findTask
  | sendStatus (jobMeta : JobMeta)
  | sendHelp (stolenJob : StolenJob)
  | confirmHelp (stolenJob : StolenJob)
  | cancelHelp
  deriving DecidableEq, Repr

structure Message (n : Nat) where
  sender : Fin n
  recver : Fin n
  body : Body
  deriving DecidableEq, Repr

/-- A worker's `JobManager` and `StatusBox`. -/
structure Worker (n : Nat) where
  jobMeta : JobMeta
  wait : Bool
  doReassgn : Bool
  jobMetas : List (Status n)
  deriving DecidableEq, Repr

/-- The conversion of a `uint32_t` to `float`: 24 significant bits, ties to even. -/
def toFloat (x : Nat) : Nat :=
  if x < 2 ^ 24 then x
  else
    let unit := 2 ^ (x.log2 - 23)
    let q := x / unit
    let r := x % unit
    if 2 * r < unit ∨ (2 * r = unit ∧ q % 2 = 0) then q * unit else (q + 1) * unit

/-- `percent * x` with `percent` 0.5, as a `uint32_t`. -/
def half (x : UInt32) : UInt32 := UInt32.ofNat (toFloat x.toNat / 2)

namespace JobMeta

def isFinished (jobMeta : JobMeta) : Bool :=
  jobMeta.currentPt = jobMeta.startPt + jobMeta.batchSize

/-- What `CalSlowestWorker` compares. -/
def left (jobMeta : JobMeta) : Nat :=
  toFloat (jobMeta.batchSize - (jobMeta.currentPt - jobMeta.startPt)).toNat

def stealJob (jobMeta : JobMeta) (stealThreshold : WithTop ℚ) : Option StolenJob :=
  if jobMeta.currentPt = jobMeta.startPt + jobMeta.batchSize then none
  else if stealThreshold < (toFloat (jobMeta.currentPt - jobMeta.startPt).toNat : ℚ) then none
  else
    let helperBatchSizeNew := half (jobMeta.batchSize - (jobMeta.currentPt - jobMeta.startPt))
    some ⟨helperBatchSizeNew, jobMeta.startPt + jobMeta.batchSize - helperBatchSizeNew,
      jobMeta.batchSize - helperBatchSizeNew⟩

def isInSameIteration (jobMeta slowest : JobMeta) : Bool := !(jobMeta.iter < slowest.iter)

/-- The helpee's two comparisons. -/
def accepts (jobMeta : JobMeta) (stolenJob : StolenJob) : Bool :=
  jobMeta.currentPt < jobMeta.startPt + stolenJob.helpeeBatchSizeNew &&
    jobMeta.startPt + jobMeta.batchSize =
      stolenJob.helperStartPtNew + stolenJob.helperBatchSizeNew

end JobMeta

variable {n : Nat}

/-- The loop of `CalSlowestWorker` over `first :: rest`. -/
def calSlowestWorker (first : Status n) (rest : List (Status n)) : Status n :=
  rest.foldl (fun slowest status => if slowest.left < status.left then status else slowest) first

namespace Worker

def updateStartPt (worker : Worker n) (startPt : UInt32) : Worker n :=
  { worker with jobMeta := { worker.jobMeta with startPt, currentPt := startPt } }

def updateBatchSize (worker : Worker n) (batchSize : UInt32) : Worker n :=
  { worker with jobMeta := { worker.jobMeta with batchSize } }

def setWait (worker : Worker n) (wait : Bool) : Worker n := { worker with wait }

/-- `JobManager::Check`, up to the loop that waits. -/
def check (worker : Worker n) (self : Fin n) (group : List (Fin n)) :
    Worker n × List (Message n) :=
  let worker := { worker with
    jobMeta := { worker.jobMeta with currentPt := worker.jobMeta.currentPt + 1 } }
  if worker.jobMeta.isFinished ∧ worker.doReassgn then
    (worker.setWait true, group.map fun member => ⟨self, member, .findTask⟩)
  else (worker, [])

/-- A status arrives. -/
def addStatus (worker : Worker n) (status : Status n) : Worker n :=
  { worker with jobMetas := worker.jobMetas ++ [status] }

def clear (worker : Worker n) : Worker n := { worker with jobMetas := [] }

/-- What follows when the status box is full. -/
def askForHelp (worker : Worker n) (self : Fin n) (slowest : Status n)
    (stealThreshold : WithTop ℚ) : Worker n × List (Message n) :=
  if worker.jobMeta.isInSameIteration slowest.toJobMeta then
    match slowest.stealJob stealThreshold with
    | some stolenJob => (worker.clear, [⟨self, slowest.threadId, .sendHelp stolenJob⟩])
    | none => ((worker.setWait false).clear, [])
  else ((worker.setWait false).clear, [])

/-- The `switch` of `GetLoop`. -/
def handle (worker : Worker n) (self : Fin n) (group : List (Fin n)) (stealThreshold : WithTop ℚ)
    (msg : Message n) : Worker n × List (Message n) :=
  match msg.body with
  | .findTask =>
      if worker.doReassgn then (worker, [⟨self, msg.sender, .sendStatus worker.jobMeta⟩])
      else (worker, [])
  | .sendStatus jobMeta =>
      let worker := worker.addStatus ⟨jobMeta, msg.sender⟩
      match worker.jobMetas with
      | first :: rest =>
          if worker.jobMetas.length = group.length then
            worker.askForHelp self (calSlowestWorker first rest) stealThreshold
          else (worker, [])
      | [] => (worker, [])
  | .sendHelp stolenJob =>
      if worker.doReassgn then
        if worker.jobMeta.accepts stolenJob then
          (worker.updateBatchSize stolenJob.helpeeBatchSizeNew,
            [⟨self, msg.sender, .confirmHelp stolenJob⟩])
        else (worker, [⟨self, msg.sender, .cancelHelp⟩])
      else (worker, [])
  | .confirmHelp stolenJob =>
      if worker.doReassgn then
        (((worker.updateStartPt stolenJob.helperStartPtNew).updateBatchSize
          stolenJob.helperBatchSizeNew).setWait false, [])
      else (worker, [])
  | .cancelHelp => (worker, group.map fun member => ⟨self, member, .findTask⟩)

end Worker

structure ReassgnState (n : Nat) where
  workers : Fin n → Worker n
  inFlight : List (Message n)

inductive ReassgnInput (n : Nat) where
  /-- A worker has processed its position `currentPt` and calls `Check`. -/
  | check (w : Fin n)
  | deliver (msg : Message n)
  deriving DecidableEq, Repr

namespace ReassgnState

/-- The workers with their initial jobs, reassignment being on. -/
def init (jobs : Fin n → JobMeta) : ReassgnState n := ⟨fun w => ⟨jobs w, false, true, []⟩, []⟩

/-- When a step can be taken. A worker runs `while (!IsFinished()) { .. Check(); }`. -/
def Enabled (state : ReassgnState n) (_ : List Nat) : ReassgnInput n → Prop
  | .check w => (state.workers w).wait = false ∧ (state.workers w).jobMeta.isFinished = false
  | .deliver msg => msg ∈ state.inFlight

instance (state : ReassgnState n) (processed : List Nat) (input : ReassgnInput n) :
    Decidable (state.Enabled processed input) :=
  match input with
  | .check _ => inferInstanceAs (Decidable (_ ∧ _))
  | .deliver msg => inferInstanceAs (Decidable (msg ∈ state.inFlight))

/-- A step, with the positions it processes. -/
def step (group : Fin n → List (Fin n)) (stealThreshold : WithTop ℚ) (state : ReassgnState n) :
    ReassgnInput n → Except Empty (ReassgnState n × List Nat)
  | .check w =>
      let (worker, out) := (state.workers w).check w (group w)
      .ok (⟨Function.update state.workers w worker, state.inFlight ++ out⟩,
        [(state.workers w).jobMeta.currentPt.toNat])
  | .deliver msg =>
      let (worker, out) := (state.workers msg.recver).handle msg.recver (group msg.recver)
        stealThreshold msg
      .ok (⟨Function.update state.workers msg.recver worker, state.inFlight.erase msg ++ out⟩, [])

end ReassgnState

end FlexPS.Rapid
