import FlexPS.Server.AbstractModel

/-! # The SSP model -/

namespace FlexPS

variable {Val : Type}

/-- `PendingBuffer`: the requests that wait for the minimum clock to reach a value. -/
structure PendingBuffer (Val : Type) where
  buffer : Int → Option (List (Message Val))

namespace PendingBuffer

/-- `buffer_[clock]`, which is empty where it is absent. -/
def at_ (buffer : PendingBuffer Val) (clock : Int) : List (Message Val) :=
  (buffer.buffer clock).getD []

def pop (buffer : PendingBuffer Val) (clock : Int) : List (Message Val) × PendingBuffer Val :=
  match buffer.buffer clock with
  | some msgs => (msgs, ⟨Function.update buffer.buffer clock none⟩)
  | none => ([], buffer)

def push (buffer : PendingBuffer Val) (clock : Int) (msg : Message Val) : PendingBuffer Val :=
  ⟨Function.update buffer.buffer clock (some (buffer.at_ clock ++ [msg]))⟩

/-- `buffer_[progress]` inserts an empty entry where there is none. -/
def size (buffer : PendingBuffer Val) (progress : Int) : Nat × PendingBuffer Val :=
  ((buffer.at_ progress).length,
    ⟨Function.update buffer.buffer progress (some (buffer.at_ progress))⟩)

theorem pop_fst (buffer : PendingBuffer Val) (clock : Int) : (buffer.pop clock).1 = buffer.at_ clock := by
  unfold pop at_
  cases buffer.buffer clock <;> rfl

theorem at_pop (buffer : PendingBuffer Val) (clock k : Int) :
    (buffer.pop clock).2.at_ k = if k = clock then [] else buffer.at_ k := by
  unfold pop at_
  split
  · next msgs found =>
      by_cases same : k = clock <;> simp [same]
  · next found =>
      by_cases same : k = clock <;> simp [same, found]

theorem at_push (buffer : PendingBuffer Val) (clock : Int) (msg : Message Val) (k : Int) :
    (buffer.push clock msg).at_ k = buffer.at_ k ++ if k = clock then [msg] else [] := by
  by_cases same : k = clock
  · subst same
    simp [push, at_]
  · simp [push, at_, same]

/-- A query of the size changes no entry. -/
theorem at_size (buffer : PendingBuffer Val) (progress k : Int) :
    (buffer.size progress).2.at_ k = buffer.at_ k := by
  by_cases same : k = progress
  · subst same
    simp [size, at_]
  · simp [size, at_, same]

end PendingBuffer

/-- `staleness_` is a `uint32_t`, so the `int` clocks are converted before they are
    compared with it, and a buffer key is converted back. -/
structure SSPModel (Val : Type) where
  modelId : UInt32
  staleness : UInt32
  storage : Storage Val
  progressTracker : ProgressTracker
  buffer : PendingBuffer Val

namespace SSPModel

/-- A model of one server, before its first `ResetWorker`. -/
def new (modelId : UInt32) (storage : Storage Val) (staleness : UInt32) : SSPModel Val :=
  { modelId, staleness, storage, progressTracker := .init [], buffer := ⟨fun _ => none⟩ }

def getProgress (model : SSPModel Val) (tid : Tid) : Except Fault Nat :=
  model.progressTracker.getProgress tid

def getPendingSize (model : SSPModel Val) (progress : Int) : Nat × SSPModel Val :=
  let (size, buffer) := model.buffer.size progress
  (size, { model with buffer })

def resetWorker (model : SSPModel Val) (msg : Message Val) :
    Except Fault (SSPModel Val × List (Event Val)) := do
  check .oneArray (msg.data.length = 1)
  -- the code leaves sender and version of the reply uninitialised
  let reply : Message Val := { sender := 0, recver := msg.sender, modelId := model.modelId,
                               flag := .kResetWorkerInModel, version := 0, data := [] }
  return ({ model with progressTracker := .init msg.keys }, [.resetDone reply])

variable [AddCommMonoid Val]

def clock (model : SSPModel Val) (msg : Message Val) :
    Except Fault (SSPModel Val × List (Event Val)) := do
  let (updatedMinClock, progressTracker) ←
    model.progressTracker.advanceAndGetChangedMinClock msg.sender
  match updatedMinClock with
  | none => return ({ model with progressTracker }, [])
  | some updatedMinClock =>
      let (reqs, buffer) := model.buffer.pop updatedMinClock
      let events ← reqs.mapM (pushReply model.storage progressTracker)
      return ({ model with progressTracker, buffer, storage := model.storage.finishIter }, events)

def add (model : SSPModel Val) (msg : Message Val) :
    Except Fault (SSPModel Val × List (Event Val)) := do
  let storage ← model.storage.add msg
  return ({ model with storage }, [])

def get (model : SSPModel Val) (msg : Message Val) :
    Except Fault (SSPModel Val × List (Event Val)) := do
  check .threadValid (model.progressTracker.checkThreadValid msg.sender)
  let progress ← model.progressTracker.getProgress msg.sender
  let minClock := model.progressTracker.minClock
  if UInt32.ofNat progress > UInt32.ofNat minClock + model.staleness then
    let key := (UInt32.ofNat progress - model.staleness).toInt32.toInt
    return ({ model with buffer := model.buffer.push key msg }, [])
  else
    let event ← pushReply model.storage model.progressTracker msg
    return (model, [event])

instance : AbstractModel Val (SSPModel Val) where
  clock := clock
  add := add
  get := get
  getProgress := getProgress
  resetWorker := resetWorker

/-- A `Clock` pops the requests that wait for the minimum it moved to, if it moved it. -/
theorem clock_cases {model model' : SSPModel Val} {msg : Message Val} {events : List (Event Val)}
    (clocked : model.clock msg = .ok (model', events)) :
    ∃ updated tracker,
      model.progressTracker.advanceAndGetChangedMinClock msg.sender = .ok (updated, tracker) ∧
      (updated = none ∧ model' = { model with progressTracker := tracker } ∧ events = [] ∨
        ∃ minClock, updated = some minClock ∧
          (model.buffer.at_ minClock).mapM (pushReply model.storage tracker) = .ok events ∧
          model' = { model with
            progressTracker := tracker, buffer := (model.buffer.pop minClock).2 }) := by
  unfold clock at clocked
  obtain ⟨⟨updated, tracker⟩, advanced, clocked⟩ := Except.bind_eq_ok.mp clocked
  refine ⟨updated, tracker, advanced, ?_⟩
  cases updated with
  | none =>
      cases clocked
      exact .inl ⟨rfl, rfl, rfl⟩
  | some minClock =>
      simp only at clocked
      obtain ⟨replies, pushed, clocked⟩ := Except.bind_eq_ok.mp clocked
      simp only [Except.pure_eq_ok, Except.ok.injEq, Prod.mk.injEq] at clocked
      obtain ⟨rfl, rfl⟩ := clocked
      exact .inr ⟨minClock, rfl, PendingBuffer.pop_fst _ _ ▸ pushed, rfl⟩

/-- The conversions do nothing to clocks and staleness bounds that an `int` can hold. -/
theorem tooFast_iff {progress minClock : Nat} {staleness : UInt32} (progress_le : progress ≤ intMax)
    (minClock_le : minClock ≤ intMax) (staleness_le : staleness.toNat ≤ intMax) :
    UInt32.ofNat progress > UInt32.ofNat minClock + staleness ↔
      minClock + staleness.toNat < progress := by
  simp only [intMax] at *
  rw [gt_iff_lt, UInt32.lt_iff_toNat_lt, UInt32.toNat_add, UInt32.toNat_ofNat', UInt32.toNat_ofNat']
  omega

theorem pendingKey_eq {progress : Nat} {staleness : UInt32} (progress_le : progress ≤ intMax)
    (late : staleness.toNat ≤ progress) :
    (UInt32.ofNat progress - staleness).toInt32.toInt = (progress : Int) - staleness.toNat := by
  simp only [intMax] at progress_le
  have clock_eq : (UInt32.ofNat progress).toNat = progress := by
    rw [UInt32.toNat_ofNat']
    omega
  have difference : (UInt32.ofNat progress - staleness).toNat = progress - staleness.toNat := by
    have fits : staleness ≤ UInt32.ofNat progress := by
      rw [UInt32.le_iff_toNat_le, clock_eq]
      exact late
    rw [UInt32.toNat_sub_of_le _ _ fits, clock_eq]
  have small : 2 * (UInt32.ofNat progress - staleness).toBitVec.toNat < 2 ^ 32 := by
    rw [UInt32.toNat_toBitVec, difference]
    omega
  calc (UInt32.ofNat progress - staleness).toInt32.toInt
      = (UInt32.ofNat progress - staleness).toBitVec.toInt := rfl
    _ = (UInt32.ofNat progress - staleness).toBitVec.toNat := BitVec.toInt_eq_toNat_of_lt small
    _ = (progress : Int) - staleness.toNat := by
        rw [UInt32.toNat_toBitVec, difference]
        omega

/-- A `Get` within the bound is answered, any other waits for the minimum it needs. -/
theorem get_cases {model model' : SSPModel Val} {msg : Message Val} {events : List (Event Val)}
    (valid : msg.sender ∈ model.progressTracker.threads)
    (progress_le : model.progressTracker.progresses msg.sender ≤ intMax)
    (minClock_le : model.progressTracker.minClock ≤ intMax)
    (staleness_le : model.staleness.toNat ≤ intMax) (got : model.get msg = .ok (model', events)) :
    (model.progressTracker.minClock + model.staleness.toNat <
        model.progressTracker.progresses msg.sender ∧
      model' = { model with
        buffer := model.buffer.push
          ((model.progressTracker.progresses msg.sender : Int) - model.staleness.toNat) msg } ∧
      events = []) ∨
    (model.progressTracker.progresses msg.sender ≤
        model.progressTracker.minClock + model.staleness.toNat ∧
      model' = model ∧
      events = [.reply msg (model.storage.replyTo msg) model.progressTracker]) := by
  have bound := tooFast_iff progress_le minClock_le staleness_le
  simp only [get, ProgressTracker.checkThreadValid, valid, decide_true, check_pos,
    ProgressTracker.getProgress_eq valid, Except.ok_bind] at got
  split at got
  · next fast =>
      have late := bound.mp fast
      rw [pendingKey_eq progress_le (by omega)] at got
      cases got
      exact .inl ⟨late, rfl, rfl⟩
  · next slow =>
      obtain ⟨event, pushed, got⟩ := Except.bind_eq_ok.mp got
      cases got
      obtain ⟨-, -, rfl⟩ := pushReply_eq_ok.mp pushed
      exact .inr ⟨Nat.not_lt.mp (fun late => slow (bound.mpr late)), rfl, rfl⟩

end SSPModel

end FlexPS
