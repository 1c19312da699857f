import FlexPS.Lib.Machine
import FlexPS.Server.ProgressTracker
import FlexPS.Server.Storage

/-! # Consistency models

A model handles one message at a time. What it pushes to `reply_queue_` is
returned as a list of events, in order. A reply event carries two ghosts, the
request it answers and the clocks at the moment of the push; a scan event is all
ghost and records one call of a recorder's `HasConflict`.
-/

namespace FlexPS

/-- One call `HasConflict(keys, begin_version, end_version, ..)` and the counts
    `main_recorder_` held at that moment. -/
structure Scan where
  keys : List Key
  beginVersion : Nat
  endVersion : Int
  count : Nat → Key → Nat

inductive Event (Val : Type) where
  /-- `reply_queue_->Push(storage_->Get(request))`. -/
  | reply (request reply : Message Val) (clocks : ProgressTracker)
  /-- `reply_queue_->Push(reply_msg)` at the end of `ResetWorker`. -/
  | resetDone (reply : Message Val)
  | scan (scan : Scan) (clocks : ProgressTracker)

namespace Event

variable {Val : Type}

/-- What the event pushes to `reply_queue_`. -/
def pushed : Event Val → Option (Message Val)
  | .reply _ answer _ => some answer
  | .resetDone answer => some answer
  | .scan _ _ => none

/-- The request the event answers. -/
def answered : Event Val → Option (Message Val)
  | .reply request _ _ => some request
  | _ => none

/-- The conflict test the event records. -/
def scanned : Event Val → Option Scan
  | .scan test _ => some test
  | _ => none

theorem exists_scan {events : List (Event Val)} {scan : Scan}
    (scanned : scan ∈ events.filterMap Event.scanned) : ∃ clocks, .scan scan clocks ∈ events := by
  obtain ⟨event, member, eq⟩ := List.mem_filterMap.mp scanned
  cases event with
  | scan test clocks =>
      cases eq
      exact ⟨clocks, member⟩
  | resetDone => cases eq
  | reply => cases eq

theorem exists_reply {events : List (Event Val)} {request : Message Val}
    (answered : request ∈ events.filterMap Event.answered) :
    ∃ reply clocks, .reply request reply clocks ∈ events := by
  obtain ⟨event, member, eq⟩ := List.mem_filterMap.mp answered
  cases event with
  | reply request' reply clocks =>
      cases eq
      exact ⟨reply, clocks, member⟩
  | resetDone => cases eq
  | scan => cases eq

end Event

/-- `reply_queue_->Push(storage_->Get(request))`. -/
def pushReply {Val : Type} [AddCommMonoid Val] (storage : Storage Val) (clocks : ProgressTracker)
    (request : Message Val) : Except Fault (Event Val) := do
  let reply ← storage.get request
  return .reply request reply clocks

class AbstractModel (Val : outParam Type) (Model : Type) where
  clock : Model → Message Val → Except Fault (Model × List (Event Val))
  add : Model → Message Val → Except Fault (Model × List (Event Val))
  get : Model → Message Val → Except Fault (Model × List (Event Val))
  getProgress : Model → Tid → Except Fault Nat
  resetWorker : Model → Message Val → Except Fault (Model × List (Event Val))

/-- The `switch` of `ServerThread::Main`, for a message to a registered model. -/
def AbstractModel.handle {Val Model : Type} [AbstractModel Val Model] (model : Model)
    (msg : Message Val) : Except Fault (Model × List (Event Val)) :=
  match msg.flag with
  | .kClock => AbstractModel.clock model msg
  | .kAdd => AbstractModel.add model msg
  | .kGet => AbstractModel.get model msg
  | .kResetWorkerInModel => AbstractModel.resetWorker model msg
  | .kExit | .kBarrier => .error (.check .knownFlag)

section Replies

variable {Val : Type} [AddCommMonoid Val]

theorem pushReply_eq_ok {storage : Storage Val} {clocks : ProgressTracker} {request : Message Val}
    {event : Event Val} :
    pushReply storage clocks request = .ok event ↔ request.data.length = 1 ∧
      (∀ key ∈ request.keys, storage.Holds key) ∧
      event = .reply request (storage.replyTo request) clocks := by
  simp only [pushReply, Except.bind_eq_ok, Storage.get_eq_ok]
  constructor
  · rintro ⟨_, ⟨one, held, rfl⟩, h⟩
    cases h
    exact ⟨one, held, rfl⟩
  · rintro ⟨one, held, rfl⟩
    exact ⟨_, ⟨one, held, rfl⟩, rfl⟩

/-- Pushing the replies to a list of requests: all of them can be answered, and
    each is answered from the same storage, in order. -/
theorem mapM_pushReply_eq_ok {storage : Storage Val} {clocks : ProgressTracker}
    {requests : List (Message Val)} {events : List (Event Val)} :
    requests.mapM (pushReply storage clocks) = .ok events ↔
      (∀ request ∈ requests, request.data.length = 1 ∧
        ∀ key ∈ request.keys, storage.Holds key) ∧
      events = requests.map (fun request => .reply request (storage.replyTo request) clocks) := by
  rw [Except.mapM_eq_ok_iff]
  simp only [pushReply_eq_ok]
  constructor
  · intro h
    induction h with
    | nil => simp
    | cons head _ ih =>
        refine ⟨?_, by rw [head.2.2, ih.2, List.map_cons]⟩
        simpa using ⟨⟨head.1, head.2.1⟩, ih.1⟩
  · rintro ⟨fine, rfl⟩
    rw [List.forall₂_map_right_iff]
    exact List.forall₂_same.mpr fun request member =>
      ⟨(fine request member).1, (fine request member).2, rfl⟩

theorem pushReply_error {storage : Storage Val} {clocks : ProgressTracker} {request : Message Val}
    {e : Fault} (h : pushReply storage clocks request = .error e) :
    ∃ c, Storage.StorageCheck c ∧ e = .check c := by
  obtain h | ⟨_, -, h⟩ := Except.bind_eq_error.mp h
  · exact Storage.get_error h
  · cases h

/-- Each of the requests is answered once. -/
theorem answered_of_mapM {storage : Storage Val} {clocks : ProgressTracker}
    {requests : List (Message Val)} {events : List (Event Val)}
    (pushed : requests.mapM (pushReply storage clocks) = .ok events) :
    events.filterMap Event.answered = requests := by
  obtain ⟨-, rfl⟩ := mapM_pushReply_eq_ok.mp pushed
  rw [List.filterMap_map]
  exact List.filterMap_some

end Replies

end FlexPS
