import FlexPS.Server.Histories
import FlexPS.Server.SSP.Guarantees

/-! # An SSP server by the messages it has taken

An `Add` is applied when it is taken, so the storage is known from the messages alone. Of the
order of the messages only the `Clock`s before a `Get` decide when it is answered.
-/

namespace FlexPS

variable {Val : Type} [AddCommMonoid Val]

namespace SSPModel

omit [AddCommMonoid Val] in
/-- A new model after the `ResetWorker` that names `tids`. -/
def start (modelId : UInt32) (storage : Storage Val) (staleness : UInt32) (tids : List Tid) : SSPModel Val :=
  { new modelId storage staleness with progressTracker := .init tids }

/-- What taking a message does to storage and clocks, and where the answers come from. -/
theorem handle_spec {model model' : SSPModel Val} {tids : List Tid} {msg : Message Val}
    {events : List (Event Val)} (ofWorkers : msg.OfWorkers tids)
    (handled : AbstractModel.handle model msg = .ok (model', events)) :
    (∀ key, model'.storage.value key = model.storage.value key +
        if msg.flag = .kAdd then msg.kvs.contribution key else 0) ∧
      (∀ w, model'.progressTracker.progresses w = model.progressTracker.progresses w +
        if msg.sender = w ∧ msg.flag = .kClock then 1 else 0) ∧
      ∀ event ∈ events, ∃ request clocks,
        event = .reply request (model'.storage.replyTo request) clocks := by
  obtain ⟨-, isClock | isAdd | isGet⟩ := ofWorkers
  · simp only [AbstractModel.handle, isClock] at handled
    obtain ⟨updated, tracker, advanced, outcome⟩ := clock_cases handled
    obtain ⟨-, -, advanced⟩ := ProgressTracker.advance_eq_ok.mp advanced
    have progresses : ∀ w, tracker.progresses w = model.progressTracker.progresses w +
        if msg.sender = w ∧ msg.flag = .kClock then 1 else 0 := by
      intro w
      rw [advanced.progresses]
      by_cases same : msg.sender = w
      · rw [if_pos ⟨same, isClock⟩, ← same, Function.update_self]
      · rw [if_neg fun both => same both.1, Function.update_of_ne (Ne.symm same)]
        rfl
    rcases outcome with ⟨-, rfl, rfl⟩ | ⟨minClock, -, pushed, rfl⟩
    · exact ⟨fun key => by simp [isClock], progresses, fun event member => by cases member⟩
    · obtain ⟨-, rfl⟩ := mapM_pushReply_eq_ok.mp pushed
      refine ⟨fun key => by simp [isClock], progresses, fun event member => ?_⟩
      obtain ⟨request, -, rfl⟩ := List.mem_map.mp member
      exact ⟨request, tracker, rfl⟩
  · simp only [AbstractModel.handle, isAdd] at handled
    obtain ⟨storage, added, handled⟩ := Except.bind_eq_ok.mp handled
    cases handled
    refine ⟨fun key => ?_, fun w => by simp [isAdd], fun event member => by cases member⟩
    rw [if_pos isAdd]
    exact (Storage.add_spec added).2 key
  · simp only [AbstractModel.handle, isGet] at handled
    obtain ⟨_, -, handled⟩ := Except.bind_eq_ok.mp handled
    obtain ⟨progress, -, handled⟩ := Except.bind_eq_ok.mp handled
    dsimp only at handled
    split at handled
    · cases handled
      exact ⟨fun key => by simp [isGet], fun w => by simp [isGet], fun event member => by cases member⟩
    · obtain ⟨event, pushed, handled⟩ := Except.bind_eq_ok.mp handled
      obtain ⟨-, -, rfl⟩ := pushReply_eq_ok.mp pushed
      cases handled
      refine ⟨fun key => by simp [isGet], fun w => by simp [isGet], fun event member => ?_⟩
      exact ⟨msg, model.progressTracker, List.mem_singleton.mp member⟩

end SSPModel

/-! ## Runs -/

variable (initial : Storage Val) (staleness : UInt32) (tids : List Tid) in
/-- A server that has taken `taken`, among them the `Get`s `received` at these clocks. -/
structure SSPTaken (taken : List (Message Val)) (received : List (Message Val × Nat))
    (model : SSPModel Val) (events : List (Event Val)) : Prop where
  inv : SSPInv staleness tids (events.filterMap Event.answered) ⟨model, received⟩
  values : ∀ key, model.storage.value key = initial.value key + addedBy taken key
  clocks : ∀ w, model.progressTracker.progresses w = clocksBy w taken
  gets : received.map Prod.fst = ofFlag .kGet taken
  earlier : ∀ get ∈ received, get.2 ≤ model.progressTracker.progresses get.1.sender
  /-- A worker whose last message is a `Get` has not sent a `Clock` since. -/
  last : ∀ w msg, (sentBy w taken).getLast? = some msg → msg.flag = .kGet →
    (msg, model.progressTracker.progresses w) ∈ received

section Runs

variable {modelId : UInt32} {initial : Storage Val} {staleness : UInt32} {tids : List Tid}
  {taken : List (Message Val)} {received : List (Message Val × Nat)} {model model' : SSPModel Val}
  {events out : List (Event Val)} {msg : Message Val} {w : Tid}

theorem SSPTaken.handle (small : staleness.toNat ≤ intMax)
    (before : SSPTaken initial staleness tids taken received model events) (ofWorkers : msg.OfWorkers tids)
    (handled : AbstractModel.handle model msg = .ok (model', out)) :
    SSPTaken initial staleness tids (taken ++ [msg])
      (received ++ if msg.flag = .kGet then [(msg, model.progressTracker.progresses msg.sender)] else [])
      model' (events ++ out) := by
  obtain ⟨values, clocks, -⟩ := SSPModel.handle_spec ofWorkers handled
  have inv : SSPInv staleness tids ((events ++ out).filterMap Event.answered) ⟨model', received ++
      if msg.flag = .kGet then [(msg, model.progressTracker.progresses msg.sender)] else []⟩ := by
    have registered : msg.sender ∈ (⟨model, received⟩ : SSPState Val).threads := by
      rw [before.inv.threads_eq]
      exact List.mem_dedup.mpr ofWorkers.1
    have stepped : SSPState.step ⟨model, received⟩ (.message msg) = .ok (⟨model',
        if msg.flag = .kGet then received ++ [(msg, model.progressTracker.progresses msg.sender)]
        else received⟩, out) := by
      simp only [SSPState.step, handled, Except.ok_bind]
      rfl
    have admitted : SSPState.Admitted ⟨model, received⟩ events (.message msg) := ⟨registered, ofWorkers.2⟩
    have after := ssp_step_spec before.inv small admitted stepped
    rw [List.filterMap_append]
    split
    next isGet =>
      rw [if_pos isGet] at after
      exact after
    next notGet =>
      rw [if_neg notGet] at after
      rw [List.append_nil]
      exact after
  constructor
  case inv => exact inv
  case values =>
    intro key
    rw [values, before.values, addedBy_snoc, add_assoc]
  case clocks =>
    intro w
    rw [clocks, before.clocks, clocksBy_snoc]
  case gets =>
    rw [List.map_append, before.gets, ofFlag_snoc]
    split
    · rfl
    · rfl
  case earlier =>
    intro get member
    rw [clocks]
    rcases List.mem_append.mp member with old | new
    · exact Nat.le_trans (before.earlier get old) (Nat.le_add_right _ _)
    · split at new
      · rw [List.mem_singleton.mp new]
        exact Nat.le_add_right _ _
      · cases new
  case last =>
    intro w lastMsg ends isGet
    rw [sentBy_snoc] at ends
    rw [clocks]
    cases decEq msg.sender w with
    | isTrue same =>
        subst same
        rw [if_pos rfl, List.getLast?_concat] at ends
        cases ends
        have quiet : ¬ (msg.sender = msg.sender ∧ msg.flag = .kClock) := by
          rw [isGet]
          exact fun both => by cases both.2
        rw [if_neg quiet, if_pos isGet]
        exact List.mem_append_right _ (List.mem_singleton_self _)
    | isFalse other =>
        have quiet : ¬ (msg.sender = w ∧ msg.flag = .kClock) := fun both => other both.1
        rw [if_neg other, List.append_nil] at ends
        rw [if_neg quiet]
        exact List.mem_append_left _ (before.last w lastMsg ends isGet)

theorem ssp_taken (small : staleness.toNat ≤ intMax)
    (run : ModelRun (.start modelId initial staleness tids) tids taken model events) :
    ∃ received, SSPTaken initial staleness tids taken received model events := by
  refine run.invariant (P := fun taken model events =>
    ∃ received, SSPTaken initial staleness tids taken received model events) ?_ ?_
  · refine ⟨[], sspInv_start modelId initial staleness tids, fun key => ?_, fun _ => rfl, rfl, ?_, ?_⟩
    · exact (add_zero _).symm
    · intro get member
      cases member
    · intro w msg ends
      cases ends
  · intro taken model events msg model' out _ before admitted handled
    obtain ⟨received, before⟩ := before
    exact ⟨_, before.handle small admitted handled⟩

/-- An SSP server answers from its storage. -/
theorem ssp_answersGets (modelId : UInt32) (initial : Storage Val) (small : staleness.toNat ≤ intMax)
    (tids : List Tid) :
    AnswersGets (SSPModel.start modelId initial staleness tids) tids SSPModel.storage where
  genuine _ ofWorkers handled := (SSPModel.handle_spec ofWorkers handled).2.2
  once run := by
    obtain ⟨received, known⟩ := ssp_taken small run
    refine known.inv.answered.subperm.trans ?_
    rw [← known.gets]
    exact (List.filter_sublist.map _).subperm

/-- The `Get`s of one worker, and those that have been answered. -/
theorem SSPTaken.counts (known : SSPTaken initial staleness tids taken received model events) (w : Tid) :
    (ofFlag .kGet (sentBy w taken)).length = (received.filter fun get => get.1.sender = w).length ∧
      (sentBy w (events.filterMap Event.answered)).length =
        ((received.filter fun get => get.1.sender = w).filter fun get =>
          get.2 ≤ model.progressTracker.minClock + staleness.toNat).length := by
  constructor
  · have commute : ofFlag .kGet (sentBy w taken) = sentBy w (ofFlag .kGet taken) := List.filter_comm ..
    rw [commute, ← known.gets, sentBy, List.filter_map, List.length_map]
    rfl
  · have perm := known.inv.answered.filter fun msg => msg.sender = w
    have commute : (within model.progressTracker.minClock staleness.toNat received).filter
        (fun msg => msg.sender = w) = ((received.filter fun get => get.1.sender = w).filter fun get =>
          get.2 ≤ model.progressTracker.minClock + staleness.toNat).map Prod.fst := by
      rw [within, List.filter_map, List.filter_comm]
      rfl
    rw [sentBy, perm.length_eq]
    change ((within model.progressTracker.minClock staleness.toNat received).filter _).length = _
    rw [commute, List.length_map]

/-- A worker that has sent a `Get` last, and has an answer to it, is within the bound. -/
theorem SSPTaken.fresh (known : SSPTaken initial staleness tids taken received model events)
    (ends : (sentBy w taken).getLast? = some msg) (isGet : msg.flag = .kGet)
    (all : (ofFlag .kGet (sentBy w taken)).length ≤
      (sentBy w (events.filterMap Event.answered)).length) :
    clocksBy w taken ≤ model.progressTracker.minClock + staleness.toNat := by
  have now := known.last w msg ends isGet
  have sender : msg.sender = w :=
    of_decide_eq_true (List.mem_filter.mp (List.mem_of_getLast? ends)).2
  obtain ⟨gets_eq, answered_eq⟩ := known.counts w
  rw [gets_eq, answered_eq] at all
  rw [← known.clocks]
  -- all `Get`s of the worker have been answered, so all are within the bound
  have kept := List.filter_sublist.eq_of_length_le all
  have mine : (msg, model.progressTracker.progresses w) ∈ received.filter fun get => get.1.sender = w :=
    List.mem_filter.mpr ⟨now, decide_eq_true sender⟩
  rw [← kept] at mine
  exact of_decide_eq_true (List.mem_filter.mp mine).2

/-- An SSP server lets a `Get` wait only for a worker that the bound does not allow to be behind. -/
theorem ssp_waitsOnlyFor (modelId : UInt32) (initial : Storage Val) (small : staleness.toNat ≤ intMax)
    (tids : List Tid) :
    WaitsOnlyFor (SSPModel.start modelId initial staleness tids) tids staleness.toNat := by
  intro taken model events w run member unanswered
  obtain ⟨received, known⟩ := ssp_taken small run
  have threads_eq : model.progressTracker.threads = tids.dedup := known.inv.threads_eq
  obtain ⟨u, registered, slowest⟩ := known.inv.exact.attained
    (List.ne_nil_of_mem (threads_eq.symm ▸ List.mem_dedup.mpr member : w ∈ model.progressTracker.threads))
  refine ⟨u, List.mem_dedup.mp (threads_eq ▸ registered), ?_⟩
  by_contra near
  obtain ⟨gets_eq, answered_eq⟩ := known.counts w
  rw [gets_eq, answered_eq, List.length_filter_lt_length_iff_exists] at unanswered
  obtain ⟨get, own, late⟩ := unanswered
  obtain ⟨inReceived, sender⟩ := List.mem_filter.mp own
  have earlier := known.earlier get inReceived
  rw [of_decide_eq_true sender] at earlier
  rw [← known.clocks, ← known.clocks] at near
  dsimp only at slowest
  simp only [decide_eq_true_eq] at late
  omega

end Runs

end FlexPS
