import FlexPS.System.SparseProjection

/-! # Which replies reach a worker

A server answers every `Get` of a worker at most once, and none before the worker has entered
its iteration. A worker that has called `Get` so many times has sent no later `Clock`, so what
is on its links are answers to its `Get`s so far.
-/

namespace FlexPS

variable {Val : Type} [AddCommMonoid Val]

omit [AddCommMonoid Val] in
/-- Every event that answers a request pushes a reply with its worker and version. -/
theorem pushed_matches {events : List (Event Val)}
    (each : ∀ event ∈ events, event.pushed.map (fun msg => (msg.recver, msg.version)) =
      event.answered.map fun request => (request.sender, request.version)) (w : Tid) (v : Nat) :
    ((events.filterMap Event.pushed).filter fun msg => msg.recver = w).countP
        (fun msg => msg.version = v) =
      tally w v (events.filterMap Event.answered) := by
  rw [List.countP_filter, tally]
  induction events with
  | nil => rfl
  | cons event rest ih =>
      have first := each event List.mem_cons_self
      have later := ih fun event member => each event (List.mem_cons_of_mem _ member)
      cases pushed : event.pushed with
      | none =>
          rw [pushed, Option.map_none] at first
          have answered := Option.map_eq_none_iff.mp first.symm
          rw [List.filterMap_cons_none pushed, List.filterMap_cons_none answered, later]
      | some msg =>
          rw [pushed, Option.map_some] at first
          obtain ⟨request, answered, same⟩ := Option.map_eq_some_iff.mp first.symm
          obtain ⟨sender, version⟩ := Prod.mk.inj same
          rw [List.filterMap_cons_some pushed, List.filterMap_cons_some answered, List.countP_cons,
            List.countP_cons, later, ← sender, ← version]
          congr 1
          simp only [Bool.and_eq_true, decide_eq_true_eq]
          exact if_congr and_comm rfl rfl

omit [AddCommMonoid Val] in
theorem SparseEvent.eq_served {server : Tid} {event : SparseEvent Val} {event' : Event Val}
    (at_eq : event.at? server = some event') : event = .served server event' := by
  cases event with
  | served server' event =>
      simp only [SparseEvent.at?] at at_eq
      split at at_eq
      next same =>
        cases at_eq
        rw [same]
      next => cases at_eq
  | gotten => cases at_eq

namespace SparseJob

variable {job : SparseJob Val}

variable (job) in
/-- The message is what a server returns for `Get_v` of a worker. -/
def IsAnswer (server w : Tid) (version : Nat) (msg : Message Val) : Prop :=
  ∃ storage : Storage Val, msg = storage.replyTo ((job.workload server).getMsg w version)

theorem IsAnswer.version_eq {server w : Tid} {version : Nat} {msg : Message Val}
    (answer : job.IsAnswer server w version msg) : msg.version = version := by
  obtain ⟨storage, rfl⟩ := answer
  rfl

/-- A server alone only ever answers `Get`s. -/
theorem events_of_run (fits : job.Fits) {server : Tid} {ws : List Tid}
    {stream : StreamState Val (job.Main server)} {events : List (Event Val)}
    (run : job.StreamRun server ws stream events)
    (paced : stream.Paced (job.workload server) job.workers) : ∀ event ∈ events,
      (∃ scan clocks, event = .scan scan clocks) ∨
      ∃ w ∈ job.workers, ∃ version, ∃ storage : Storage Val, ∃ clocks,
        event = .reply ((job.workload server).getMsg w version)
          (storage.replyTo ((job.workload server).getMsg w version)) clocks := by
  obtain ⟨slots, events', -, -, same, fair⟩ := slots_of_run fits run paced
  intro event member
  obtain ⟨event', inEvents', sameEvent⟩ := exists_same_of_mem same member
  obtain ⟨gets, limit, storage, fairEvent⟩ := fair event' inEvents'
  cases fairEvent with
  | scan =>
      cases sameEvent
      exact .inl ⟨_, _, rfl⟩
  | @reply request clocks taken answerable =>
      cases sameEvent
      have due := answerable.admitted.due
      exact .inr ⟨request.sender, List.mem_dedup.mp due.registered, request.version, storage, clocks,
        by rw [← due.genuine]⟩

/-- The replies to a worker with a version are the answered `Get`s with that version. -/
theorem countP_pushed (fits : job.Fits) {server : Tid} {ws : List Tid}
    {stream : StreamState Val (job.Main server)} {events : List (Event Val)}
    (run : job.StreamRun server ws stream events)
    (paced : stream.Paced (job.workload server) job.workers) (w : Tid) (version : Nat) :
    ((events.filterMap Event.pushed).filter fun msg => msg.recver = w).countP
        (fun msg => msg.version = version) =
      tally w version (events.filterMap Event.answered) := by
  apply pushed_matches
  intro event member
  rcases events_of_run fits run paced event member with
    ⟨scan, clocks, rfl⟩ | ⟨w, -, version, storage, clocks, rfl⟩
  · rfl
  · rfl

/-- What a run of one server has pushed. -/
theorem pushed_of_run (fits : job.Fits) {server : Tid} {ws : List Tid}
    {stream : StreamState Val (job.Main server)} {events : List (Event Val)}
    (run : job.StreamRun server ws stream events)
    (paced : stream.Paced (job.workload server) job.workers) :
    (∀ msg ∈ events.filterMap Event.pushed, ∃ w ∈ job.workers, ∃ version clocks,
      job.IsAnswer server w version msg ∧ msg.recver = w ∧
      .reply ((job.workload server).getMsg w version) msg clocks ∈ events) ∧
    ∀ w ∈ job.workers, ∀ version,
      ((events.filterMap Event.pushed).filter fun msg => msg.recver = w).countP
        (fun msg => msg.version = version) ≤
      if version < stream.gets (job.workload server) w ∧
          version ≤ stream.clocks (job.workload server) w ∧
          (job.workload server).keys w version ≠ [] then 1 else 0 := by
  constructor
  · intro msg member
    obtain ⟨event, inEvents, pushed⟩ := List.mem_filterMap.mp member
    rcases events_of_run fits run paced event inEvents with
      ⟨scan, clocks, rfl⟩ | ⟨w, inWorkers, version, storage, clocks, rfl⟩
    · cases pushed
    · cases pushed
      exact ⟨w, inWorkers, version, clocks, ⟨storage, rfl⟩, rfl, inEvents⟩
  · intro w member version
    obtain ⟨slots, -, coupled, inv, -, -⟩ := slots_of_run fits run paced
    rw [countP_pushed fits run paced]
    have ledger := inv.server.base.recorder.ledger w (List.mem_dedup.mpr member) version
    have entered := inv.server.progress_le w
    rw [coupled.gets_eq, coupled.clocks_eq]
    refine Nat.le_trans (Nat.le_trans (Nat.le_add_right _ _) (Nat.le_add_right _ _))
      (Nat.le_trans (Nat.le_of_eq ledger) ?_)
    split
    next received =>
      rw [if_pos ⟨received.1, Nat.le_trans received.2.1 entered, received.2.2⟩]
    next => exact Nat.zero_le _

end SparseJob

namespace SparseSystem

variable {job : SparseJob Val} {state state' : SparseSystem job} {events : List (SparseEvent Val)}
  {server w : Tid}

omit [AddCommMonoid Val] in
/-- A client has sent `Clock_v` only once it has called `Get` twice more. -/
theorem version_lt_of_items {p gets adds n version : Nat} (balanced : adds ≤ gets ∧ gets ≤ adds + 1)
    (behind : n ≤ itemsIssued p gets adds) (received : version < streamGets p n)
    (entered : version ≤ streamClocks p n) : version < gets := by
  simp only [itemsIssued] at behind
  simp only [streamGets, streamClocks] at received entered
  split at behind
  · omega
  · omega

/-- What is sent to a worker answers its `Get`s so far, each once. -/
theorem sent_replies (paced : job.Paced) (inv : state.WireInv events)
    (inServers : server ∈ job.servers) (member : w ∈ job.workers) :
    (∀ msg ∈ (state.replies server w).sent, ∃ version clocks, job.IsAnswer server w version msg ∧
      .served server (.reply ((job.workload server).getMsg w version) msg clocks) ∈ events) ∧
    ∀ version, (state.replies server w).sent.countP (fun msg => msg.version = version) ≤
      if version < (state.clients w).table.getCount ∧ (job.workload server).keys w version ≠ [] then 1
      else 0 := by
  obtain ⟨position, projected⟩ := inv.projected server inServers
  obtain ⟨ws, run⟩ := projected.run
  obtain ⟨genuine, once⟩ := SparseJob.pushed_of_run paced.toFits run
    (paced_of_behind paced inv.shape projected.behind)
  rw [inv.replied server w]
  constructor
  · intro msg inSent
    obtain ⟨pushed, receiver⟩ := List.mem_filter.mp inSent
    obtain ⟨u, -, version, clocks, answer, same, inEvents⟩ := genuine msg pushed
    rw [of_decide_eq_true receiver] at same
    subst same
    obtain ⟨event, inRun, at_eq⟩ := List.mem_filterMap.mp inEvents
    exact ⟨version, clocks, answer, SparseEvent.eq_served at_eq ▸ inRun⟩
  · intro version
    refine Nat.le_trans (once w member version) ?_
    split
    next received =>
      have called := version_lt_of_items (inv.shape w member).balanced (projected.behind w member)
        received.1 received.2.1
      rw [if_pos ⟨called, received.2.2⟩]
    next => exact Nat.zero_le _

end SparseSystem

end FlexPS
