import FlexPS.System.SparseRequests

/-! # What one server sees of a run

Every run of clients and servers is, for each server, a run of that server over the streams
of its workers. What a worker has computed for the server and the server has not taken is the
next stretch of the stream, on the link or still to be pushed.
-/

namespace FlexPS

variable {Val : Type} [AddCommMonoid Val]

/-! ## Absent items -/

section Skip

variable {Main : Type} [MainRecorder Val Main] {W : Workload Val} {start : StreamState Val Main}
  {model model' : SparseSSPModel Val Main} {position : Tid → Nat} {ws : List Tid} {w : Tid}
  {events out : List (Event Val)} {msg : Message Val} {rest : List (Message Val)}

/-- A server that is to take the next message of a worker passes the absent items before it. -/
theorem StreamState.run_before_message {last : Nat}
    (run : Machine.Runs (StreamState.step W) StreamState.Registered start ws ⟨model, position⟩ events)
    (registered : w ∈ model.progressTracker.threads) (behind : position w ≤ last)
    (stretch : W.between w (position w) last = msg :: rest) :
    ∃ ws' n, Machine.Runs (StreamState.step W) StreamState.Registered start ws'
        ⟨model, Function.update position w n⟩ events ∧
      position w ≤ n ∧ n < last ∧ W.message? w (streamItem W.speculation n) = some msg ∧
      rest = W.between w (n + 1) last := by
  induction remaining : last - position w generalizing position ws with
  | zero =>
      have same : position w = last := by omega
      rw [same, Workload.between_self] at stretch
      cases stretch
  | succ remaining ih =>
      have inside : position w < last := by omega
      rw [Workload.between_cons inside] at stretch
      cases sent : W.message? w (streamItem W.speculation (position w)) with
      | none =>
          have stepped : StreamState.step W ⟨model, position⟩ w =
              .ok (⟨model, Function.update position w (position w + 1)⟩, []) := by
            simp only [StreamState.step, StreamState.next, sent, Except.pure_eq_ok]
          have longer := run.snoc registered stepped
          rw [List.append_nil] at longer
          rw [sent] at stretch
          obtain ⟨ws', n, run', beyond, within, found, rest_eq⟩ := ih longer
            (by rw [Function.update_self]; omega) (by rw [Function.update_self]; exact stretch)
            (by rw [Function.update_self]; omega)
          rw [Function.update_idem] at run'
          rw [Function.update_self] at beyond
          exact ⟨ws', n, run', Nat.le_of_succ_le beyond, within, found, rest_eq⟩
      | some first =>
          rw [sent, Option.toList_some, List.singleton_append, List.cons.injEq] at stretch
          obtain ⟨rfl, rest_eq⟩ := stretch
          exact ⟨ws, position w, by rw [Function.update_eq_self]; exact run, Nat.le_refl _, inside, sent,
            rest_eq.symm⟩

/-- The run of a server with the next message of a worker. -/
theorem StreamState.run_to_message {last : Nat}
    (run : Machine.Runs (StreamState.step W) StreamState.Registered start ws ⟨model, position⟩ events)
    (registered : w ∈ model.progressTracker.threads) (behind : position w ≤ last)
    (stretch : W.between w (position w) last = msg :: rest)
    (handled : AbstractModel.handle model msg = .ok (model', out)) :
    ∃ ws' n, Machine.Runs (StreamState.step W) StreamState.Registered start ws'
        ⟨model', Function.update position w n⟩ (events ++ out) ∧
      n ≤ last ∧ rest = W.between w n last := by
  obtain ⟨ws', n, run', -, within, sent, rest_eq⟩ := run_before_message run registered behind stretch
  have stepped : StreamState.step W ⟨model, Function.update position w n⟩ w =
      .ok (⟨model', Function.update position w (n + 1)⟩, out) := by
    simp only [StreamState.step, StreamState.next, Function.update_self, sent, handled, Except.ok_bind,
      Except.pure_eq_ok, Function.update_idem]
  exact ⟨_, n + 1, run'.snoc registered stepped, within, rest_eq⟩

end Skip

/-! ## Jobs -/

namespace SparseJob

variable {job : SparseJob Val}

omit [AddCommMonoid Val] in
variable (job) in
/-- Constructors that return, contiguous ranges, one for each server, and a recorder for that
    range; every list of keys is not empty, inside the ranges and, with several servers, sorted. -/
structure Fits : Prop where
  constructs : job.Constructs
  some_range : job.manager.ranges ≠ []
  contiguous : job.manager.Contiguous
  apart : job.servers.Nodup
  recorders : ∀ range server, (range, server) ∈ job.manager.ranges.zip job.servers →
    job.recorderType server = .map ∨ job.recorderType server = .vector range
  some_key : ∀ w, ∀ keys ∈ job.keys w, keys ≠ []
  sorted : job.servers.length ≠ 1 → ∀ w, ∀ keys ∈ job.keys w, keys.Pairwise (· ≤ ·)
  inside : ∀ w, ∀ keys ∈ job.keys w, ∀ key ∈ keys, job.manager.span.Owns key

omit [AddCommMonoid Val] in
variable (job) in
/-- A job that fits and speculates. -/
structure Valid : Prop extends Fits job where
  speculative : 1 ≤ job.speculation

omit [AddCommMonoid Val] in
variable (job) in
/-- A job that fits and speculates, unless no worker calls `Get` twice. -/
structure Paced : Prop extends Fits job where
  few : 1 ≤ job.speculation ∨ ∀ w ∈ job.workers, job.rounds w ≤ 1

omit [AddCommMonoid Val] in
theorem Valid.paced (valid : job.Valid) : job.Paced := ⟨valid.toFits, .inl valid.speculative⟩

omit [AddCommMonoid Val] in
theorem Fits.sound (fits : job.Fits) : job.manager.Sound :=
  ⟨fits.some_range, fits.contiguous, fits.apart⟩

omit [AddCommMonoid Val] in
theorem Fits.cuts (fits : job.Fits) {w : Tid} {keys : List Key} (listed : keys ∈ job.keys w) :
    job.manager.Cuts keys := by
  by_cases one : job.servers.length = 1
  · have oneRange : job.manager.ranges.length = 1 := by
      rw [job.manager.sameSize]
      exact one
    obtain ⟨range, ranges⟩ := List.length_eq_one_iff.mp oneRange
    refine .inr ⟨range, ranges, fun key member => ?_⟩
    have inside := fits.inside w keys listed key member
    simpa [SimpleRangePartitionManager.span, ranges] using inside
  · exact .inl (fits.sorted one w keys listed)

omit [AddCommMonoid Val] in
theorem twoServers_valid : twoServers.Valid where
  constructs := ⟨fun _ _ => ⟨_, rfl⟩, fun _ _ => ⟨_, rfl⟩⟩
  some_range := by decide
  contiguous := by decide
  apart := by decide
  recorders _ _ _ := .inl rfl
  speculative := by decide
  some_key _ := (by decide : ∀ keys ∈ ([[2, 7], [2, 7], [2, 7]] : List (List Key)), keys ≠ [])
  sorted _ _ := (by decide : ∀ keys ∈ ([[2, 7], [2, 7], [2, 7]] : List (List Key)), keys.Pairwise (· ≤ ·))
  inside _ := (by decide : ∀ keys ∈ ([[2, 7], [2, 7], [2, 7]] : List (List Key)), ∀ key ∈ keys,
    twoServers.manager.span.Owns key)

omit [AddCommMonoid Val] in
/-- A server gets what is in its range. -/
theorem part_of_sent (fits : job.Fits) {send : KVPairs Val} {c : Nat}
    (cuts : job.manager.Cuts send.keys) (sized : send.vals.length = c * send.keys.length)
    {server : Tid} (sent : (job.part send server).keys ≠ []) : ∃ range,
      (range, server) ∈ job.manager.ranges.zip job.servers ∧
      job.part send server = send.part c range := by
  obtain ⟨range, inZip⟩ := SimpleRangePartitionManager.range_of_server
    (SimpleRangePartitionManager.mem_of_part fits.apart sent)
  exact ⟨range, inZip, SimpleRangePartitionManager.part_eq fits.sound cuts sized inZip⟩

omit [AddCommMonoid Val] in
/-- The keys of a `Get` on one server are those in the server's range. -/
theorem keys_of_sent (fits : job.Fits) {server w : Tid} {version : Nat}
    (sent : (job.workload server).keys w version ≠ []) : ∃ keys range,
      (job.keys w)[version]? = some keys ∧ (range, server) ∈ job.manager.ranges.zip job.servers ∧
      (job.workload server).keys w version = keys.filter fun key => range.Owns key := by
  cases listed : (job.keys w)[version]? with
  | none =>
      simp only [workload, listed, Option.getD_none, part] at sent
      exact absurd rfl (SimpleRangePartitionManager.keys_of_part sent)
  | some keys =>
      have member := List.mem_of_getElem? listed
      have keys_eq : (job.workload server).keys w version = (job.part ⟨keys, []⟩ server).keys := by
        simp only [workload, listed, Option.getD_some]
      rw [keys_eq] at sent ⊢
      let send : KVPairs Val := ⟨keys, []⟩
      have sized : send.vals.length = 0 * send.keys.length := (Nat.zero_mul _).symm
      obtain ⟨range, inZip, same⟩ := part_of_sent fits (fits.cuts member) sized sent
      exact ⟨keys, range, rfl, inZip, by rw [same, KVPairs.part_keys]⟩

omit [AddCommMonoid Val] in
theorem owned (fits : job.Fits) {server w : Tid} {version : Nat} :
    ∀ key ∈ (job.workload server).keys w version, (job.recorderType server).Owns key := by
  intro key member
  obtain ⟨keys, range, -, inZip, keys_eq⟩ := keys_of_sent fits (List.ne_nil_of_mem member)
  rw [keys_eq] at member
  cases fits.recorders range server inZip with
  | inl map =>
      rw [map]
      trivial
  | inr vector =>
      rw [vector]
      have inRange : range.Owns key := of_decide_eq_true (List.mem_filter.mp member).2
      exact inRange

variable (job) in
/-- The runs of one server alone. -/
abbrev StreamRun (server : Tid) (ws : List Tid) (stream : StreamState Val (job.Main server))
    (events : List (Event Val)) : Prop :=
  Machine.Runs (StreamState.step (job.workload server)) StreamState.Registered
    (job.startStream server) ws stream events

/-- A run of a server, and the same run over abstract slots. -/
theorem coupled_of_run (fits : job.Fits) {server : Tid} {ws : List Tid}
    {stream : StreamState Val (job.Main server)} {events : List (Event Val)}
    (run : job.StreamRun server ws stream events) :
    ∃ slots events', Machine.Runs (StreamState.step (job.workload server)) StreamState.Registered
        (.start (job.workload server) (job.storage server)
          (slotsRecorder job.staleness job.speculation job.dcheckIsOn) job.workers) ws slots events' ∧
      Coupled (job.workload server) job.staleness job.workers.dedup
        ((job.recorderType server).Models (job.staleness + 2 * job.speculation + 3)) stream slots ∧
      List.Forall₂ (SameEvent (job.recorderType server).Owns) events events' :=
  slots_run (job.recorderType server) StreamState.Registered rfl (fun _ _ => owned fits)
    (fun _ _ _ h => h) (fun _ _ _ _ _ coupled _ _ h => registered_of_coupled coupled h) run

/-- What holds over the abstract slots of a server. -/
theorem slots_of_run (fits : job.Fits) {server : Tid} {ws : List Tid}
    {stream : StreamState Val (job.Main server)} {events : List (Event Val)}
    (run : job.StreamRun server ws stream events)
    (paced : stream.Paced (job.workload server) job.workers) :
    ∃ slots events', Coupled (job.workload server) job.staleness job.workers.dedup
        ((job.recorderType server).Models (job.staleness + 2 * job.speculation + 3)) stream slots ∧
      StreamInv (job.workload server) job.staleness job.workers.dedup (job.storage server)
        (fun w v => tally w v (events.filterMap Event.answered)) slots ∧
      List.Forall₂ (SameEvent (job.recorderType server).Owns) events events' ∧
      ∀ event ∈ events', ∃ gets limit storage, FairEvent (job.workload server) job.staleness
        job.workers.dedup gets limit storage event := by
  obtain ⟨slots, events', run', coupled, same⟩ := coupled_of_run fits run
  have paced' : slots.Paced (job.workload server) job.workers := by
    rwa [StreamState.Paced, coupled.clocks_eq] at paced
  have inv := streamInv_run (fun _ _ _ h => h) run' paced'
  rw [← answered_eq_of_same same] at inv
  exact ⟨slots, events', coupled, inv, same, fair_run (fun _ _ _ h => h) run' paced'⟩

theorem threads_of_run (fits : job.Fits) {server : Tid} {ws : List Tid}
    {stream : StreamState Val (job.Main server)} {events : List (Event Val)}
    (run : job.StreamRun server ws stream events) : stream.threads = job.workers.dedup := by
  obtain ⟨slots, -, -, coupled, -⟩ := coupled_of_run fits run
  rw [StreamState.threads, coupled.tracker_eq]
  exact coupled.threads_eq

end SparseJob

/-! ## The projection to a server -/

namespace SparseSystem

variable {job : SparseJob Val}

section Wires

omit [AddCommMonoid Val]

/-- How many items of its streams a worker has computed. -/
def items (state : SparseSystem job) (w : Tid) : Nat :=
  itemsIssued job.speculation (state.clients w).table.getCount (state.clients w).table.addCount

/-- What a worker has computed for a server and the server has not taken. -/
def pending (state : SparseSystem job) (w server : Tid) : List (Message Val) :=
  (state.requests w server).inFlight ++
    (state.clients w).todo.filter fun msg => msg.recver = server

end Wires

/-- What a server has seen of a run: the first `position w` items of the stream of `w`. -/
structure Projected (state : SparseSystem job) (events : List (SparseEvent Val)) (server : Tid)
    (position : Tid → Nat) : Prop where
  run : ∃ ws, job.StreamRun server ws ⟨state.servers server, position⟩
    (events.filterMap (SparseEvent.at? server))
  behind : ∀ w ∈ job.workers, position w ≤ state.items w
  wire : ∀ w ∈ job.workers,
    state.pending w server = (job.workload server).between w (position w) (state.items w)

/-- A client between its steps. -/
structure ClientShape (job : SparseJob Val) (w : Tid) (client : SparseClient Val) : Prop where
  table_eq : client.table =
    job.table w client.table.getCount client.table.addCount client.table.recvKvs
  outside : client.call = .outside → client.todo = []
  balanced : client.table.addCount ≤ client.table.getCount ∧
    client.table.getCount ≤ client.table.addCount + 1
  bounded : client.table.getCount ≤ job.rounds w

structure WireInv (state : SparseSystem job) (events : List (SparseEvent Val)) : Prop where
  shape : ∀ w ∈ job.workers, ClientShape job w (state.clients w)
  projected : ∀ server ∈ job.servers, ∃ position, state.Projected events server position
  replied : ∀ server w, (state.replies server w).sent =
    ((events.filterMap (SparseEvent.at? server)).filterMap Event.pushed).filter fun msg =>
      msg.recver = w

variable {state state' : SparseSystem job} {events : List (SparseEvent Val)} {server w : Tid}
  {position : Tid → Nat}

/-- Nothing has happened at the server, and its workers have computed more of their streams. -/
theorem Projected.extend (inv : state.Projected events server position)
    (same : state'.servers server = state.servers server)
    (grown : ∀ w ∈ job.workers, state.items w ≤ state'.items w ∧ state'.pending w server =
      state.pending w server ++ (job.workload server).between w (state.items w) (state'.items w)) :
    state'.Projected events server position where
  run := same ▸ inv.run
  behind w member := Nat.le_trans (inv.behind w member) (grown w member).1
  wire w member := by
    obtain ⟨more, pending_eq⟩ := grown w member
    rw [pending_eq, inv.wire w member, ← Workload.between_append (inv.behind w member) more]

omit [AddCommMonoid Val] in
/-- No server takes a `Clock` of a worker that has called `Get` once. -/
theorem paced_of_behind (paced : job.Paced)
    (shape : ∀ w ∈ job.workers, ClientShape job w (state.clients w))
    (behind : ∀ w ∈ job.workers, position w ≤ state.items w) :
    StreamState.Paced (job.workload server) job.workers ⟨state.servers server, position⟩ := by
  refine Or.imp_right (fun few w member => ?_) paced.few
  have once := Nat.le_trans (shape w member).bounded (few w member)
  have balanced := (shape w member).balanced
  have behind := behind w member
  simp only [items, itemsIssued] at behind
  change streamClocks job.speculation (position w) = 0
  simp only [streamClocks]
  split at behind <;> omega

theorem Projected.of_same (inv : state.Projected events server position)
    (same : state'.servers server = state.servers server)
    (items_eq : ∀ w ∈ job.workers, state'.items w = state.items w)
    (pending_eq : ∀ w ∈ job.workers, state'.pending w server = state.pending w server) :
    state'.Projected events server position := by
  apply inv.extend same
  intro w member
  rw [items_eq w member, pending_eq w member, Workload.between_self, List.append_nil]
  exact ⟨Nat.le_refl _, rfl⟩

omit [AddCommMonoid Val] in
theorem setClient_clients (client : SparseClient Val) (u : Tid) :
    (state.setClient w client).clients u = if u = w then client else state.clients u := by
  simp only [setClient, Function.update_apply]

omit [AddCommMonoid Val] in
theorem itemsIssued_mono {p gets adds gets' adds' : Nat} (gets_le : gets ≤ gets') (adds_le : adds ≤ adds') :
    itemsIssued p gets adds ≤ itemsIssued p gets' adds' := by
  simp only [itemsIssued]
  split
  · exact Nat.zero_le _
  · rw [if_neg (by omega)]
    omega

/-- A worker calls its table. -/
theorem wire_call (inv : state.WireInv events) {client : SparseClient Val}
    (idle : (state.clients w).todo = [])
    (shape : w ∈ job.workers → ClientShape job w client)
    (more : state.items w ≤ itemsIssued job.speculation client.table.getCount client.table.addCount)
    (computed : ∀ server ∈ job.servers, (client.todo.filter fun msg => msg.recver = server) =
      (job.workload server).between w (state.items w)
        (itemsIssued job.speculation client.table.getCount client.table.addCount)) :
    (state.setClient w client).WireInv events where
  shape u member := by
    rw [setClient_clients]
    split
    next same =>
      rw [same] at member ⊢
      exact shape member
    next => exact inv.shape u member
  projected server inServers := by
    obtain ⟨position, projected⟩ := inv.projected server inServers
    refine ⟨position, projected.extend rfl fun u member => ?_⟩
    by_cases same : u = w
    · subst same
      simp only [items, pending, setClient_clients, if_true, idle, List.filter_nil, List.append_nil] at more computed ⊢
      refine ⟨more, ?_⟩
      rw [computed server inServers]
      rfl
    · simp only [items, pending, setClient_clients, if_neg same, Workload.between_self,
        List.append_nil]
      exact ⟨Nat.le_refl _, rfl⟩
  replied := inv.replied

/-! ### The calls of a client -/

section Calls

omit [AddCommMonoid Val]

variable {client client' : SparseClient Val}

theorem clientGet_spec (fits : job.Fits) (shape : ClientShape job w client)
    (called : client.get = .ok client') :
    client.table.getCount = client.table.addCount ∧
      client' = ⟨job.table w (client.table.getCount + 1) client.table.addCount client.table.recvKvs,
        ((job.owners w client.table.getCount).length, 0), .get, client'.todo⟩ ∧
      ∀ server ∈ job.servers, (client'.todo.filter fun msg => msg.recver = server) =
        (job.workload server).between w
          (itemsIssued job.speculation client.table.getCount client.table.addCount)
          (itemsIssued job.speculation (client.table.getCount + 1) client.table.addCount) := by
  obtain ⟨⟨table, expected, todo⟩, computed, called⟩ := Except.bind_eq_ok.mp called
  cases called
  rw [shape.table_eq] at computed
  obtain ⟨balanced, rfl, rfl, messages⟩ := SparseJob.get_spec fits.apart computed
  exact ⟨balanced, rfl, messages⟩

theorem clientAdd_spec (fits : job.Fits) (shape : ClientShape job w client)
    (called : client.add (job.adds w (client.table.getCount - 1)) = .ok client') :
    client.table.getCount = client.table.addCount + 1 ∧
      client' = ⟨job.table w client.table.getCount (client.table.addCount + 1) client.table.recvKvs,
        client.tracker, .add, client'.todo⟩ ∧
      ∀ server ∈ job.servers, (client'.todo.filter fun msg => msg.recver = server) =
        (job.workload server).between w
          (itemsIssued job.speculation client.table.getCount client.table.addCount)
          (itemsIssued job.speculation client.table.getCount (client.table.addCount + 1)) := by
  obtain ⟨⟨table, todo⟩, computed, called⟩ := Except.bind_eq_ok.mp called
  cases called
  rw [shape.table_eq] at computed
  obtain ⟨balanced, rfl, messages⟩ := SparseJob.add_spec fits.apart computed
  exact ⟨balanced, rfl, fun server _ => messages server⟩

/-- What a response does to a client. -/
theorem addResponse_spec {msg : Message Val} {finished : Option (List (KVPairs Val) × List Val)}
    (added : client.addResponse msg = .ok (client', finished)) :
    ∃ keys vals, msg.data = [keys, vals] ∧
      client' = { client with
        table := { client.table with recvKvs := client'.table.recvKvs }
        tracker := (client.tracker.1, client.tracker.2 + 1) } ∧
      (client.tracker.1 ≠ client.tracker.2 + 1 → finished = none ∧
        client'.table.recvKvs = client.table.recvKvs ++ [⟨keys.asU32, vals.asVals⟩]) ∧
      (client.tracker.1 = client.tracker.2 + 1 → client'.table.recvKvs = [] ∧
        ∃ got, finished = some (client.table.recvKvs ++ [⟨keys.asU32, vals.asVals⟩], got) ∧
          SparseKVClientTable.recvFinishHandle { client.table with
              recvKvs := client.table.recvKvs ++ [⟨keys.asU32, vals.asVals⟩] } =
            .ok ({ client.table with recvKvs := [] }, got)) := by
  obtain ⟨table, received, added⟩ := Except.bind_eq_ok.mp added
  unfold SparseKVClientTable.recvHandle at received
  split at received
  next keys vals data_eq =>
    cases received
    refine ⟨keys, vals, data_eq, ?_⟩
    simp only at added
    split at added
    next last =>
      obtain ⟨⟨finishedTable, got⟩, handled, added⟩ := Except.bind_eq_ok.mp added
      cases added
      have handled' := handled
      unfold SparseKVClientTable.recvFinishHandle at handled
      split at handled
      · cases handled
      next keys' listed =>
        obtain ⟨-, -, handled⟩ := Except.bind_eq_ok.mp handled
        cases handled
        exact ⟨rfl, fun more => absurd last more, fun _ => ⟨rfl, _, rfl, handled'⟩⟩
    next more =>
      cases added
      exact ⟨rfl, fun _ => ⟨rfl, rfl⟩, fun last => absurd last more⟩
  next => cases received

end Calls

/-! ### Every step keeps the wires -/

variable {client : SparseClient Val}

theorem wire_get (fits : job.Fits) (inv : state.WireInv events) (member : w ∈ job.workers)
    (idle : (state.clients w).call = .outside)
    (more : (state.clients w).table.getCount < job.rounds w) (called : (state.clients w).get = .ok client) :
    (state.setClient w client).WireInv events := by
  have shape := inv.shape w member
  obtain ⟨balanced, client_eq, computed⟩ := clientGet_spec fits shape called
  have gets : client.table.getCount = (state.clients w).table.getCount + 1 := by rw [client_eq]; rfl
  have adds : client.table.addCount = (state.clients w).table.addCount := by rw [client_eq]; rfl
  apply wire_call inv (shape.outside idle)
  · intro _
    refine ⟨?_, ?_, ?_, ?_⟩
    · rw [client_eq]
      rfl
    · rw [client_eq]
      exact fun outside => by cases outside
    · omega
    · omega
  · rw [gets, adds]
    exact itemsIssued_mono (Nat.le_succ _) (Nat.le_refl _)
  · rw [gets, adds]
    exact computed

theorem wire_add (fits : job.Fits) (inv : state.WireInv events) (member : w ∈ job.workers)
    (idle : (state.clients w).call = .outside)
    (called : (state.clients w).add (job.adds w ((state.clients w).table.getCount - 1)) =
      .ok client) :
    (state.setClient w client).WireInv events := by
  have shape := inv.shape w member
  obtain ⟨balanced, client_eq, computed⟩ := clientAdd_spec fits shape called
  have gets : client.table.getCount = (state.clients w).table.getCount := by rw [client_eq]; rfl
  have adds : client.table.addCount = (state.clients w).table.addCount + 1 := by rw [client_eq]; rfl
  apply wire_call inv (shape.outside idle)
  · intro _
    refine ⟨?_, ?_, ?_, ?_⟩
    · rw [client_eq]
      rfl
    · rw [client_eq]
      exact fun outside => by cases outside
    · omega
    · exact gets ▸ shape.bounded
  · rw [gets, adds]
    exact itemsIssued_mono (Nat.le_refl _) (Nat.le_succ _)
  · rw [gets, adds]
    exact computed

theorem wire_push (inv : state.WireInv events) {msg : Message Val} {todo : List (Message Val)}
    (next : (state.clients w).todo = msg :: todo) (active : (state.clients w).call ≠ .outside) :
    ({ state.setClient w { state.clients w with todo } with
      requests := Link.set state.requests w msg.recver ((state.requests w msg.recver).send msg) } :
        SparseSystem job).WireInv events where
  shape u member := by
    rw [setClient_clients]
    split
    next same =>
      subst same
      have shape := inv.shape u member
      exact ⟨shape.table_eq, fun outside => absurd outside active, shape.balanced, shape.bounded⟩
    next => exact inv.shape u member
  projected server inServers := by
    obtain ⟨position, projected⟩ := inv.projected server inServers
    refine ⟨position, projected.of_same rfl ?_ ?_⟩
    · intro u _
      simp only [items, setClient_clients]
      split
      next same => rw [same]
      next => rfl
    · intro u _
      by_cases same : u = w
      · subst same
        simp only [pending, setClient_clients, if_true, next, Link.set_apply, true_and]
        by_cases here : server = msg.recver
        · subst here
          simp [Link.send]
        · rw [if_neg here, List.filter_cons_of_neg (by simpa using fun same => here same.symm)]
      · simp only [pending, setClient_clients, Link.set_apply, same, false_and, if_false]
  replied := inv.replied

theorem wire_finish (inv : state.WireInv events) (returns : (state.clients w).Returns) :
    (state.setClient w { state.clients w with call := .outside }).WireInv events where
  shape u member := by
    rw [setClient_clients]
    split
    next same =>
      subst same
      have shape := inv.shape u member
      exact ⟨shape.table_eq, fun _ => returns.2.1, shape.balanced, shape.bounded⟩
    next => exact inv.shape u member
  projected server inServers := by
    obtain ⟨position, projected⟩ := inv.projected server inServers
    refine ⟨position, projected.of_same rfl ?_ ?_⟩
    · intro u _
      simp only [items, setClient_clients]
      split
      next same => rw [same]
      next => rfl
    · intro u _
      simp only [pending, setClient_clients]
      split
      next same =>
        rw [same]
        rfl
      next => rfl
  replied := inv.replied

theorem wire_respond (inv : state.WireInv events) {msg : Message Val}
    {finished : Option (List (KVPairs Val) × List Val)} {out : List (SparseEvent Val)}
    (quiet : ∀ server, out.filterMap (SparseEvent.at? server) = [])
    (added : (state.clients w).addResponse msg = .ok (client, finished)) :
    ({ state.setClient w client with
      replies := Link.set state.replies server w (state.replies server w).receive } :
        SparseSystem job).WireInv (events ++ out) := by
  obtain ⟨keys, vals, -, client_eq, -⟩ := addResponse_spec added
  have at_eq : ∀ server, (events ++ out).filterMap (SparseEvent.at? server) =
      events.filterMap (SparseEvent.at? server) := by
    intro server
    rw [List.filterMap_append, quiet, List.append_nil]
  constructor
  case shape =>
    intro u member
    rw [setClient_clients]
    split
    next same =>
      subst same
      have shape := inv.shape u member
      rw [client_eq]
      refine ⟨?_, shape.outside, shape.balanced, shape.bounded⟩
      have table_eq := shape.table_eq
      generalize (state.clients u).table = table at table_eq
      rw [table_eq]
      rfl
    next => exact inv.shape u member
  case projected =>
    intro server' inServers
    obtain ⟨position, projected⟩ := inv.projected server' inServers
    refine ⟨position, ⟨?_, ?_, ?_⟩⟩
    · rw [at_eq]
      exact projected.run
    · intro u member
      have behind := projected.behind u member
      simp only [items, setClient_clients] at behind ⊢
      split
      next same =>
        rw [client_eq, ← same]
        exact behind
      next => exact behind
    · intro u member
      have wire := projected.wire u member
      simp only [pending, items, setClient_clients] at wire ⊢
      split
      next same =>
        rw [client_eq, ← same]
        exact wire
      next => exact wire
  case replied =>
    intro server' u
    rw [at_eq, ← inv.replied server' u]
    change (Link.set state.replies server w (state.replies server w).receive server' u).sent = _
    rw [Link.set_apply]
    split
    next same =>
      rw [Link.sent_receive, same.1, same.2]
    next => rfl

omit [AddCommMonoid Val] in
theorem filterMap_served (server server' : Tid) (out : List (Event Val)) :
    (out.map (SparseEvent.served server)).filterMap (SparseEvent.at? server') =
      if server = server' then out else [] := by
  rw [List.filterMap_map]
  split
  next same =>
    have at_eq : SparseEvent.at? server' ∘ SparseEvent.served server = (some : Event Val → _) := by
      funext event
      simp only [Function.comp_apply, SparseEvent.at?, if_pos same]
    rw [at_eq, List.filterMap_some]
  next apart =>
    apply List.filterMap_eq_nil_iff.mpr
    intro event _
    simp only [Function.comp_apply, SparseEvent.at?, if_neg apart]

theorem wire_serve (fits : job.Fits) (inv : state.WireInv events) (inServers : server ∈ job.servers)
    (member : w ∈ job.workers) {msg : Message Val} {rest : List (Message Val)}
    (next : (state.requests w server).inFlight = msg :: rest)
    {model : SparseSSPModel Val (job.Main server)} {out : List (Event Val)}
    (handled : AbstractModel.handle (state.servers server) msg = .ok (model, out)) :
    ({ state with
      requests := Link.set state.requests w server (state.requests w server).receive
      servers := Function.update state.servers server model
      replies := deliver state.replies server (out.filterMap Event.pushed) } :
        SparseSystem job).WireInv (events ++ out.map (.served server)) := by
  constructor
  case shape => exact inv.shape
  case projected =>
    intro server' inServers'
    obtain ⟨position, projected⟩ := inv.projected server' inServers'
    by_cases here : server' = server
    · subst here
      obtain ⟨ws, run⟩ := projected.run
      have registered : w ∈ (state.servers server').progressTracker.threads := by
        have threads := SparseJob.threads_of_run fits run
        rw [StreamState.threads] at threads
        rw [threads]
        exact List.mem_dedup.mpr member
      have wire := projected.wire w member
      rw [pending, next, List.cons_append] at wire
      obtain ⟨ws', n, run', within, rest_eq⟩ := StreamState.run_to_message run registered
        (projected.behind w member) wire.symm handled
      refine ⟨Function.update position w n, ⟨ws', ?_⟩, ?_, ?_⟩
      · rw [List.filterMap_append, filterMap_served, if_pos rfl]
        simp only [Function.update_self]
        exact run'
      · intro u memberU
        by_cases same : u = w
        · rw [same, Function.update_self]
          exact within
        · rw [Function.update_of_ne same]
          exact projected.behind u memberU
      · intro u memberU
        simp only [pending, Link.set_apply, and_true]
        by_cases same : u = w
        · subst same
          rw [if_pos rfl, Link.receive_eq next, Function.update_self]
          exact rest_eq
        · rw [if_neg same, Function.update_of_ne same]
          exact projected.wire u memberU
    · refine ⟨position, ⟨?_, projected.behind, ?_⟩⟩
      · rw [List.filterMap_append, filterMap_served, if_neg (Ne.symm here), List.append_nil]
        simp only [Function.update_of_ne here]
        exact projected.run
      · intro u memberU
        simp only [pending, Link.set_apply, here, and_false, if_false]
        exact projected.wire u memberU
  case replied =>
    intro server' u
    rw [List.filterMap_append, filterMap_served]
    simp only [deliver]
    by_cases here : server' = server
    · subst here
      rw [if_pos rfl, if_pos rfl, List.filterMap_append, List.filter_append, ← inv.replied server' u,
        Link.sent, Link.sent, List.append_assoc]
    · rw [if_neg here, if_neg (Ne.symm here), List.append_nil]
      exact inv.replied server' u

/-! ### Runs -/

/-- What a step does when it is taken. -/
inductive Stepped (state : SparseSystem job) :
    SparseInput → SparseSystem job → List (SparseEvent Val) → Prop where
  | get {w : Tid} {client : SparseClient Val} (member : w ∈ job.workers) (idle : (state.clients w).call = .outside)
      (more : (state.clients w).table.getCount < job.rounds w)
      (called : (state.clients w).get = .ok client) :
      Stepped state (.get w) (state.setClient w client) []
  | add {w : Tid} {client : SparseClient Val} (member : w ∈ job.workers) (idle : (state.clients w).call = .outside)
      (called : (state.clients w).add (job.adds w ((state.clients w).table.getCount - 1)) =
        .ok client) :
      Stepped state (.add w) (state.setClient w client) []
  | push {w : Tid} {msg : Message Val} {todo : List (Message Val)} (member : w ∈ job.workers)
      (next : (state.clients w).todo = msg :: todo) :
      Stepped state (.push w)
        { state.setClient w { state.clients w with todo } with
          requests := Link.set state.requests w msg.recver
            ((state.requests w msg.recver).send msg) } []
  | finish {w : Tid} (member : w ∈ job.workers) (returns : (state.clients w).Returns) :
      Stepped state (.finish w) (state.setClient w { state.clients w with call := .outside }) []
  | serve {server w : Tid} {msg : Message Val} {rest : List (Message Val)}
      {model : SparseSSPModel Val (job.Main server)} {out : List (Event Val)}
      (inServers : server ∈ job.servers) (member : w ∈ job.workers)
      (next : (state.requests w server).inFlight = msg :: rest)
      (handled : AbstractModel.handle (state.servers server) msg = .ok (model, out)) :
      Stepped state (.serve server w)
        { state with
          requests := Link.set state.requests w server (state.requests w server).receive
          servers := Function.update state.servers server model
          replies := deliver state.replies server (out.filterMap Event.pushed) }
        (out.map (.served server))
  | respond {server w : Tid} {msg : Message Val} {rest : List (Message Val)}
      {client : SparseClient Val} {finished : Option (List (KVPairs Val) × List Val)}
      (inServers : server ∈ job.servers) (member : w ∈ job.workers)
      (next : (state.replies server w).inFlight = msg :: rest)
      (added : (state.clients w).addResponse msg = .ok (client, finished)) :
      Stepped state (.respond server w)
        { state.setClient w client with
          replies := Link.set state.replies server w (state.replies server w).receive }
        (finished.toList.map fun got => .gotten w client.table.getCount got.1 got.2)

theorem step_cases {input : SparseInput} {out : List (SparseEvent Val)}
    (admitted : state.Enabled events input) (stepped : state.step input = .ok (state', out)) :
    Stepped state input state' out := by
  cases input with
  | get w =>
      obtain ⟨client, called, stepped⟩ := Except.bind_eq_ok.mp stepped
      cases stepped
      exact .get admitted.1 admitted.2.1 admitted.2.2.2 called
  | add w =>
      obtain ⟨client, called, stepped⟩ := Except.bind_eq_ok.mp stepped
      cases stepped
      exact .add admitted.1 admitted.2.1 called
  | push w =>
      simp only [step] at stepped
      cases next : (state.clients w).todo with
      | nil => exact absurd next admitted.2
      | cons msg todo =>
          rw [next] at stepped
          cases stepped
          exact .push admitted.1 next
  | finish w =>
      cases stepped
      exact .finish admitted.1 admitted.2
  | serve server w =>
      simp only [step] at stepped
      cases next : (state.requests w server).inFlight with
      | nil => exact absurd next admitted.2.2
      | cons msg rest =>
          rw [next] at stepped
          obtain ⟨⟨model, events⟩, handled, stepped⟩ := Except.bind_eq_ok.mp stepped
          cases stepped
          exact .serve admitted.1 admitted.2.1 next handled
  | respond server w =>
      simp only [step] at stepped
      cases next : (state.replies server w).inFlight with
      | nil => exact absurd next admitted.2.2
      | cons msg rest =>
          rw [next] at stepped
          obtain ⟨⟨client, finished⟩, added, stepped⟩ := Except.bind_eq_ok.mp stepped
          cases stepped
          exact .respond admitted.1 admitted.2.1 next added

theorem wire_step (fits : job.Fits) (inv : state.WireInv events) {input : SparseInput}
    {out : List (SparseEvent Val)} (stepped : Stepped state input state' out) :
    state'.WireInv (events ++ out) := by
  cases stepped with
  | get member idle more called =>
      rw [List.append_nil]
      exact wire_get fits inv member idle more called
  | add member idle called =>
      rw [List.append_nil]
      exact wire_add fits inv member idle called
  | @push w msg todo member next =>
      rw [List.append_nil]
      apply wire_push inv next
      intro outside
      rw [(inv.shape w member).outside outside] at next
      cases next
  | finish member returns =>
      rw [List.append_nil]
      exact wire_finish inv returns
  | serve inServers member next handled => exact wire_serve fits inv inServers member next handled
  | @respond server w msg rest client finished inServers member next added =>
      refine wire_respond inv (fun server => ?_) added
      cases finished with
      | none => rfl
      | some got => rfl

theorem wire_start : (start job).WireInv [] where
  shape w _ := by
    refine ⟨rfl, fun _ => rfl, ⟨Nat.le_refl _, Nat.zero_le _⟩, Nat.zero_le _⟩
  projected server _ := by
    refine ⟨fun _ => 0, ⟨⟨[], .nil⟩, fun _ _ => Nat.zero_le _, fun w _ => ?_⟩⟩
    rw [show (start job).items w = 0 from rfl, Workload.between_self]
    rfl
  replied _ _ := rfl

variable (job) in
/-- The runs of all clients and servers. -/
abbrev Run (inputs : List SparseInput) (state : SparseSystem job) (events : List (SparseEvent Val)) :
    Prop :=
  Machine.Runs step Enabled (start job) inputs state events

theorem wire_run (fits : job.Fits) {inputs : List SparseInput} (run : Run job inputs state events) :
    state.WireInv events := by
  refine run.invariant (P := fun _ state events => state.WireInv events) wire_start ?_
  intro _ state events input state' out _ inv admitted stepped
  exact wire_step fits inv (step_cases admitted stepped)

end SparseSystem

end FlexPS
