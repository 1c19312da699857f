import FlexPS.System.SparseFailures

/-! # How fresh the values of a sparse `Get` are

A worker in iteration `v` reads from several servers, each with its own clocks. Every value it
gets contains all that the worker itself has added before, and of every other worker all that
was added up to iteration `v - staleness - 1` by an iteration that reads the key.
-/

namespace FlexPS

variable {Val : Type} [AddCommMonoid Val]

/-! ## Replies of one server -/

section Server

variable {W : Workload Val} {staleness : Nat} {type : SparseSSPRecorderType} {storage : Storage Val}
  {dcheckIsOn : Bool} {tids ws : List Tid} {w : Tid} {events out : List (Event Val)}
  {state state' : StreamState Val (type.Main Val)}

/-- A `Get` of a later iteration is only answered by a `Clock`. -/
theorem version_of_get {model model' : SparseSSPModel Val (type.Main Val)} {msg : Message Val}
    (got : model.get msg = .ok (model', out)) :
    ∀ request ∈ out.filterMap Event.answered, request.version = 0 := by
  obtain ⟨_, -, got⟩ := Except.bind_eq_ok.mp got
  obtain ⟨_, -, got⟩ := Except.bind_eq_ok.mp got
  intro request member
  split at got
  next first =>
    obtain ⟨event, answered, got⟩ := Except.bind_eq_ok.mp got
    obtain ⟨pushes, pushed, got⟩ := Except.bind_eq_ok.mp got
    obtain ⟨recorder, -, got⟩ := Except.bind_eq_ok.mp got
    obtain ⟨-, -, rfl⟩ := pushReply_eq_ok.mp answered
    cases pushed
    cases got
    rw [List.mem_singleton.mp member]
    exact first
  next later =>
    obtain ⟨pushes, pushed, got⟩ := Except.bind_eq_ok.mp got
    obtain ⟨recorder, -, got⟩ := Except.bind_eq_ok.mp got
    cases pushed
    cases got
    cases member

theorem clock_of_answered (stepped : state.step W w = .ok (state', out)) {request : Message Val}
    (answered : request ∈ out.filterMap Event.answered) (later : 0 < request.version) :
    ∃ version, state.next W w = .clock version := by
  suffices taken : ∀ gets clocks adds, state.Takes W w state'.model out gets clocks adds →
      ∃ version, state.next W w = .clock version from taken _ _ _ (StreamState.step_takes stepped)
  intro gets clocks adds taken
  cases taken with
  | absentGet _ _ none =>
      rw [none] at answered
      cases answered
  | get _ got => exact absurd (version_of_get got request answered) (Nat.ne_of_gt later)
  | absentAdd _ _ _ none =>
      rw [none] at answered
      cases answered
  | add _ _ added =>
      generalize state'.model = model' at added
      obtain ⟨_, -, added⟩ := Except.bind_eq_ok.mp added
      obtain ⟨_, -, added⟩ := Except.bind_eq_ok.mp added
      obtain ⟨_, -, added⟩ := Except.bind_eq_ok.mp added
      cases added
      cases answered
  | clock next _ _ _ => exact ⟨_, next⟩

/-- What a reply contains, without anything about the start: the values are those of all `Add`s
    received, the worker's own among them and those of the conflicting `Get`s received in time. -/
theorem reply_contains {recorder : SparseSSPRecorder Val (type.Main Val)}
    (recorder_eq : recorder =
      .new staleness W.speculation (type.mainRecorder staleness W.speculation) dcheckIsOn)
    (owned : ∀ w version, ∀ key ∈ W.keys w version, type.Owns key)
    (speculative : 1 ≤ W.speculation)
    (run : Machine.Runs (StreamState.step W) StreamState.Registered
      (.start W storage recorder tids) ws state events)
    (registered : w ∈ state.threads) (stepped : state.step W w = .ok (state', out))
    {request reply : Message Val} {clocks : ProgressTracker}
    (pushed : .reply request reply clocks ∈ out) :
    ∃ u ∈ tids, ∃ v, request = W.getMsg u v ∧ v ≤ state'.adds W u ∧
      (∀ u' ∈ tids, ∀ x, x + staleness + 1 ≤ v → x < state'.gets W u' →
        ∀ key ∈ W.keys u' x, key ∈ W.keys u v → x < state'.adds W u') ∧
      (∀ u' ∈ tids, ∀ x, x + staleness + 1 ≤ v → W.speculation ≤ x → x < state'.gets W u') ∧
      reply.data = [.u32 (W.keys u v), .val ((W.keys u v).map fun key =>
        storage.value key + W.applied tids.dedup (state'.adds W) key)] := by
  obtain ⟨slots, events', run', coupled, -⟩ :=
    slots_run type (fun slots _ w => w ∈ slots.threads) recorder_eq owned (fun _ _ _ h => h)
      (fun _ _ _ _ _ coupled _ _ h => registered_of_coupled coupled h) run
  have inv := streamInv_run (fun _ _ _ h => h) run' (.inl speculative)
  obtain ⟨slots', out', stepped', facts⟩ :=
    step_facts owned speculative coupled inv registered stepped
  obtain ⟨event, inOut', same⟩ := exists_same_of_mem facts.same pushed
  cases same with
  | reply =>
      cases facts.fair _ inOut' with
      | reply taken answerable =>
          have due := answerable.admitted.due
          have behind := behind_clocks facts.after taken
          have bounds := fun v => streamGets_bounds W.speculation (slots'.position v)
          refine ⟨request.sender, List.mem_dedup.mp due.registered, request.version, due.genuine,
            ?_, ?_, ?_, ?_⟩
          · have own := behind request.sender
            have entered := due.entered
            have added := (bounds request.sender).2.2.1
            rw [facts.coupled'.adds_eq]
            simp only [StreamState.adds, StreamState.clocks] at own ⊢
            omega
          · intro u' member x below received key inX inV
            rw [facts.coupled'.gets_eq] at received
            have clocked := answerable.clear x (by omega) u' (List.mem_dedup.mpr member) received key
              (due.genuine ▸ inV) inX
            have own := behind u'
            have added := (bounds u').2.2.1
            rw [facts.coupled'.adds_eq]
            simp only [StreamState.adds, StreamState.clocks] at own ⊢
            omega
          · intro u' member x below late
            have slow := answerable.admitted.slow
            have minimum := taken.exact.le u' (taken.threads_eq ▸ List.mem_dedup.mpr member)
            have own := behind u'
            have ahead := (bounds u').2.1
            rw [facts.coupled'.gets_eq]
            simp only [StreamState.gets, StreamState.clocks] at own ⊢
            omega
          · have values := funext facts.after.values
            simp only [Storage.replyTo, due.keys_eq, values, facts.coupled'.adds_eq]

end Server

/-! ## Adds of a job -/

namespace SparseJob

variable {job : SparseJob Val} {server : Tid}

variable (job) in
/-- What the first `adds` `Add`s of every worker add to a key. -/
def applied (adds : Tid → Nat) (key : Key) : Val :=
  ∑ u ∈ job.workers.toFinset, ∑ version ∈ Finset.range (adds u), (job.adds u version).contribution key

/-- The owner of a key gets all that is added to it. -/
theorem contribution_part (valid : job.Valid) (provided : job.Provided) {range : Range}
    (inZip : (range, server) ∈ job.manager.ranges.zip job.servers) {key : Key}
    (owned : range.Owns key) (u : Tid) (version : Nat) :
    ((job.workload server).adds u version).contribution key = (job.adds u version).contribution key :=
  SimpleRangePartitionManager.contribution_part valid.sound (provided.sorted u version)
    (provided.sized u version) inZip owned

theorem applied_eq (valid : job.Valid) (provided : job.Provided) {range : Range}
    (inZip : (range, server) ∈ job.manager.ranges.zip job.servers) {key : Key}
    (owned : range.Owns key) (adds : Tid → Nat) :
    (job.workload server).applied job.workers.dedup adds key = job.applied adds key := by
  have same : job.workers.dedup.toFinset = job.workers.toFinset := by
    ext u
    simp
  simp only [Workload.applied, applied, same, contribution_part valid provided inZip owned]

omit [AddCommMonoid Val] in
theorem range_of_mem_keys (valid : job.Valid) {u : Tid} {version : Nat} {key : Key}
    (inKeys : key ∈ (job.workload server).keys u version) :
    ∃ range, (range, server) ∈ job.manager.ranges.zip job.servers ∧ range.Owns key := by
  obtain ⟨keys, range, -, inZip, keys_eq⟩ := keys_of_sent valid.toFits (List.ne_nil_of_mem inKeys)
  rw [keys_eq] at inKeys
  exact ⟨range, inZip, of_decide_eq_true (List.mem_filter.mp inKeys).2⟩

omit [AddCommMonoid Val] in
/-- The owner of a key sees every `Get` of it. -/
theorem mem_keys_of_owned (valid : job.Valid) {range : Range}
    (inZip : (range, server) ∈ job.manager.ranges.zip job.servers) {key : Key}
    (owned : range.Owns key) {u : Tid} {version : Nat} {keys : List Key}
    (listed : (job.keys u)[version]? = some keys) (inKeys : key ∈ keys) :
    key ∈ (job.workload server).keys u version := by
  obtain ⟨keys', range', listed', inZip', keys_eq⟩ :=
    keys_of_sent valid.toFits (sent_of_owned valid inZip listed inKeys owned)
  obtain rfl := SimpleRangePartitionManager.range_unique valid.apart inZip inZip'
  cases listed.symm.trans listed'
  rw [keys_eq]
  exact List.mem_filter.mpr ⟨inKeys, decide_eq_true owned⟩

end SparseJob

namespace SparseJob

omit [AddCommMonoid Val] in
theorem twoServers_provided : twoServers.Provided where
  toContained := twoServers_contained
  holds _ _ _ _ _ := trivial
  some_add _ _ := List.cons_ne_nil _ _
  sized _ _ := rfl
  enough _ := Nat.le_refl 3
  small _ := (by decide : 2 + 0 + 1 + 2 ≤ intMax)

end SparseJob

namespace SparseSystem

variable {job : SparseJob Val} {state state' : SparseSystem job} {events : List (SparseEvent Val)}
  {inputs : List SparseInput} {server w : Tid}

omit [AddCommMonoid Val] in
/-- A server takes a `Clock` only after the first `speculation + 1` `Get`s of every worker. -/
def StartedUp (state : SparseSystem job) : SparseInput → Prop
  | .serve server w => (state.requests w server).inFlight.head?.map (fun msg => msg.flag) = some .kClock →
      ∀ v ∈ job.workers, 0 < (state.clients v).table.getCount ∧
        ∀ msg ∈ state.pending v server, msg.flag = .kGet → job.speculation < msg.version
  | _ => True

instance (state : SparseSystem job) (input : SparseInput) : Decidable (state.StartedUp input) :=
  match input with
  | .serve _ _ => inferInstanceAs (Decidable (_ = _ → ∀ v ∈ job.workers, _ ∧ ∀ msg ∈ _, _))
  | .get _ | .add _ | .push _ | .finish _ | .respond _ _ => isTrue trivial

variable (job) in
/-- The runs that start up before they go on. -/
abbrev StartedRun (inputs : List SparseInput) (state : SparseSystem job)
    (events : List (SparseEvent Val)) : Prop :=
  Machine.Runs step (fun state events input => state.Enabled events input ∧ state.StartedUp input)
    (start job) inputs state events

theorem StartedRun.run (run : StartedRun job inputs state events) : Run job inputs state events :=
  Machine.Runs.mono (fun _ _ _ admitted => admitted.1) run

/-! ## Fresh replies -/

variable (job) in
/-- Which `Add`s a reply to `Get_v` contains: `adds u` of each worker, all of the worker's own
    and those of the conflicting iterations that are out of the bound. -/
structure Fresh (w : Tid) (version : Nat) (key : Key) (adds : Tid → Nat) : Prop where
  own : version ≤ adds w
  conflicting : ∀ u ∈ job.workers, ∀ earlier keys, earlier + job.staleness + 1 ≤ version →
    (job.keys u)[earlier]? = some keys → key ∈ keys → earlier < adds u

variable (job) in
/-- A reply of a server contains `adds u` of the `Add`s of each worker, none of them past `limit`. -/
def FreshReply (limit : Tid → Nat) (server : Tid) (request reply : Message Val) : Prop :=
  ∃ w ∈ job.workers, ∃ version adds, request = (job.workload server).getMsg w version ∧
    (∀ u ∈ job.workers, adds u ≤ limit u) ∧
    (∀ key ∈ (job.workload server).keys w version, Fresh job w version key adds) ∧
    reply.data = [.u32 ((job.workload server).keys w version),
      .val (((job.workload server).keys w version).map fun key =>
        (job.storage server).value key + job.applied adds key)]

theorem FreshReply.mono {limit limit' : Tid → Nat} {request reply : Message Val}
    (fresh : FreshReply job limit server request reply) (more : ∀ u, limit u ≤ limit' u) :
    FreshReply job limit' server request reply := by
  obtain ⟨w, member, version, adds, genuine, bounded, rest⟩ := fresh
  exact ⟨w, member, version, adds, genuine, fun u inWorkers => Nat.le_trans (bounded u inWorkers) (more u),
    rest⟩

/-- A worker's early `Get` that is no longer on its way has been received. -/
theorem received_of_startedUp {position : Tid → Nat} (projected : state.Projected events server position)
    (member : w ∈ job.workers) (called : 0 < (state.clients w).table.getCount)
    (taken : ∀ msg ∈ state.pending w server, msg.flag = .kGet → job.speculation < msg.version)
    {version : Nat} (early : version ≤ job.speculation)
    (sent : (job.workload server).keys w version ≠ []) : version < position w := by
  by_contra behind
  have computed : version < state.items w := by
    simp only [items, itemsIssued, if_neg (Nat.ne_of_gt called)]
    omega
  have found : (job.workload server).message? w
      (streamItem (job.workload server).speculation version) =
        some ((job.workload server).getMsg w version) := by
    change (job.workload server).message? w (streamItem job.speculation version) = _
    rw [streamItem_early early, Workload.message?, if_neg sent]
  have onTheWay : (job.workload server).getMsg w version ∈ state.pending w server := by
    rw [projected.wire w member]
    exact Workload.mem_between (Nat.le_of_not_lt behind) computed found
  have late := taken _ onTheWay rfl
  rw [Workload.version_getMsg] at late
  omega

/-- What a server pushes when it takes a message is fresh. -/
theorem fresh_serve (valid : job.Valid) (provided : job.Provided) (wires : state.WireInv events)
    (inServers : server ∈ job.servers) (member : w ∈ job.workers) {msg : Message Val}
    {rest : List (Message Val)} (next : (state.requests w server).inFlight = msg :: rest)
    (startedUp : state.StartedUp (.serve server w))
    {model : SparseSSPModel Val (job.Main server)} {out : List (Event Val)}
    (handled : AbstractModel.handle (state.servers server) msg = .ok (model, out))
    {request reply : Message Val} {clocks : ProgressTracker}
    (pushed : .reply request reply clocks ∈ out) :
    FreshReply job (fun u => (state.clients u).table.addCount) server request reply := by
  obtain ⟨position, projected⟩ := wires.projected server inServers
  obtain ⟨ws, stream⟩ := projected.run
  have registered : w ∈ (state.servers server).progressTracker.threads := by
    have threads := SparseJob.threads_of_run valid.toFits stream
    rw [StreamState.threads] at threads
    rw [threads]
    exact List.mem_dedup.mpr member
  have wire := projected.wire w member
  rw [pending, next, List.cons_append] at wire
  obtain ⟨ws', n, stream', beyond, behind, sent, -⟩ := StreamState.run_before_message stream registered
    (projected.behind w member) wire.symm
  have item : StreamState.next (job.workload server)
      ⟨state.servers server, Function.update position w n⟩ w = streamItem job.speculation n := by
    change streamItem job.speculation (Function.update position w n w) = _
    rw [Function.update_self]
  have stepped : StreamState.step (job.workload server)
      ⟨state.servers server, Function.update position w n⟩ w =
        .ok (⟨model, Function.update position w (n + 1)⟩, out) := by
    have taken : (job.workload server).message? w (streamItem job.speculation n) = some msg := sent
    rw [StreamState.step, item, taken]
    simp only [handled, Except.ok_bind, Except.pure_eq_ok, Function.update_idem, Function.update_self]
  have within : ∀ u ∈ job.workers, Function.update position w (n + 1) u ≤ state.items u := by
    intro u inWorkers
    by_cases same : u = w
    · rw [same, Function.update_self]
      exact behind
    · rw [Function.update_of_ne same]
      exact projected.behind u inWorkers
  have ahead : ∀ u, position u ≤ Function.update position w (n + 1) u := by
    intro u
    by_cases same : u = w
    · rw [same, Function.update_self]
      omega
    · rw [Function.update_of_ne same]
  obtain ⟨u, inWorkers, v, genuine, own, conflicting, late, data⟩ :=
    reply_contains rfl (fun _ _ => SparseJob.owned valid.toFits) valid.speculative stream' registered stepped pushed
  refine ⟨u, inWorkers, v, StreamState.adds (job.workload server)
    ⟨model, Function.update position w (n + 1)⟩, genuine, fun u' inWorkers' => ?_, ?_, ?_⟩
  · exact (streamAdds_le (wires.shape u' inWorkers').balanced (within u' inWorkers')).1
  · intro key inV
    obtain ⟨range, inZip, owned⟩ := SparseJob.range_of_mem_keys valid inV
    refine ⟨own, fun u' inWorkers' earlier keys' below listed inKeys => ?_⟩
    have inX := SparseJob.mem_keys_of_owned valid inZip owned listed inKeys
    refine conflicting u' inWorkers' earlier below ?_ key inX inV
    cases Nat.lt_or_ge earlier job.speculation with
    | inr speculated => exact late u' inWorkers' earlier below speculated
    | inl early =>
        have answered : request ∈ out.filterMap Event.answered :=
          List.mem_filterMap.mpr ⟨_, pushed, rfl⟩
        have later : 0 < request.version := by
          rw [genuine, Workload.version_getMsg]
          omega
        obtain ⟨version, clocked⟩ := clock_of_answered stepped answered later
        have isClock : msg.flag = .kClock := by
          rw [item] at clocked
          have taken : (job.workload server).message? w (streamItem job.speculation n) = some msg := sent
          rw [clocked] at taken
          cases taken
          rfl
        obtain ⟨called, taken⟩ := startedUp (by rw [next, List.head?_cons, Option.map_some, isClock])
          u' inWorkers'
        have received := received_of_startedUp projected inWorkers' called taken (Nat.le_of_lt early)
          (List.ne_nil_of_mem inX)
        have more := ahead u'
        change earlier < streamGets job.speculation _
        simp only [streamGets]
        omega
  · rw [data]
    congr 3
    refine List.map_congr_left fun key inV => ?_
    obtain ⟨range, inZip, owned⟩ := SparseJob.range_of_mem_keys valid inV
    rw [SparseJob.applied_eq valid provided inZip owned]

/-! ## Runs -/

/-- All that a server has pushed is fresh. -/
theorem fresh_run (valid : job.Valid) (provided : job.Provided) (run : StartedRun job inputs state events)
    {request reply : Message Val} {clocks : ProgressTracker}
    (pushed : .served server (.reply request reply clocks) ∈ events) :
    FreshReply job (fun u => (state.clients u).table.addCount) server request reply := by
  refine run.invariant (P := fun _ state events =>
    .served server (.reply request reply clocks) ∈ events →
      FreshReply job (fun u => (state.clients u).table.addCount) server request reply)
    (fun member => by cases member) ?_ pushed
  intro _ state events input state' out run fresh admitted stepped pushed
  have wires := wire_run valid.toFits (StartedRun.run run)
  have taken := step_cases admitted.1 stepped
  have counts := counts_step valid.toFits wires taken
  rcases List.mem_append.mp pushed with before | now
  · refine (fresh before).mono fun u => ?_
    rw [(counts u).2]
    exact Nat.le_add_right _ _
  · cases taken with
    | get _ _ _ => cases now
    | add _ _ _ => cases now
    | push _ _ => cases now
    | finish _ _ => cases now
    | serve inServers member next handled =>
        obtain ⟨event, inOut, same⟩ := List.mem_map.mp now
        cases same
        exact fresh_serve valid provided wires inServers member next admitted.2 handled inOut
    | respond _ _ _ _ =>
        obtain ⟨got, -, same⟩ := List.mem_map.mp now
        cases same

/-- Every value that a worker gets contains all that the worker itself has added before and, of
    every worker, all that was added more than `staleness` iterations ago by an iteration that reads
    the key. The values of one server are those of one moment: they contain the same `Add`s. -/
theorem get_bounded_staleness (valid : job.Valid) (provided : job.Provided)
    (run : StartedRun job inputs state events) {getCount : Nat} {recvKvs : List (KVPairs Val)}
    {vals : List Val} (got : .gotten w getCount recvKvs vals ∈ events) :
    ∃ version keys, getCount = version + 1 ∧ (job.keys w)[version]? = some keys ∧
      vals.length = keys.length ∧
      ∃ adds : Tid → Tid → Nat,
        ∀ key val, (key, val) ∈ keys.zip vals → ∃ range server,
          (range, server) ∈ job.manager.ranges.zip job.servers ∧ range.Owns key ∧
          (∀ u ∈ job.workers, adds server u ≤ (state.clients u).table.addCount) ∧
          Fresh job w version key (adds server) ∧
          val = (job.storage server).value key + job.applied (adds server) key := by
  obtain ⟨member, version, keys, answers, count, listed, each, -, sized, zipped⟩ :=
    gotten_run valid.paced run.run got
  refine ⟨version, keys, count, listed, sized, ?_⟩
  have answer : List.Forall₂ (fun server answer => ∃ adds : Tid → Nat,
      (∀ u ∈ job.workers, adds u ≤ (state.clients u).table.addCount) ∧
      (∀ key ∈ (job.workload server).keys w version, Fresh job w version key adds) ∧
      answer.kvs.keys.zip answer.kvs.vals = ((job.workload server).keys w version).map fun key =>
        (key, (job.storage server).value key + job.applied adds key))
      (job.owners w version) answers := by
    refine each.imp ?_
    rintro server answer ⟨-, clocks, pushed⟩
    obtain ⟨u, -, v, adds, genuine, bounded, fresh, data⟩ := fresh_run valid provided run pushed
    obtain rfl : w = u := congrArg (fun msg => msg.sender) genuine
    obtain rfl : version = v := congrArg (fun msg => msg.version) genuine
    refine ⟨adds, bounded, fresh, ?_⟩
    rw [Message.kvs, data]
    have zipped := List.zip_map' (f := id) (l := (job.workload server).keys w version)
      (g := fun key => (job.storage server).value key + job.applied adds key)
    rw [List.map_id] at zipped
    exact zipped
  obtain ⟨adds, assigned⟩ := Gather.assign (valid.apart.sublist List.filter_sublist) answer
  refine ⟨adds, fun key val inZip => ?_⟩
  rw [zipped] at inZip
  obtain ⟨msg, inAnswers, inMsg⟩ := List.mem_flatMap.mp inZip
  obtain ⟨server, -, bounded, fresh, values⟩ := exists_same_of_mem assigned.flip inAnswers
  rw [values] at inMsg
  obtain ⟨key', inKeys, same⟩ := List.mem_map.mp inMsg
  cases same
  obtain ⟨range, inRanges, owned⟩ := SparseJob.range_of_mem_keys valid inKeys
  exact ⟨range, server, inRanges, owned, bounded, fresh key inKeys, rfl⟩

/-- In the second iteration a worker sees what either worker has added in the first. -/
theorem get_bounded_staleness_twoServers : ∃ (vals : List Int) (adds : Tid → Tid → Nat),
    vals.length = 2 ∧ ∀ key val, (key, val) ∈ ([2, 7] : List Key).zip vals → ∃ server,
      0 < adds server 8 ∧ 0 < adds server 9 ∧
        val = 0 + SparseJob.twoServers.applied (adds server) key := by
  obtain ⟨state, events, run, returned⟩ := Machine.runs_of_exec step
    (fun state events input => state.Enabled events input ∧ state.StartedUp input)
    (start SparseJob.twoServers)
    [.get 8, .push 8, .push 8, .push 8, .push 8, .get 9, .push 9, .push 9, .push 9, .push 9,
      .serve 0 8, .serve 0 8, .serve 1 8, .serve 1 8, .serve 0 9, .serve 0 9, .serve 1 9, .serve 1 9,
      .respond 0 8, .respond 1 8, .finish 8, .add 8, .push 8, .push 8, .finish 8,
      .get 8, .push 8, .push 8, .push 8, .push 8,
      .respond 1 9, .respond 0 9, .finish 9, .add 9, .push 9, .push 9, .finish 9,
      .get 9, .push 9, .push 9, .push 9, .push 9,
      .serve 0 8, .serve 0 8, .serve 0 9, .serve 0 9, .serve 1 9, .serve 1 9, .serve 1 8, .serve 1 8,
      .respond 0 8, .respond 1 8]
    (fun _ events => events.any (returns 8 2) = true) (by decide +kernel)
  obtain ⟨recvKvs, vals, got⟩ := exists_returned returned
  obtain ⟨version, keys, count, listed, sized, adds, fresh⟩ := get_bounded_staleness
    SparseJob.twoServers_valid SparseJob.twoServers_provided run got
  obtain rfl : version = 1 := by omega
  obtain rfl : [2, 7] = keys := Option.some.inj listed
  refine ⟨vals, adds, sized, fun key val inZip => ?_⟩
  obtain ⟨_, server, -, -, -, contains, val_eq⟩ := fresh key val inZip
  have inKeys : key ∈ ([2, 7] : List Key) := (List.of_mem_zip inZip).1
  exact ⟨server, contains.own, contains.conflicting 9 (by decide) 0 [2, 7] (by decide) rfl inKeys, val_eq⟩

end SparseSystem

end FlexPS
