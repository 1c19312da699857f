import FlexPS.System.SparseAnswers

/-! # Sparse clients and servers never deadlock

When every queue is empty, the slowest worker has sent as many `Clock`s to every server as the
minimum clock of that server says, so the `Get` it is in is within the staleness bound and has
been answered. Nobody is blocked before it, so all workers are done.
-/

namespace FlexPS

variable {Val : Type} [AddCommMonoid Val]

/-! ## Servers without anything to do -/

section Drained

variable {Main : Type} [MainRecorder Val Main] {W : Workload Val} {start : StreamState Val Main}
  {model : SparseSSPModel Val Main} {position : Tid → Nat} {ws : List Tid} {w : Tid}
  {events : List (Event Val)}

/-- A server passes the absent items of a worker. -/
theorem StreamState.run_absent {last : Nat}
    (run : Machine.Runs (StreamState.step W) StreamState.Registered start ws ⟨model, position⟩ events)
    (registered : w ∈ model.progressTracker.threads) (behind : position w ≤ last)
    (absent : W.between w (position w) last = []) :
    ∃ ws', Machine.Runs (StreamState.step W) StreamState.Registered start ws'
      ⟨model, Function.update position w last⟩ events := by
  induction remaining : last - position w generalizing position ws with
  | zero =>
      have same : last = position w := by omega
      rw [same, Function.update_eq_self]
      exact ⟨ws, run⟩
  | succ remaining ih =>
      have inside : position w < last := by omega
      rw [Workload.between_cons inside] at absent
      obtain ⟨here, later⟩ := List.append_eq_nil_iff.mp absent
      have nothing : W.message? w (streamItem W.speculation (position w)) = none := by
        cases sent : W.message? w (streamItem W.speculation (position w)) with
        | none => rfl
        | some msg =>
            rw [sent] at here
            cases here
      have stepped : StreamState.step W ⟨model, position⟩ w =
          .ok (⟨model, Function.update position w (position w + 1)⟩, []) := by
        simp only [StreamState.step, StreamState.next, nothing, Except.pure_eq_ok]
      have longer := run.snoc registered stepped
      rw [List.append_nil] at longer
      obtain ⟨ws', run'⟩ := ih longer (by rw [Function.update_self]; omega)
        (by rw [Function.update_self]; exact later) (by rw [Function.update_self]; omega)
      rw [Function.update_idem] at run'
      exact ⟨ws', run'⟩

/-- A `Get` that its worker has entered and that is within the staleness bound is answered. -/
theorem StreamInv.answered_within {staleness : Nat} {threads : List Tid} {storage : Storage Val}
    {answered : Tid → Nat → Nat} {slots : StreamState Val (Slots Val)} {version : Nat}
    (inv : StreamInv W staleness threads storage answered slots) (registered : w ∈ threads)
    (received : version < slots.gets W w) (sent : W.keys w version ≠ [])
    (entered : version ≤ slots.progress w) (within : version ≤ slots.minClock + staleness) :
    answered w version = 1 := by
  have ledger := inv.server.base.recorder.ledger w registered version
  rw [if_pos ⟨received, entered, sent⟩] at ledger
  simp only [StreamState.minClock] at within
  have slow : tally w version slots.model.recorder.tooFastBuffer = 0 := by
    by_contra some_fast
    obtain ⟨msg, inBuffer, -, version_eq⟩ := tally_pos (Nat.pos_of_ne_zero some_fast)
    have fast := (inv.server.base.recorder.tooFast msg inBuffer).2
    omega
  have free : tally w version (slots.model.recorder.mainRecorder.held.map Prod.snd) = 0 := by
    by_contra some_held
    obtain ⟨msg, inHeld, -, version_eq⟩ := tally_pos (Nat.pos_of_ne_zero some_held)
    obtain ⟨h, held, rfl⟩ := List.mem_map.mp inHeld
    have waits := (inv.server.base.recorder.held h held).2
    have above := waits.above
    have below := waits.below
    omega
  omega

/-- The minimum clock is the number of `Clock`s of the slowest worker. -/
theorem StreamInv.minClock_ge {staleness : Nat} {threads : List Tid} {storage : Storage Val}
    {answered : Tid → Nat → Nat} {slots : StreamState Val (Slots Val)} {least : Nat}
    (inv : StreamInv W staleness threads storage answered slots) (registered : w ∈ threads)
    (clocked : ∀ v ∈ threads, least ≤ slots.clocks W v) : least ≤ slots.minClock := by
  have clocks := inv.server.base.clocks
  obtain ⟨v, member, slowest⟩ := clocks.exact.attained
    (clocks.threads_eq ▸ List.ne_nil_of_mem registered)
  have sum := inv.server.clocks_eq v
  have few := clocks.count_waiting v
  have enough := clocked v (clocks.threads_eq ▸ member)
  simp only [StreamState.minClock]
  omega

end Drained

/-! ## A measure -/

section Measure

/-- Lexicographic order. -/
abbrev LessWork : Nat × Nat × Nat × Nat × Nat → Nat × Nat × Nat × Nat × Nat → Prop :=
  Prod.Lex (· < ·) (Prod.Lex (· < ·) (Prod.Lex (· < ·) (Prod.Lex (· < ·) (· < ·))))

theorem lessWork_wf : WellFounded LessWork :=
  have wf := Nat.lt_wfRel.wf
  WellFounded.prod_lex wf (WellFounded.prod_lex wf (WellFounded.prod_lex wf (WellFounded.prod_lex wf wf)))

theorem sum_lt_of_one {ι : Type} {s : Finset ι} {f f' : ι → Nat} {i : ι} (member : i ∈ s)
    (lower : f' i < f i) (same : ∀ j, j ≠ i → f' j = f j) : ∑ j ∈ s, f' j < ∑ j ∈ s, f j := by
  refine Finset.sum_lt_sum (fun j _ => ?_) ⟨i, member, lower⟩
  by_cases here : j = i
  · rw [here]
    exact Nat.le_of_lt lower
  · exact Nat.le_of_eq (same j here)

end Measure

/-- One server for all keys below 10. -/
def SparseJob.oneRange : SimpleRangePartitionManager := ⟨[⟨0, 10⟩], [0], rfl⟩

/-- One worker and one server, with the default of `CreateTable`. -/
def SparseJob.unspeculative (rounds : Nat) : SparseJob Int :=
  { twoServers with
    manager := oneRange
    speculation := 0
    workers := [8]
    rounds := fun _ => rounds }

theorem SparseJob.unspeculative_fits (rounds : Nat) : (unspeculative rounds).Fits where
  constructs := ⟨fun _ _ => ⟨_, rfl⟩, fun _ _ => ⟨_, rfl⟩⟩
  some_range := List.cons_ne_nil _ _
  contiguous := (by decide : oneRange.Contiguous)
  apart := List.nodup_singleton 0
  recorders _ _ _ := .inl rfl
  some_key := twoServers_valid.some_key
  sorted several := absurd rfl several
  inside := twoServers_valid.inside

namespace SparseSystem

variable {job : SparseJob Val} {state state' : SparseSystem job} {events : List (SparseEvent Val)}
  {server w : Tid} {position : Tid → Nat}

/-- A server that has taken everything its workers have sent has seen all they have computed. -/
theorem run_drained (fits : job.Fits) (projected : state.Projected events server position)
    (empty : ∀ w ∈ job.workers, state.pending w server = []) :
    ∃ ws position', job.StreamRun server ws ⟨state.servers server, position'⟩
        (events.filterMap (SparseEvent.at? server)) ∧
      ∀ w ∈ job.workers, position' w = state.items w := by
  suffices general : ∀ tids : List Tid, (∀ w ∈ tids, w ∈ job.workers) → ∃ ws position',
      job.StreamRun server ws ⟨state.servers server, position'⟩
        (events.filterMap (SparseEvent.at? server)) ∧
      (∀ w ∈ tids, position' w = state.items w) ∧ ∀ w ∉ tids, position' w = position w by
    obtain ⟨ws, position', run, done, -⟩ := general job.workers fun _ member => member
    exact ⟨ws, position', run, done⟩
  intro tids members
  induction tids with
  | nil =>
      obtain ⟨ws, run⟩ := projected.run
      exact ⟨ws, position, run, fun _ member => absurd member List.not_mem_nil, fun _ _ => rfl⟩
  | cons w rest ih =>
      obtain ⟨ws, position', run, done, same⟩ :=
        ih fun v member => members v (List.mem_cons_of_mem _ member)
      by_cases earlier : w ∈ rest
      · refine ⟨ws, position', run, ?_, fun v notIn => same v fun member =>
          notIn (List.mem_cons_of_mem _ member)⟩
        exact List.forall_mem_cons.mpr ⟨done w earlier, done⟩
      · have member := members w List.mem_cons_self
        have registered : w ∈ (state.servers server).progressTracker.threads := by
          have threads := SparseJob.threads_of_run fits run
          rw [StreamState.threads] at threads
          rw [threads]
          exact List.mem_dedup.mpr member
        have wire := projected.wire w member
        rw [empty w member, ← same w earlier] at wire
        obtain ⟨ws', run'⟩ := StreamState.run_absent run registered
          (same w earlier ▸ projected.behind w member) wire.symm
        refine ⟨ws', _, run', ?_, ?_⟩
        · refine List.forall_mem_cons.mpr ⟨Function.update_self .., fun v later => ?_⟩
          have other : v ≠ w := by
            rintro rfl
            exact earlier later
          rw [Function.update_of_ne other]
          exact done v later
        · intro v notIn
          rw [List.mem_cons, not_or] at notIn
          rw [Function.update_of_ne notIn.1]
          exact same v notIn.2

omit [AddCommMonoid Val] in
/-- A worker that has called `Get` so often has computed one `Clock` less. -/
theorem streamClocks_itemsIssued {p gets adds : Nat} (balanced : adds ≤ gets ∧ gets ≤ adds + 1) :
    streamClocks p (itemsIssued p gets adds) = gets - 1 := by
  simp only [streamClocks, itemsIssued]
  split <;> omega

omit [AddCommMonoid Val] in
theorem streamGets_itemsIssued {p gets adds : Nat} (balanced : adds ≤ gets ∧ gets ≤ adds + 1)
    (called : 0 < gets) : gets ≤ streamGets p (itemsIssued p gets adds) := by
  simp only [streamGets, itemsIssued]
  split <;> omega

/-- Without anything to do, every server has answered the slowest worker. -/
theorem slowest_answered (paced : job.Paced) (wires : state.WireInv events)
    (inServers : server ∈ job.servers) (empty : ∀ w ∈ job.workers, state.pending w server = [])
    (member : w ∈ job.workers) (called : 0 < (state.clients w).table.getCount)
    (slowest : ∀ v ∈ job.workers,
      (state.clients w).table.getCount ≤ (state.clients v).table.getCount)
    (owner : (job.workload server).keys w ((state.clients w).table.getCount - 1) ≠ []) :
    (state.replies server w).sent.countP
      (fun msg => msg.version = (state.clients w).table.getCount - 1) = 1 := by
  obtain ⟨position, projected⟩ := wires.projected server inServers
  obtain ⟨ws, position', run, done⟩ := run_drained paced.toFits projected empty
  have quiet : StreamState.Paced (job.workload server) job.workers ⟨state.servers server, position'⟩ :=
    paced_of_behind paced wires.shape fun v inWorkers => Nat.le_of_eq (done v inWorkers)
  obtain ⟨slots, events', coupled, inv, -, -⟩ := SparseJob.slots_of_run paced.toFits run quiet
  have registered := List.mem_dedup.mpr member
  have clocks_eq : ∀ v ∈ job.workers, slots.clocks (job.workload server) v =
      (state.clients v).table.getCount - 1 := by
    intro v memberV
    rw [← coupled.clocks_eq]
    change streamClocks job.speculation (position' v) = _
    rw [done v memberV]
    exact streamClocks_itemsIssued (wires.shape v memberV).balanced
  have least : (state.clients w).table.getCount - 1 ≤ slots.minClock := by
    refine inv.minClock_ge registered fun v memberV => ?_
    rw [clocks_eq v (List.mem_dedup.mp memberV)]
    have := slowest v (List.mem_dedup.mp memberV)
    omega
  have entered : (state.clients w).table.getCount - 1 ≤ slots.progress w :=
    Nat.le_trans least (inv.server.base.clocks.exact.le w
      (inv.server.base.clocks.threads_eq ▸ registered))
  have received : (state.clients w).table.getCount - 1 < slots.gets (job.workload server) w := by
    rw [← coupled.gets_eq]
    change _ < streamGets job.speculation (position' w)
    rw [done w member]
    have all := streamGets_itemsIssued (p := job.speculation) (wires.shape w member).balanced called
    simp only [items]
    omega
  have answered := inv.answered_within registered received owner entered (by omega)
  rw [wires.replied server w, SparseJob.countP_pushed paced.toFits run quiet, answered]

/-! ## Nothing left to do -/

/-- Only a call changes how often a worker has called. -/
theorem counts_step (fits : job.Fits) (wires : state.WireInv events) {input : SparseInput}
    {out : List (SparseEvent Val)} (stepped : Stepped state input state' out) (u : Tid) :
    (state'.clients u).table.getCount =
        (state.clients u).table.getCount + (if input = .get u then 1 else 0) ∧
      (state'.clients u).table.addCount =
        (state.clients u).table.addCount + (if input = .add u then 1 else 0) := by
  cases stepped with
  | @get w client member idle more called =>
      obtain ⟨-, client_eq, -⟩ := clientGet_spec fits (wires.shape w member) called
      rw [setClient_clients]
      by_cases same : u = w
      · subst same
        rw [client_eq]
        simp [SparseJob.table]
      · have other : w ≠ u := fun h => same h.symm
        simp [same, other]
  | @add w client member idle called =>
      obtain ⟨-, client_eq, -⟩ := clientAdd_spec fits (wires.shape w member) called
      rw [setClient_clients]
      by_cases same : u = w
      · subst same
        rw [client_eq]
        simp [SparseJob.table]
      · have other : w ≠ u := fun h => same h.symm
        simp [same, other]
  | push member next =>
      simp only [setClient_clients]
      split <;> simp_all
  | finish member returns =>
      simp only [setClient_clients]
      split <;> simp_all
  | serve inServers member next handled => simp
  | @respond server w msg rest client finished inServers member next added =>
      obtain ⟨-, -, -, client_eq, -⟩ := addResponse_spec added
      simp only [setClient_clients]
      split
      next same =>
        rw [client_eq, same]
        simp
      next => simp

/-- No step can be taken. -/
def Stuck (state : SparseSystem job) (events : List (SparseEvent Val)) : Prop :=
  ∀ input, ¬ state.Enabled events input

omit [AddCommMonoid Val] in
theorem Stuck.empty (stuck : state.Stuck events) {w : Tid} (member : w ∈ job.workers) :
    (state.clients w).todo = [] ∧ ∀ server ∈ job.servers,
      state.pending w server = [] ∧ (state.replies server w).inFlight = [] := by
  have pushed : (state.clients w).todo = [] := by
    by_contra more
    exact stuck (.push w) ⟨member, more⟩
  refine ⟨pushed, fun server inServers => ⟨?_, ?_⟩⟩
  · have served : (state.requests w server).inFlight = [] := by
      by_contra more
      exact stuck (.serve server w) ⟨inServers, member, more⟩
    rw [pending, served, pushed]
    rfl
  · by_contra more
    exact stuck (.respond server w) ⟨inServers, member, more⟩

/-- The slowest worker has everything it waits for. -/
theorem slowest_returns (paced : job.Paced) {inputs : List SparseInput}
    (run : Run job inputs state events) (stuck : state.Stuck events) (member : w ∈ job.workers)
    (slowest : ∀ v ∈ job.workers,
      (state.clients w).table.getCount ≤ (state.clients v).table.getCount)
    (inGet : (state.clients w).call = .get) : (state.clients w).tracker.1 = (state.clients w).tracker.2 := by
  have wires := wire_run paced.toFits run
  have inv := client_run paced run w member
  have called : 0 < (state.clients w).table.getCount := by
    rw [inv.called inGet]
    exact Nat.succ_pos _
  rw [inv.tracker called]
  refine Eq.symm (Gather.length_eq fun server owner => ?_)
  obtain ⟨inServers, keys_sent⟩ := mem_owners.mp owner
  have answered := slowest_answered paced wires inServers
    (fun v inWorkers => ((stuck.empty inWorkers).2 server inServers).1) member called slowest keys_sent
  rw [Link.sent, ((stuck.empty member).2 server inServers).2, List.append_nil] at answered
  rw [arrivedFrom, ← List.countP_eq_length_filter, answered]

/-- When nothing can go on, every worker has returned from all its calls: no `Get` waits forever
    for a server. -/
theorem stuck_done (paced : job.Paced) {n : Nat} (alike : ∀ w ∈ job.workers, job.rounds w = n)
    {inputs : List SparseInput} (run : Run job inputs state events) (stuck : state.Stuck events) :
    ∀ w ∈ job.workers, (state.clients w).call = .outside ∧
      (state.clients w).table.getCount = n ∧ (state.clients w).table.addCount = n := by
  have wires := wire_run paced.toFits run
  have slowest_done : ∀ w ∈ job.workers, (∀ v ∈ job.workers,
      (state.clients w).table.getCount ≤ (state.clients v).table.getCount) →
      (state.clients w).call = .outside ∧ (state.clients w).table.getCount = n ∧
        (state.clients w).table.addCount = n := by
    intro w member slowest
    have outside : (state.clients w).call = .outside := by
      by_contra inside
      exact stuck (.finish w) ⟨member, inside, (stuck.empty member).1,
        slowest_returns paced run stuck member slowest⟩
    have bounded := (wires.shape w member).bounded
    have balanced := (wires.shape w member).balanced
    have added : (state.clients w).table.getCount ≠ (state.clients w).table.addCount + 1 :=
      fun due => stuck (.add w) ⟨member, outside, due⟩
    have last : ¬ (state.clients w).table.getCount < job.rounds w :=
      fun more => stuck (.get w) ⟨member, outside, by omega, more⟩
    rw [alike w member] at bounded last
    exact ⟨outside, by omega, by omega⟩
  intro w member
  obtain ⟨v, inWorkers, slowest⟩ := Finset.exists_min_image job.workers.toFinset
    (fun v => (state.clients v).table.getCount) ⟨w, List.mem_toFinset.mpr member⟩
  have slowest : ∀ u ∈ job.workers,
      (state.clients v).table.getCount ≤ (state.clients u).table.getCount :=
    fun u inWorkers => slowest u (List.mem_toFinset.mpr inWorkers)
  obtain ⟨-, last, -⟩ := slowest_done v (List.mem_toFinset.mp inWorkers) slowest
  refine slowest_done w member fun u inWorkers => ?_
  have bounded := (wires.shape w member).bounded
  rw [alike w member] at bounded
  have behind := slowest u inWorkers
  omega

/-! ## Clients that do not speculate -/

/-- The second `Get` of a client that does not speculate reads past the end of `num_reqs_`: it
    appends the number of requests of a `Get` after it has read it. -/
theorem second_get_fails (wires : state.WireInv events) (unspeculative : job.speculation = 0)
    (admitted : state.Enabled events (.get w)) (called : 0 < (state.clients w).table.getCount) :
    state.step (.get w) = .error .outOfRange := by
  have balanced := admitted.2.2.1
  obtain ⟨round, count⟩ := Nat.exists_eq_succ_of_ne_zero (Nat.ne_of_gt called)
  have ended : (state.clients w).table.numReqs[(state.clients w).table.getCount]? = none := by
    rw [(wires.shape w admitted.1).table_eq]
    simp only [SparseJob.table, if_neg (Nat.ne_of_gt called), unspeculative, Nat.add_zero,
      List.getElem?_eq_none_iff, List.length_map, List.length_range, Nat.le_refl]
  have failed : (state.clients w).table.get = .error .outOfRange := by
    simp only [SparseKVClientTable.get, check_pos balanced, Except.ok_bind, Nat.add_sub_cancel, ended]
    rw [if_neg (by omega)]
  simp only [step, SparseClient.get, failed]
  rfl

/-- The next `Get` finds its number of requests in `num_reqs_`, and where no step can be taken
    every worker has returned from its `n` calls. -/
structure NeverBlocks (state : SparseSystem job) (events : List (SparseEvent Val)) (n : Nat) :
    Prop where
  inBounds : ∀ w ∈ job.workers, state.Enabled events (.get w) →
    0 < (state.clients w).table.getCount →
      (state.clients w).table.getCount < (state.clients w).table.numReqs.length
  completes : state.Stuck events → ∀ w ∈ job.workers, (state.clients w).call = .outside ∧
    (state.clients w).table.getCount = n ∧ (state.clients w).table.addCount = n

/-- Clients that speculate, or call `Get` only once, never wait forever, and have counted the
    requests of every `Get` before they wait for it. -/
theorem never_blocks (fits : job.Fits) {n : Nat} (alike : ∀ w ∈ job.workers, job.rounds w = n)
    (few : 1 ≤ job.speculation ∨ n ≤ 1) {inputs : List SparseInput}
    (run : Run job inputs state events) : state.NeverBlocks events n := by
  have paced : job.Paced := ⟨fits, few.imp_right fun once w member => alike w member ▸ once⟩
  constructor
  case inBounds =>
    intro w member admitted called
    have more := admitted.2.2.2
    rw [alike w member] at more
    have issued : (state.clients w).table.getCount <
        (state.clients w).table.getCount + job.speculation := by omega
    exact (List.getElem?_eq_some_iff.mp (numReqs_eq (wire_run fits run) member called issued)).1
  case completes => exact fun stuck => stuck_done paced alike run stuck

/-- A worker without speculation, after its only round. -/
theorem never_blocks_unspeculative : ∃ state events, Run (SparseJob.unspeculative 1)
    [.get 8, .push 8, .serve 0 8, .respond 0 8, .finish 8, .add 8, .push 8, .serve 0 8, .finish 8]
    state events ∧ state.NeverBlocks events 1 := by
  obtain ⟨state, events, run, -⟩ := Machine.runs_of_exec step Enabled
    (start (SparseJob.unspeculative 1))
    [.get 8, .push 8, .serve 0 8, .respond 0 8, .finish 8, .add 8, .push 8, .serve 0 8, .finish 8]
    (fun _ _ => True) (by decide +kernel)
  exact ⟨state, events, run, never_blocks (SparseJob.unspeculative_fits 1) (fun _ _ => rfl)
    (.inr (Nat.le_refl 1)) run⟩

/-- The second `Get` of a worker without speculation, which the client admits. -/
theorem never_blocks_fails : (SparseJob.unspeculative 2).Fits ∧
    (∀ w ∈ [8], 2 + 0 ≤ ((SparseJob.unspeculative 2).keys w).length) ∧
    ¬ ∀ inputs state events, Run (SparseJob.unspeculative 2) inputs state events →
      state.NeverBlocks events 2 := by
  refine ⟨SparseJob.unspeculative_fits 2, by decide, fun bounds => ?_⟩
  obtain ⟨state, events, run, admitted, called, ended⟩ := Machine.runs_of_exec step Enabled
    (start (SparseJob.unspeculative 2))
    [.get 8, .push 8, .serve 0 8, .respond 0 8, .finish 8, .add 8, .push 8, .finish 8]
    (fun state events => state.Enabled events (.get 8) ∧ 0 < (state.clients 8).table.getCount ∧
      ¬ (state.clients 8).table.getCount < (state.clients 8).table.numReqs.length)
    (by decide +kernel)
  exact ended ((bounds _ _ _ run).inBounds 8 (by decide) admitted called)

/-! ## Every schedule stops -/

/-- How often workers can still call their tables. -/
def callsLeft (state : SparseSystem job) : Nat :=
  ∑ w ∈ job.workers.toFinset,
    (2 * job.rounds w - ((state.clients w).table.getCount + (state.clients w).table.addCount))

def messagesToPush (state : SparseSystem job) : Nat :=
  ∑ w ∈ job.workers.toFinset, (state.clients w).todo.length

def requestsInFlight (state : SparseSystem job) : Nat :=
  ∑ w ∈ job.workers.toFinset, ∑ server ∈ job.servers.toFinset,
    (state.requests w server).inFlight.length

def repliesInFlight (state : SparseSystem job) : Nat :=
  ∑ server ∈ job.servers.toFinset, ∑ w ∈ job.workers.toFinset,
    (state.replies server w).inFlight.length

/-- How many workers are in a call. -/
def callsToFinish (state : SparseSystem job) : Nat :=
  ∑ w ∈ job.workers.toFinset, if (state.clients w).call = .outside then 0 else 1

/-- What is left to do, the most significant first. -/
def work (state : SparseSystem job) : Nat × Nat × Nat × Nat × Nat :=
  (state.callsLeft, state.messagesToPush, state.requestsInFlight, state.repliesInFlight,
    state.callsToFinish)

/-- A step that is not a call leaves as many calls. -/
theorem callsLeft_step (fits : job.Fits) (wires : state.WireInv events) {input : SparseInput}
    {out : List (SparseEvent Val)} (stepped : Stepped state input state' out)
    (getNot : ∀ w, input ≠ .get w) (addNot : ∀ w, input ≠ .add w) :
    state'.callsLeft = state.callsLeft := by
  refine Finset.sum_congr rfl fun u _ => ?_
  obtain ⟨gets, adds⟩ := counts_step fits wires stepped u
  rw [if_neg (getNot u)] at gets
  rw [if_neg (addNot u)] at adds
  rw [gets, adds, Nat.add_zero, Nat.add_zero]

theorem callsLeft_lt (fits : job.Fits) (wires : state.WireInv events) {input : SparseInput}
    {out : List (SparseEvent Val)} (stepped : Stepped state input state' out)
    (member : w ∈ job.workers) (call : input = .get w ∨ input = .add w)
    (more : (state.clients w).table.getCount + (state.clients w).table.addCount < 2 * job.rounds w) :
    state'.callsLeft < state.callsLeft := by
  refine sum_lt_of_one (List.mem_toFinset.mpr member) ?_ fun u other => ?_
  · obtain ⟨gets, adds⟩ := counts_step fits wires stepped w
    rw [gets, adds]
    rcases call with rfl | rfl
    · rw [if_pos rfl, if_neg (by simp)]
      omega
    · rw [if_pos rfl, if_neg (by simp)]
      omega
  · obtain ⟨gets, adds⟩ := counts_step fits wires stepped u
    rw [gets, adds]
    rcases call with rfl | rfl <;> simp [Ne.symm other]

/-- Every step leaves less to do. -/
theorem work_lowers (fits : job.Fits) {inputs : List SparseInput} (run : Run job inputs state events)
    {input : SparseInput} (admitted : state.Enabled events input) {out : List (SparseEvent Val)}
    (taken : state.step input = .ok (state', out)) : LessWork state'.work state.work := by
  have wires := wire_run fits run
  have stepped := step_cases admitted taken
  have kept := callsLeft_step fits wires stepped
  have servers_mem : ∀ {server}, server ∈ job.servers → server ∈ job.servers.toFinset :=
    List.mem_toFinset.mpr
  have workers_mem : ∀ {w}, w ∈ job.workers → w ∈ job.workers.toFinset := List.mem_toFinset.mpr
  simp only [LessWork, work, Prod.lex_iff]
  cases stepped with
  | @get w client member idle more called =>
      refine .inl (callsLeft_lt fits wires (.get member idle more called) member (.inl rfl) ?_)
      have balanced := admitted.2.2.1
      omega
  | @add w client member idle called =>
      refine .inl (callsLeft_lt fits wires (.add member idle called) member (.inr rfl) ?_)
      have balanced := admitted.2.2
      have most := (wires.shape w member).bounded
      omega
  | @push w msg todo member next =>
      refine .inr ⟨kept (fun _ same => by cases same) (fun _ same => by cases same), .inl ?_⟩
      refine sum_lt_of_one (workers_mem member) ?_ fun u other => ?_
      · simp only [setClient_clients, if_true, next, List.length_cons]
        exact Nat.lt_succ_self _
      · simp only [setClient_clients, if_neg other]
  | @finish w member returns =>
      refine .inr ⟨kept (fun _ same => by cases same) (fun _ same => by cases same),
        .inr ⟨?_, .inr ⟨rfl, .inr ⟨rfl, ?_⟩⟩⟩⟩
      · refine Finset.sum_congr rfl fun u _ => ?_
        rw [setClient_clients]
        split
        next same => rw [same]
        next => rfl
      · refine sum_lt_of_one (workers_mem member) ?_ fun u other => ?_
        · rw [setClient_clients, if_pos rfl, if_pos rfl, if_neg returns.1]
          exact Nat.one_pos
        · rw [setClient_clients, if_neg other]
  | @serve server w msg rest model out inServers member next handled =>
      refine .inr ⟨rfl, .inr ⟨rfl, .inl ?_⟩⟩
      refine sum_lt_of_one (workers_mem member) ?_ fun u other => ?_
      · refine sum_lt_of_one (servers_mem inServers) ?_ fun server' other => ?_
        · simp only [Link.set_apply, and_self, if_true, Link.receive_eq next, next, List.length_cons]
          exact Nat.lt_succ_self _
        · simp only [Link.set_apply, other, and_false, if_false]
      · simp only [Link.set_apply, other, false_and, if_false]
  | @respond server w msg rest client finished inServers member next added =>
      obtain ⟨-, -, -, client_eq, -⟩ := addResponse_spec added
      refine .inr ⟨kept (fun _ same => by cases same) (fun _ same => by cases same),
        .inr ⟨?_, .inr ⟨rfl, .inl ?_⟩⟩⟩
      · refine Finset.sum_congr rfl fun u _ => ?_
        simp only [setClient_clients]
        split
        next same => rw [client_eq, same]
        next => rfl
      · refine sum_lt_of_one (servers_mem inServers) ?_ fun server' other => ?_
        · refine sum_lt_of_one (workers_mem member) ?_ fun u other => ?_
          · simp only [Link.set_apply, and_self, if_true, Link.receive_eq next, next, List.length_cons]
            exact Nat.lt_succ_self _
          · simp only [Link.set_apply, other, and_false, if_false]
        · simp only [Link.set_apply, other, false_and, if_false]

/-- Whatever the order of the steps is, the clients and servers stop: after some of the steps of
    any schedule, the next one cannot be taken or a check fails in it. -/
theorem run_stops (fits : job.Fits) (schedule : Nat → SparseInput) :
    ∃ n state events, Run job ((List.range n).map schedule) state events ∧
      (state.Enabled events (schedule n) → ∃ fault, state.step (schedule n) = .error fault) :=
  have : IsWellFounded _ LessWork := ⟨lessWork_wf⟩
  Machine.Runs.stops (r := LessWork) work (fun _ _ _ _ _ _ run admitted stepped =>
    work_lowers fits run admitted stepped) schedule

/-- However the clients and servers are scheduled, after some of the steps either all workers
    have returned from all their calls, or a check fails, or the schedule asks for a step that
    cannot be taken although another one can: nobody waits forever, for any number of workers
    and servers, any staleness and any order of delivery. -/
theorem runs_complete (valid : job.Valid) {n : Nat} (alike : ∀ w ∈ job.workers, job.rounds w = n)
    (schedule : Nat → SparseInput) :
    ∃ k state events, Run job ((List.range k).map schedule) state events ∧
      ((∀ w ∈ job.workers, (state.clients w).call = .outside ∧
          (state.clients w).table.getCount = n ∧ (state.clients w).table.addCount = n) ∨
        (∃ fault, state.Enabled events (schedule k) ∧ state.step (schedule k) = .error fault) ∨
        (¬ state.Enabled events (schedule k) ∧ ∃ input, state.Enabled events input)) := by
  obtain ⟨k, state, events, run, ends⟩ := run_stops valid.toFits schedule
  refine ⟨k, state, events, run, ?_⟩
  by_cases admitted : state.Enabled events (schedule k)
  · obtain ⟨fault, failed⟩ := ends admitted
    exact .inr (.inl ⟨fault, admitted, failed⟩)
  · by_cases stuck : state.Stuck events
    · exact .inl (stuck_done valid.paced alike run stuck)
    · simp only [Stuck, not_forall, not_not] at stuck
      exact .inr (.inr ⟨admitted, stuck⟩)

/-- The workers of two servers call `Get` in turn and do nothing else. -/
theorem runs_complete_twoServers : ∃ k, ∃ state : SparseSystem SparseJob.twoServers, ∃ events,
    Run SparseJob.twoServers ((List.range k).map fun i => .get (8 + i.toUInt32 % 2)) state events ∧
      ((∀ w ∈ [8, 9], (state.clients w).call = .outside ∧
          (state.clients w).table.getCount = 2 ∧ (state.clients w).table.addCount = 2) ∨
        (∃ fault, state.Enabled events (.get (8 + k.toUInt32 % 2)) ∧
          state.step (.get (8 + k.toUInt32 % 2)) = .error fault) ∨
        (¬ state.Enabled events (.get (8 + k.toUInt32 % 2)) ∧ ∃ input, state.Enabled events input)) :=
  runs_complete SparseJob.twoServers_valid (fun _ _ => rfl) fun i => .get (8 + i.toUInt32 % 2)

end SparseSystem

end FlexPS
