import FlexPS.Server.SparseSSP.Failures
import FlexPS.System.SparseProgress

/-! # Which checks fail

A worker sends `Add_v` and `Clock_v` once its `Get_v` has returned, so a server that got a part
of `Get_v` has let the worker in and has no earlier `Clock` of it in `buffer_`. What is left is
a `Clock` that reaches a server where the worker has not read.
-/

namespace FlexPS

variable {Val : Type}

namespace SparseJob

variable {job : SparseJob Val} {server w : Tid} {version : Nat}

variable (job) in
/-- Every `Add` has sorted keys of the `Get` before it. -/
structure Contained : Prop where
  sorted : ∀ w version, (job.adds w version).keys.Pairwise (· ≤ ·)
  of_get : ∀ w, ∀ version < job.rounds w, ∀ key ∈ (job.adds w version).keys,
    key ∈ ((job.keys w)[version]?).getD []

theorem twoServers_contained : twoServers.Contained where
  sorted _ _ := (by decide : [(2 : Key), 7].Pairwise (· ≤ ·))
  of_get _ := (by decide : ∀ version < 2, ∀ key ∈ [(2 : Key), 7],
    key ∈ (([[2, 7], [2, 7], [2, 7]] : List (List Key))[version]?).getD [])

variable (job) in
/-- Every call has what it needs: lists of keys for all iterations, an `Add` with one value for
    each of some keys of the `Get` before it, storages for the ranges, and clocks that an `int`
    can hold. -/
structure Provided : Prop extends Contained job where
  holds : ∀ range server, (range, server) ∈ job.manager.ranges.zip job.servers →
    ∀ key, range.Owns key → (job.storage server).Holds key
  some_add : ∀ w version, (job.adds w version).keys ≠ []
  sized : ∀ w version, (job.adds w version).vals.length = (job.adds w version).keys.length
  enough : ∀ w, job.rounds w + job.speculation ≤ (job.keys w).length
  small : ∀ w, job.rounds w + job.staleness + job.speculation + 2 ≤ intMax

/-- Two servers and two workers, which read and add to a key of the second server only. -/
def oneSided : SparseJob Int :=
  { twoServers with
    rounds := fun _ => 5
    keys := fun _ => List.replicate 6 [7]
    adds := fun _ _ => ⟨[7], [1]⟩ }

theorem oneSided_valid : oneSided.Valid where
  constructs := ⟨fun _ _ => ⟨_, rfl⟩, fun _ _ => ⟨_, rfl⟩⟩
  some_range := by decide
  contiguous := by decide
  apart := by decide
  recorders _ _ _ := .inl rfl
  speculative := by decide
  some_key _ := (by decide : ∀ keys ∈ List.replicate 6 ([7] : List Key), keys ≠ [])
  sorted _ _ := (by decide : ∀ keys ∈ List.replicate 6 ([7] : List Key), keys.Pairwise (· ≤ ·))
  inside _ := (by decide : ∀ keys ∈ List.replicate 6 ([7] : List Key), ∀ key ∈ keys,
    twoServers.manager.span.Owns key)

theorem oneSided_provided : oneSided.Provided where
  holds _ _ _ _ _ := trivial
  some_add _ _ := List.cons_ne_nil _ _
  sorted _ _ := List.pairwise_singleton _ _
  sized _ _ := rfl
  of_get _ version below := by
    have inRange : version < 6 := Nat.lt_succ_of_lt below
    change ∀ key ∈ [7], key ∈ ((List.replicate 6 [7])[version]?).getD []
    rw [List.getElem?_replicate, if_pos inRange]
    exact fun _ member => member
  enough _ := Nat.le_refl 6
  small _ := (by decide : 5 + 0 + 1 + 2 ≤ intMax)

/-- The same workers with one server. -/
def oneServer : SparseJob Int := { oneSided with manager := oneRange }

theorem oneServer_valid : oneServer.Valid where
  constructs := ⟨fun _ _ => ⟨_, rfl⟩, fun _ _ => ⟨_, rfl⟩⟩
  some_range := by decide
  contiguous := by decide
  apart := by decide
  recorders _ _ _ := .inl rfl
  speculative := by decide
  some_key := oneSided_valid.some_key
  sorted several := absurd rfl several
  inside := oneSided_valid.inside

theorem oneServer_provided : oneServer.Provided :=
  { oneSided_provided with holds := fun _ _ _ _ _ => trivial }

/-- A recorder with levels for a range indexes its keys by an `int`: they are below `2 ^ 31`. -/
def Indexed (job : SparseJob Val) : Prop :=
  ∀ server ∈ job.servers, ∀ range, job.recorderType server = .vector range →
    ∀ w, ∀ keys ∈ job.keys w, ∀ key ∈ keys, range.Owns key → key.toNat ≤ intMax

theorem indexed_of_map (maps : ∀ server, job.recorderType server = .map) : job.Indexed := by
  intro server _ range vector
  rw [maps server] at vector
  cases vector

theorem Indexed.keys (indexed : job.Indexed) (valid : job.Valid) (inServers : server ∈ job.servers) :
    ∀ w version, ∀ key ∈ (job.workload server).keys w version,
      (job.recorderType server).Indexes key := by
  intro w version key member
  obtain ⟨keys, range, listed, inZip, keys_eq⟩ := keys_of_sent valid.toFits (List.ne_nil_of_mem member)
  rw [keys_eq] at member
  obtain ⟨inKeys, owned⟩ := List.mem_filter.mp member
  cases valid.recorders range server inZip with
  | inl map =>
      rw [map]
      trivial
  | inr vector =>
      rw [vector]
      exact indexed server inServers range vector w keys (List.mem_of_getElem? listed) key inKeys
        (of_decide_eq_true owned)

theorem adds_sized (provided : job.Provided) (w : Tid) (version : Nat) :
    (job.adds w version).vals.length = 1 * (job.adds w version).keys.length := by
  rw [Nat.one_mul]
  exact provided.sized w version

/-- What a server gets of an `Add`. -/
theorem adds_of_sent (valid : job.Valid) (provided : job.Provided)
    (sent : ((job.workload server).adds w version).keys ≠ []) : ∃ range,
      (range, server) ∈ job.manager.ranges.zip job.servers ∧
      (job.workload server).adds w version = (job.adds w version).part 1 range :=
  part_of_sent valid.toFits (.inl (provided.sorted w version)) (adds_sized provided w version) sent

theorem served (valid : job.Valid) (provided : job.Provided) (inServers : server ∈ job.servers) :
    (job.workload server).ServedBy (job.storage server) where
  keys w version key member := by
    obtain ⟨keys, range, -, inZip, keys_eq⟩ := keys_of_sent valid.toFits (List.ne_nil_of_mem member)
    rw [keys_eq] at member
    exact provided.holds range server inZip key (of_decide_eq_true (List.mem_filter.mp member).2)
  adds w version key member := by
    obtain ⟨range, inZip, part_eq⟩ := adds_of_sent valid provided (List.ne_nil_of_mem member)
    rw [part_eq, KVPairs.part_keys] at member
    exact provided.holds range server inZip key (of_decide_eq_true (List.mem_filter.mp member).2)
  sized w version := by
    obtain ⟨range, inZip⟩ := SimpleRangePartitionManager.range_of_server inServers
    have part_eq := SimpleRangePartitionManager.part_eq valid.sound (.inl (provided.sorted w version))
      (adds_sized provided w version) inZip
    change (job.manager.part (job.adds w version) server).keys.length =
      (job.manager.part (job.adds w version) server).vals.length
    rw [part_eq, KVPairs.part_sized (adds_sized provided w version), Nat.one_mul]

/-- The server whose range has a key of `Get_v` gets a part of it. -/
theorem sent_of_owned (valid : job.Valid) {range : Range}
    (inZip : (range, server) ∈ job.manager.ranges.zip job.servers) {keys : List Key}
    (listed : (job.keys w)[version]? = some keys) {key : Key} (inKeys : key ∈ keys)
    (owned : range.Owns key) : (job.workload server).keys w version ≠ [] := by
  have member := List.mem_of_getElem? listed
  let send : KVPairs Val := ⟨keys, []⟩
  have sized : send.vals.length = 0 * send.keys.length := (Nat.zero_mul _).symm
  have part_eq := SimpleRangePartitionManager.part_eq valid.sound (valid.cuts member) sized inZip
  have keys_eq : (job.workload server).keys w version = (job.manager.part send server).keys := by
    simp only [workload, part, listed, Option.getD_some, send]
  rw [keys_eq, part_eq, KVPairs.part_keys]
  exact List.ne_nil_of_mem (List.mem_filter.mpr ⟨inKeys, decide_eq_true owned⟩)

theorem listed_of_inTime (provided : job.Provided) (inTime : version < job.rounds w) :
    ∃ keys, (job.keys w)[version]? = some keys := by
  have enough := provided.enough w
  exact ⟨_, List.getElem?_eq_getElem (by omega)⟩

/-- A server that gets a part of `Add_v` has got a part of `Get_v`. -/
theorem get_of_add (valid : job.Valid) (contained : job.Contained) (inTime : version < job.rounds w)
    (sent : ((job.workload server).adds w version).keys ≠ []) :
    (job.workload server).keys w version ≠ [] := by
  let send : KVPairs Val := ⟨(job.adds w version).keys, []⟩
  have sized : send.vals.length = 0 * send.keys.length := (Nat.zero_mul _).symm
  obtain ⟨range, inZip⟩ := SimpleRangePartitionManager.range_of_server
    (SimpleRangePartitionManager.mem_of_part valid.apart sent)
  have keys_eq : ((job.workload server).adds w version).keys = (job.manager.part send server).keys :=
    SimpleRangePartitionManager.part_keys_eq sent
  have cuts : job.manager.Cuts send.keys := .inl (contained.sorted w version)
  rw [keys_eq, SimpleRangePartitionManager.part_eq valid.sound cuts sized inZip, KVPairs.part_keys] at sent
  obtain ⟨key, member⟩ := List.exists_mem_of_ne_nil _ sent
  obtain ⟨inAdd, owned⟩ := List.mem_filter.mp member
  have inGet := contained.of_get w version inTime key inAdd
  cases listed : (job.keys w)[version]? with
  | none =>
      rw [listed] at inGet
      exact absurd inGet List.not_mem_nil
  | some keys =>
      rw [listed, Option.getD_some] at inGet
      exact sent_of_owned valid inZip listed inGet (of_decide_eq_true owned)

/-- Every worker reads on every server in every iteration. -/
def Everywhere (job : SparseJob Val) : Prop :=
  ∀ w ∈ job.workers, ∀ version < job.rounds w, ∀ server ∈ job.servers,
    (job.workload server).keys w version ≠ []

/-- With one server there is no other to read on. -/
theorem everywhere_of_one (valid : job.Valid) (provided : job.Provided) (one : job.servers = [server]) :
    job.Everywhere := by
  intro w _ version inTime server' inServers
  obtain ⟨keys, listed⟩ := listed_of_inTime provided inTime
  have member := List.mem_of_getElem? listed
  obtain ⟨key, inKeys⟩ := List.exists_mem_of_ne_nil _ (valid.some_key w keys member)
  have inside := valid.inside w keys member key inKeys
  have length : job.manager.ranges.length = 1 := by
    rw [job.manager.sameSize]
    exact congrArg List.length one
  obtain ⟨range, ranges⟩ := List.length_eq_one_iff.mp length
  simp only [SimpleRangePartitionManager.span, ranges, List.head?_cons, List.getLast?_singleton,
    Option.map_some, Option.getD_some] at inside
  rw [one, List.mem_singleton] at inServers
  refine sent_of_owned valid ?_ listed inKeys inside
  rw [ranges, one, inServers]
  exact List.mem_singleton_self _

/-! ## The calls of a client -/

section Calls

variable {table : SparseKVClientTable Val}

theorem sliceGet_ok (valid : job.Valid) (own : job.OwnTable w table)
    (listed : version < (job.keys w).length) : ∃ out, table.sliceGet version = .ok out := by
  have member := List.getElem_mem listed
  let send : KVPairs Val := ⟨(job.keys w)[version], []⟩
  have sized : send.vals.length = 0 * send.keys.length := (Nat.zero_mul _).symm
  have cut := SimpleRangePartitionManager.slice_of_cuts valid.some_range valid.contiguous
    (valid.some_key w _ member) (valid.cuts member) sized
  simp only [SparseKVClientTable.sliceGet, own.keys_eq, own.partitionManager_eq,
    List.getElem?_eq_getElem listed]
  exact ⟨_, by rw [cut]; rfl⟩

/-- The next `Get` of a worker between two calls. -/
theorem get_ok (valid : job.Valid) (provided : job.Provided) {gets : Nat}
    {recvKvs : List (KVPairs Val)} (more : gets < job.rounds w) :
    ∃ out, (job.table w gets gets recvKvs).get = .ok out := by
  have enough := provided.enough w
  have own : job.OwnTable w { job.table w gets gets recvKvs with getCount := gets + 1 } :=
    ⟨rfl, rfl, rfl, rfl⟩
  have balanced : (job.table w gets gets recvKvs).getCount = (job.table w gets gets recvKvs).addCount :=
    rfl
  simp only [SparseKVClientTable.get, check_pos balanced, Except.ok_bind]
  change ∃ out, (if gets + 1 = 1 then _ else _) = _
  by_cases first : gets + 1 = 1
  · rw [if_pos first]
    obtain ⟨sent, sliced⟩ : ∃ sent, (List.range (job.speculation + 1)).mapM
        (SparseKVClientTable.sliceGet { job.table w gets gets recvKvs with getCount := gets + 1 }) =
          .ok sent :=
      Except.mapM_ok fun version member =>
        sliceGet_ok valid own (by have := List.mem_range.mp member; omega)
    exact ⟨_, Except.bind_eq_ok.mpr ⟨sent, sliced, rfl⟩⟩
  · rw [if_neg first]
    have speculative := valid.speculative
    have counted : (job.table w gets gets recvKvs).numReqs[
        (job.table w gets gets recvKvs).getCount + 1 - 1]? = some (job.owners w gets).length := by
      change (job.table w gets gets recvKvs).numReqs[gets]? = _
      have inRange : gets < gets + job.speculation := by omega
      have called : ¬ gets = 0 := by omega
      simp only [table, if_neg called, List.getElem?_map, List.getElem?_range inRange, Option.map_some]
    have listed : gets + job.speculation < (job.keys w).length := by omega
    obtain ⟨out, sliced⟩ := sliceGet_ok valid own listed
    rw [counted]
    exact ⟨_, Except.bind_eq_ok.mpr ⟨out, sliced, rfl⟩⟩

theorem add_ok (valid : job.Valid) (provided : job.Provided) {adds : Nat}
    {recvKvs : List (KVPairs Val)} :
    ∃ out, (job.table w (adds + 1) adds recvKvs).add (job.adds w adds) = .ok out := by
  have cut := SimpleRangePartitionManager.slice_of_cuts valid.some_range valid.contiguous
    (provided.some_add w adds) (.inl (provided.sorted w adds)) (adds_sized provided w adds)
  have balanced : (job.table w (adds + 1) adds recvKvs).getCount =
      (job.table w (adds + 1) adds recvKvs).addCount + 1 := rfl
  have cut' : (job.table w (adds + 1) adds recvKvs).partitionManager.slice (job.adds w adds) = _ := cut
  simp only [SparseKVClientTable.add, check_pos balanced, Except.ok_bind, cut', Except.pure_eq_ok]
  exact ⟨_, rfl⟩

end Calls

end SparseJob

namespace SparseSystem

variable [AddCommMonoid Val] {job : SparseJob Val} {state state' : SparseSystem job}
  {events : List (SparseEvent Val)} {inputs : List SparseInput} {server w : Tid}

/-! ## What has returned has been answered -/

theorem returned_arrived (valid : job.Valid) (wires : state.WireInv events) (inv : state.ClientInv w)
    (member : w ∈ job.workers) {version : Nat}
    (returned : version < (state.clients w).table.addCount) (owner : server ∈ job.owners w version) :
    (state.arrivedFrom w version server).length = 1 := by
  have balanced := (wires.shape w member).balanced
  refine arrived_of_returned valid.paced wires inv member ?_ owner
  by_cases earlier : version + 1 < (state.clients w).table.getCount
  · exact .inl earlier
  · refine .inr ⟨by omega, fun inGet => ?_⟩
    have ahead := inv.called inGet
    omega

/-- What a server has answered was not ahead of its minimum clock. -/
theorem returned_slow (valid : job.Valid) (wires : state.WireInv events) (inv : state.ClientInv w)
    (member : w ∈ job.workers) {version : Nat}
    (returned : version < (state.clients w).table.addCount) (owner : server ∈ job.owners w version) :
    version ≤ (state.servers server).progressTracker.minClock + job.staleness + job.speculation := by
  have one := returned_arrived valid wires inv member returned owner
  obtain ⟨position, projected⟩ := wires.projected server (mem_owners.mp owner).1
  obtain ⟨ws, run⟩ := projected.run
  have counted : 0 < tally w version
      ((events.filterMap (SparseEvent.at? server)).filterMap Event.answered) := by
    rw [← SparseJob.countP_pushed valid.toFits run (.inl valid.speculative), ← wires.replied server w,
      Link.sent, List.countP_append]
    rw [arrivedFrom, ← List.countP_eq_length_filter] at one
    omega
  obtain ⟨request, inAnswered, -, rfl⟩ := tally_pos counted
  obtain ⟨slots, events', run', coupled, same⟩ := slots_run (job.recorderType server)
    (fun slots _ w => w ∈ slots.threads) rfl (fun _ _ => SparseJob.owned valid.toFits) (fun _ _ _ h => h)
    (fun _ _ _ _ _ coupled _ _ h => registered_of_coupled coupled h) run
  rw [answered_eq_of_same same] at inAnswered
  have slow := answered_slow valid.speculative run' request inAnswered
  rw [StreamState.minClock, ← coupled.tracker_eq] at slow
  exact slow

/-- A worker with a `Clock` in `buffer_` is two `Clock`s past everything it can be answered. -/
theorem clocks_of_buffered (valid : job.Valid) {ws : List Tid} {stream : StreamState Val (job.Main server)}
    {out : List (Event Val)} (run : job.StreamRun server ws stream out) (buffered : stream.Buffered w) :
    stream.clocks (job.workload server) w = stream.minClock + job.staleness + job.speculation + 2 := by
  obtain ⟨slots, -, coupled, inv, -, -⟩ := SparseJob.slots_of_run valid.toFits run (.inl valid.speculative)
  have buffered : slots.Buffered w := (refused_of_coupled coupled).1.mp buffered
  obtain ⟨atLevel, next⟩ := inv.server.buffered buffered
  rw [coupled.clocks_eq, next, atLevel, StreamState.minClock, coupled.tracker_eq]
  rfl

omit [AddCommMonoid Val] in
theorem streamAdds_le {p gets adds n : Nat} (balanced : adds ≤ gets ∧ gets ≤ adds + 1)
    (behind : n ≤ itemsIssued p gets adds) :
    streamAdds p n ≤ adds ∧ streamClocks p n ≤ adds ∧ streamClocks p n ≤ gets - 1 := by
  simp only [itemsIssued] at behind
  simp only [streamAdds, streamClocks]
  split at behind <;> omega

/-- A worker with a `Clock` in `buffer_` has not read on the server in the iteration of that
    `Clock`. -/
theorem absent_of_buffered (valid : job.Valid) (wires : state.WireInv events) (inv : state.ClientInv w)
    (inServers : server ∈ job.servers) (member : w ∈ job.workers) {ws : List Tid}
    {position : Tid → Nat} {out : List (Event Val)}
    (run : job.StreamRun server ws ⟨state.servers server, position⟩ out)
    (behind : position w ≤ state.items w)
    (buffered : StreamState.Buffered ⟨state.servers server, position⟩ w) :
    0 < streamClocks job.speculation (position w) ∧
      (job.workload server).keys w (streamClocks job.speculation (position w) - 1) = [] := by
  have clocked := clocks_of_buffered valid run buffered
  simp only [StreamState.clocks, StreamState.minClock] at clocked
  change streamClocks job.speculation (position w) = _ at clocked
  obtain ⟨-, fewClocks, -⟩ := streamAdds_le (wires.shape w member).balanced behind
  refine ⟨by omega, ?_⟩
  by_contra owned
  have slow := returned_slow valid wires inv member (by omega) (mem_owners.mpr ⟨inServers, owned⟩)
  omega

/-- Of the messages that a server with a `Clock` of the worker in `buffer_` refuses, only another
    `Clock` can come. -/
theorem refused_of_buffered (valid : job.Valid) (contained : job.Contained)
    (wires : state.WireInv events) (inv : state.ClientInv w) (inServers : server ∈ job.servers)
    (member : w ∈ job.workers) {ws : List Tid} {position : Tid → Nat} {out : List (Event Val)}
    (run : job.StreamRun server ws ⟨state.servers server, position⟩ out)
    (behind : position w < state.items w) {msg : Message Val}
    (sent : (job.workload server).message? w (streamItem job.speculation (position w)) = some msg)
    (buffered : StreamState.Buffered ⟨state.servers server, position⟩ w) (c : Check) :
    StreamState.Refused (job.workload server) ⟨state.servers server, position⟩ w c ↔
      msg.flag = .kClock ∧ c = .clockVersion := by
  have clocked := clocks_of_buffered valid run buffered
  have balanced := (wires.shape w member).balanced
  have inTime := (wires.shape w member).bounded
  obtain ⟨some_clock, absent⟩ := absent_of_buffered valid wires inv inServers member run
    (Nat.le_of_lt behind) buffered
  have fewAdds : streamAdds job.speculation (position w + 1) ≤ _ := (streamAdds_le balanced behind).1
  have item := streamItem_next job.speculation (position w)
  generalize next_eq : streamItem job.speculation (position w) = next at item sent
  have next_eq : StreamState.next (job.workload server) ⟨state.servers server, position⟩ w = next :=
    next_eq
  simp only [StreamState.clocks, StreamState.minClock] at clocked
  change streamClocks job.speculation (position w) = _ at clocked
  cases item with
  | get _ _ _ _ early =>
      rw [StreamState.refused_get next_eq]
      simp only [Workload.message?] at sent
      split at sent
      · cases sent
      next filled =>
        cases sent
        have bounds := (streamGets_bounds job.speculation (position w)).2.1
        constructor
        · rintro ⟨-, -, full, -⟩
          exact absurd absent (full (streamClocks job.speculation (position w) - 1) (by omega)
            (by change _ ≤ _ + job.speculation + 1; omega))
        · rintro ⟨clock, -⟩
          cases clock
  | add _ addsNext _ sameRound _ =>
      rw [StreamState.refused_add next_eq]
      simp only [Workload.message?] at sent
      split at sent
      · cases sent
      next filled =>
        cases sent
        have owned := SparseJob.get_of_add valid contained (by omega) filled
        have slow := returned_slow valid wires inv member (by omega)
          (mem_owners.mpr ⟨inServers, owned⟩)
        omega
  | clock _ _ _ _ _ =>
      rw [StreamState.refused_clock next_eq]
      cases sent
      exact ⟨fun same => ⟨rfl, same⟩, fun both => both.2⟩

/-- What makes a server fail: a `Clock` of a worker whose earlier `Clock` is in `buffer_`. -/
def BehindClock (state : SparseSystem job) (server w : Tid) : Prop :=
  (state.requests w server).inFlight.head?.map (fun msg => msg.flag) = some .kClock ∧
    ∃ other ∈ (state.servers server).buffer, other.sender = w

instance (state : SparseSystem job) (server w : Tid) : Decidable (state.BehindClock server w) :=
  inferInstanceAs (Decidable (_ = _ ∧ ∃ other ∈ (state.servers server).buffer, _))

/-- What a server does with the next request of a worker is a step of its streams. -/
theorem exists_stream_step (fits : job.Fits) (wires : state.WireInv events)
    (admitted : state.Enabled events (.serve server w)) :
    ∃ msg rest ws position, (state.requests w server).inFlight = msg :: rest ∧
      job.StreamRun server ws ⟨state.servers server, position⟩
        (events.filterMap (SparseEvent.at? server)) ∧ position w < state.items w ∧
      (job.workload server).message? w (streamItem job.speculation (position w)) = some msg ∧
      ∀ e, state.step (.serve server w) = .error e ↔
        StreamState.step (job.workload server) ⟨state.servers server, position⟩ w = .error e := by
  obtain ⟨inServers, member, some_request⟩ := admitted
  obtain ⟨msg, rest, next⟩ := List.exists_cons_of_ne_nil some_request
  obtain ⟨position, projected⟩ := wires.projected server inServers
  obtain ⟨ws, stream⟩ := projected.run
  have registered : w ∈ (state.servers server).progressTracker.threads := by
    have threads := SparseJob.threads_of_run fits stream
    rw [StreamState.threads] at threads
    rw [threads]
    exact List.mem_dedup.mpr member
  have wire := projected.wire w member
  rw [pending, next, List.cons_append] at wire
  obtain ⟨ws', n, stream', -, behind, sent, -⟩ := StreamState.run_before_message stream registered
    (projected.behind w member) wire.symm
  have here : Function.update position w n w = n := Function.update_self ..
  rw [← here] at behind sent
  refine ⟨msg, rest, ws', _, next, stream', behind, sent, fun e => ?_⟩
  have stepped : state.step (.serve server w) = .error e ↔
      AbstractModel.handle (state.servers server) msg = .error e := by
    simp only [step, next, Except.bind_eq_error, Except.pure_eq_ok, reduceCtorEq, and_false, exists_false,
      or_false]
  rw [stepped, StreamState.step_eq_error]
  constructor
  · exact fun failed => ⟨msg, sent, failed⟩
  · rintro ⟨msg', sent', failed⟩
    cases sent.symm.trans sent'
    exact failed

theorem serve_error_iff (valid : job.Valid) (provided : job.Provided) (indexed : job.Indexed)
    (run : Run job inputs state events)
    (admitted : state.Enabled events (.serve server w)) {e : Fault} :
    state.step (.serve server w) = .error e ↔
      state.BehindClock server w ∧ e = .check .clockVersion := by
  have wires := wire_run valid.toFits run
  obtain ⟨msg, rest, ws, position, next, stream, behind, sent, stepped⟩ :=
    exists_stream_step valid.toFits wires admitted
  obtain ⟨inServers, member, -⟩ := admitted
  have inv := client_run valid.paced run w member
  have small : StreamState.minClock ⟨state.servers server, position⟩ + job.staleness +
      job.speculation + 2 ≤ intMax := by
    obtain ⟨slots, -, coupled, inv, -, -⟩ := SparseJob.slots_of_run valid.toFits stream
      (.inl valid.speculative)
    have least := inv.server.base.clocks.exact.le w
      (inv.server.base.clocks.threads_eq ▸ List.mem_dedup.mpr member)
    have below := inv.server.progress_le w
    rw [← coupled.clocks_eq] at below
    change _ ≤ streamClocks job.speculation (position w) at below
    have few := (streamAdds_le (wires.shape w member).balanced (Nat.le_of_lt behind)).2.2
    have inTime := (wires.shape w member).bounded
    have bound := provided.small w
    rw [StreamState.minClock, coupled.tracker_eq]
    omega
  have fails := stream_error_iff rfl (fun _ _ => SparseJob.owned valid.toFits) (indexed.keys valid inServers)
    valid.speculative (SparseJob.served valid provided inServers) stream member small (e := e)
  rw [stepped, fails, BehindClock, next, List.head?_cons, Option.map_some, Option.some.injEq]
  constructor
  · rintro ⟨buffered, c, refused, rfl⟩
    rw [refused_of_buffered valid provided.toContained wires inv inServers member stream behind sent
      buffered] at refused
    exact ⟨⟨refused.1, buffered⟩, congrArg _ refused.2⟩
  · rintro ⟨⟨clock, buffered⟩, rfl⟩
    refine ⟨buffered, _, ?_, rfl⟩
    rw [refused_of_buffered valid provided.toContained wires inv inServers member stream behind sent
      buffered]
    exact ⟨clock, rfl⟩

/-- Among the checks on versions, only that of a `Clock` can fail. -/
theorem serve_version_error (valid : job.Valid) (contained : job.Contained)
    (run : Run job inputs state events) (admitted : state.Enabled events (.serve server w)) {c : Check}
    (onVersions : c.OnVersions) (failed : state.step (.serve server w) = .error (.check c)) :
    state.BehindClock server w ∧ c = .clockVersion := by
  have wires := wire_run valid.toFits run
  obtain ⟨msg, rest, ws, position, next, stream, behind, sent, stepped⟩ :=
    exists_stream_step valid.toFits wires admitted
  obtain ⟨inServers, member, -⟩ := admitted
  have inv := client_run valid.paced run w member
  obtain ⟨buffered, refused⟩ := stream_version_error rfl (fun _ _ => SparseJob.owned valid.toFits)
    valid.speculative stream member onVersions ((stepped _).mp failed)
  rw [refused_of_buffered valid contained wires inv inServers member stream behind sent buffered]
    at refused
  refine ⟨⟨?_, buffered⟩, refused.2⟩
  rw [next, List.head?_cons, Option.map_some, refused.1]

/-- A `Clock` of a worker whose earlier `Clock` is in `buffer_` is past the version that its check
    asks for. -/
theorem clock_of_behindClock (valid : job.Valid) (run : Run job inputs state events)
    (admitted : state.Enabled events (.serve server w)) (behindClock : state.BehindClock server w) :
    (state.servers server).staleness = job.staleness ∧
      (state.servers server).speculation = job.speculation ∧
      ∃ msg : Message Val, job.staleness + job.speculation +
          (state.servers server).progressTracker.minClock + 1 < msg.version ∧
        ∀ e, state.step (.serve server w) = .error e ↔ (state.servers server).clock msg = .error e := by
  have wires := wire_run valid.toFits run
  obtain ⟨msg, rest, ws, position, next, stream, behind, sent, stepped⟩ :=
    exists_stream_step valid.toFits wires admitted
  obtain ⟨flag, buffered⟩ := behindClock
  rw [next, List.head?_cons, Option.map_some, Option.some.injEq] at flag
  obtain ⟨slots, -, coupled, inv, -, -⟩ := SparseJob.slots_of_run valid.toFits stream
    (.inl valid.speculative)
  obtain ⟨main, -, mirrors⟩ := coupled.mirrors
  refine ⟨(congrArg SparseSSPModel.staleness mirrors).trans inv.server.base.staleness_eq,
    (congrArg SparseSSPModel.speculation mirrors).trans inv.server.base.speculation_eq, msg, ?_, fun e => ?_⟩
  · have clocked := clocks_of_buffered valid stream buffered
    change streamClocks job.speculation (position w) =
      (state.servers server).progressTracker.minClock + job.staleness + job.speculation + 2 at clocked
    have item := streamItem_next job.speculation (position w)
    generalize streamItem job.speculation (position w) = item at item sent
    cases item with
    | get _ _ _ _ _ =>
        simp only [Workload.message?] at sent
        split at sent <;> cases sent
        cases flag
    | add _ _ _ _ _ =>
        simp only [Workload.message?] at sent
        split at sent <;> cases sent
        cases flag
    | clock _ _ _ _ _ =>
        cases sent
        rw [Workload.version_clockMsg]
        omega
  · rw [stepped, StreamState.step_eq_error]
    have handled : AbstractModel.handle (state.servers server) msg = (state.servers server).clock msg := by
      rw [AbstractModel.handle, flag]
      rfl
    rw [← handled]
    constructor
    · rintro ⟨msg', sent', failed⟩
      cases sent.symm.trans sent'
      exact failed
    · exact fun failed => ⟨msg, sent, failed⟩

/-- Worker 8 gets far ahead of what server 0 has heard from worker 9. -/
theorem exists_behindClock : ∃ inputs, ∃ state : SparseSystem SparseJob.oneSided, ∃ events,
    Run SparseJob.oneSided inputs state events ∧ state.Enabled events (.serve 0 8) ∧
      state.BehindClock 0 8 ∧ 0 + 1 + (state.servers 0).progressTracker.minClock + 1 ≤ intMax := by
  obtain ⟨state, events, run, reached⟩ := Machine.runs_of_exec step Enabled
    (start SparseJob.oneSided)
    (let first (w : Tid) := [SparseInput.get w, .push w, .push w, .serve 1 w, .serve 1 w,
      .respond 1 w, .finish w]
     let add (w : Tid) := [SparseInput.add w, .push w, .serve 1 w, .finish w]
     let later (w : Tid) := [SparseInput.get w, .push w, .push w, .push w, .serve 1 w, .serve 1 w]
     let round := later 9 ++ later 8 ++ [.serve 0 8] ++
      [8, 9].flatMap fun w => [.respond 1 w, .finish w] ++ add w
     [8, 9].flatMap (fun w => first w ++ add w) ++ round ++ round ++ round ++ later 8)
    (fun state events => state.Enabled events (.serve 0 8) ∧ state.BehindClock 0 8 ∧
      0 + 1 + (state.servers 0).progressTracker.minClock + 1 ≤ intMax)
    (by decide +kernel)
  exact ⟨_, state, events, run, reached⟩

/-- A server passes all its checks on versions exactly when it does not take a `Clock` of a worker
    with an earlier `Clock` in `buffer_`, as long as the sum in the check fits an `int`. -/
theorem version_checks_hold_iff (valid : job.Valid) (contained : job.Contained)
    (run : Run job inputs state events) (admitted : state.Enabled events (.serve server w)) :
    (∀ c : Check, c.OnVersions → state.step (.serve server w) ≠ .error (.check c)) ↔
      ¬ (state.BehindClock server w ∧ job.staleness + job.speculation +
        (state.servers server).progressTracker.minClock + 1 ≤ intMax) := by
  constructor
  · rintro passes ⟨behindClock, bounded⟩
    obtain ⟨staleness_eq, speculation_eq, msg, late, clocked⟩ :=
      clock_of_behindClock valid run admitted behindClock
    rw [← staleness_eq, ← speculation_eq] at late bounded
    exact passes .clockVersion (.inl rfl) ((clocked _).mpr (clock_refused late bounded))
  · intro passes c onVersions failed
    obtain ⟨behindClock, rfl⟩ := serve_version_error valid contained run admitted onVersions failed
    obtain ⟨staleness_eq, speculation_eq, msg, late, clocked⟩ :=
      clock_of_behindClock valid run admitted behindClock
    refine passes ⟨behindClock, Nat.not_lt.mp fun past => ?_⟩
    rw [← staleness_eq, ← speculation_eq] at past
    cases (clock_overflow past).symm.trans ((clocked _).mp failed)

/-- The first `Get` that a server takes. -/
theorem version_checks_hold_iff_twoServers : ∃ state : SparseSystem SparseJob.twoServers,
    ∀ c : Check, c.OnVersions → state.step (.serve 0 8) ≠ .error (.check c) := by
  obtain ⟨state, events, run, admitted, notBehind⟩ := Machine.runs_of_exec step Enabled
    (start SparseJob.twoServers) [.get 8, .push 8, .push 8]
    (fun state events => state.Enabled events (.serve 0 8) ∧ ¬ state.BehindClock 0 8) (by decide +kernel)
  exact ⟨state, (version_checks_hold_iff SparseJob.twoServers_valid SparseJob.twoServers_contained run
    admitted).mpr fun behind => notBehind behind.1⟩

/-- With two servers the checks on versions do fail. -/
theorem version_checks_fail : SparseJob.oneSided.Valid ∧ SparseJob.oneSided.Contained ∧
    ¬ ∀ inputs (state : SparseSystem SparseJob.oneSided) events,
      Run SparseJob.oneSided inputs state events → ∀ server w, state.Enabled events (.serve server w) →
        ∀ c : Check, c.OnVersions → state.step (.serve server w) ≠ .error (.check c) := by
  refine ⟨SparseJob.oneSided_valid, SparseJob.oneSided_provided.toContained, fun passes => ?_⟩
  obtain ⟨inputs, state, events, run, admitted, behindClock, bounded⟩ := exists_behindClock
  obtain ⟨staleness_eq, speculation_eq, msg, late, clocked⟩ :=
    clock_of_behindClock SparseJob.oneSided_valid run admitted behindClock
  change (state.servers 0).staleness = 0 at staleness_eq
  change (state.servers 0).speculation = 1 at speculation_eq
  refine passes inputs state events run 0 8 admitted .clockVersion (.inl rfl)
    ((clocked _).mpr (clock_refused ?_ ?_))
  · rw [staleness_eq, speculation_eq]
    exact late
  · rw [staleness_eq, speculation_eq]
    exact bounded

/-- Every call of a worker and every reply is taken. -/
theorem call_ok (valid : job.Valid) (provided : job.Provided) (run : Run job inputs state events)
    {input : SparseInput} (admitted : state.Enabled events input)
    (call : ∀ server w, input ≠ .serve server w) : ∃ next, state.step input = .ok next := by
  have wires := wire_run valid.toFits run
  cases input with
  | get w =>
      obtain ⟨member, -, balanced, more⟩ := admitted
      obtain ⟨out, called⟩ : ∃ out, (job.table w (state.clients w).table.getCount _
          (state.clients w).table.recvKvs).get = .ok out := SparseJob.get_ok valid provided more
      have table_eq := (wires.shape w member).table_eq
      rw [← balanced] at table_eq
      simp only [step, SparseClient.get]
      rw [table_eq, called]
      exact ⟨_, rfl⟩
  | add w =>
      obtain ⟨member, -, balanced⟩ := admitted
      obtain ⟨out, called⟩ : ∃ out, (job.table w _ (state.clients w).table.addCount
          (state.clients w).table.recvKvs).add _ = .ok out := SparseJob.add_ok valid provided
      have table_eq := (wires.shape w member).table_eq
      rw [balanced] at table_eq
      have added : (state.clients w).table.add (job.adds w (state.clients w).table.addCount) = .ok out :=
        (congrArg (fun table => table.add (job.adds w (state.clients w).table.addCount)) table_eq).trans
          called
      simp only [step, SparseClient.add, balanced, Nat.add_sub_cancel, added]
      exact ⟨_, rfl⟩
  | push w =>
      simp only [step]
      split
      · exact ⟨_, rfl⟩
      · exact ⟨_, rfl⟩
  | finish w => exact ⟨_, rfl⟩
  | serve server w => exact absurd rfl (call server w)
  | respond server w =>
      obtain ⟨inServers, member, some_reply⟩ := admitted
      obtain ⟨msg, rest, next⟩ := List.exists_cons_of_ne_nil some_reply
      have inv := client_run valid.paced run w member
      have arrives := arrives valid.paced wires inv inServers member next
      obtain ⟨keys, -, listed, -⟩ := SparseJob.keys_of_sent valid.toFits (mem_owners.mp arrives.owner).2
      simp only [step, next]
      by_cases last : (state.clients w).tracker.1 = (state.clients w).tracker.2 + 1
      · obtain ⟨client, recvKvs, vals, answers, added, -⟩ :=
          respond_last valid.paced wires inv member arrives next listed last
        rw [added]
        exact ⟨_, rfl⟩
      · obtain ⟨client, added⟩ := respond_more arrives.answer last
        rw [added]
        exact ⟨_, rfl⟩

/-- Of all checks of the clients and servers only one can ever fail, the version check of `Clock`,
    and it does exactly when a server takes a `Clock` of a worker while an earlier one of that
    worker is in its `buffer_`. -/
theorem step_error_iff (valid : job.Valid) (provided : job.Provided) (indexed : job.Indexed)
    (run : Run job inputs state events)
    {input : SparseInput} (admitted : state.Enabled events input) {e : Fault} :
    state.step input = .error e ↔
      e = .check .clockVersion ∧ ∃ server w, input = .serve server w ∧ state.BehindClock server w := by
  by_cases call : ∀ server w, input ≠ .serve server w
  · obtain ⟨next, taken⟩ := call_ok valid provided run admitted call
    rw [taken]
    constructor
    · exact fun failed => by cases failed
    · rintro ⟨-, server, w, served, -⟩
      exact absurd served (call server w)
  · simp only [not_forall, not_not] at call
    obtain ⟨server, w, rfl⟩ := call
    rw [serve_error_iff valid provided indexed run admitted]
    constructor
    · rintro ⟨behind, failed⟩
      exact ⟨failed, server, w, rfl, behind⟩
    · rintro ⟨failed, server', w', same, behind⟩
      cases same
      exact ⟨behind, failed⟩

theorem step_error_iff_oneSided : ∃ state : SparseSystem SparseJob.oneSided,
    state.step (.serve 0 8) = .error (.check .clockVersion) := by
  obtain ⟨inputs, state, events, run, admitted, behind, -⟩ := exists_behindClock
  exact ⟨state, (step_error_iff SparseJob.oneSided_valid SparseJob.oneSided_provided
    (SparseJob.indexed_of_map fun _ => rfl) run admitted).mpr ⟨rfl, 0, 8, rfl, behind⟩⟩

/-! ## Jobs that read everywhere -/

/-- No check fails when every worker reads on every server in every iteration. -/
theorem never_fails (valid : job.Valid) (provided : job.Provided) (indexed : job.Indexed)
    (everywhere : job.Everywhere) (run : Run job inputs state events) {input : SparseInput}
    (admitted : state.Enabled events input) :
    ∃ next, state.step input = .ok next := by
  by_cases call : ∀ server w, input ≠ .serve server w
  · exact call_ok valid provided run admitted call
  · simp only [not_forall, not_not] at call
    obtain ⟨server, w, rfl⟩ := call
    cases stepped : state.step (.serve server w) with
    | ok next => exact ⟨next, rfl⟩
    | error e =>
        obtain ⟨⟨-, buffered⟩, -⟩ := (serve_error_iff valid provided indexed run admitted).mp stepped
        obtain ⟨inServers, member, -⟩ := admitted
        have wires := wire_run valid.toFits run
        obtain ⟨position, projected⟩ := wires.projected server inServers
        obtain ⟨ws, stream⟩ := projected.run
        have behind := projected.behind w member
        obtain ⟨some_clock, absent⟩ := absent_of_buffered valid wires (client_run valid.paced run w member)
          inServers member stream behind buffered
        have few := (streamAdds_le (wires.shape w member).balanced behind).2.2
        have inTime := (wires.shape w member).bounded
        exact absurd absent (everywhere w member _ (by omega) server inServers)

/-- Workers that read on every server in every iteration, and so all workers when there is one
    server, always get through all their iterations: no check ever fails, and every schedule
    that takes a step whenever there is one ends with all calls returned. -/
theorem everywhere_completes (valid : job.Valid) (provided : job.Provided) (indexed : job.Indexed)
    (everywhere : job.Everywhere) {n : Nat} (alike : ∀ w ∈ job.workers, job.rounds w = n) :
    (∀ inputs state events, Run job inputs state events →
      ∀ input, state.Enabled events input → ∃ next, state.step input = .ok next) ∧
    ∀ schedule : Nat → SparseInput, ∃ k state events,
      Run job ((List.range k).map schedule) state events ∧ ¬ state.Enabled events (schedule k) ∧
        ((∀ w ∈ job.workers, (state.clients w).call = .outside ∧
            (state.clients w).table.getCount = n ∧ (state.clients w).table.addCount = n) ∨
          ∃ input, state.Enabled events input) := by
  refine ⟨fun inputs state events run input => never_fails valid provided indexed everywhere run,
    fun schedule => ?_⟩
  obtain ⟨k, state, events, run, ends⟩ := run_stops valid.toFits schedule
  have refused : ¬ state.Enabled events (schedule k) := by
    intro admitted
    obtain ⟨fault, failed⟩ := ends admitted
    obtain ⟨next, taken⟩ := never_fails valid provided indexed everywhere run admitted
    cases failed.symm.trans taken
  refine ⟨k, state, events, run, refused, ?_⟩
  by_cases stuck : state.Stuck events
  · exact .inl (stuck_done valid.paced alike run stuck)
  · simp only [Stuck, not_forall, not_not] at stuck
    exact .inr stuck

/-- The same two workers with one server. -/
theorem everywhere_completes_oneServer :
    (∀ inputs (state : SparseSystem SparseJob.oneServer) events, Run SparseJob.oneServer inputs state events →
      ∀ input, state.Enabled events input → ∃ next, state.step input = .ok next) ∧
    ∀ schedule : Nat → SparseInput, ∃ k, ∃ state : SparseSystem SparseJob.oneServer, ∃ events,
      Run SparseJob.oneServer ((List.range k).map schedule) state events ∧
        ¬ state.Enabled events (schedule k) ∧
        ((∀ w ∈ [8, 9], (state.clients w).call = .outside ∧
            (state.clients w).table.getCount = 5 ∧ (state.clients w).table.addCount = 5) ∨
          ∃ input, state.Enabled events input) :=
  everywhere_completes SparseJob.oneServer_valid SparseJob.oneServer_provided
    (SparseJob.indexed_of_map fun _ => rfl)
    (SparseJob.everywhere_of_one SparseJob.oneServer_valid SparseJob.oneServer_provided rfl)
    fun _ _ => rfl

end SparseSystem

end FlexPS
