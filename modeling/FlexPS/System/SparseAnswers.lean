import FlexPS.Lib.Gather
import FlexPS.System.SparseReplies
import FlexPS.Worker.TableBox

/-! # A sparse `Get` returns its own answers

A worker has up to `speculation + 1` `Get`s on the way and one counter and one buffer for
their replies. No reply to a later `Get` can reach it before it has called that `Get`, and
none to an earlier one is missing once that has returned, so what it gathers are the answers
to the `Get` it is in.
-/

namespace FlexPS

variable {Val : Type} [AddCommMonoid Val]

namespace SparseSystem

variable {job : SparseJob Val} {state state' : SparseSystem job} {events : List (SparseEvent Val)}
  {server w : Tid}

section Invariant

omit [AddCommMonoid Val]

/-- The replies to `Get_v` that one server has handed to a worker. -/
def arrivedFrom (state : SparseSystem job) (w : Tid) (version : Nat) (server : Tid) :
    List (Message Val) :=
  (state.replies server w).arrived.filter fun msg => msg.version = version

/-- The replies that have arrived to the `Get` a worker is in. -/
def gathered (state : SparseSystem job) (w : Tid) : List (Message Val) :=
  (job.owners w ((state.clients w).table.getCount - 1)).flatMap
    (state.arrivedFrom w ((state.clients w).table.getCount - 1))

/-- What a worker waits for and what it has. -/
structure ClientInv (state : SparseSystem job) (w : Tid) : Prop where
  called : (state.clients w).call = .get →
    (state.clients w).table.getCount = (state.clients w).table.addCount + 1
  tracker : 0 < (state.clients w).table.getCount → (state.clients w).tracker =
    ((job.owners w ((state.clients w).table.getCount - 1)).length, (state.gathered w).length)
  complete : (state.clients w).call ≠ .get → (state.clients w).tracker.1 = (state.clients w).tracker.2
  recvKvs : (state.clients w).table.recvKvs.Perm
    (if (state.clients w).tracker.2 < (state.clients w).tracker.1 then
      (state.gathered w).map Message.kvs else [])
  earlier : ∀ version, version + 1 < (state.clients w).table.getCount →
    ∀ server ∈ job.owners w version, (state.arrivedFrom w version server).length = 1

/-- The worker has the same table and waits for the same. -/
theorem ClientInv.of_kept (inv : state.ClientInv w)
    (table : (state'.clients w).table = (state.clients w).table)
    (tracker : (state'.clients w).tracker = (state.clients w).tracker)
    (called : (state'.clients w).call = .get → (state.clients w).call = .get)
    (complete : (state'.clients w).call ≠ .get →
      (state.clients w).tracker.1 = (state.clients w).tracker.2)
    (arrived : ∀ server, (state'.replies server w).arrived = (state.replies server w).arrived) :
    state'.ClientInv w := by
  have from_eq : ∀ version server, state'.arrivedFrom w version server =
      state.arrivedFrom w version server := by
    intro version server
    rw [arrivedFrom, arrivedFrom, arrived]
  have gathered_eq : state'.gathered w = state.gathered w := by
    rw [gathered, gathered, table]
    exact congrArg (List.flatMap · _) (funext (from_eq _))
  constructor
  · rw [table]
    exact fun inGet => inv.called (called inGet)
  · rw [table, tracker, gathered_eq]
    exact inv.tracker
  · rw [tracker]
    exact complete
  · rw [table, tracker, gathered_eq]
    exact inv.recvKvs
  · intro version later server owner
    rw [table] at later
    rw [from_eq]
    exact inv.earlier version later server owner

/-- Nothing has changed for the worker. -/
theorem ClientInv.of_same (inv : state.ClientInv w) (client : state'.clients w = state.clients w)
    (arrived : ∀ server, (state'.replies server w).arrived = (state.replies server w).arrived) :
    state'.ClientInv w :=
  inv.of_kept (by rw [client]) (by rw [client]) (fun inGet => client ▸ inGet)
    (fun outside => inv.complete (client ▸ outside)) arrived

theorem mem_owners {version : Nat} : server ∈ job.owners w version ↔
    server ∈ job.servers ∧ (job.workload server).keys w version ≠ [] := by
  rw [SparseJob.owners, List.mem_filter, decide_eq_true_eq]

end Invariant

/-! ## What can arrive -/

theorem arrivedFrom_le (paced : job.Paced) (wires : state.WireInv events)
    (inServers : server ∈ job.servers) (member : w ∈ job.workers) (version : Nat) :
    (state.arrivedFrom w version server).length ≤
      if version < (state.clients w).table.getCount ∧ (job.workload server).keys w version ≠ [] then 1
      else 0 := by
  have sent := (sent_replies paced wires inServers member).2 version
  rw [Link.sent, List.countP_append] at sent
  rw [arrivedFrom, ← List.countP_eq_length_filter]
  omega

theorem arrivedFrom_le_one (paced : job.Paced) (wires : state.WireInv events)
    (inServers : server ∈ job.servers) (member : w ∈ job.workers) (version : Nat) :
    (state.arrivedFrom w version server).length ≤ 1 :=
  Nat.le_trans (arrivedFrom_le paced wires inServers member version) (by split <;> omega)

/-- A worker that has all it waits for has one reply of every owner. -/
theorem all_arrived (paced : job.Paced) (wires : state.WireInv events) (inv : state.ClientInv w)
    (member : w ∈ job.workers) (called : 0 < (state.clients w).table.getCount)
    (all : (state.clients w).tracker.1 = (state.clients w).tracker.2) :
    List.Forall₂ (fun server msg =>
        state.arrivedFrom w ((state.clients w).table.getCount - 1) server = [msg])
      (job.owners w ((state.clients w).table.getCount - 1)) (state.gathered w) := by
  have tracker := inv.tracker called
  rw [tracker] at all
  exact Gather.complete
    (fun server owner => arrivedFrom_le_one paced wires (mem_owners.mp owner).1 member _) all.symm

/-- The next reply of a server answers the `Get` its worker is in, and is the first of the
    server to do so. -/
structure Arrives (state : SparseSystem job) (server w : Tid) (msg : Message Val) : Prop where
  inGet : (state.clients w).call = .get
  version_eq : msg.version + 1 = (state.clients w).table.getCount
  owner : server ∈ job.owners w msg.version
  first : state.arrivedFrom w msg.version server = []
  waiting : (state.clients w).tracker.2 < (state.clients w).tracker.1
  answer : job.IsAnswer server w msg.version msg

theorem arrives (paced : job.Paced) (wires : state.WireInv events) (inv : state.ClientInv w)
    (inServers : server ∈ job.servers) (member : w ∈ job.workers) {msg : Message Val}
    {rest : List (Message Val)} (next : (state.replies server w).inFlight = msg :: rest) :
    state.Arrives server w msg := by
  obtain ⟨genuine, once⟩ := sent_replies paced wires inServers member
  have inSent : msg ∈ (state.replies server w).sent := by simp [Link.sent, next]
  obtain ⟨version, -, answer, -⟩ := genuine msg inSent
  obtain rfl := answer.version_eq
  have only := once msg.version
  have counted : (msg :: rest).countP (fun other => other.version = msg.version) =
      rest.countP (fun other => other.version = msg.version) + 1 :=
    List.countP_cons_of_pos (by simp)
  rw [Link.sent, next, List.countP_append, counted] at only
  split at only
  next issued =>
    have owner : server ∈ job.owners w msg.version := mem_owners.mpr ⟨inServers, issued.2⟩
    have first : state.arrivedFrom w msg.version server = [] := by
      rw [arrivedFrom, ← List.length_eq_zero_iff, ← List.countP_eq_length_filter]
      omega
    have current : msg.version + 1 = (state.clients w).table.getCount := by
      by_contra apart
      have one := inv.earlier msg.version (by omega) server owner
      rw [first] at one
      cases one
    have version_eq : (state.clients w).table.getCount - 1 = msg.version := by omega
    have more : (state.clients w).tracker.1 ≠ (state.clients w).tracker.2 := by
      intro all
      have each := all_arrived paced wires inv member (by omega) all
      rw [version_eq] at each
      obtain ⟨answer, _, one⟩ := exists_same_of_mem each owner
      rw [first] at one
      cases one
    have tracker := inv.tracker (by omega)
    have short : (state.gathered w).length ≤
        (job.owners w ((state.clients w).table.getCount - 1)).length :=
      Gather.length_le fun server owner =>
        arrivedFrom_le_one paced wires (mem_owners.mp owner).1 member _
    have inGet : (state.clients w).call = .get := by
      by_contra outside
      exact more (inv.complete outside)
    refine ⟨inGet, current, owner, first, ?_, answer⟩
    rw [tracker] at more ⊢
    exact Nat.lt_of_le_of_ne short (Ne.symm more)
  next => omega

/-! ## Every step keeps what a worker has gathered -/

theorem client_get (paced : job.Paced) (wires : state.WireInv events) (inv : state.ClientInv w)
    (member : w ∈ job.workers) (idle : (state.clients w).call = .outside)
    {client : SparseClient Val} (called : (state.clients w).get = .ok client) :
    (state.setClient w client).ClientInv w := by
  obtain ⟨even, client_eq, -⟩ := clientGet_spec paced.toFits (wires.shape w member) called
  have clients_eq : (state.setClient w client).clients w = client := by
    rw [setClient_clients, if_pos rfl]
  have all := inv.complete (by rw [idle]; exact fun same => by cases same)
  have gets : client.table.getCount = (state.clients w).table.getCount + 1 := by rw [client_eq]; rfl
  have adds : client.table.addCount = (state.clients w).table.addCount := by rw [client_eq]; rfl
  have tracker : client.tracker = ((job.owners w (state.clients w).table.getCount).length, 0) := by
    rw [client_eq]
  have nothing : ∀ server ∈ job.owners w (state.clients w).table.getCount,
      state.arrivedFrom w (state.clients w).table.getCount server = [] := by
    intro server owner
    have none := arrivedFrom_le paced wires (mem_owners.mp owner).1 member
      (state.clients w).table.getCount
    rw [if_neg (fun issued => Nat.lt_irrefl _ issued.1)] at none
    exact List.length_eq_zero_iff.mp (Nat.le_zero.mp none)
  have gathered_eq : (state.setClient w client).gathered w = [] := by
    rw [gathered, clients_eq, gets]
    exact List.flatMap_eq_nil_iff.mpr nothing
  have empty : client.table.recvKvs = [] := by
    have before := inv.recvKvs
    rw [if_neg (by omega)] at before
    rw [client_eq]
    exact before.eq_nil
  constructor
  · rw [clients_eq, gets, adds, even]
    exact fun _ => rfl
  · rw [clients_eq, gathered_eq, tracker, gets]
    exact fun _ => rfl
  · rw [clients_eq, client_eq]
    exact fun outside => absurd rfl outside
  · rw [clients_eq, gathered_eq, empty, List.map_nil, ite_self]
  · intro version later server owner
    rw [clients_eq, gets] at later
    change (state.arrivedFrom w version server).length = 1
    by_cases current : version + 1 = (state.clients w).table.getCount
    · have each := all_arrived paced wires inv member (by omega) all
      have version_eq : (state.clients w).table.getCount - 1 = version := by omega
      rw [version_eq] at each
      obtain ⟨answer, _, one⟩ := exists_same_of_mem each owner
      rw [one]
      rfl
    · exact inv.earlier version (by omega) server owner

theorem client_add (paced : job.Paced) (wires : state.WireInv events) (inv : state.ClientInv w)
    (member : w ∈ job.workers) (idle : (state.clients w).call = .outside)
    {client : SparseClient Val}
    (called : (state.clients w).add (job.adds w ((state.clients w).table.getCount - 1)) =
      .ok client) :
    (state.setClient w client).ClientInv w := by
  obtain ⟨-, client_eq, -⟩ := clientAdd_spec paced.toFits (wires.shape w member) called
  have clients_eq : (state.setClient w client).clients w = client := by
    rw [setClient_clients, if_pos rfl]
  have gets : client.table.getCount = (state.clients w).table.getCount := by rw [client_eq]; rfl
  have tracker : client.tracker = (state.clients w).tracker := by rw [client_eq]
  have recvKvs : client.table.recvKvs = (state.clients w).table.recvKvs := by rw [client_eq]; rfl
  have gathered_eq : (state.setClient w client).gathered w = state.gathered w := by
    rw [gathered, clients_eq, gets]
    rfl
  constructor
  · rw [clients_eq, client_eq]
    exact fun inGet => by cases inGet
  · rw [clients_eq, gathered_eq, gets, tracker]
    exact inv.tracker
  · rw [clients_eq, tracker]
    exact fun _ => inv.complete (by rw [idle]; exact fun same => by cases same)
  · rw [clients_eq, gathered_eq, recvKvs, tracker]
    exact inv.recvKvs
  · rw [clients_eq, gets]
    exact inv.earlier

omit [AddCommMonoid Val] in
/-- The replies that arrive change nothing else for the other workers and servers. -/
theorem arrivedFrom_respond {client : SparseClient Val} {msg : Message Val}
    {rest : List (Message Val)} (next : (state.replies server w).inFlight = msg :: rest)
    (u other : Tid) (version : Nat) :
    arrivedFrom ({ state.setClient w client with
        replies := Link.set state.replies server w (state.replies server w).receive } :
          SparseSystem job) u version other =
      state.arrivedFrom u version other ++
        if other = server ∧ u = w ∧ msg.version = version then [msg] else [] := by
  simp only [arrivedFrom, Link.set_apply]
  by_cases here : other = server ∧ u = w
  · obtain ⟨rfl, rfl⟩ := here
    rw [if_pos ⟨rfl, rfl⟩, Link.receive_eq next, List.filter_append]
    by_cases same : msg.version = version
    · rw [if_pos ⟨rfl, rfl, same⟩, List.filter_cons_of_pos (by simpa using same), List.filter_nil]
    · rw [if_neg (fun h => same h.2.2), List.filter_cons_of_neg (by simpa using same), List.filter_nil]
  · rw [if_neg here, if_neg (fun h => here ⟨h.1, h.2.1⟩), List.append_nil]

/-- The gathered replies after the next has arrived. -/
theorem gathered_respond (fits : job.Fits) {client : SparseClient Val} {msg : Message Val}
    {rest : List (Message Val)} (arrives : state.Arrives server w msg)
    (next : (state.replies server w).inFlight = msg :: rest)
    (gets : client.table.getCount = (state.clients w).table.getCount) :
    (gathered ({ state.setClient w client with
        replies := Link.set state.replies server w (state.replies server w).receive } :
          SparseSystem job) w).Perm (state.gathered w ++ [msg]) := by
  have current := arrives.version_eq
  have version_eq : (state.clients w).table.getCount - 1 = msg.version := by omega
  simp only [gathered, setClient_clients, if_true, gets, version_eq]
  have distinct : (job.owners w msg.version).Nodup := fits.apart.sublist List.filter_sublist
  apply Gather.flatMap_arrival distinct arrives.owner
  · rw [arrivedFrom_respond next, if_pos ⟨rfl, rfl, rfl⟩]
  · intro other _ apart
    rw [arrivedFrom_respond next, if_neg (fun h => apart h.1), List.append_nil]

theorem client_respond (paced : job.Paced) (inv : state.ClientInv w)
    {msg : Message Val} {rest : List (Message Val)} (arrives : state.Arrives server w msg)
    (next : (state.replies server w).inFlight = msg :: rest) {client : SparseClient Val}
    {finished : Option (List (KVPairs Val) × List Val)}
    (added : (state.clients w).addResponse msg = .ok (client, finished)) :
    ClientInv ({ state.setClient w client with
      replies := Link.set state.replies server w (state.replies server w).receive } :
        SparseSystem job) w := by
  obtain ⟨keys, vals, data_eq, client_eq, goesOn, finishes⟩ := addResponse_spec added
  have current := arrives.version_eq
  have gets : client.table.getCount = (state.clients w).table.getCount := by rw [client_eq]
  have adds : client.table.addCount = (state.clients w).table.addCount := by rw [client_eq]
  have tracker : client.tracker = ((state.clients w).tracker.1, (state.clients w).tracker.2 + 1) := by
    rw [client_eq]
  have call : client.call = .get := by
    rw [client_eq]
    exact arrives.inGet
  have kvs_eq : msg.kvs = ⟨keys.asU32, vals.asVals⟩ := by rw [Message.kvs, data_eq]
  have more := gathered_respond paced.toFits arrives next gets
  have clients_eq : (state.setClient w client).clients w = client := by
    rw [setClient_clients, if_pos rfl]
  constructor
  · intro inGet
    simp only [clients_eq, gets, adds]
    exact inv.called arrives.inGet
  · intro called
    simp only [clients_eq, gets] at called ⊢
    rw [tracker, inv.tracker called, more.length_eq, List.length_append]
    rfl
  · simp only [clients_eq]
    exact fun outside => absurd call outside
  · simp only [clients_eq, tracker]
    by_cases last : (state.clients w).tracker.1 = (state.clients w).tracker.2 + 1
    · rw [if_neg (by omega), (finishes last).1]
    · have waiting := arrives.waiting
      have before := inv.recvKvs
      rw [if_pos waiting] at before
      rw [if_pos (by omega), (goesOn last).2, ← kvs_eq]
      have longer : (state.gathered w ++ [msg]).map Message.kvs =
          (state.gathered w).map Message.kvs ++ [msg.kvs] := by
        rw [List.map_append, List.map_singleton]
      have arrival := (more.map Message.kvs).symm
      rw [longer] at arrival
      exact (before.append_right _).trans arrival
  · intro version later other owner
    simp only [clients_eq, gets] at later
    rw [arrivedFrom_respond next, if_neg (fun h => by omega), List.append_nil]
    exact inv.earlier version later other owner

/-! ## Runs -/

omit [AddCommMonoid Val] in
theorem client_start : (start job).ClientInv w where
  called inGet := by cases inGet
  tracker called := absurd called (Nat.lt_irrefl 0)
  complete _ := rfl
  recvKvs := List.Perm.refl _
  earlier version later := absurd later (Nat.not_lt_zero _)

theorem client_step (paced : job.Paced) (wires : state.WireInv events)
    (inv : ∀ w ∈ job.workers, state.ClientInv w) {input : SparseInput} {out : List (SparseEvent Val)}
    (stepped : Stepped state input state' out) : ∀ w ∈ job.workers, state'.ClientInv w := by
  intro u member
  cases stepped with
  | @get w client memberW idle more called =>
      by_cases same : u = w
      · subst same
        exact client_get paced wires (inv u member) member idle called
      · exact (inv u member).of_same (by rw [setClient_clients, if_neg same]) fun _ => rfl
  | @add w client memberW idle called =>
      by_cases same : u = w
      · subst same
        exact client_add paced wires (inv u member) member idle called
      · exact (inv u member).of_same (by rw [setClient_clients, if_neg same]) fun _ => rfl
  | @push w msg todo memberW next =>
      have before := inv u member
      by_cases same : u = w
      · subst same
        apply before.of_kept
        all_goals simp only [setClient_clients, if_true]
        · exact fun inGet => inGet
        · exact before.complete
        · exact fun _ => rfl
      · exact before.of_same (by simp only [setClient_clients, if_neg same]) fun _ => rfl
  | @finish w memberW returns =>
      have before := inv u member
      by_cases same : u = w
      · subst same
        apply before.of_kept
        all_goals simp only [setClient_clients, if_true]
        · exact fun inGet => by cases inGet
        · intro _
          by_cases inGet : (state.clients u).call = .get
          · exact returns.2.2 inGet
          · exact before.complete inGet
        · exact fun _ => rfl
      · exact before.of_same (by rw [setClient_clients, if_neg same]) fun _ => rfl
  | @serve server w msg rest model out inServers memberW next handled =>
      refine (inv u member).of_same rfl fun other => ?_
      simp only [deliver]
      split <;> rfl
  | @respond server w msg rest client finished inServers memberW next added =>
      by_cases same : u = w
      · subst same
        have inv := inv u member
        exact client_respond paced inv (arrives paced wires inv inServers member next) next added
      · refine (inv u member).of_same (by simp only [setClient_clients, if_neg same]) fun other => ?_
        simp only [Link.set_apply]
        rw [if_neg fun h => same h.2]

theorem client_run (paced : job.Paced) {inputs : List SparseInput} (run : Run job inputs state events) :
    ∀ w ∈ job.workers, state.ClientInv w := by
  refine run.invariant (P := fun _ state _ => ∀ w ∈ job.workers, state.ClientInv w)
    (fun _ _ => client_start) ?_
  intro _ state events input state' out run inv admitted stepped
  exact client_step paced (wire_run paced.toFits run) inv (step_cases admitted stepped)

/-! ## What a `Get` returns -/

/-- A client that has one answer of every owner of a `Get` puts them into the order of its
    keys. -/
theorem recvFinishHandle_answers (paced : job.Paced) {version : Nat} (adds : Nat) {keys : List Key}
    (listed : (job.keys w)[version]? = some keys) {answers : List (Message Val)}
    (each : List.Forall₂ (fun server msg => job.IsAnswer server w version msg)
      (job.owners w version) answers)
    {recvKvs : List (KVPairs Val)} (received : recvKvs.Perm (answers.map Message.kvs)) :
    ∃ vals, (job.table w (version + 1) adds recvKvs).recvFinishHandle =
        .ok (job.table w (version + 1) adds [], vals) ∧ vals.length = keys.length ∧
      keys.zip vals = answers.flatMap fun msg => msg.kvs.keys.zip msg.kvs.vals := by
  have member := List.mem_of_getElem? listed
  have some_key := paced.some_key w keys member
  obtain ⟨sliced, cut⟩ : ∃ sliced, job.manager.slice (⟨keys, []⟩ : KVPairs Val) = .ok sliced :=
    ⟨_, SimpleRangePartitionManager.slice_of_cuts paced.some_range paced.contiguous some_key
      (paced.cuts member) (Nat.zero_mul _).symm⟩
  have part_eq : ∀ server, (job.workload server).keys w version =
      (job.part ⟨keys, []⟩ server).keys := by
    intro server
    simp only [SparseJob.workload, listed, Option.getD_some]
  have owners_eq : job.owners w version =
      job.manager.owners (⟨keys, []⟩ : KVPairs Val) := by
    simp only [SparseJob.owners, SimpleRangePartitionManager.owners, part_eq]
    rfl
  have replied : Replies sliced (answers.map Message.kvs) := by
    apply SimpleRangePartitionManager.replies_of_owners paced.apart cut
    rw [← owners_eq, List.forall₂_map_right_iff]
    refine each.imp ?_
    rintro server msg ⟨storage, rfl⟩
    refine ⟨part_eq server, ?_⟩
    simp [Message.kvs, Storage.replyTo, SArray.asU32, SArray.asVals]
  have inOrder := replied.inOrder paced.some_range paced.contiguous some_key (paced.cuts member)
    (paced.inside w keys member) cut
  have total : (recvKvs.map fun s => s.keys.length).sum = keys.length :=
    (received.map _).sum_eq.trans inOrder.total_eq
  refine ⟨(answers.map Message.kvs).flatMap KVPairs.vals, ?_, inOrder.vals_length, ?_⟩
  · have listed' : (job.table w (version + 1) adds recvKvs).keys[
        (job.table w (version + 1) adds recvKvs).getCount - 1]? = some keys := listed
    simp only [SparseKVClientTable.recvFinishHandle, listed']
    simp only [SparseJob.table, total, check_pos, Except.ok_bind, inOrder.sort_eq received,
      Except.pure_eq_ok]
  · have zipped := InOrder.zip_flatMap inOrder.sized
    rw [inOrder.keys_eq] at zipped
    rw [zipped, List.flatMap_map]

variable (job) in
/-- What every owner of the keys of `Get_v` has returned for them, in the order of the owners. -/
def AnswersOf (events : List (SparseEvent Val)) (w : Tid) (version : Nat)
    (answers : List (Message Val)) : Prop :=
  List.Forall₂ (fun server msg => job.IsAnswer server w version msg ∧ ∃ clocks,
      .served server (.reply ((job.workload server).getMsg w version) msg clocks) ∈ events)
    (job.owners w version) answers

/-- With the last reply, a worker has one answer of every owner. -/
theorem last_arrival (paced : job.Paced) (wires : state.WireInv events) (inv : state.ClientInv w)
    (member : w ∈ job.workers) {msg : Message Val} {rest : List (Message Val)}
    (arrives : state.Arrives server w msg)
    (next : (state.replies server w).inFlight = msg :: rest)
    (last : (state.clients w).tracker.1 = (state.clients w).tracker.2 + 1) :
    ∃ answers, AnswersOf job events w msg.version answers ∧
      (state.gathered w ++ [msg]).Perm answers := by
  have current := arrives.version_eq
  have version_eq : (state.clients w).table.getCount - 1 = msg.version := by omega
  let handed (other : Tid) : List (Message Val) :=
    state.arrivedFrom w msg.version other ++ if other = server then [msg] else []
  have arrival : ((job.owners w msg.version).flatMap handed).Perm (state.gathered w ++ [msg]) := by
    rw [gathered, version_eq]
    apply Gather.flatMap_arrival (paced.apart.sublist List.filter_sublist) arrives.owner
    · simp only [handed, if_true]
    · intro other _ apart
      simp only [handed, if_neg apart, List.append_nil]
  have inSent : ∀ other, ∀ reply ∈ handed other,
      reply ∈ (state.replies other w).sent ∧ reply.version = msg.version := by
    intro other reply inHanded
    rcases List.mem_append.mp inHanded with before | now
    · obtain ⟨arrived, version⟩ := List.mem_filter.mp before
      exact ⟨List.mem_append_left _ arrived, of_decide_eq_true version⟩
    · split at now
      next same =>
        rw [List.mem_singleton.mp now, same]
        exact ⟨by simp [Link.sent, next], rfl⟩
      next => cases now
  have once : ∀ other ∈ job.owners w msg.version, (handed other).length ≤ 1 := by
    intro other owner
    by_cases same : other = server
    · rw [same]
      simp only [handed, arrives.first, if_true, List.nil_append, List.length_singleton, Nat.le_refl]
    · simp only [handed, if_neg same, List.append_nil]
      exact arrivedFrom_le_one paced wires (mem_owners.mp owner).1 member _
  have tracker := inv.tracker (by omega)
  rw [tracker, version_eq] at last
  have all : ((job.owners w msg.version).flatMap handed).length =
      (job.owners w msg.version).length := by
    rw [arrival.length_eq, List.length_append, List.length_singleton]
    exact last.symm
  refine ⟨_, ?_, arrival.symm⟩
  refine ((List.forall₂_and_left _ _).mpr ⟨fun _ owner => owner, Gather.complete once all⟩).imp ?_
  rintro other reply ⟨owner, one⟩
  obtain ⟨sent, version⟩ := inSent other reply (one ▸ List.mem_singleton_self reply)
  obtain ⟨version', clocks, answer, served⟩ :=
    (sent_replies paced wires (mem_owners.mp owner).1 member).1 reply sent
  obtain rfl : version' = msg.version := answer.version_eq.symm.trans version
  exact ⟨answer, clocks, served⟩

omit [AddCommMonoid Val] in
theorem ClientShape.table_with {client : SparseClient Val} (shape : ClientShape job w client)
    (recvKvs : List (KVPairs Val)) : { client.table with recvKvs } =
      job.table w client.table.getCount client.table.addCount recvKvs := by
  have table_eq := shape.table_eq
  generalize client.table = table at table_eq
  rw [table_eq]
  rfl

/-- A reply that is not the last one is kept. -/
theorem respond_more {msg : Message Val} (answer : job.IsAnswer server w msg.version msg)
    (more : (state.clients w).tracker.1 ≠ (state.clients w).tracker.2 + 1) :
    ∃ client, (state.clients w).addResponse msg = .ok (client, none) := by
  obtain ⟨storage, genuine⟩ := answer
  have received : (state.clients w).table.recvHandle msg = .ok
      { (state.clients w).table with recvKvs := (state.clients w).table.recvKvs ++ [msg.kvs] } := by
    rw [genuine]
    rfl
  refine ⟨{ state.clients w with
    table := { (state.clients w).table with
      recvKvs := (state.clients w).table.recvKvs ++ [msg.kvs] }
    tracker := ((state.clients w).tracker.1, (state.clients w).tracker.2 + 1) }, ?_⟩
  simp only [SparseClient.addResponse, received, Except.ok_bind, if_neg more, Except.pure_eq_ok]

/-- With the last reply the finish handle puts the answers into the order of the keys. -/
theorem respond_last (paced : job.Paced) (wires : state.WireInv events) (inv : state.ClientInv w)
    (member : w ∈ job.workers) {msg : Message Val} {rest : List (Message Val)} {keys : List Key}
    (arrives : state.Arrives server w msg)
    (next : (state.replies server w).inFlight = msg :: rest)
    (listed : (job.keys w)[msg.version]? = some keys)
    (last : (state.clients w).tracker.1 = (state.clients w).tracker.2 + 1) :
    ∃ client recvKvs vals answers,
      (state.clients w).addResponse msg = .ok (client, some (recvKvs, vals)) ∧
      AnswersOf job events w msg.version answers ∧ recvKvs.Perm (answers.map Message.kvs) ∧
      vals.length = keys.length ∧
      keys.zip vals = answers.flatMap fun answer => answer.kvs.keys.zip answer.kvs.vals := by
  obtain ⟨answers, each, arrival⟩ := last_arrival paced wires inv member arrives next last
  have shape := wires.shape w member
  have before := inv.recvKvs
  rw [if_pos arrives.waiting] at before
  have longer : (state.gathered w ++ [msg]).map Message.kvs =
      (state.gathered w).map Message.kvs ++ [msg.kvs] := by
    rw [List.map_append, List.map_singleton]
  have perm : ((state.clients w).table.recvKvs ++ [msg.kvs]).Perm (answers.map Message.kvs) :=
    (before.append_right _).trans (longer ▸ arrival.map Message.kvs)
  obtain ⟨vals, finished, sized, zipped⟩ := recvFinishHandle_answers paced
    (state.clients w).table.addCount listed (each.imp fun _ _ h => h.1) perm
  obtain ⟨storage, genuine⟩ := arrives.answer
  have received : (state.clients w).table.recvHandle msg = .ok
      (job.table w (msg.version + 1) (state.clients w).table.addCount
        ((state.clients w).table.recvKvs ++ [msg.kvs])) := by
    rw [arrives.version_eq, ← shape.table_with, genuine]
    rfl
  refine ⟨{ state.clients w with
    table := job.table w (msg.version + 1) (state.clients w).table.addCount []
    tracker := ((state.clients w).tracker.1, (state.clients w).tracker.2 + 1) }, _, vals, answers,
    ?_, each, perm, sized, zipped⟩
  simp only [SparseClient.addResponse, received, Except.ok_bind, if_pos last, finished,
    Except.pure_eq_ok]
  rfl

/-- What a worker has got are the answers of the owners of its keys. -/
theorem gotten_run (paced : job.Paced) {inputs : List SparseInput}
    (run : Run job inputs state events) {getCount : Nat} {recvKvs : List (KVPairs Val)} {vals : List Val}
    (got : .gotten w getCount recvKvs vals ∈ events) :
    w ∈ job.workers ∧ ∃ version keys answers, getCount = version + 1 ∧
      (job.keys w)[version]? = some keys ∧ AnswersOf job events w version answers ∧
      recvKvs.Perm (answers.map Message.kvs) ∧ vals.length = keys.length ∧
      keys.zip vals = answers.flatMap fun answer => answer.kvs.keys.zip answer.kvs.vals := by
  refine run.invariant (P := fun _ _ events => .gotten w getCount recvKvs vals ∈ events →
    w ∈ job.workers ∧ ∃ version keys answers, getCount = version + 1 ∧
      (job.keys w)[version]? = some keys ∧ AnswersOf job events w version answers ∧
      recvKvs.Perm (answers.map Message.kvs) ∧ vals.length = keys.length ∧
      keys.zip vals = answers.flatMap fun answer => answer.kvs.keys.zip answer.kvs.vals)
    (fun member => by cases member) ?_ got
  intro _ state events input state' out run answered admitted stepped got
  have more {version : Nat} {answers : List (Message Val)}
      (each : AnswersOf job events w version answers) :
      AnswersOf job (events ++ out) w version answers :=
    each.imp fun _ _ ⟨answer, clocks, served⟩ => ⟨answer, clocks, List.mem_append_left _ served⟩
  rcases List.mem_append.mp got with before | now
  · obtain ⟨member, version, keys, answers, count, listed, each, rest⟩ := answered before
    exact ⟨member, version, keys, answers, count, listed, more each, rest⟩
  · have taken := step_cases admitted stepped
    cases taken with
    | get _ _ _ _ => cases now
    | add _ _ _ => cases now
    | push _ _ => cases now
    | finish _ _ => cases now
    | serve _ _ _ _ =>
        obtain ⟨event, -, same⟩ := List.mem_map.mp now
        cases same
    | @respond server w' msg rest client finished inServers member next added =>
        obtain ⟨⟨recvKvs', vals'⟩, inFinished, same⟩ := List.mem_map.mp now
        cases same
        have wires := wire_run paced.toFits run
        have inv := client_run paced run w member
        have arrives := arrives paced wires inv inServers member next
        obtain ⟨keys, -, listed, -⟩ := SparseJob.keys_of_sent paced.toFits (mem_owners.mp arrives.owner).2
        have count : client.table.getCount = msg.version + 1 := by
          obtain ⟨-, -, -, client_eq, -⟩ := addResponse_spec added
          rw [client_eq, arrives.version_eq]
        by_cases last : (state.clients w).tracker.1 = (state.clients w).tracker.2 + 1
        · obtain ⟨_, _, _, answers, added', each, perm, sized, zipped⟩ :=
            respond_last paced wires inv member arrives next listed last
          cases added.symm.trans added'
          cases Option.mem_toList.mp inFinished
          exact ⟨member, msg.version, keys, answers, count, listed, more each, perm, sized, zipped⟩
        · obtain ⟨_, added'⟩ := respond_more arrives.answer last
          cases added.symm.trans added'
          cases inFinished

/-- `num_reqs_` has the number of servers asked for every `Get` sent so far. -/
theorem numReqs_eq (wires : state.WireInv events) (member : w ∈ job.workers)
    (called : 0 < (state.clients w).table.getCount) {version : Nat}
    (issued : version < (state.clients w).table.getCount + job.speculation) :
    (state.clients w).table.numReqs[version]? = some (job.owners w version).length := by
  rw [(wires.shape w member).table_eq]
  simp only [SparseJob.table, if_neg (Nat.ne_of_gt called), List.getElem?_map,
    List.getElem?_range issued, Option.map_some]

/-- Every reply that can reach a worker answers the `Get` it is in, which has asked `num_reqs_`
    servers; it is taken without a failed check, and with the last one the `Get` returns, for each
    of its keys, what the owner of the key has answered to this `Get`. -/
theorem responses_answer_gets (valid : job.Valid) {inputs : List SparseInput}
    (run : Run job inputs state events) (member : w ∈ job.workers) :
    (0 < (state.clients w).table.getCount →
      ∀ version < (state.clients w).table.getCount + job.speculation,
        (state.clients w).table.numReqs[version]? = some (job.owners w version).length) ∧
    (∀ server ∈ job.servers, ∀ msg rest, (state.replies server w).inFlight = msg :: rest →
      (state.clients w).call = .get ∧ msg.version + 1 = (state.clients w).table.getCount ∧
        server ∈ job.owners w msg.version ∧
        ∃ client finished, (state.clients w).addResponse msg = .ok (client, finished) ∧
          (finished = none ↔ client.tracker.2 < client.tracker.1)) ∧
    ∀ getCount recvKvs vals, .gotten w getCount recvKvs vals ∈ events →
      ∃ version keys answers, getCount = version + 1 ∧ (job.keys w)[version]? = some keys ∧
        AnswersOf job events w version answers ∧ recvKvs.Perm (answers.map Message.kvs) ∧
        vals.length = keys.length ∧
        keys.zip vals = answers.flatMap fun answer => answer.kvs.keys.zip answer.kvs.vals := by
  have paced := valid.paced
  have wires := wire_run paced.toFits run
  have inv := client_run paced run w member
  refine ⟨fun called version issued => numReqs_eq wires member called issued, ?_,
    fun getCount recvKvs vals got => (gotten_run paced run got).2⟩
  intro server inServers msg rest next
  have arrives := arrives paced wires inv inServers member next
  refine ⟨arrives.inGet, arrives.version_eq, arrives.owner, ?_⟩
  by_cases last : (state.clients w).tracker.1 = (state.clients w).tracker.2 + 1
  · obtain ⟨keys, -, listed, -⟩ := SparseJob.keys_of_sent paced.toFits (mem_owners.mp arrives.owner).2
    obtain ⟨client, recvKvs, vals, answers, added, -⟩ :=
      respond_last paced wires inv member arrives next listed last
    obtain ⟨-, -, -, client_eq, -⟩ := addResponse_spec added
    refine ⟨client, _, added, ?_⟩
    rw [client_eq]
    simp only [reduceCtorEq, false_iff]
    omega
  · obtain ⟨client, added⟩ := respond_more arrives.answer last
    obtain ⟨-, -, -, client_eq, -⟩ := addResponse_spec added
    have waiting := arrives.waiting
    refine ⟨client, none, added, ?_⟩
    rw [client_eq]
    simp only [true_iff]
    omega

/-- Whether the event is the return of this `Get`. -/
def returns (w : Tid) (getCount : Nat) : SparseEvent Val → Bool
  | .gotten w' getCount' _ _ => w' = w && getCount' = getCount
  | .served .. => false

omit [AddCommMonoid Val] in
theorem exists_returned {getCount : Nat} (returned : events.any (returns w getCount) = true) :
    ∃ recvKvs vals, .gotten w getCount recvKvs vals ∈ events := by
  obtain ⟨event, member, same⟩ := List.any_eq_true.mp returned
  cases event with
  | served _ _ => cases same
  | gotten w' getCount' recvKvs vals =>
      simp only [returns, Bool.and_eq_true, decide_eq_true_eq] at same
      obtain ⟨rfl, rfl⟩ := same
      exact ⟨recvKvs, vals, member⟩

/-- The second of the two servers answers before the first. -/
theorem responses_answer_gets_twoServers : ∃ events recvKvs vals answers,
    .gotten 8 1 recvKvs vals ∈ events ∧ AnswersOf SparseJob.twoServers events 8 0 answers ∧
      recvKvs.Perm (answers.map Message.kvs) ∧ vals.length = 2 ∧
      [2, 7].zip vals = answers.flatMap fun answer => answer.kvs.keys.zip answer.kvs.vals := by
  obtain ⟨state, events, run, returned⟩ := Machine.runs_of_exec step Enabled
    (start SparseJob.twoServers)
    [.get 8, .push 8, .push 8, .serve 0 8, .serve 1 8, .respond 1 8, .respond 0 8]
    (fun _ events => events.any (returns 8 1) = true) (by decide +kernel)
  obtain ⟨recvKvs, vals, got⟩ := exists_returned returned
  obtain ⟨-, -, results⟩ := responses_answer_gets SparseJob.twoServers_valid run (w := 8) (by decide)
  obtain ⟨version, keys, answers, count, listed, each, perm, sized, zipped⟩ := results 1 recvKvs vals got
  obtain rfl : version = 0 := by omega
  obtain rfl : keys = [2, 7] := (Option.some.inj listed).symm
  exact ⟨events, recvKvs, vals, answers, got, each, perm, sized, zipped⟩

/-- A `Get` that has returned has one reply of every owner. -/
theorem arrived_of_returned (paced : job.Paced) (wires : state.WireInv events) (inv : state.ClientInv w)
    (member : w ∈ job.workers) {version : Nat}
    (returned : version + 1 < (state.clients w).table.getCount ∨
      version + 1 = (state.clients w).table.getCount ∧ (state.clients w).call ≠ .get)
    (owner : server ∈ job.owners w version) : (state.arrivedFrom w version server).length = 1 := by
  rcases returned with earlier | ⟨current, outside⟩
  · exact inv.earlier version earlier server owner
  · have each := all_arrived paced wires inv member (by omega) (inv.complete outside)
    rw [← current, Nat.add_sub_cancel] at each
    obtain ⟨answer, _, one⟩ := exists_same_of_mem each owner
    rw [one]
    rfl

/-- No reply is lost, repeated or early: none is sent to a `Get` that has not been called or to
    one that has not asked the server, and a `Get` that has returned has been handed exactly one
    of each server that it has asked. -/
theorem replies_taken_once (valid : job.Valid) {inputs : List SparseInput}
    (run : Run job inputs state events) (inServers : server ∈ job.servers) (member : w ∈ job.workers)
    (version : Nat) :
    (state.replies server w).sent.countP (fun msg => msg.version = version) ≤
      (if version < (state.clients w).table.getCount ∧ server ∈ job.owners w version then 1 else 0) ∧
    ((version + 1 < (state.clients w).table.getCount ∨
        version + 1 = (state.clients w).table.getCount ∧ (state.clients w).call ≠ .get) →
      (state.replies server w).arrived.countP (fun msg => msg.version = version) =
        if server ∈ job.owners w version then 1 else 0) := by
  have paced := valid.paced
  have wires := wire_run paced.toFits run
  have inv := client_run paced run w member
  have owner_iff : server ∈ job.owners w version ↔ (job.workload server).keys w version ≠ [] := by
    rw [mem_owners, and_iff_right inServers]
  have sent := (sent_replies paced wires inServers member).2 version
  simp only [owner_iff]
  refine ⟨sent, fun returned => ?_⟩
  split
  next owner =>
    have one := arrived_of_returned paced wires inv member returned (owner_iff.mpr owner)
    rwa [arrivedFrom, ← List.countP_eq_length_filter] at one
  next absent =>
    rw [if_neg fun issued => absent issued.2, Link.sent, List.countP_append] at sent
    omega

/-- After the first `Get` of worker 8 has returned. -/
theorem replies_taken_once_twoServers : ∃ state : SparseSystem SparseJob.twoServers,
    (state.replies 1 8).sent.countP (fun msg => msg.version = 0) ≤ 1 ∧
      (state.replies 1 8).arrived.countP (fun msg => msg.version = 0) = 1 := by
  obtain ⟨state, events, run, count, outside⟩ := Machine.runs_of_exec step Enabled
    (start SparseJob.twoServers)
    [.get 8, .push 8, .push 8, .push 8, .push 8, .serve 0 8, .serve 1 8, .respond 1 8, .respond 0 8,
      .finish 8]
    (fun state _ => (state.clients 8).table.getCount = 1 ∧ (state.clients 8).call ≠ .get)
    (by decide +kernel)
  obtain ⟨sent, arrived⟩ := replies_taken_once SparseJob.twoServers_valid run (w := 8)
    (by decide : (1 : Tid) ∈ SparseJob.twoServers.servers) (by decide) 0
  have owner : 1 ∈ SparseJob.twoServers.owners 8 0 := by decide
  rw [if_pos ⟨by omega, owner⟩] at sent
  rw [if_pos owner] at arrived
  exact ⟨state, sent, arrived (.inr ⟨count.symm, outside⟩)⟩

end SparseSystem

end FlexPS
