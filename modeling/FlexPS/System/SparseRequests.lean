import FlexPS.System.SparseSystem

/-! # What a sparse client sends to one server

The calls of a client, cut up by receiver, are the stream of `Workload`: the first `Get`
sends the first `speculation + 1` items of every server's stream, `Add` one more, and every
later `Get` two more.
-/

namespace FlexPS

variable {Val : Type}

/-! ## Stretches of a stream -/

namespace Workload

variable (W : Workload Val) (w : Tid)

/-- The messages of the items from `first` up to `last`. -/
def between (first last : Nat) : List (Message Val) :=
  (List.range' first (last - first)).filterMap fun n => W.message? w (streamItem W.speculation n)

variable {W w}

@[simp] theorem between_self (n : Nat) : W.between w n n = [] := by
  simp [between]

theorem between_cons {first last : Nat} (inside : first < last) : W.between w first last =
    (W.message? w (streamItem W.speculation first)).toList ++ W.between w (first + 1) last := by
  have length : last - first = (last - (first + 1)) + 1 := by omega
  rw [between, length, List.range'_succ, List.filterMap_cons]
  cases W.message? w (streamItem W.speculation first) with
  | none => rfl
  | some msg => rfl

theorem between_append {first middle last : Nat} (forward : first ≤ middle) (onward : middle ≤ last) :
    W.between w first last = W.between w first middle ++ W.between w middle last := by
  induction middle, forward using Nat.le_induction with
  | base => simp
  | succ middle forward ih =>
      have inside : middle < last := onward
      rw [ih (by omega), between_cons inside]
      have here : W.between w first (middle + 1) = W.between w first middle ++
          (W.message? w (streamItem W.speculation middle)).toList := by
        have length : middle + 1 - first = (middle - first) + 1 := by omega
        have last_eq : first + 1 * (middle - first) = middle := by omega
        rw [between, length, List.range'_concat, List.filterMap_append, last_eq, between]
        cases found : W.message? w (streamItem W.speculation middle) with
        | none => simp [found]
        | some msg => simp [found]
      rw [here, List.append_assoc]

theorem between_one (first : Nat) : W.between w first (first + 1) =
    (W.message? w (streamItem W.speculation first)).toList := by
  rw [between_cons (Nat.lt_succ_self _), between_self, List.append_nil]

theorem mem_between {first last n : Nat} {msg : Message Val} (after : first ≤ n) (before : n < last)
    (sent : W.message? w (streamItem W.speculation n) = some msg) : msg ∈ W.between w first last :=
  List.mem_filterMap.mpr ⟨n, List.mem_range'_1.mpr ⟨after, by omega⟩, sent⟩

end Workload

theorem streamItem_early {p n : Nat} (early : n ≤ p) : streamItem p n = .get n := if_pos early

theorem streamItem_add (p round : Nat) : streamItem p (p + 1 + 3 * round) = .add round := by
  have late : ¬ p + 1 + 3 * round ≤ p := by omega
  have quotient : (p + 1 + 3 * round - (p + 1)) / 3 = round := by omega
  have phase : (p + 1 + 3 * round - (p + 1)) % 3 = 0 := by omega
  simp only [streamItem, if_neg late, quotient, phase]

theorem streamItem_clock (p round : Nat) : streamItem p (p + 2 + 3 * round) = .clock round := by
  have late : ¬ p + 2 + 3 * round ≤ p := by omega
  have quotient : (p + 2 + 3 * round - (p + 1)) / 3 = round := by omega
  have phase : (p + 2 + 3 * round - (p + 1)) % 3 = 1 := by omega
  simp only [streamItem, if_neg late, quotient, phase]

theorem streamItem_get (p round : Nat) :
    streamItem p (p + 3 + 3 * round) = .get (round + 1 + p) := by
  have late : ¬ p + 3 + 3 * round ≤ p := by omega
  have quotient : (p + 3 + 3 * round - (p + 1)) / 3 = round := by omega
  have phase : (p + 3 + 3 * round - (p + 1)) % 3 = 2 := by omega
  simp only [streamItem, if_neg late, quotient, phase]

/-- How many items of its streams a client has computed after `gets` `Get`s and `adds` `Add`s. -/
def itemsIssued (p gets adds : Nat) : Nat := if gets = 0 then 0 else p + 1 + adds + 2 * (gets - 1)

theorem itemsIssued_add (p round : Nat) : itemsIssued p (round + 1) round = p + 1 + 3 * round := by
  simp only [itemsIssued, if_neg (Nat.succ_ne_zero round)]
  omega

theorem itemsIssued_get (p round : Nat) : itemsIssued p (round + 1) (round + 1) = p + 2 + 3 * round := by
  simp only [itemsIssued, if_neg (Nat.succ_ne_zero round)]
  omega

/-! ## Slices by receiver -/

namespace SparseJob

variable {job : SparseJob Val}

variable (job) in
/-- The servers that `Get_v` of a worker is sent to. -/
def owners (w : Tid) (version : Nat) : List Tid :=
  job.servers.filter fun server => (job.workload server).keys w version ≠ []

theorem filter_slices {send : KVPairs Val} {sliced : SlicedKVs Val} (apart : job.servers.Nodup)
    (cut : job.manager.slice send = .ok sliced) (server : Tid) :
    (sliced.filter fun slice => slice.1 = server) =
      if (job.part send server).keys = [] then [] else [(server, job.part send server)] :=
  SimpleRangePartitionManager.filter_slices apart cut server

/-- The receivers of a request are the servers with a part of it, in their order. -/
theorem receivers_eq {send : KVPairs Val} {sliced : SlicedKVs Val} (apart : job.servers.Nodup)
    (cut : job.manager.slice send = .ok sliced) : sliced.map Prod.fst =
      job.servers.filter fun server => (job.part send server).keys ≠ [] :=
  SimpleRangePartitionManager.receivers_eq apart cut

variable (job) in
/-- The table of a worker after `gets` `Get`s and `adds` `Add`s. -/
def table (w : Tid) (gets adds : Nat) (recvKvs : List (KVPairs Val)) : SparseKVClientTable Val :=
  { appThreadId := w
    modelId := job.modelId
    partitionManager := job.manager
    speculation := job.speculation
    keys := job.keys w
    numReqs := (List.range (if gets = 0 then 0 else gets + job.speculation)).map fun version =>
      (job.owners w version).length
    getCount := gets
    addCount := adds
    recvKvs }

variable (job) in
/-- A table of the job that belongs to `w`. -/
structure OwnTable (w : Tid) (table : SparseKVClientTable Val) : Prop where
  appThreadId_eq : table.appThreadId = w
  modelId_eq : table.modelId = job.modelId
  partitionManager_eq : table.partitionManager = job.manager
  keys_eq : table.keys = job.keys w

variable {w : Tid} {version : Nat} {table : SparseKVClientTable Val}

/-- What `Get_v` sends to one server. -/
theorem filter_sendGet (apart : job.servers.Nodup) (own : job.OwnTable w table) {keys : List Key}
    {sliced : SlicedKVs Val} (listed : (job.keys w)[version]? = some keys)
    (cut : job.manager.slice ⟨keys, []⟩ = .ok sliced) (server : Tid) :
    ((table.send sliced false version).filter fun msg => msg.recver = server) =
      ((job.workload server).message? w (.get version)).toList := by
  have slices := filter_slices apart cut server
  have part_eq : (job.workload server).keys w version = (job.part ⟨keys, []⟩ server).keys := by
    simp only [workload, listed, Option.getD_some]
  rw [SparseKVClientTable.send, List.filter_map, own.appThreadId_eq, own.modelId_eq]
  simp only [Function.comp_def, slices, Workload.message?, part_eq]
  by_cases empty : (job.part ⟨keys, []⟩ server).keys = []
  · simp only [if_pos empty, List.map_nil, Option.toList_none]
  · simp only [if_neg empty, List.map_singleton, Option.toList_some, Workload.getMsg, part_eq]
    rfl

theorem filter_sendAdd (apart : job.servers.Nodup) (own : job.OwnTable w table)
    {sliced : SlicedKVs Val} (cut : job.manager.slice (job.adds w version) = .ok sliced)
    (server : Tid) :
    ((table.send sliced true version).filter fun msg => msg.recver = server) =
      ((job.workload server).message? w (.add version)).toList := by
  have slices := filter_slices apart cut server
  have part_eq : (job.workload server).adds w version = job.part (job.adds w version) server := rfl
  rw [SparseKVClientTable.send, List.filter_map, own.appThreadId_eq, own.modelId_eq]
  simp only [Function.comp_def, slices, Workload.message?, part_eq]
  by_cases empty : (job.part (job.adds w version) server).keys = []
  · simp only [if_pos empty, List.map_nil, Option.toList_none]
  · simp only [if_neg empty, if_true, List.map_singleton, Option.toList_some, Workload.addMsg, part_eq]
    rfl

theorem filter_clock (apart : job.servers.Nodup) (own : job.OwnTable w table) {server : Tid}
    (member : server ∈ job.servers) :
    (table.clock.filter fun msg => msg.recver = server) =
      ((job.workload server).message? w (.clock (table.getCount - 2))).toList := by
  have once : (job.servers.filter fun other => other = server) = [server] := by
    rw [List.filter_eq, List.count_eq_one_of_mem apart member, List.replicate_one]
  simp only [SparseKVClientTable.clock, List.filter_map, Function.comp_def, own.appThreadId_eq,
    own.modelId_eq, own.partitionManager_eq]
  change ((job.servers.filter fun other => other = server).map _) = _
  rw [once]
  rfl

theorem sliceGet_spec (apart : job.servers.Nodup) (own : job.OwnTable w table) {numReqs : Nat}
    {msgs : List (Message Val)} (sliced : table.sliceGet version = .ok (msgs, numReqs)) :
    version < (job.keys w).length ∧ numReqs = (job.owners w version).length ∧
      ∀ server, (msgs.filter fun msg => msg.recver = server) =
        ((job.workload server).message? w (.get version)).toList := by
  unfold SparseKVClientTable.sliceGet at sliced
  rw [own.keys_eq, own.partitionManager_eq] at sliced
  split at sliced
  · cases sliced
  next keys listed =>
    obtain ⟨slices, cut, sliced⟩ := Except.bind_eq_ok.mp sliced
    cases sliced
    have receivers := receivers_eq apart cut
    refine ⟨(List.getElem?_eq_some_iff.mp listed).1, ?_, filter_sendGet apart own listed cut⟩
    calc slices.length = (slices.map Prod.fst).length := (List.length_map _).symm
      _ = (job.owners w version).length := by
        rw [receivers]
        simp only [owners, workload, listed, Option.getD_some]

theorem flatMap_sliceGet (apart : job.servers.Nodup) (own : job.OwnTable w table)
    {versions : List Nat} {sent : List (List (Message Val) × Nat)}
    (each : List.Forall₂ (fun version out => table.sliceGet version = .ok out) versions sent) :
    sent.map Prod.snd = versions.map (fun version => (job.owners w version).length) ∧
      ∀ server, ((sent.flatMap Prod.fst).filter fun msg => msg.recver = server) =
        versions.flatMap fun version =>
          ((job.workload server).message? w (.get version)).toList := by
  induction each with
  | nil => exact ⟨rfl, fun _ => rfl⟩
  | cons head _ ih =>
      obtain ⟨-, count, messages⟩ := sliceGet_spec apart own head
      constructor
      · rw [List.map_cons, List.map_cons, ih.1, count]
      · intro server
        rw [List.flatMap_cons, List.flatMap_cons, List.filter_append, ih.2, messages]

/-- The first stretch of a stream. -/
theorem between_first (server : Tid) :
    (job.workload server).between w 0 (job.speculation + 1) =
      (List.range (job.speculation + 1)).flatMap fun version =>
        ((job.workload server).message? w (.get version)).toList := by
  rw [Workload.between, Nat.sub_zero, ← List.range_eq_range', List.filterMap_eq_flatMap_toList]
  simp only [List.flatMap_def]
  refine congrArg List.flatten (List.map_congr_left fun version member => ?_)
  have early : version ≤ job.speculation := Nat.le_of_lt_succ (List.mem_range.mp member)
  change ((job.workload server).message? w (streamItem job.speculation version)).toList = _
  rw [streamItem_early early]

/-- The two items that a later `Get` sends. -/
theorem between_later (server : Tid) (round : Nat) :
    (job.workload server).between w (job.speculation + 2 + 3 * round)
        (job.speculation + 4 + 3 * round) =
      ((job.workload server).message? w (.clock round)).toList ++
        ((job.workload server).message? w (.get (round + 1 + job.speculation))).toList := by
  have clock : streamItem (job.workload server).speculation (job.speculation + 2 + 3 * round) =
      .clock round := streamItem_clock job.speculation round
  have next : job.speculation + 2 + 3 * round + 1 = job.speculation + 3 + 3 * round := by omega
  have last : job.speculation + 4 + 3 * round = job.speculation + 3 + 3 * round + 1 := by omega
  have get : streamItem (job.workload server).speculation (job.speculation + 3 + 3 * round) =
      .get (round + 1 + job.speculation) := streamItem_get job.speculation round
  rw [Workload.between_cons (by omega), clock, next, last, Workload.between_one, get]

/-- What a `Get` computes. -/
theorem get_spec (apart : job.servers.Nodup) {gets adds expected : Nat}
    {recvKvs : List (KVPairs Val)} {table' : SparseKVClientTable Val} {todo : List (Message Val)}
    (called : (job.table w gets adds recvKvs).get = .ok (table', expected, todo)) :
    gets = adds ∧ table' = job.table w (gets + 1) adds recvKvs ∧
      expected = (job.owners w gets).length ∧
      ∀ server ∈ job.servers, (todo.filter fun msg => msg.recver = server) =
        (job.workload server).between w (itemsIssued job.speculation gets adds)
          (itemsIssued job.speculation (gets + 1) adds) := by
  obtain ⟨_, balanced, called⟩ := Except.bind_eq_ok.mp called
  have balanced : gets = adds := check_eq_ok.mp balanced
  subst balanced
  have own : job.OwnTable w { job.table w gets gets recvKvs with getCount := gets + 1 } :=
    ⟨rfl, rfl, rfl, rfl⟩
  cases gets with
  | zero =>
      obtain ⟨sent, sliced, called⟩ := Except.bind_eq_ok.mp called
      cases called
      obtain ⟨counts, messages⟩ := flatMap_sliceGet apart own (Except.mapM_eq_ok_iff.mp sliced)
      replace counts : sent.map Prod.snd = (List.range (job.speculation + 1)).map
          fun version => (job.owners w version).length := counts
      refine ⟨rfl, ?_, ?_, fun server _ => ?_⟩
      · have length : 0 + 1 + job.speculation = job.speculation + 1 := by omega
        rw [counts]
        simp only [SparseJob.table, if_pos, List.range_zero, List.map_nil, List.nil_append,
          if_neg (Nat.succ_ne_zero 0), length]
      · rw [counts, List.range_succ_eq_map]
        rfl
      · rw [messages server]
        exact (between_first server).symm
  | succ round =>
      have length : round + 1 + 1 + job.speculation = round + 1 + job.speculation + 1 := by omega
      have numReqs : (job.table w (round + 1) (round + 1) recvKvs).numReqs =
          (List.range (round + 1 + job.speculation)).map
            fun version => (job.owners w version).length := by
        simp only [SparseJob.table, if_neg (Nat.succ_ne_zero round)]
      have later : ¬ round + 1 + 1 = 1 := by omega
      have before : itemsIssued job.speculation (round + 1) (round + 1) = job.speculation + 2 + 3 * round :=
        itemsIssued_get _ _
      have after : itemsIssued job.speculation (round + 1 + 1) (round + 1) =
          job.speculation + 4 + 3 * round := by
        rw [itemsIssued_add]
        omega
      change (if round + 1 + 1 = 1 then _ else _) = _ at called
      rw [if_neg later] at called
      split at called
      · cases called
      next expected' found =>
        replace found : (job.table w (round + 1) (round + 1) recvKvs).numReqs[round + 1]? =
          some expected' := found
        obtain ⟨⟨msgs, count⟩, sliced, called⟩ := Except.bind_eq_ok.mp called
        cases called
        obtain ⟨-, counted, messages⟩ := sliceGet_spec apart own sliced
        refine ⟨rfl, ?_, ?_, fun server member => ?_⟩
        · rw [counted, numReqs]
          simp only [SparseJob.table, if_neg (Nat.succ_ne_zero (round + 1)), length, List.range_succ,
            List.map_append, List.map_singleton]
          rfl
        · rw [numReqs] at found
          obtain ⟨_, rfl⟩ := List.getElem?_eq_some_iff.mp found
          simp only [List.getElem_map, List.getElem_range]
        · rw [before, after, between_later, List.filter_append]
          exact congrArg₂ (· ++ ·) (filter_clock apart own member) (messages server)

/-- What an `Add` computes. -/
theorem add_spec (apart : job.servers.Nodup) {gets adds : Nat} {recvKvs : List (KVPairs Val)}
    {table' : SparseKVClientTable Val} {todo : List (Message Val)}
    (called : (job.table w gets adds recvKvs).add (job.adds w (gets - 1)) = .ok (table', todo)) :
    gets = adds + 1 ∧ table' = job.table w gets (adds + 1) recvKvs ∧
      ∀ server, (todo.filter fun msg => msg.recver = server) =
        (job.workload server).between w (itemsIssued job.speculation gets adds)
          (itemsIssued job.speculation gets (adds + 1)) := by
  obtain ⟨_, balanced, called⟩ := Except.bind_eq_ok.mp called
  have balanced : gets = adds + 1 := check_eq_ok.mp balanced
  subst balanced
  obtain ⟨sliced, cut, called⟩ := Except.bind_eq_ok.mp called
  cases called
  have own : job.OwnTable w { job.table w (adds + 1) adds recvKvs with addCount := adds + 1 } :=
    ⟨rfl, rfl, rfl, rfl⟩
  refine ⟨rfl, rfl, fun server => ?_⟩
  have item : streamItem (job.workload server).speculation (job.speculation + 1 + 3 * adds) =
      .add adds := streamItem_add job.speculation adds
  have next : job.speculation + 2 + 3 * adds = job.speculation + 1 + 3 * adds + 1 := by omega
  rw [itemsIssued_add, itemsIssued_get, next, Workload.between_one, item]
  exact filter_sendAdd apart own cut server

end SparseJob

end FlexPS
