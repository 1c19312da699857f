import Mathlib
import FlexPS.Lib.Except

/-! # The id mapper of an engine

A thread id is the node id times 1000 plus a local id. Local ids below 100 belong to
the servers and the helper; the mapper hands out the others to workers. Every engine
has a mapper of its own.
-/

namespace FlexPS

/-- The assertions of `SimpleIdMapper`, `WorkerSpec` and `Engine::Run`. -/
inductive DriverCheck where
  /-- `CHECK_GT(num_server_threads_per_node, 0)`. -/
  | serverThreadsPositive
  /-- `CHECK_LE(num_server_threads_per_node, kWorkerHelperThreadId)`. -/
  | serverThreadsFit
  /-- `CHECK_LT(node.id, kMaxNodeId)`. -/
  | nodeId
  /-- `CHECK(node2worker_helper_.find(node_id) != node2worker_helper_.end())`. -/
  | nodeKnown
  /-- `CHECK_LE(node2worker_[node_id].size(), kMaxThreadsPerNode - kMaxBgThreadsPerNode)`. -/
  | threadsLeft
  /-- `CHECK(false)` at the end of `AllocateWorkerThread`. -/
  | threadFound
  /-- `CHECK(node2worker_[node_id].find(tid) != node2worker_[node_id].end())`. -/
  | threadAllocated
  /-- `CHECK_LT(node.node_id, kMaxNodeId)`. -/
  | allocNodeId
  /-- `CHECK_LT(node.num_workers, kMaxThreadsPerNode - kMaxBgThreadsPerNode)`. -/
  | allocWorkers
  /-- The first three `CHECK`s of `InsertWorkerIdThreadId`. -/
  | newIds
  /-- `CHECK(worker_to_node_.find(worker_id) != worker_to_node_.end())`. -/
  | workerKnown
  /-- `CHECK(it != node_to_workers_.end())`, and the same for `node_to_threads_`. -/
  | hasLocalWorkers
  /-- `CHECK(task.IsSetup())`. -/
  | isSetup
  /-- `CHECK_EQ(local_threads.size(), local_workers.size())`. -/
  | localSizes
  deriving DecidableEq, Repr

/-- `CHECK(condition)`. -/
def driverCheck (c : DriverCheck) (condition : Prop) [Decidable condition] : Except DriverCheck Unit :=
  if condition then .ok () else .error c

@[simp] theorem driverCheck_eq_ok {c : DriverCheck} {condition : Prop} [Decidable condition]
    {u : Unit} : driverCheck c condition = .ok u ↔ condition := by
  unfold driverCheck
  split <;> simp_all

@[simp] theorem driverCheck_eq_error {c d : DriverCheck} {condition : Prop} [Decidable condition] :
    driverCheck c condition = .error d ↔ ¬ condition ∧ c = d := by
  unfold driverCheck
  split <;> simp_all

def kMaxNodeId : Nat := 1000
def kMaxThreadsPerNode : Nat := 1000
def kMaxBgThreadsPerNode : Nat := 100
def kWorkerHelperThreadId : Nat := 50

/-- `map[key].push_back(value)`. -/
def pushBack {α : Type} (map : Std.ExtTreeMap Nat (List α)) (key : Nat) (value : α) :
    Std.ExtTreeMap Nat (List α) :=
  map.alter key fun values => some (values.getD [] ++ [value])

theorem getElem?_pushBack {α : Type} {map : Std.ExtTreeMap Nat (List α)} {key k : Nat} {value : α} :
    (pushBack map key value)[k]? =
      if key = k then some (map[key]?.getD [] ++ [value]) else map[k]? := by
  rw [pushBack, Std.ExtTreeMap.getElem?_alter]
  simp only [Nat.compare_eq_eq]

structure SimpleIdMapper where
  node2server : Std.ExtTreeMap Nat (List Nat)
  node2workerHelper : Std.ExtTreeMap Nat (List Nat)
  /-- The map is never iterated, so a node without an entry has the empty set. -/
  node2worker : Nat → Std.ExtTreeSet Nat

namespace SimpleIdMapper

/-- The ids of one node that `Init` enters. -/
def initNode (numServerThreadsPerNode : Int) (mapper : SimpleIdMapper) (id : Nat) :
    Except DriverCheck SimpleIdMapper := do
  driverCheck .nodeId (id < kMaxNodeId)
  return { mapper with
    node2server := (List.range numServerThreadsPerNode.toNat).foldl
      (fun node2server i => pushBack node2server id (id * kMaxThreadsPerNode + i)) mapper.node2server
    node2workerHelper := pushBack mapper.node2workerHelper id
      (id * kMaxThreadsPerNode + kWorkerHelperThreadId) }

/-- The constructor and `Init`, for the ids of `nodes_`. -/
def init (nodes : List Nat) (numServerThreadsPerNode : Int) : Except DriverCheck SimpleIdMapper := do
  driverCheck .serverThreadsPositive (0 < numServerThreadsPerNode)
  driverCheck .serverThreadsFit (numServerThreadsPerNode ≤ kWorkerHelperThreadId)
  nodes.foldlM (initNode numServerThreadsPerNode) ⟨∅, ∅, fun _ => ∅⟩

def allocateWorkerThread (mapper : SimpleIdMapper) (nodeId : Nat) :
    Except DriverCheck (Nat × SimpleIdMapper) := do
  driverCheck .nodeKnown (nodeId ∈ mapper.node2workerHelper)
  driverCheck .threadsLeft
    ((mapper.node2worker nodeId).size ≤ kMaxThreadsPerNode - kMaxBgThreadsPerNode)
  match ((List.range' kMaxBgThreadsPerNode (kMaxThreadsPerNode - kMaxBgThreadsPerNode)).map
      (· + nodeId * kMaxThreadsPerNode)).find? (· ∉ mapper.node2worker nodeId) with
  | some tid => return (tid, { mapper with
      node2worker := Function.update mapper.node2worker nodeId ((mapper.node2worker nodeId).insert tid) })
  | none => throw .threadFound

def deallocateWorkerThread (mapper : SimpleIdMapper) (nodeId tid : Nat) :
    Except DriverCheck SimpleIdMapper := do
  driverCheck .nodeKnown (nodeId ∈ mapper.node2workerHelper)
  driverCheck .threadAllocated (tid ∈ mapper.node2worker nodeId)
  return { mapper with
    node2worker := Function.update mapper.node2worker nodeId ((mapper.node2worker nodeId).erase tid) }

def getNodeIdForThread (tid : Nat) : Nat := tid / kMaxThreadsPerNode

def getServerThreadsForId (mapper : SimpleIdMapper) (nodeId : Nat) : List Nat :=
  mapper.node2server[nodeId]?.getD []

def getWorkerHelperThreadsForId (mapper : SimpleIdMapper) (nodeId : Nat) : List Nat :=
  mapper.node2workerHelper[nodeId]?.getD []

/-! ## What `Init` enters -/

/-- The entry of a node after `Init` has pushed `ids` for every listed node. -/
theorem getElem?_foldl_pushBack (map : Std.ExtTreeMap Nat (List Nat)) (key k : Nat) {values : List Nat}
    (nonempty : values ≠ []) :
    (values.foldl (fun map value => pushBack map key value) map)[k]? =
      if key = k then some (map[key]?.getD [] ++ values) else map[k]? := by
  induction values generalizing map with
  | nil => exact absurd rfl nonempty
  | cons value values ih =>
      cases values with
      | nil => exact getElem?_pushBack
      | cons next values =>
          rw [List.foldl_cons, ih _ nofun, getElem?_pushBack, getElem?_pushBack]
          split <;> simp

/-- The ids of servers and helpers have local ids up to 50. -/
structure Background (mapper : SimpleIdMapper) : Prop where
  servers : ∀ n, ∀ tid ∈ mapper.getServerThreadsForId n, ∃ i < kWorkerHelperThreadId,
    tid = n * kMaxThreadsPerNode + i
  helpers : ∀ n, ∀ tid ∈ mapper.getWorkerHelperThreadsForId n,
    tid = n * kMaxThreadsPerNode + kWorkerHelperThreadId

theorem Background.initNode {mapper mapper' : SimpleIdMapper} (background : Background mapper)
    {k : Int} (positive : 0 < k) (fits : k ≤ kWorkerHelperThreadId) {id : Nat}
    (ran : initNode k mapper id = .ok mapper') :
    Background mapper' ∧ mapper'.node2worker = mapper.node2worker ∧
      ∀ n, n ∈ mapper'.node2workerHelper ↔ n = id ∨ n ∈ mapper.node2workerHelper := by
  obtain ⟨_, -, ran⟩ := Except.bind_eq_ok.mp ran
  cases ran
  refine ⟨⟨?_, ?_⟩, rfl, ?_⟩
  · intro n tid member
    have ids : (List.range k.toNat).map (id * kMaxThreadsPerNode + ·) ≠ [] := by
      simp only [ne_eq, List.map_eq_nil_iff, List.range_eq_nil]
      omega
    have folded := getElem?_foldl_pushBack mapper.node2server id n ids
    rw [List.foldl_map] at folded
    simp only [getServerThreadsForId, folded] at member
    split at member
    · next same =>
        subst same
        rw [Option.getD_some, List.mem_append] at member
        cases member with
        | inl old => exact background.servers id tid old
        | inr new =>
            obtain ⟨i, below, rfl⟩ := List.mem_map.mp new
            exact ⟨i, by rw [List.mem_range] at below; omega, rfl⟩
    · exact background.servers n tid member
  · intro n tid member
    simp only [getWorkerHelperThreadsForId, getElem?_pushBack] at member
    split at member
    · next same =>
        subst same
        rw [Option.getD_some, List.mem_append, List.mem_singleton] at member
        cases member with
        | inl old => exact background.helpers id tid old
        | inr new => exact new
    · exact background.helpers n tid member
  · intro n
    rw [Std.ExtTreeMap.mem_iff_isSome_getElem?, getElem?_pushBack,
      Std.ExtTreeMap.mem_iff_isSome_getElem?]
    split
    · next same => simp [same]
    · next other => simp [Ne.symm other]

/-- `Init` succeeds on ids and counts in range. The helpers are those of the listed nodes,
and no worker thread is taken yet. -/
theorem init_eq_ok {nodes : List Nat} {k : Int} (positive : 0 < k) (fits : k ≤ kWorkerHelperThreadId)
    (small : ∀ id ∈ nodes, id < kMaxNodeId) :
    ∃ mapper, init nodes k = .ok mapper ∧ Background mapper ∧ (∀ n, mapper.node2worker n = ∅) ∧
      ∀ n, n ∈ mapper.node2workerHelper ↔ n ∈ nodes := by
  have loop : ∀ (nodes : List Nat) (mapper : SimpleIdMapper), (∀ id ∈ nodes, id < kMaxNodeId) →
      Background mapper → ∃ mapper', nodes.foldlM (initNode k) mapper = .ok mapper' ∧
        Background mapper' ∧ mapper'.node2worker = mapper.node2worker ∧
        ∀ n, n ∈ mapper'.node2workerHelper ↔ n ∈ nodes ∨ n ∈ mapper.node2workerHelper := by
    intro nodes
    induction nodes with
    | nil => exact fun mapper _ background => ⟨mapper, rfl, background, rfl, by simp⟩
    | cons id nodes ih =>
        intro mapper small background
        rw [List.forall_mem_cons] at small
        obtain ⟨next, ran⟩ : ∃ next, initNode k mapper id = .ok next := by
          unfold initNode driverCheck
          rw [if_pos small.1]
          exact ⟨_, rfl⟩
        obtain ⟨background, worker, helpers⟩ := background.initNode positive fits ran
        obtain ⟨mapper', rest, background, worker', helpers'⟩ := ih next small.2 background
        refine ⟨mapper', ?_, background, worker'.trans worker, fun n => ?_⟩
        · rw [List.foldlM_cons, ran]
          exact rest
        · rw [helpers', helpers, List.mem_cons, or_left_comm, or_assoc]
  obtain ⟨mapper, ran, background, worker, helpers⟩ := loop nodes ⟨∅, ∅, fun _ => ∅⟩ small
    ⟨fun n tid member => by simp [getServerThreadsForId] at member,
      fun n tid member => by simp [getWorkerHelperThreadsForId] at member⟩
  refine ⟨mapper, ?_, background, fun n => by rw [worker], fun n => by rw [helpers]; simp⟩
  unfold init driverCheck
  rw [if_pos positive, if_pos fits]
  exact ran

/-! ## Allocation -/

/-- The mapper after it has handed out `tid` on node `nodeId`. -/
def taken (mapper : SimpleIdMapper) (nodeId tid : Nat) : SimpleIdMapper :=
  { mapper with
    node2worker := Function.update mapper.node2worker nodeId ((mapper.node2worker nodeId).insert tid) }

theorem mem_taken {mapper : SimpleIdMapper} {nodeId tid n t : Nat} :
    t ∈ (mapper.taken nodeId tid).node2worker n ↔ n = nodeId ∧ t = tid ∨ t ∈ mapper.node2worker n := by
  change t ∈ Function.update mapper.node2worker nodeId _ n ↔ _
  by_cases same : n = nodeId
  · subst same
    rw [Function.update_self, Std.ExtTreeSet.mem_insert, Nat.compare_eq_eq, eq_comm]
    simp only [true_and]
  · rw [Function.update_of_ne same]
    simp [same]

theorem allocateWorkerThread_eq_ok {mapper mapper' : SimpleIdMapper} {nodeId tid : Nat}
    (ran : mapper.allocateWorkerThread nodeId = .ok (tid, mapper')) :
    nodeId ∈ mapper.node2workerHelper ∧ tid ∉ mapper.node2worker nodeId ∧
      nodeId * kMaxThreadsPerNode + kMaxBgThreadsPerNode ≤ tid ∧
      tid < nodeId * kMaxThreadsPerNode + kMaxThreadsPerNode ∧ mapper' = mapper.taken nodeId tid := by
  obtain ⟨_, known, ran⟩ := Except.bind_eq_ok.mp ran
  obtain ⟨_, -, ran⟩ := Except.bind_eq_ok.mp ran
  split at ran
  · next _ found =>
      cases ran
      have free := List.find?_some found
      obtain ⟨i, range, sum⟩ := List.mem_map.mp (List.mem_of_find?_eq_some found)
      obtain ⟨lower, upper⟩ := List.mem_range'_1.mp range
      unfold kMaxThreadsPerNode kMaxBgThreadsPerNode at *
      exact ⟨driverCheck_eq_ok.mp known, of_decide_eq_true free, by omega, by omega, rfl⟩
  · cases ran

/-- The assertions that fail when no id can be handed out. -/
def allocationChecks : List DriverCheck := [.nodeKnown, .threadsLeft, .threadFound]

theorem allocateWorkerThread_eq_error {mapper : SimpleIdMapper} {nodeId : Nat} {e : DriverCheck}
    (failed : mapper.allocateWorkerThread nodeId = .error e) : e ∈ allocationChecks := by
  unfold allocationChecks
  obtain known | ⟨_, -, failed⟩ := Except.bind_eq_error.mp failed
  · obtain ⟨-, rfl⟩ := driverCheck_eq_error.mp known
    decide
  · obtain full | ⟨_, -, failed⟩ := Except.bind_eq_error.mp failed
    · obtain ⟨-, rfl⟩ := driverCheck_eq_error.mp full
      decide
    · split at failed
      · cases failed
      · cases failed
        decide

/-- An id that is handed out and given back leaves the mapper as it was. -/
theorem deallocate_taken {mapper : SimpleIdMapper} {nodeId tid : Nat}
    (known : nodeId ∈ mapper.node2workerHelper) (free : tid ∉ mapper.node2worker nodeId) :
    (mapper.taken nodeId tid).deallocateWorkerThread nodeId tid = .ok mapper := by
  have member : tid ∈ (mapper.taken nodeId tid).node2worker nodeId := mem_taken.mpr (.inl ⟨rfl, rfl⟩)
  have erased : (mapper.node2worker nodeId |>.insert tid).erase tid = mapper.node2worker nodeId := by
    apply Std.ExtTreeSet.ext_mem
    intro t
    rw [Std.ExtTreeSet.mem_erase, Std.ExtTreeSet.mem_insert]
    simp only [ne_eq, Nat.compare_eq_eq]
    constructor
    · rintro ⟨other, same | old⟩
      · exact absurd same other
      · exact old
    · exact fun old => ⟨fun same => free (same ▸ old), .inr old⟩
  unfold deallocateWorkerThread driverCheck
  rw [if_pos (show nodeId ∈ (mapper.taken nodeId tid).node2workerHelper from known), if_pos member]
  simp only [taken, Function.update_self, Function.update_idem, erased, Function.update_eq_self]
  rfl

end SimpleIdMapper

end FlexPS
