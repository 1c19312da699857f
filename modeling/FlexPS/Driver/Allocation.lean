import FlexPS.Driver.WorkerSpec

/-! # Worker threads on all engines

Every engine runs the same tasks with its own id mapper and never exchanges thread ids.
All mappers start alike, and the id that `InitTable` takes on its own node is back before
the next task, so the mappers stay equal.
-/

namespace FlexPS

open WorkerSpec (placement workersOn)

/-- The parts of an `MLTask` that `Engine::Run` allocates for. -/
structure MLTask where
  workerAlloc : List WorkerAlloc
  tables : List Nat
  deriving DecidableEq, Repr

namespace Engine

/-- One turn of the inner loop of `AllocateWorkers`. -/
def allocateWorker (node : Nat) (state : WorkerSpec × SimpleIdMapper) (worker : Nat) :
    Except DriverCheck (WorkerSpec × SimpleIdMapper) := do
  let (tid, idMapper) ← state.2.allocateWorkerThread node
  let workerSpec ← state.1.insertWorkerIdThreadId worker tid
  return (workerSpec, idMapper)

def allocateWorkers (idMapper : SimpleIdMapper) (workerAlloc : List WorkerAlloc) :
    Except DriverCheck (WorkerSpec × SimpleIdMapper) := do
  let workerSpec ← WorkerSpec.init workerAlloc
  workerSpec.nodeToWorkers.toList.foldlM
    (fun state kv => kv.2.foldlM (allocateWorker kv.1) state) (workerSpec, idMapper)

/-- What `InitTable` does to the id mapper of the engine on `node`. -/
def initTable (node : Nat) (idMapper : SimpleIdMapper) (_tableId : Nat) :
    Except DriverCheck SimpleIdMapper :=
  if (idMapper.getServerThreadsForId node).length = 0 then .ok idMapper
  else do
    let (id, idMapper) ← idMapper.allocateWorkerThread node
    idMapper.deallocateWorkerThread node id

/-- `Run` on `node`, up to the start of the user threads. -/
def run (node : Nat) (idMapper : SimpleIdMapper) (task : MLTask) :
    Except DriverCheck (WorkerSpec × SimpleIdMapper) := do
  driverCheck .isSetup (task.workerAlloc ≠ [] ∧ task.tables ≠ [])
  let (workerSpec, idMapper) ← allocateWorkers idMapper task.workerAlloc
  let idMapper ← task.tables.foldlM (initTable node) idMapper
  if workerSpec.hasLocalWorkers node then
    let localThreads ← workerSpec.getLocalThreads node
    let localWorkers ← workerSpec.getLocalWorkers node
    driverCheck .localSizes (localThreads.length = localWorkers.length)
  return (workerSpec, idMapper)

def runAll (node : Nat) (idMapper : SimpleIdMapper) :
    List MLTask → Except DriverCheck (List WorkerSpec × SimpleIdMapper)
  | [] => .ok ([], idMapper)
  | task :: tasks => do
    let (workerSpec, idMapper) ← run node idMapper task
    let (workerSpecs, idMapper) ← runAll node idMapper tasks
    return (workerSpec :: workerSpecs, idMapper)

end Engine

/-! ## The threads of a task -/

/-- One turn of the loops of `AllocateWorkers`. -/
structure Assignment where
  node : Nat
  worker : Nat
  tid : Nat
  deriving DecidableEq, Repr

/-- What the specification and the mapper hold after the turns `done`, the mapper being `start`
before the first. -/
structure Assigned (start : SimpleIdMapper) (nodes : List Nat) (done : List Assignment)
    (spec : WorkerSpec) (mapper : SimpleIdMapper) : Prop where
  workerToNode : ∀ worker : Nat, spec.workerToNode[worker]? = nodes[worker]?
  nodeToWorkers : ∀ n : Nat, spec.nodeToWorkers[n]? = if n ∈ nodes then some (workersOn nodes n) else none
  workerToThread : ∀ worker tid : Nat, spec.workerToThread[worker]? = some tid ↔
    ∃ n, ⟨n, worker, tid⟩ ∈ done
  threadToWorker : ∀ worker tid : Nat, spec.threadToWorker[tid]? = some worker ↔
    ∃ n, ⟨n, worker, tid⟩ ∈ done
  nodeToThreads : ∀ n : Nat, spec.nodeToThreads[n]? = if n ∈ done.map (·.node) then
    some ((done.filter (·.node = n)).map (·.tid)) else none
  threadIds : ∀ tid, tid ∈ spec.threadIds ↔ tid ∈ done.map (·.tid)
  servers : mapper.node2server = start.node2server
  helpers : mapper.node2workerHelper = start.node2workerHelper
  used : ∀ n tid, tid ∈ mapper.node2worker n ↔
    tid ∈ start.node2worker n ∨ ∃ worker, ⟨n, worker, tid⟩ ∈ done
  fresh : ∀ a ∈ done, a.tid ∉ start.node2worker a.node ∧
    a.node * kMaxThreadsPerNode + kMaxBgThreadsPerNode ≤ a.tid ∧
    a.tid < a.node * kMaxThreadsPerNode + kMaxThreadsPerNode
  placed : ∀ a ∈ done, nodes[a.worker]? = some a.node
  tids : (done.map (·.tid)).Nodup
  workers : (done.map (·.worker)).Nodup

namespace Assigned

variable {start mapper mapper' : SimpleIdMapper} {nodes : List Nat} {done : List Assignment}
  {spec spec' : WorkerSpec}

theorem of_placed (placed : spec.Placed nodes) : Assigned start nodes [] spec start where
  workerToNode := placed.workerToNode
  nodeToWorkers := placed.nodeToWorkers
  workerToThread worker tid := by simp [placed.workerToThread]
  threadToWorker worker tid := by simp [placed.threadToWorker]
  nodeToThreads n := by simp [placed.nodeToThreads]
  threadIds tid := by simp [placed.threadIds]
  servers := rfl
  helpers := rfl
  used n tid := by simp
  fresh := nofun
  placed := nofun
  tids := .nil
  workers := .nil

/-- A thread id belongs to one node only. -/
theorem node_eq (assigned : Assigned start nodes done spec mapper) {a : Assignment} (member : a ∈ done) :
    SimpleIdMapper.getNodeIdForThread a.tid = a.node := by
  obtain ⟨-, lower, upper⟩ := assigned.fresh a member
  unfold SimpleIdMapper.getNodeIdForThread kMaxThreadsPerNode kMaxBgThreadsPerNode at *
  omega

/-- An id the mapper hands out on node `n` is none of the ids handed out before. -/
theorem tid_new (assigned : Assigned start nodes done spec mapper) {n tid : Nat}
    (free : tid ∉ mapper.node2worker n)
    (lower : n * kMaxThreadsPerNode + kMaxBgThreadsPerNode ≤ tid)
    (upper : tid < n * kMaxThreadsPerNode + kMaxThreadsPerNode) : tid ∉ done.map (·.tid) := by
  intro member
  obtain ⟨a, member, same⟩ := List.mem_map.mp member
  have node := assigned.node_eq member
  have node' : SimpleIdMapper.getNodeIdForThread a.tid = n := by
    rw [same]
    unfold SimpleIdMapper.getNodeIdForThread kMaxThreadsPerNode kMaxBgThreadsPerNode at *
    omega
  apply free
  rw [assigned.used]
  refine .inr ⟨a.worker, ?_⟩
  rw [← same, ← node'.symm.trans node |>.symm]
  exact member

theorem snoc (assigned : Assigned start nodes done spec mapper) {n worker tid : Nat}
    (here : nodes[worker]? = some n) (new : worker ∉ done.map (·.worker))
    (free : tid ∉ mapper.node2worker n)
    (lower : n * kMaxThreadsPerNode + kMaxBgThreadsPerNode ≤ tid)
    (upper : tid < n * kMaxThreadsPerNode + kMaxThreadsPerNode) :
    ∃ spec', spec.insertWorkerIdThreadId worker tid = .ok spec' ∧
      Assigned start nodes (done ++ [⟨n, worker, tid⟩]) spec' (mapper.taken n tid) := by
  have newTid := assigned.tid_new free lower upper
  have noThread : worker ∉ spec.workerToThread := by
    rw [Std.ExtTreeMap.mem_iff_isSome_getElem?, Option.isSome_iff_exists]
    rintro ⟨t, found⟩
    obtain ⟨m, member⟩ := (assigned.workerToThread worker t).mp found
    exact new (List.mem_map.mpr ⟨_, member, rfl⟩)
  have noWorker : tid ∉ spec.threadToWorker := by
    rw [Std.ExtTreeMap.mem_iff_isSome_getElem?, Option.isSome_iff_exists]
    rintro ⟨w, found⟩
    obtain ⟨m, member⟩ := (assigned.threadToWorker w tid).mp found
    exact newTid (List.mem_map.mpr ⟨_, member, rfl⟩)
  have noId : tid ∉ spec.threadIds := fun member => newTid ((assigned.threadIds tid).mp member)
  have known : spec.workerToNode[worker]? = some n := (assigned.workerToNode worker).trans here
  have isKnown : worker ∈ spec.workerToNode := by
    rw [Std.ExtTreeMap.mem_iff_isSome_getElem?, known]
    rfl
  refine ⟨_, by
    unfold WorkerSpec.insertWorkerIdThreadId driverCheck
    rw [if_pos noThread, if_pos noWorker, if_pos noId, if_pos isKnown]
    rfl, ?_⟩
  exact {
    workerToNode := assigned.workerToNode
    nodeToWorkers := assigned.nodeToWorkers
    workerToThread := by
      intro w t
      simp only [Std.ExtTreeMap.getElem?_insert, Nat.compare_eq_eq, List.mem_append, List.mem_singleton,
        Assignment.mk.injEq]
      split
      · next same =>
          subst same
          constructor
          · intro found
            cases found
            exact ⟨n, .inr ⟨rfl, rfl, rfl⟩⟩
          · rintro ⟨m, old | ⟨-, -, rfl⟩⟩
            · exact absurd (List.mem_map.mpr ⟨_, old, rfl⟩) new
            · rfl
      · next other => simp [assigned.workerToThread, Ne.symm other]
    threadToWorker := by
      intro w t
      simp only [Std.ExtTreeMap.getElem?_insert, Nat.compare_eq_eq, List.mem_append, List.mem_singleton,
        Assignment.mk.injEq]
      split
      · next same =>
          subst same
          constructor
          · intro found
            cases found
            exact ⟨n, .inr ⟨rfl, rfl, rfl⟩⟩
          · rintro ⟨m, old | ⟨-, rfl, -⟩⟩
            · exact absurd (List.mem_map.mpr ⟨_, old, rfl⟩) newTid
            · rfl
      · next other => simp [assigned.threadToWorker, Ne.symm other]
    nodeToThreads := by
      intro m
      simp only [known, Option.getD_some, getElem?_pushBack, assigned.nodeToThreads, List.map_append,
        List.filter_append, List.mem_append, List.map_cons, List.map_nil, List.mem_singleton]
      by_cases same : n = m
      · subst same
        by_cases old : n ∈ done.map (·.node)
        · simp [old]
        · have none : done.filter (·.node = n) = [] := by
            apply List.filter_eq_nil_iff.mpr
            intro a member
            simpa using fun same : a.node = n => old (List.mem_map.mpr ⟨a, member, same⟩)
          simp [old, none]
      · simp [same, Ne.symm same]
    threadIds := by
      intro t
      rw [Std.ExtTreeSet.mem_insert, Nat.compare_eq_eq, assigned.threadIds, List.map_append,
        List.mem_append, List.map_singleton, List.mem_singleton, or_comm, eq_comm (a := tid)]
    servers := assigned.servers
    helpers := assigned.helpers
    used := by
      intro m t
      simp only [SimpleIdMapper.mem_taken, assigned.used, List.mem_append, List.mem_singleton,
        Assignment.mk.injEq]
      constructor
      · rintro (⟨rfl, rfl⟩ | old | ⟨w, member⟩)
        · exact .inr ⟨worker, .inr ⟨rfl, rfl, rfl⟩⟩
        · exact .inl old
        · exact .inr ⟨w, .inl member⟩
      · rintro (old | ⟨w, member | ⟨rfl, -, rfl⟩⟩)
        · exact .inr (.inl old)
        · exact .inr (.inr ⟨w, member⟩)
        · exact .inl ⟨rfl, rfl⟩
    fresh := by
      rw [List.forall_mem_append, List.forall_mem_singleton]
      exact ⟨assigned.fresh, fun old => free ((assigned.used n tid).mpr (.inl old)), lower, upper⟩
    placed := by
      rw [List.forall_mem_append, List.forall_mem_singleton]
      exact ⟨assigned.placed, here⟩
    tids := by
      rw [List.map_append, List.nodup_append_comm]
      exact List.nodup_cons.mpr ⟨newTid, assigned.tids⟩
    workers := by
      rw [List.map_append, List.nodup_append_comm]
      exact List.nodup_cons.mpr ⟨new, assigned.workers⟩ }

/-- The loops of `AllocateWorkers` over (node, worker) pairs. They stop only when an id cannot
be handed out. -/
theorem loop {pairs : List (Nat × Nat)} (assigned : Assigned start nodes done spec mapper)
    (here : ∀ pair ∈ pairs, nodes[pair.2]? = some pair.1)
    (new : (done.map (·.worker) ++ pairs.map (·.2)).Nodup) :
    match pairs.foldlM (fun state pair => Engine.allocateWorker pair.1 state pair.2) (spec, mapper) with
    | .ok (spec', mapper') => ∃ more : List Assignment,
        more.map (fun a => (a.node, a.worker)) = pairs ∧
          Assigned start nodes (done ++ more) spec' mapper'
    | .error e => e ∈ SimpleIdMapper.allocationChecks := by
  induction pairs generalizing done spec mapper with
  | nil => exact ⟨[], rfl, by rwa [List.append_nil]⟩
  | cons pair pairs ih =>
      obtain ⟨n, worker⟩ := pair
      rw [List.forall_mem_cons] at here
      rw [List.map_cons] at new
      rw [List.foldlM_cons, Engine.allocateWorker]
      cases allocated : mapper.allocateWorkerThread n with
      | error e => exact SimpleIdMapper.allocateWorkerThread_eq_error allocated
      | ok result =>
          obtain ⟨tid, mapper'⟩ := result
          obtain ⟨-, free, lower, upper, rfl⟩ := SimpleIdMapper.allocateWorkerThread_eq_ok allocated
          have newWorker : worker ∉ done.map (·.worker) := fun old =>
            (List.nodup_append.mp new).2.2 worker old worker List.mem_cons_self rfl
          obtain ⟨spec', inserted, assigned⟩ := assigned.snoc here.1 newWorker free lower upper
          have rest := ih assigned here.2 (by simpa using new)
          simp only [Except.ok_bind, inserted, Except.pure_eq_ok]
          split
          · next ran =>
              rw [ran] at rest
              obtain ⟨more, pairs_eq, assigned⟩ := rest
              refine ⟨⟨n, worker, tid⟩ :: more, by rw [List.map_cons, pairs_eq], ?_⟩
              rwa [List.append_assoc] at assigned
          · next failed =>
              rw [failed] at rest
              exact rest

end Assigned

/-! ## The order of the loops -/

section Pairs

variable {entries : List (Nat × List Nat)} {n : Nat} {workers : List Nat}

/-- The pairs that two nested loops over `node_to_workers_` go through. -/
def pairsOf (entries : List (Nat × List Nat)) : List (Nat × Nat) :=
  entries.flatMap fun kv => kv.2.map (kv.1, ·)

theorem foldlM_pairsOf {σ : Type} (f : Nat → σ → Nat → Except DriverCheck σ) (state : σ) :
    entries.foldlM (fun state kv => kv.2.foldlM (f kv.1) state) state =
      (pairsOf entries).foldlM (fun state pair => f pair.1 state pair.2) state := by
  induction entries generalizing state with
  | nil => rfl
  | cons kv entries ih =>
      rw [pairsOf, List.flatMap_cons, List.foldlM_append, List.foldlM_map, List.foldlM_cons]
      exact bind_congr fun state => ih state

theorem mem_pairsOf {pair : Nat × Nat} :
    pair ∈ pairsOf entries ↔ ∃ workers, (pair.1, workers) ∈ entries ∧ pair.2 ∈ workers := by
  simp only [pairsOf, List.mem_flatMap, List.mem_map]
  constructor
  · rintro ⟨kv, member, worker, inner, rfl⟩
    exact ⟨kv.2, member, inner⟩
  · rintro ⟨workers, member, inner⟩
    exact ⟨_, member, pair.2, inner, rfl⟩

theorem filter_pairsOf_of_not_mem (absent : n ∉ entries.map Prod.fst) :
    (pairsOf entries).filter (·.1 = n) = [] := by
  apply List.filter_eq_nil_iff.mpr
  intro pair member
  obtain ⟨workers, member, -⟩ := mem_pairsOf.mp member
  simpa using fun same : pair.1 = n => absent (List.mem_map.mpr ⟨_, member, same⟩)

/-- The loops go through the workers of a node in the order of its list. -/
theorem filter_pairsOf (distinct : (entries.map Prod.fst).Nodup) (member : (n, workers) ∈ entries) :
    ((pairsOf entries).filter (·.1 = n)).map (·.2) = workers := by
  induction entries with
  | nil => cases member
  | cons kv entries ih =>
      rw [List.map_cons, List.nodup_cons] at distinct
      rw [pairsOf, List.flatMap_cons, List.filter_append, List.map_append]
      change _ ++ ((pairsOf entries).filter (·.1 = n)).map (·.2) = workers
      cases member with
      | head =>
          rw [filter_pairsOf_of_not_mem distinct.1, List.filter_eq_self.mpr (by simp)]
          simp
      | tail _ member =>
          have other : kv.1 ≠ n := fun same =>
            distinct.1 (List.mem_map.mpr ⟨_, member, same.symm⟩)
          rw [ih distinct.2 member, List.filter_eq_nil_iff.mpr (by simp [other])]
          rfl

end Pairs

/-! ## One task -/

/-- What an engine computes for a task whose workers sit on `nodes`, in the order of their ids. -/
structure Correct (mapper : SimpleIdMapper) (nodes : List Nat) (spec : WorkerSpec) : Prop where
  /-- The worker ids are `0`, `1`, and so on. -/
  workers : ∀ worker : Nat, (spec.workerToThread[worker]?).isSome ↔ worker < nodes.length
  /-- A thread id lies on the node of its worker. -/
  onNode : ∀ worker tid : Nat, spec.workerToThread[worker]? = some tid →
    nodes[worker]? = some (SimpleIdMapper.getNodeIdForThread tid)
  threads : ∀ tid, tid ∈ spec.getAllThreadIds ↔ ∃ worker : Nat, spec.workerToThread[worker]? = some tid
  /-- The two lists of a node are aligned. -/
  aligned : ∀ n ∈ nodes, ∃ localWorkers localThreads, spec.getLocalWorkers n = .ok localWorkers ∧
    spec.getLocalThreads n = .ok localThreads ∧ List.Forall₂ (fun worker tid =>
      spec.workerToThread[worker]? = some tid ∧ spec.threadToWorker[tid]? = some worker)
      localWorkers localThreads
  local_iff : ∀ n, spec.hasLocalWorkers n ↔ n ∈ nodes
  /-- No thread id is the id of a server or a helper. -/
  background : ∀ tid ∈ spec.getAllThreadIds, ∀ n,
    tid ∉ mapper.getServerThreadsForId n ∧ tid ∉ mapper.getWorkerHelperThreadsForId n

section Task

variable {start mapper : SimpleIdMapper} {nodes : List Nat} {done : List Assignment} {spec : WorkerSpec}

theorem keys_distinct (entries : Std.ExtTreeMap Nat (List Nat)) : (entries.toList.map Prod.fst).Nodup := by
  rw [List.Nodup, List.pairwise_map]
  refine entries.distinct_keys_toList.imp fun different same => different ?_
  exact Nat.compare_eq_eq.mpr same

theorem WorkerSpec.Placed.mem_pairs (placed : spec.Placed nodes) {pair : Nat × Nat} :
    pair ∈ pairsOf spec.nodeToWorkers.toList ↔ nodes[pair.2]? = some pair.1 := by
  simp only [mem_pairsOf, Std.ExtTreeMap.mem_toList_iff_getElem?_eq_some, placed.nodeToWorkers]
  constructor
  · rintro ⟨workers, found, member⟩
    split at found
    · cases found
      exact WorkerSpec.mem_workersOn.mp member
    · cases found
  · intro here
    exact ⟨_, if_pos (List.mem_of_getElem? here), WorkerSpec.mem_workersOn.mpr here⟩

theorem WorkerSpec.Placed.pairs_workers (placed : spec.Placed nodes) :
    ((pairsOf spec.nodeToWorkers.toList).map (·.2)).Nodup := by
  have distinct := keys_distinct spec.nodeToWorkers
  rw [pairsOf, List.map_flatMap]
  simp only [List.map_map, Function.comp_def, List.map_id']
  rw [List.nodup_flatMap]
  constructor
  · rintro ⟨n, workers⟩ member
    rw [Std.ExtTreeMap.mem_toList_iff_getElem?_eq_some, placed.nodeToWorkers] at member
    split at member
    · cases member
      exact List.nodup_range.filter _
    · cases member
  · rw [List.Nodup, List.pairwise_map] at distinct
    refine List.Pairwise.imp_of_mem ?_ distinct
    rintro ⟨n, workers⟩ ⟨m, workers'⟩ member member' different worker inner inner'
    have here := placed.mem_pairs.mp (mem_pairsOf.mpr ⟨workers, member, inner⟩ : (n, worker) ∈ _)
    have here' := placed.mem_pairs.mp (mem_pairsOf.mpr ⟨workers', member', inner'⟩ : (m, worker) ∈ _)
    rw [here] at here'
    exact different (Option.some.inj here')

/-- The local workers of a node, in the order of the turns. -/
theorem workers_of_turns (placed : spec.Placed nodes) {n : Nat} (member : n ∈ nodes)
    (turns : done.map (fun a => (a.node, a.worker)) = pairsOf spec.nodeToWorkers.toList) :
    workersOn nodes n = (done.filter (·.node = n)).map (·.worker) := by
  have entry : (n, workersOn nodes n) ∈ spec.nodeToWorkers.toList := by
    rw [Std.ExtTreeMap.mem_toList_iff_getElem?_eq_some, placed.nodeToWorkers, if_pos member]
  have listed := filter_pairsOf (keys_distinct _) entry
  rw [← turns, List.filter_map, List.map_map] at listed
  exact listed.symm

theorem Assigned.correct {placedSpec : WorkerSpec} (assigned : Assigned start nodes done spec mapper)
    (background : start.Background) (placed : placedSpec.Placed nodes)
    (turns : done.map (fun a => (a.node, a.worker)) = pairsOf placedSpec.nodeToWorkers.toList) :
    Correct start nodes spec where
  workers worker := by
    rw [Option.isSome_iff_exists]
    constructor
    · rintro ⟨tid, found⟩
      obtain ⟨n, member⟩ := (assigned.workerToThread worker tid).mp found
      exact (List.getElem?_eq_some_iff.mp (assigned.placed _ member)).1
    · intro below
      have pair : (nodes[worker], worker) ∈ done.map (fun a => (a.node, a.worker)) := by
        rw [turns, placed.mem_pairs]
        exact List.getElem?_eq_getElem below
      obtain ⟨⟨n, w, tid⟩, member, same⟩ := List.mem_map.mp pair
      have here : w = worker := congrArg Prod.snd same
      subst here
      exact ⟨tid, (assigned.workerToThread w tid).mpr ⟨_, member⟩⟩
  onNode worker tid found := by
    obtain ⟨n, member⟩ := (assigned.workerToThread worker tid).mp found
    rw [assigned.node_eq member]
    exact assigned.placed _ member
  threads tid := by
    rw [WorkerSpec.getAllThreadIds, Std.ExtTreeSet.mem_toList, assigned.threadIds, List.mem_map]
    constructor
    · rintro ⟨⟨n, worker, _⟩, member, rfl⟩
      exact ⟨worker, (assigned.workerToThread worker _).mpr ⟨n, member⟩⟩
    · rintro ⟨worker, found⟩
      obtain ⟨n, member⟩ := (assigned.workerToThread worker tid).mp found
      exact ⟨_, member, rfl⟩
  aligned n member := by
    have listed : n ∈ done.map (·.node) := by
      obtain ⟨worker, here⟩ := List.mem_iff_getElem?.mp member
      have pair := placed.mem_pairs.mpr (show nodes[(n, worker).2]? = some n from here)
      rw [← turns] at pair
      obtain ⟨a, member, same⟩ := List.mem_map.mp pair
      exact List.mem_map.mpr ⟨a, member, congrArg Prod.fst same⟩
    refine ⟨workersOn nodes n, (done.filter (·.node = n)).map (·.tid), ?_, ?_, ?_⟩
    · rw [WorkerSpec.getLocalWorkers, assigned.nodeToWorkers, if_pos member]
    · rw [WorkerSpec.getLocalThreads, assigned.nodeToThreads, if_pos listed]
    · rw [workers_of_turns placed member turns, List.forall₂_map_left_iff, List.forall₂_map_right_iff,
        List.forall₂_same]
      intro a inner
      have turn := List.mem_of_mem_filter inner
      exact ⟨(assigned.workerToThread _ _).mpr ⟨a.node, turn⟩,
        (assigned.threadToWorker _ _).mpr ⟨a.node, turn⟩⟩
  local_iff n := by
    rw [WorkerSpec.hasLocalWorkers, Std.ExtTreeMap.contains_eq_isSome_getElem?, assigned.nodeToWorkers]
    split <;> simp_all
  background tid member n := by
    rw [WorkerSpec.getAllThreadIds, Std.ExtTreeSet.mem_toList, assigned.threadIds, List.mem_map] at member
    obtain ⟨a, member, rfl⟩ := member
    have node := assigned.node_eq member
    obtain ⟨-, lower, upper⟩ := assigned.fresh a member
    unfold SimpleIdMapper.getNodeIdForThread kMaxThreadsPerNode kMaxBgThreadsPerNode at *
    constructor
    · intro server
      obtain ⟨i, below, same⟩ := background.servers n _ server
      unfold kMaxThreadsPerNode kWorkerHelperThreadId at *
      omega
    · intro helper
      have same := background.helpers n _ helper
      unfold kMaxThreadsPerNode kWorkerHelperThreadId at same
      omega

/-- The assertions that fail when a task cannot be placed. -/
def placementChecks : List DriverCheck :=
  SimpleIdMapper.allocationChecks ++ [.allocNodeId, .allocWorkers, .isSetup]

theorem allocateWorkers_spec (background : start.Background) (workerAlloc : List WorkerAlloc) :
    match Engine.allocateWorkers start workerAlloc with
    | .ok (spec, mapper) => ∃ done, Assigned start (placement workerAlloc) done spec mapper ∧
        Correct start (placement workerAlloc) spec
    | .error e => e ∈ placementChecks := by
  unfold Engine.allocateWorkers placementChecks
  cases started : WorkerSpec.init workerAlloc with
  | error e =>
      have failed := WorkerSpec.init_eq_error started
      simp only [List.mem_cons, List.not_mem_nil, or_false] at failed
      change e ∈ SimpleIdMapper.allocationChecks ++ [.allocNodeId, .allocWorkers, .isSetup]
      clear started
      obtain rfl | rfl := failed <;> decide
  | ok placedSpec =>
      have placed := WorkerSpec.init_eq_ok started
      rw [Except.ok_bind, foldlM_pairsOf]
      have loop := (Assigned.of_placed placed : Assigned start _ _ _ _).loop
        (fun pair member => placed.mem_pairs.mp member) (by simpa using placed.pairs_workers)
      split
      · next ran =>
          rw [ran] at loop
          obtain ⟨more, turns, assigned⟩ := loop
          exact ⟨more, assigned, assigned.correct background placed turns⟩
      · next failed =>
          rw [failed] at loop
          exact List.mem_append_left _ loop

/-! ## All tasks -/

/-- The id of `InitTable` is free again when it returns. -/
theorem initTable_spec (mapper : SimpleIdMapper) (node tableId : Nat) :
    match Engine.initTable node mapper tableId with
    | .ok mapper' => mapper' = mapper
    | .error e => e ∈ SimpleIdMapper.allocationChecks := by
  unfold Engine.initTable
  by_cases none : (mapper.getServerThreadsForId node).length = 0
  · rw [if_pos none]
  · rw [if_neg none]
    cases allocated : mapper.allocateWorkerThread node with
    | error e => exact SimpleIdMapper.allocateWorkerThread_eq_error allocated
    | ok result =>
        obtain ⟨tid, mapper'⟩ := result
        obtain ⟨known, free, -, -, rfl⟩ := SimpleIdMapper.allocateWorkerThread_eq_ok allocated
        dsimp only [Except.ok_bind]
        rw [SimpleIdMapper.deallocate_taken known free]

theorem initTables_spec (mapper : SimpleIdMapper) (node : Nat) (tables : List Nat) :
    match tables.foldlM (Engine.initTable node) mapper with
    | .ok mapper' => mapper' = mapper
    | .error e => e ∈ SimpleIdMapper.allocationChecks := by
  induction tables with
  | nil => rfl
  | cons tableId tables ih =>
      rw [List.foldlM_cons]
      have first := initTable_spec mapper node tableId
      cases ran : Engine.initTable node mapper tableId with
      | error e =>
          rw [ran] at first
          exact first
      | ok mapper' =>
          rw [ran] at first
          rw [show mapper' = mapper from first]
          exact ih

/-- `Run` computes what `AllocateWorkers` computes, on whichever node. -/
theorem run_spec (background : start.Background) (node : Nat) (task : MLTask) :
    match Engine.run node start task with
    | .ok (spec, mapper) => Engine.allocateWorkers start task.workerAlloc = .ok (spec, mapper)
    | .error e => e ∈ placementChecks := by
  unfold Engine.run driverCheck
  by_cases setup : task.workerAlloc ≠ [] ∧ task.tables ≠ []
  · rw [if_pos setup, Except.ok_bind]
    have allocation := allocateWorkers_spec background task.workerAlloc
    cases allocated : Engine.allocateWorkers start task.workerAlloc with
    | error e =>
        rw [allocated] at allocation
        exact allocation
    | ok result =>
        obtain ⟨spec, mapper⟩ := result
        rw [allocated] at allocation
        obtain ⟨done, -, correct⟩ := allocation
        have tables := initTables_spec mapper node task.tables
        simp only [Except.ok_bind]
        cases ran : task.tables.foldlM (Engine.initTable node) mapper with
        | error e =>
            rw [ran] at tables
            exact List.mem_append_left _ tables
        | ok mapper' =>
            rw [ran] at tables
            rw [show mapper' = mapper from tables]
            simp only [Except.ok_bind]
            by_cases here : spec.hasLocalWorkers node
            · obtain ⟨workers, threads, found, found', aligned⟩ :=
                correct.aligned node ((correct.local_iff node).mp here)
              simp [here, found, found', aligned.length_eq]
            · simp [here]
  · rw [if_neg setup]
    exact (by decide : DriverCheck.isSetup ∈ placementChecks)

theorem Correct.of_ids (correct : Correct mapper nodes spec) (servers : mapper.node2server = start.node2server)
    (helpers : mapper.node2workerHelper = start.node2workerHelper) : Correct start nodes spec where
  workers := correct.workers
  onNode := correct.onNode
  threads := correct.threads
  aligned := correct.aligned
  local_iff := correct.local_iff
  background tid member n := by
    have ids := correct.background tid member n
    rwa [SimpleIdMapper.getServerThreadsForId, SimpleIdMapper.getWorkerHelperThreadsForId, servers,
      helpers] at ids

/-- The ids of servers and helpers do not change. -/
theorem Assigned.background (assigned : Assigned start nodes done spec mapper)
    (background : start.Background) : mapper.Background where
  servers n tid member := background.servers n tid (by
    rwa [SimpleIdMapper.getServerThreadsForId, assigned.servers] at member)
  helpers n tid member := background.helpers n tid (by
    rwa [SimpleIdMapper.getWorkerHelperThreadsForId, assigned.helpers] at member)

theorem mem_getAllThreadIds (assigned : Assigned start nodes done spec mapper) {tid : Nat} :
    tid ∈ spec.getAllThreadIds ↔ ∃ a ∈ done, a.tid = tid := by
  rw [WorkerSpec.getAllThreadIds, Std.ExtTreeSet.mem_toList, assigned.threadIds, List.mem_map]

/-- A run of all tasks hands out new thread ids for every task. -/
theorem runAll_spec (background : start.Background) (node : Nat) (tasks : List MLTask) :
    match Engine.runAll node start tasks with
    | .ok (specs, _) =>
        List.Forall₂ (fun task spec => Correct start (placement task.workerAlloc) spec) tasks specs ∧
        (specs.flatMap (·.getAllThreadIds)).Nodup ∧
        ∀ tid ∈ specs.flatMap (·.getAllThreadIds),
          tid ∉ start.node2worker (SimpleIdMapper.getNodeIdForThread tid)
    | .error e => e ∈ placementChecks := by
  induction tasks generalizing start with
  | nil => exact ⟨.nil, .nil, nofun⟩
  | cons task tasks ih =>
      rw [Engine.runAll]
      have run := run_spec background node task
      cases ran : Engine.run node start task with
      | error e =>
          rw [ran] at run
          exact run
      | ok result =>
          obtain ⟨spec, mapper⟩ := result
          rw [ran] at run
          have allocation := allocateWorkers_spec background task.workerAlloc
          rw [show Engine.allocateWorkers start task.workerAlloc = .ok (spec, mapper) from run] at allocation
          obtain ⟨done, assigned, correct⟩ := allocation
          have rest := ih (assigned.background background)
          cases ranRest : Engine.runAll node mapper tasks with
          | error e =>
              rw [ranRest] at rest
              simp only [Except.ok_bind, ranRest, Except.error_bind]
              exact rest
          | ok result =>
              obtain ⟨specs, final⟩ := result
              rw [ranRest] at rest
              obtain ⟨each, distinct, fresh⟩ := rest
              simp only [Except.ok_bind, ranRest]
              refine ⟨.cons correct (each.imp fun task spec correct =>
                correct.of_ids assigned.servers assigned.helpers), ?_, ?_⟩
              · rw [List.flatMap_cons, List.nodup_append]
                refine ⟨?_, distinct, ?_⟩
                · exact spec.threadIds.distinct_toList.imp fun different same =>
                    different (Nat.compare_eq_eq.mpr same)
                · rintro tid member _ later rfl
                  obtain ⟨a, turn, rfl⟩ := (mem_getAllThreadIds assigned).mp member
                  apply fresh a.tid later
                  rw [assigned.node_eq turn, assigned.used]
                  exact .inr ⟨a.worker, turn⟩
              · intro tid member
                rw [List.flatMap_cons, List.mem_append] at member
                cases member with
                | inl here =>
                    obtain ⟨a, turn, rfl⟩ := (mem_getAllThreadIds assigned).mp here
                    rw [assigned.node_eq turn]
                    exact (assigned.fresh a turn).1
                | inr later =>
                    exact fun old => fresh tid later ((assigned.used _ _).mpr (.inl old))

/-- Two engines whose mappers agree compute the same specifications. -/
theorem runAll_agree (background : start.Background) {node other : Nat} {tasks : List MLTask}
    {specs specs' : List WorkerSpec} {final final' : SimpleIdMapper}
    (ran : Engine.runAll node start tasks = .ok (specs, final))
    (ran' : Engine.runAll other start tasks = .ok (specs', final')) : specs' = specs ∧ final' = final := by
  induction tasks generalizing start specs specs' with
  | nil =>
      cases ran
      cases ran'
      exact ⟨rfl, rfl⟩
  | cons task tasks ih =>
      rw [Engine.runAll] at ran ran'
      obtain ⟨⟨spec, mapper⟩, ranTask, ran⟩ := Except.bind_eq_ok.mp ran
      obtain ⟨⟨spec', mapper'⟩, ranTask', ran'⟩ := Except.bind_eq_ok.mp ran'
      obtain ⟨⟨rest, last⟩, ranRest, ran⟩ := Except.bind_eq_ok.mp ran
      obtain ⟨⟨rest', last'⟩, ranRest', ran'⟩ := Except.bind_eq_ok.mp ran'
      cases ran
      cases ran'
      have allocated := run_spec background node task
      have allocated' := run_spec background other task
      rw [ranTask] at allocated
      rw [ranTask'] at allocated'
      have same : Except.ok (spec', mapper') = Except.ok (spec, mapper) := allocated'.symm.trans allocated
      cases same
      have spec := allocateWorkers_spec background task.workerAlloc
      rw [show Engine.allocateWorkers start task.workerAlloc = _ from allocated] at spec
      obtain ⟨done, assigned, -⟩ := spec
      obtain ⟨rfl, rfl⟩ := ih (assigned.background background) ranRest ranRest'
      exact ⟨rfl, rfl⟩

end Task

/-- All engines compute the same specification for every task, and it is right: the worker
ids are consecutive, every thread id is new, lies on the node of its worker and belongs to no
server or helper, and the two lists of a node match. A run stops only at an assertion about
the placement. -/
theorem engines_agree {nodes : List Nat} (small : ∀ id ∈ nodes, id < kMaxNodeId) {k : Int}
    (positive : 1 ≤ k) (fits : k ≤ 50) (tasks : List MLTask) :
    ∃ mapper, SimpleIdMapper.init nodes k = .ok mapper ∧ ∀ node ∈ nodes,
      match Engine.runAll node mapper tasks with
      | .ok (specs, final) =>
          (∀ other ∈ nodes, ∀ specs' final', Engine.runAll other mapper tasks = .ok (specs', final') →
            specs' = specs ∧ final' = final) ∧
          List.Forall₂ (fun task spec => Correct mapper (placement task.workerAlloc) spec) tasks specs ∧
          (specs.flatMap (·.getAllThreadIds)).Nodup
      | .error e => e ∈ placementChecks := by
  obtain ⟨mapper, started, background, -, -⟩ :=
    SimpleIdMapper.init_eq_ok (Int.lt_of_lt_of_le Int.zero_lt_one positive) fits small
  refine ⟨mapper, started, fun node _ => ?_⟩
  have all := runAll_spec background node tasks
  cases ran : Engine.runAll node mapper tasks with
  | error e =>
      rw [ran] at all
      exact all
  | ok result =>
      obtain ⟨specs, final⟩ := result
      rw [ran] at all
      exact ⟨fun other _ specs' final' ran' => runAll_agree background ran ran', all.1, all.2.1⟩

/-- Node 1 occurs twice in the first task; the engine runs on node 3, which has no workers. -/
theorem engines_agree_threeNodes :
    ∃ mapper specs final, SimpleIdMapper.init [0, 1, 3] 2 = .ok mapper ∧
      Engine.runAll 3 mapper [⟨[⟨1, 2⟩, ⟨0, 1⟩, ⟨1, 1⟩], [5]⟩, ⟨[⟨1, 1⟩], [5, 6]⟩] = .ok (specs, final) ∧
      specs.map (·.getAllThreadIds) = [[100, 1100, 1101, 1102], [1103]] ∧
      ∀ specs' final', Engine.runAll 1 mapper [⟨[⟨1, 2⟩, ⟨0, 1⟩, ⟨1, 1⟩], [5]⟩, ⟨[⟨1, 1⟩], [5, 6]⟩] =
        .ok (specs', final') → specs' = specs := by
  obtain ⟨mapper, started, holds⟩ := engines_agree (by decide : ∀ id ∈ [0, 1, 3], id < kMaxNodeId)
    (by decide : (1 : Int) ≤ 2) (by decide) [⟨[⟨1, 2⟩, ⟨0, 1⟩, ⟨1, 1⟩], [5]⟩, ⟨[⟨1, 1⟩], [5, 6]⟩]
  have computed : (match SimpleIdMapper.init [0, 1, 3] 2 with
      | .ok mapper => match Engine.runAll 3 mapper
            [⟨[⟨1, 2⟩, ⟨0, 1⟩, ⟨1, 1⟩], [5]⟩, ⟨[⟨1, 1⟩], [5, 6]⟩] with
          | .ok (specs, _) => specs.map (·.getAllThreadIds) == [[100, 1100, 1101, 1102], [1103]]
          | .error _ => false
      | .error _ => false) = true := by decide +kernel
  rw [started] at computed
  dsimp only at computed
  have onThree := holds 3 (by decide)
  split at computed
  · next specs final ran =>
      rw [ran] at onThree
      exact ⟨mapper, specs, final, started, ran, by simpa using computed,
        fun specs' final' ran' => (onThree.1 1 (by decide) specs' final' ran').1⟩
  · cases computed

end FlexPS
