import FlexPS.Driver.SimpleIdMapper

/-! # The worker specification of a task

`Init` numbers the workers of a task and lists them by node. The threads are entered
one by one afterwards, into a second list for each node.
-/

namespace FlexPS

structure WorkerAlloc where
  nodeId : Nat
  numWorkers : Nat
  deriving DecidableEq, Repr

/-- Worker ids are counted by a `uint32_t`; a task with more workers than that cannot be
placed on a thousand nodes. -/
structure WorkerSpec where
  workerToNode : Std.ExtTreeMap Nat Nat
  nodeToWorkers : Std.ExtTreeMap Nat (List Nat)
  workerToThread : Std.ExtTreeMap Nat Nat
  threadToWorker : Std.ExtTreeMap Nat Nat
  nodeToThreads : Std.ExtTreeMap Nat (List Nat)
  threadIds : Std.ExtTreeSet Nat
  numWorkers : Nat

namespace WorkerSpec

/-- One turn of the inner loop of `Init`. -/
def addWorker (nodeId : Nat) (spec : WorkerSpec) : WorkerSpec :=
  { spec with
    workerToNode := spec.workerToNode.insert spec.numWorkers nodeId
    nodeToWorkers := pushBack spec.nodeToWorkers nodeId spec.numWorkers
    numWorkers := spec.numWorkers + 1 }

/-- One turn of the outer loop of `Init`. -/
def addWorkers (spec : WorkerSpec) (node : WorkerAlloc) : Except DriverCheck WorkerSpec := do
  driverCheck .allocNodeId (node.nodeId < kMaxNodeId)
  driverCheck .allocWorkers (node.numWorkers < kMaxThreadsPerNode - kMaxBgThreadsPerNode)
  return (addWorker node.nodeId)^[node.numWorkers] spec

def init (workerAlloc : List WorkerAlloc) : Except DriverCheck WorkerSpec :=
  workerAlloc.foldlM addWorkers ⟨∅, ∅, ∅, ∅, ∅, ∅, 0⟩

def insertWorkerIdThreadId (spec : WorkerSpec) (workerId threadId : Nat) :
    Except DriverCheck WorkerSpec := do
  driverCheck .newIds (workerId ∉ spec.workerToThread)
  driverCheck .newIds (threadId ∉ spec.threadToWorker)
  driverCheck .newIds (threadId ∉ spec.threadIds)
  driverCheck .workerKnown (workerId ∈ spec.workerToNode)
  return { spec with
    workerToThread := spec.workerToThread.insert workerId threadId
    threadToWorker := spec.threadToWorker.insert threadId workerId
    threadIds := spec.threadIds.insert threadId
    nodeToThreads := pushBack spec.nodeToThreads (spec.workerToNode[workerId]?.getD 0) threadId }

def hasLocalWorkers (spec : WorkerSpec) (nodeId : Nat) : Bool := spec.nodeToWorkers.contains nodeId

def getLocalWorkers (spec : WorkerSpec) (nodeId : Nat) : Except DriverCheck (List Nat) :=
  match spec.nodeToWorkers[nodeId]? with
  | some workers => .ok workers
  | none => .error .hasLocalWorkers

def getLocalThreads (spec : WorkerSpec) (nodeId : Nat) : Except DriverCheck (List Nat) :=
  match spec.nodeToThreads[nodeId]? with
  | some threads => .ok threads
  | none => .error .hasLocalWorkers

def getAllThreadIds (spec : WorkerSpec) : List Nat := spec.threadIds.toList

/-! ## The workers -/

/-- The node of each worker, in the order of the worker ids. -/
def placement (workerAlloc : List WorkerAlloc) : List Nat :=
  workerAlloc.flatMap fun node => List.replicate node.numWorkers node.nodeId

/-- The workers placed on a node. -/
def workersOn (nodes : List Nat) (n : Nat) : List Nat :=
  (List.range nodes.length).filter fun worker => nodes[worker]? = some n

theorem workersOn_append (nodes : List Nat) (m n : Nat) :
    workersOn (nodes ++ [m]) n = workersOn nodes n ++ if m = n then [nodes.length] else [] := by
  unfold workersOn
  rw [List.length_append, List.length_singleton, List.range_succ, List.filter_append]
  congr 1
  · apply List.filter_congr
    intro worker member
    rw [List.getElem?_append_left (List.mem_range.mp member)]
  · rw [List.filter_singleton, List.getElem?_concat_length]
    simp

theorem mem_workersOn {nodes : List Nat} {n worker : Nat} :
    worker ∈ workersOn nodes n ↔ nodes[worker]? = some n := by
  simp only [workersOn, List.mem_filter, List.mem_range, decide_eq_true_eq]
  refine ⟨fun h => h.2, fun found => ⟨?_, found⟩⟩
  exact (List.getElem?_eq_some_iff.mp found).1

/-- The specification holds the workers of `nodes` and no threads yet. -/
structure Placed (spec : WorkerSpec) (nodes : List Nat) : Prop where
  numWorkers : spec.numWorkers = nodes.length
  workerToNode : ∀ worker : Nat, spec.workerToNode[worker]? = nodes[worker]?
  nodeToWorkers : ∀ n : Nat, spec.nodeToWorkers[n]? = if n ∈ nodes then some (workersOn nodes n) else none
  workerToThread : spec.workerToThread = ∅
  threadToWorker : spec.threadToWorker = ∅
  nodeToThreads : spec.nodeToThreads = ∅
  threadIds : spec.threadIds = ∅

theorem Placed.addWorker {spec : WorkerSpec} {nodes : List Nat} (placed : Placed spec nodes) (m : Nat) :
    Placed (spec.addWorker m) (nodes ++ [m]) where
  numWorkers := by simp [WorkerSpec.addWorker, placed.numWorkers]
  workerToNode worker := by
    simp only [WorkerSpec.addWorker, Std.ExtTreeMap.getElem?_insert, Nat.compare_eq_eq, placed.numWorkers,
      placed.workerToNode]
    split
    · next last => rw [← last, List.getElem?_concat_length]
    · next other =>
        rcases Nat.lt_or_gt_of_ne other with beyond | below
        · rw [List.getElem?_eq_none beyond.le, List.getElem?_eq_none (by simpa using beyond)]
        · rw [List.getElem?_append_left below]
  nodeToWorkers n := by
    simp only [WorkerSpec.addWorker, getElem?_pushBack, placed.numWorkers, placed.nodeToWorkers,
      workersOn_append, List.mem_append, List.mem_singleton]
    by_cases same : m = n
    · subst same
      by_cases old : m ∈ nodes
      · simp [old]
      · have none : workersOn nodes m = [] := by
          apply List.eq_nil_iff_forall_not_mem.mpr
          intro worker member
          exact old (List.mem_of_getElem? (mem_workersOn.mp member))
        simp [old, none]
    · simp [same, Ne.symm same]
  workerToThread := placed.workerToThread
  threadToWorker := placed.threadToWorker
  nodeToThreads := placed.nodeToThreads
  threadIds := placed.threadIds

theorem Placed.iterate {spec : WorkerSpec} {nodes : List Nat} (placed : Placed spec nodes) (m : Nat) :
    ∀ count, Placed ((WorkerSpec.addWorker m)^[count] spec) (nodes ++ List.replicate count m)
  | 0 => by rwa [List.replicate_zero, List.append_nil]
  | count + 1 => by
      rw [Function.iterate_succ_apply', List.replicate_succ', ← List.append_assoc]
      exact (placed.iterate m count).addWorker m

theorem init_eq_ok {workerAlloc : List WorkerAlloc} {spec : WorkerSpec}
    (ran : init workerAlloc = .ok spec) : Placed spec (placement workerAlloc) := by
  have loop : ∀ (workerAlloc : List WorkerAlloc) (start : WorkerSpec) (nodes : List Nat),
      Placed start nodes → workerAlloc.foldlM addWorkers start = .ok spec →
      Placed spec (nodes ++ placement workerAlloc) := by
    intro workerAlloc
    induction workerAlloc with
    | nil =>
        intro start nodes placed ran
        cases ran
        rwa [placement, List.flatMap_nil, List.append_nil]
    | cons node rest ih =>
        intro start nodes placed ran
        rw [List.foldlM_cons] at ran
        obtain ⟨next, added, ran⟩ := Except.bind_eq_ok.mp ran
        obtain ⟨_, -, added⟩ := Except.bind_eq_ok.mp added
        obtain ⟨_, -, added⟩ := Except.bind_eq_ok.mp added
        cases added
        have placed := ih _ _ (placed.iterate node.nodeId node.numWorkers) ran
        rwa [List.append_assoc] at placed
  have empty : Placed ⟨∅, ∅, ∅, ∅, ∅, ∅, 0⟩ [] :=
    ⟨rfl, fun _ => by simp, fun _ => by simp, rfl, rfl, rfl, rfl⟩
  exact loop workerAlloc _ [] empty ran

theorem init_eq_error {workerAlloc : List WorkerAlloc} {e : DriverCheck}
    (failed : init workerAlloc = .error e) : e ∈ [DriverCheck.allocNodeId, .allocWorkers] := by
  obtain ⟨_, node, -, failed⟩ := Except.foldlM_eq_error failed
  obtain failed | ⟨_, -, failed⟩ := Except.bind_eq_error.mp failed
  · obtain ⟨-, rfl⟩ := driverCheck_eq_error.mp failed
    decide
  · obtain failed | ⟨_, -, failed⟩ := Except.bind_eq_error.mp failed
    · obtain ⟨-, rfl⟩ := driverCheck_eq_error.mp failed
      decide
    · cases failed

end WorkerSpec

end FlexPS
