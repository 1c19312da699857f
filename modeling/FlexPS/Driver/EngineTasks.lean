import FlexPS.Driver.Engine
import FlexPS.Lib.Epochs
import FlexPS.Lib.Machine

/-! # Which task a server is in

The barrier of `Run` keeps the workers of a task from sending before every server has
registered them. Nothing keeps a node from registering the workers of the next task
while messages of this one are on their way from other nodes; `Quiet` is the state in
which that does no harm.
-/

namespace FlexPS

open Machine Epochs

variable {Val : Type} {n : Nat}

namespace Posted

def isReset (posted : Posted Val) : Bool := posted.msg.flag = .kResetWorkerInModel

/-- The task whose workers the message registers with a table. -/
def renews (table : UInt32) (posted : Posted Val) : Option Nat :=
  if posted.msg.modelId = table ∧ posted.isReset then some posted.task else none

/-- The task of the worker that sent the message to a table. -/
def needs (table : UInt32) (posted : Posted Val) : Option Nat :=
  if posted.msg.modelId = table ∧ ¬ posted.isReset then some posted.task else none

variable {posted : Posted Val} {table : UInt32}

theorem renews_of_work (work : ¬ posted.isReset) : posted.renews table = none := by
  simp [renews, work]

theorem renews_of_reset (reset : posted.isReset) : posted.renews posted.msg.modelId = some posted.task := by
  simp [renews, reset]

theorem renews_of_ne (other : posted.msg.modelId ≠ table) : posted.renews table = none := by
  simp [renews, other]

theorem needs_eq_some {t : Nat} : posted.needs table = some t ↔
    posted.msg.modelId = table ∧ ¬ posted.isReset ∧ posted.task = t := by
  simp [needs, and_assoc]

end Posted

namespace EngineState

variable (cluster : Cluster n) (tasks : List (EngineTask n))

/-- The data on a link. -/
def onLink (links : Fin n → Fin n → Link (EnginePacket Val)) (k j : Fin n) : List (Posted Val) :=
  (links k j).inFlight.filterMap EnginePacket.posted

/-- What is on its way from a node to a server. -/
def inbound (state : EngineState Val n) (k : Fin n) (server : Tid) : List (Posted Val) :=
  (onLink state.links k (cluster.nodeOf server) ++ state.sendQueue k).filter (·.msg.recver = server)

/-- What is in front of a server and on its way from the server's own node. -/
def own (state : EngineState Val n) (server : Tid) : List (Posted Val) :=
  state.serverQueue server ++ state.inbound cluster (cluster.nodeOf server) server

/-- The replies on their way to an `InitTable`. -/
def replies (state : EngineState Val n) (i : Fin n) : List (Posted Val) :=
  (onLink state.links i i ++ state.sendQueue i).filter
    fun posted => posted.isReset ∧ posted.msg.recver ∉ cluster.servers i

def tablesOf (task : Nat) : List UInt32 := (tasks[task]?.map EngineTask.tables).getD []

def Uses (task : Nat) (table : UInt32) : Prop := table ∈ tablesOf tasks task

def idsOf (task : Nat) : List Tid := (tasks[task]?.map EngineTask.allThreadIds).getD []

section Views

variable {cluster} {state : EngineState Val n} {server : Tid}

theorem onLink_set (links : Fin n → Fin n → Link (EnginePacket Val)) (i j k l : Fin n)
    (link : Link (EnginePacket Val)) : onLink (Link.set links i j link) k l =
      if k = i ∧ l = j then link.inFlight.filterMap EnginePacket.posted else onLink links k l := by
  unfold onLink
  rw [Link.set_apply]
  split <;> rfl

theorem onLink_send (links : Fin n → Fin n → Link (EnginePacket Val)) (i j k l : Fin n)
    (packet : EnginePacket Val) :
    onLink (Link.set links i j ((links i j).send packet)) k l =
      onLink links k l ++ if k = i ∧ l = j then packet.posted.toList else [] := by
  rw [onLink_set]
  split
  · next here =>
      obtain ⟨rfl, rfl⟩ := here
      cases packet <;> simp [Link.send, onLink, EnginePacket.posted]
  · rw [List.append_nil]

theorem onLink_receive {links : Fin n → Fin n → Link (EnginePacket Val)} {i j : Fin n}
    {packet : EnginePacket Val} {rest : List (EnginePacket Val)}
    (next : (links i j).inFlight = packet :: rest) (k l : Fin n) :
    onLink links k l = (if k = i ∧ l = j then packet.posted.toList else []) ++
      onLink (Link.set links i j (links i j).receive) k l := by
  rw [onLink_set, Link.receive_eq next]
  split
  · next here =>
      obtain ⟨rfl, rfl⟩ := here
      rw [onLink, next]
      cases packet <;> rfl
  · rfl

theorem inbound_push (state : EngineState Val n) (i k : Fin n) (posted : Posted Val) :
    (state.push i posted).inbound cluster k server = state.inbound cluster k server ++
      if k = i ∧ posted.msg.recver = server then [posted] else [] := by
  simp only [inbound, push, Function.update_apply]
  by_cases same : k = i
  · subst same
    by_cases here : posted.msg.recver = server <;>
      simp [here, ← List.append_assoc, List.filter_append]
  · simp [same]

theorem replies_push (state : EngineState Val n) (i k : Fin n) (posted : Posted Val) :
    (state.push i posted).replies cluster k = state.replies cluster k ++
      if k = i ∧ posted.isReset ∧ posted.msg.recver ∉ cluster.servers k then [posted] else [] := by
  simp only [replies, push, Function.update_apply]
  by_cases same : k = i
  · subst same
    by_cases here : posted.isReset ∧ posted.msg.recver ∉ cluster.servers k <;>
      simp [here, ← List.append_assoc, List.filter_append]
  · simp [same]

/-- What the `Sender` takes from its queue is still on its way. -/
theorem inbound_transmit {i : Fin n} {posted : Posted Val} {rest : List (Posted Val)}
    (next : state.sendQueue i = posted :: rest) (k : Fin n) :
    ({ state with
      sendQueue := Function.update state.sendQueue i rest
      links := Link.set state.links i (cluster.nodeOf posted.msg.recver)
        ((state.links i (cluster.nodeOf posted.msg.recver)).send (.data posted)) } :
      EngineState Val n).inbound cluster k server = state.inbound cluster k server := by
  simp only [inbound, onLink_send, Function.update_apply]
  by_cases same : k = i
  · subst same
    by_cases here : posted.msg.recver = server
    · subst here
      simp [next, EnginePacket.posted]
    · by_cases home : cluster.nodeOf server = cluster.nodeOf posted.msg.recver <;>
        simp [next, EnginePacket.posted, here, home]
  · simp [same]

theorem replies_transmit {i : Fin n} {posted : Posted Val} {rest : List (Posted Val)}
    (next : state.sendQueue i = posted :: rest)
    (home : posted.isReset → cluster.nodeOf posted.msg.recver = i) (k : Fin n) :
    ({ state with
      sendQueue := Function.update state.sendQueue i rest
      links := Link.set state.links i (cluster.nodeOf posted.msg.recver)
        ((state.links i (cluster.nodeOf posted.msg.recver)).send (.data posted)) } :
      EngineState Val n).replies cluster k = state.replies cluster k := by
  simp only [replies, onLink_send, Function.update_apply]
  by_cases same : k = i
  · subst same
    by_cases reset : posted.isReset
    · simp [next, EnginePacket.posted, home reset]
    · rw [if_pos rfl, next]
      split <;> simp [EnginePacket.posted, reset]
  · simp [same]

theorem inbound_receive {i j : Fin n} {packet : EnginePacket Val} {rest : List (EnginePacket Val)}
    (next : (state.links i j).inFlight = packet :: rest)
    (home : ∀ posted, packet = .data posted → cluster.nodeOf posted.msg.recver = j) (k : Fin n) :
    state.inbound cluster k server =
      (if k = i then packet.posted.toList.filter (·.msg.recver = server) else []) ++
        ({ state with links := Link.set state.links i j (state.links i j).receive } :
          EngineState Val n).inbound cluster k server := by
  simp only [inbound, onLink_receive next k (cluster.nodeOf server)]
  cases packet with
  | barrier => simp [EnginePacket.posted]
  | data posted =>
      have target := home posted rfl
      by_cases same : k = i
      · by_cases here : posted.msg.recver = server
        · subst here
          simp [same, target, EnginePacket.posted]
        · by_cases there : cluster.nodeOf server = j <;>
            simp [same, there, here, EnginePacket.posted]
      · simp [same]

theorem replies_receive {i j : Fin n} {packet : EnginePacket Val} {rest : List (EnginePacket Val)}
    (next : (state.links i j).inFlight = packet :: rest)
    (home : ∀ posted, packet = .data posted → posted.isReset → j = i) (k : Fin n) :
    state.replies cluster k =
      (if k = i then packet.posted.toList.filter
        fun posted => posted.isReset ∧ posted.msg.recver ∉ cluster.servers i else []) ++
        ({ state with links := Link.set state.links i j (state.links i j).receive } :
          EngineState Val n).replies cluster k := by
  simp only [replies, onLink_receive next k k]
  cases packet with
  | barrier => simp [EnginePacket.posted]
  | data posted =>
      by_cases same : k = i
      · subst same
        by_cases reset : posted.isReset
        · simp [home posted rfl reset, EnginePacket.posted, List.filter_cons, reset]
          split <;> rfl
        · by_cases here : k = j <;> simp [reset, here, EnginePacket.posted]
      · simp [same]

end Views

end EngineState

/-! ## One server -/

/-- The ids a message registers, or its sender, are those of its task. -/
def Posted.Known (tasks : List (EngineTask n)) (posted : Posted Val) : Prop :=
  if posted.isReset then posted.msg.keys = EngineState.idsOf tasks posted.task
  else posted.msg.sender ∈ EngineState.idsOf tasks posted.task

/-- The task a server is in, for one table. -/
def current (registered : UInt32 → Option (Nat × List Tid)) (table : UInt32) : Option Nat :=
  (registered table).map Prod.fst

/-- What holds of a server of node `j`, its queue and what is on its way to it. -/
structure TaskInv (tasks : List (EngineTask n)) (j : Fin n) (task entered returned : Fin n → Nat)
    (registered : UInt32 → Option (Nat × List Tid)) (queue : List (Posted Val))
    (inbound : Fin n → List (Posted Val)) : Prop where
  fits : ∀ table, Fits (Posted.renews table) (Posted.needs table) (current registered table)
    (queue ++ inbound j)
  /-- What comes from other nodes belongs to the task that the server is in, or will be in
      when it has emptied its queue. -/
  others : ∀ k ≠ j, ∀ posted ∈ inbound k, ¬ posted.isReset ∧
    last (Posted.renews posted.msg.modelId) (current registered posted.msg.modelId) queue =
      some posted.task
  /-- The node of the server enters the barrier of a task when the server has its reset. -/
  latest : ∀ table u, EngineState.Uses tasks u table → u < entered j →
    ∃ v, u ≤ v ∧ last (Posted.renews table) (current registered table) queue = some v
  running : task j < returned j → ∀ table, EngineState.Uses tasks (task j) table →
    last (Posted.renews table) (current registered table) (queue ++ inbound j) = some (task j)
  ids : ∀ table t ids, registered table = some (t, ids) → ids = EngineState.idsOf tasks t
  queued : ∀ posted ∈ queue, posted.Known tasks
  coming : ∀ k, ∀ posted ∈ inbound k, posted.Known tasks

namespace TaskInv

variable {tasks : List (EngineTask n)} {j : Fin n} {task entered returned : Fin n → Nat}
  {registered : UInt32 → Option (Nat × List Tid)} {queue rest : List (Posted Val)}
  {inbound : Fin n → List (Posted Val)} {posted : Posted Val} {i k : Fin n}

theorem last_work (work : ¬ posted.isReset) (table : UInt32) (epoch : Option Nat) :
    last (Posted.renews table) epoch [posted] = epoch :=
  last_of_forall fun p mem => by
    obtain rfl := List.mem_singleton.mp mem
    exact Posted.renews_of_work work

/-- A message is pushed at node `i`: a reset only at the server's own node, before its
    workers run, any other for the task that it will meet. -/
theorem push (h : TaskInv tasks j task entered returned registered queue inbound)
    (known : posted.Known tasks) (reset : posted.isReset → i = j ∧ returned j ≤ task j)
    (work : ¬ posted.isReset → last (Posted.renews posted.msg.modelId)
      (current registered posted.msg.modelId) (queue ++ if i = j then inbound j else []) =
        some posted.task) :
    TaskInv tasks j task entered returned registered queue
      fun k => inbound k ++ if k = i then [posted] else [] where
  fits table := by
    by_cases here : j = i
    · subst here
      rw [if_pos rfl, ← List.append_assoc, fits_append]
      refine ⟨h.fits table, fits_singleton.mpr fun t needs => ?_⟩
      obtain ⟨rfl, notReset, rfl⟩ := Posted.needs_eq_some.mp needs
      simpa using work notReset
    · simpa [here] using h.fits table
  others k other p mem := by
    rcases List.mem_append.mp mem with old | new
    · exact h.others k other p old
    · split at new
      · next same =>
          subst same
          obtain rfl := List.mem_singleton.mp new
          have notReset : ¬ p.isReset := fun isReset => other (reset isReset).1
          exact ⟨notReset, by simpa [other] using work notReset⟩
      · cases new
  latest := h.latest
  running runs table uses := by
    by_cases here : j = i
    · subst here
      rw [if_pos rfl, ← List.append_assoc, last_append, h.running runs table uses]
      have notReset : ¬ posted.isReset := fun isReset => by
        have := (reset isReset).2
        omega
      exact last_work notReset table _
    · simpa [here] using h.running runs table uses
  ids := h.ids
  queued := h.queued
  coming k p mem := by
    rcases List.mem_append.mp mem with old | new
    · exact h.coming k p old
    · split at new
      · obtain rfl := List.mem_singleton.mp new
        exact known
      · cases new

/-- A message enters the queue. A reset may do so when nothing is on its way from the other
    nodes for its table. -/
theorem receive (h : TaskInv tasks j task entered returned registered queue inbound)
    (front : inbound k = posted :: rest)
    (quiet : posted.isReset → ∀ k ≠ j, ∀ p ∈ inbound k, p.msg.modelId ≠ posted.msg.modelId)
    (newest : posted.isReset → entered j ≤ posted.task) :
    TaskInv tasks j task entered returned registered (queue ++ [posted])
      (Function.update inbound k rest) := by
  have member : posted ∈ inbound k := front ▸ List.mem_cons_self
  have sub : ∀ l, ∀ p ∈ Function.update inbound k rest l, p ∈ inbound l := by
    intro l p mem
    rw [Function.update_apply] at mem
    split at mem
    · next same =>
        subst same
        exact front ▸ List.mem_cons_of_mem _ mem
    · exact mem
  have own : k = j → (queue ++ [posted]) ++ Function.update inbound k rest j = queue ++ inbound j := by
    rintro rfl
    rw [Function.update_self, front, List.append_assoc, List.singleton_append]
  have same_last : ∀ table, (posted.isReset → posted.msg.modelId ≠ table) →
      last (Posted.renews table) (current registered table) (queue ++ [posted]) =
        last (Posted.renews table) (current registered table) queue := by
    intro table other
    rw [last_append]
    refine last_of_forall fun p mem => ?_
    obtain rfl := List.mem_singleton.mp mem
    by_cases isReset : p.isReset
    · exact Posted.renews_of_ne (other isReset)
    · exact Posted.renews_of_work isReset
  have foreign : k ≠ j → ∀ table,
      last (Posted.renews table) (current registered table) (queue ++ [posted]) =
        last (Posted.renews table) (current registered table) queue := fun other table =>
    same_last table fun isReset => absurd isReset (h.others k other posted member).1
  constructor
  · intro table
    by_cases here : k = j
    · rw [own here]
      exact h.fits table
    · rw [fits_append, foreign here table, fits_append, Function.update_of_ne (Ne.symm here)]
      obtain ⟨first, later⟩ := fits_append.mp (h.fits table)
      refine ⟨⟨first, fits_singleton.mpr fun t needs => ?_⟩, later⟩
      obtain ⟨rfl, -, rfl⟩ := Posted.needs_eq_some.mp needs
      exact (h.others k here posted member).2
  · intro l other p mem
    obtain ⟨work, belongs⟩ := h.others l other p (sub l p mem)
    refine ⟨work, ?_⟩
    rw [same_last p.msg.modelId fun isReset same =>
      quiet isReset l other p (sub l p mem) same.symm]
    exact belongs
  · intro table u uses begun
    by_cases renewed : posted.isReset ∧ posted.msg.modelId = table
    · obtain ⟨reset, rfl⟩ := renewed
      refine ⟨posted.task, ?_, ?_⟩
      · have := newest reset
        omega
      · rw [last_append, last, Posted.renews_of_reset reset]
        rfl
    · rw [same_last table fun reset same => renewed ⟨reset, same⟩]
      exact h.latest table u uses begun
  · intro runs table uses
    by_cases here : k = j
    · rw [own here]
      exact h.running runs table uses
    · rw [last_append, foreign here table, Function.update_of_ne (Ne.symm here), ← last_append]
      exact h.running runs table uses
  · exact h.ids
  · intro p mem
    rcases List.mem_append.mp mem with old | new
    · exact h.queued p old
    · obtain rfl := List.mem_singleton.mp new
      exact h.coming k p member
  · intro l p mem
    exact h.coming l p (sub l p mem)

/-- What is registered after a message. -/
def registeredBy (posted : Posted Val) (registered : UInt32 → Option (Nat × List Tid)) :
    UInt32 → Option (Nat × List Tid) :=
  if posted.isReset then
    Function.update registered posted.msg.modelId (some (posted.task, posted.msg.keys))
  else registered

theorem current_registeredBy (posted : Posted Val) (table : UInt32) :
    current (registeredBy posted registered) table =
      (posted.renews table).or (current registered table) := by
  unfold registeredBy current
  by_cases reset : posted.isReset
  · by_cases same : table = posted.msg.modelId
    · subst same
      rw [if_pos reset, Posted.renews_of_reset reset, Function.update_self]
      rfl
    · rw [if_pos reset, Posted.renews_of_ne (Ne.symm same), Function.update_of_ne same, Option.none_or]
  · rw [if_neg reset, Posted.renews_of_work reset, Option.none_or]

theorem serve (h : TaskInv tasks j task entered returned registered (posted :: rest) inbound) :
    TaskInv tasks j task entered returned (registeredBy posted registered) rest inbound where
  fits table := by
    rw [current_registeredBy]
    exact (h.fits table).2
  others k other p mem := by
    rw [current_registeredBy]
    exact h.others k other p mem
  latest table u uses begun := by
    rw [current_registeredBy]
    exact h.latest table u uses begun
  running runs table uses := by
    rw [current_registeredBy]
    exact h.running runs table uses
  ids table t ids found := by
    unfold registeredBy at found
    split at found
    · next reset =>
        rw [Function.update_apply] at found
        split at found
        · obtain ⟨rfl, rfl⟩ := Prod.mk.inj (Option.some.inj found)
          have known := h.queued posted List.mem_cons_self
          rwa [Posted.Known, if_pos reset] at known
        · exact h.ids table t ids found
    · exact h.ids table t ids found
  queued p mem := h.queued p (List.mem_cons_of_mem _ mem)
  coming := h.coming

/-- A message of a worker finds the workers of its task registered. -/
theorem front (h : TaskInv tasks j task entered returned registered (posted :: rest) inbound)
    (work : ¬ posted.isReset) : ∃ ids, registered posted.msg.modelId = some (posted.task, ids) ∧
      posted.msg.sender ∈ ids := by
  have now : current registered posted.msg.modelId = some posted.task :=
    (h.fits posted.msg.modelId).1 posted.task (Posted.needs_eq_some.mpr ⟨rfl, work, rfl⟩)
  obtain ⟨⟨t, ids⟩, found, same⟩ := Option.map_eq_some_iff.mp now
  obtain rfl : t = posted.task := same
  obtain rfl := h.ids _ _ _ found
  have known := h.queued posted List.mem_cons_self
  rw [Posted.Known, if_neg work] at known
  exact ⟨_, found, known⟩

/-- The node of the server enters the barrier: it has registered the workers of its task. -/
theorem enter (h : TaskInv tasks j task entered returned registered queue inbound)
    (now : entered i = task i)
    (settled : i = j → ∀ table, EngineState.Uses tasks (task j) table →
      last (Posted.renews table) (current registered table) queue = some (task j)) :
    TaskInv tasks j task (Rounds.bump entered i) returned registered queue inbound :=
  { h with
    latest := by
      intro table u uses begun
      by_cases here : j = i
      · subst here
        rw [Rounds.bump_same] at begun
        rcases Nat.lt_succ_iff_lt_or_eq.mp begun with old | rfl
        · exact h.latest table u uses old
        · exact ⟨task j, now.le, settled rfl table (now ▸ uses)⟩
      · rw [Rounds.bump_of_ne here] at begun
        exact h.latest table u uses begun }

/-- A node leaves the barrier and starts its workers. -/
theorem leave (h : TaskInv tasks j task entered returned registered queue inbound)
    (settled : i = j → ∀ table, EngineState.Uses tasks (task j) table →
      last (Posted.renews table) (current registered table) (queue ++ inbound j) = some (task j)) :
    TaskInv tasks j task entered (Rounds.bump returned i) registered queue inbound :=
  { h with
    running := by
      intro runs table uses
      by_cases here : j = i
      · exact settled here.symm table uses
      · rw [Rounds.bump_of_ne here] at runs
        exact h.running runs table uses }

/-- A node ends its task. -/
theorem join (h : TaskInv tasks j task entered returned registered queue inbound)
    (ended : returned i = task i + 1) :
    TaskInv tasks j (Rounds.bump task i) entered returned registered queue inbound :=
  { h with
    running := by
      intro runs table uses
      by_cases here : j = i
      · subst here
        rw [Rounds.bump_same] at runs
        omega
      · rw [Rounds.bump_of_ne here] at runs uses ⊢
        exact h.running runs table uses }

end TaskInv

/-! ## One main thread -/

/-- Nothing is on its way between a node and its servers, which are in task `t` for the
    tables `done`. `resets` are the messages for each server, `replies` those from them. -/
structure Settled (servers : List Tid) (t : Nat) (done : List UInt32)
    (registered : Tid → UInt32 → Option (Nat × List Tid)) (resets : Tid → List (Posted Val))
    (replies : List (Posted Val)) : Prop where
  done : ∀ table ∈ done, ∀ server ∈ servers, current (registered server) table = some t
  no_reset : ∀ server ∈ servers, resets server = []
  no_reply : replies = []

/-- `InitTable` has still to push a message for each server of `todo`, and waits for `count`
    replies. -/
structure Initializing (servers : List Tid) (t : Nat) (done : List UInt32) (table : UInt32)
    (id : Tid) (todo : List Tid) (count : Nat)
    (registered : Tid → UInt32 → Option (Nat × List Tid)) (resets : Tid → List (Posted Val))
    (replies : List (Posted Val)) : Prop where
  done : ∀ table ∈ done, ∀ server ∈ servers, current (registered server) table = some t
  id_other : id ∉ servers
  todo_known : ∀ server ∈ todo, server ∈ servers
  reset_of : ∀ server ∈ servers, ∀ posted ∈ resets server,
    posted.msg.modelId = table ∧ posted.task = t ∧ posted.msg.sender = id
  reply_to : ∀ posted ∈ replies, posted.msg.recver = id
  /-- Each server is somewhere on the way to being registered. -/
  each : ∀ server ∈ servers, server ∈ todo ∨ resets server ≠ [] ∨
    current (registered server) table = some t
  count_eq : count = todo.length + ∑ server ∈ servers.toFinset, (resets server).length + replies.length

section Main

variable {servers : List Tid} {t : Nat} {done : List UInt32} {table : UInt32} {id : Tid}
  {todo : List Tid} {count : Nat} {registered : Tid → UInt32 → Option (Nat × List Tid)}
  {resets : Tid → List (Posted Val)} {replies rest : List (Posted Val)} {posted : Posted Val}
  {server : Tid}

theorem Settled.initTable (h : Settled servers t done registered resets replies)
    (other : id ∉ servers) :
    Initializing servers t done table id servers servers.length registered resets replies where
  done := h.done
  id_other := other
  todo_known _ mem := mem
  reset_of server mem posted posted_mem := by
    rw [h.no_reset server mem] at posted_mem
    cases posted_mem
  reply_to posted mem := by
    rw [h.no_reply] at mem
    cases mem
  each server mem := .inl mem
  count_eq := by
    have none : ∑ server ∈ servers.toFinset, (resets server).length = 0 :=
      Finset.sum_eq_zero fun server mem => by
        rw [h.no_reset server (List.mem_toFinset.mp mem), List.length_nil]
    rw [none, h.no_reply, List.length_nil]
    omega

namespace Initializing

theorem pushReset
    (h : Initializing servers t done table id (server :: todo) count registered resets replies)
    (model : posted.msg.modelId = table) (task : posted.task = t) (sender : posted.msg.sender = id) :
    Initializing servers t done table id todo count registered
      (Function.update resets server (resets server ++ [posted])) replies where
  done := h.done
  id_other := h.id_other
  todo_known server mem := h.todo_known server (List.mem_cons_of_mem _ mem)
  reset_of s mem p p_mem := by
    rw [Function.update_apply] at p_mem
    split at p_mem
    · next same =>
        subst same
        rcases List.mem_append.mp p_mem with old | new
        · exact h.reset_of s mem p old
        · obtain rfl := List.mem_singleton.mp new
          exact ⟨model, task, sender⟩
    · exact h.reset_of s mem p p_mem
  reply_to := h.reply_to
  each s mem := by
    rw [Function.update_apply]
    by_cases same : s = server
    · rw [if_pos same]
      exact .inr (.inl (by simp))
    · rw [if_neg same]
      exact (h.each s mem).imp_left fun todo => (List.mem_cons.mp todo).resolve_left same
  count_eq := by
    have member : server ∈ servers.toFinset := List.mem_toFinset.mpr (h.todo_known server List.mem_cons_self)
    have total := h.count_eq
    rw [← Finset.add_sum_erase _ _ member] at total ⊢
    have others : ∑ s ∈ servers.toFinset.erase server,
        (Function.update resets server (resets server ++ [posted]) s).length =
          ∑ s ∈ servers.toFinset.erase server, (resets s).length :=
      Finset.sum_congr rfl fun s mem => by rw [Function.update_of_ne (Finset.ne_of_mem_erase mem)]
    rw [others, Function.update_self, List.length_append, List.length_singleton]
    rw [List.length_cons] at total
    omega

/-- A server registers the workers and replies. -/
theorem serve (h : Initializing servers t done table id todo count registered resets replies)
    (member : server ∈ servers) (front : resets server = posted :: rest) (keys : List Tid)
    {reply : Posted Val} (recver : reply.msg.recver = posted.msg.sender) :
    Initializing servers t done table id todo count
      (Function.update registered server
        (Function.update (registered server) posted.msg.modelId (some (posted.task, keys))))
      (Function.update resets server rest) (replies ++ [reply]) := by
  obtain ⟨model, task, sender⟩ := h.reset_of server member posted (front ▸ List.mem_cons_self)
  have now : ∀ s T, current (registered s) T = some t → current (Function.update registered server
      (Function.update (registered server) posted.msg.modelId (some (posted.task, keys))) s) T =
        some t := by
    intro s T old
    unfold current at old ⊢
    rw [Function.update_apply]
    split
    · next same =>
        subst same
        rw [Function.update_apply]
        split
        · rw [Option.map_some, task]
        · exact old
    · exact old
  constructor
  · exact fun T T_mem s s_mem => now s T (h.done T T_mem s s_mem)
  · exact h.id_other
  · exact h.todo_known
  · intro s mem p p_mem
    rw [Function.update_apply] at p_mem
    split at p_mem
    · next same =>
        subst same
        exact h.reset_of s mem p (front ▸ List.mem_cons_of_mem _ p_mem)
    · exact h.reset_of s mem p p_mem
  · intro p mem
    rcases List.mem_append.mp mem with old | new
    · exact h.reply_to p old
    · obtain rfl := List.mem_singleton.mp new
      exact recver.trans sender
  · intro s mem
    by_cases same : s = server
    · subst same
      refine .inr (.inr ?_)
      rw [current, Function.update_self, ← model, Function.update_self, Option.map_some, task]
    · rw [Function.update_of_ne same]
      exact (h.each s mem).imp_right (Or.imp_right (now s table))
  · have total := h.count_eq
    have in_finset : server ∈ servers.toFinset := List.mem_toFinset.mpr member
    rw [← Finset.add_sum_erase _ _ in_finset] at total ⊢
    have others : ∑ s ∈ servers.toFinset.erase server, (Function.update resets server rest s).length =
        ∑ s ∈ servers.toFinset.erase server, (resets s).length :=
      Finset.sum_congr rfl fun s mem => by rw [Function.update_of_ne (Finset.ne_of_mem_erase mem)]
    rw [others, Function.update_self, List.length_append, List.length_singleton]
    rw [front, List.length_cons] at total
    omega

theorem reply
    (h : Initializing servers t done table id todo count registered resets (posted :: rest)) :
    Initializing servers t done table id todo (count - 1) registered resets rest :=
  { h with
    reply_to := fun p mem => h.reply_to p (List.mem_cons_of_mem _ mem)
    count_eq := by
      have total := h.count_eq
      rw [List.length_cons] at total
      omega }

theorem finish (h : Initializing servers t done table id [] 0 registered resets replies) :
    Settled servers t (done ++ [table]) registered resets replies := by
  have total := h.count_eq
  have none : ∀ server ∈ servers, resets server = [] := by
    intro server mem
    have zero : ∑ server ∈ servers.toFinset, (resets server).length = 0 := by omega
    have each := Finset.sum_eq_zero_iff.mp zero server (List.mem_toFinset.mpr mem)
    exact List.length_eq_zero_iff.mp each
  refine ⟨fun T mem server server_mem => ?_, none, List.length_eq_zero_iff.mp (by omega)⟩
  rcases List.mem_append.mp mem with old | new
  · exact h.done T old server server_mem
  · obtain rfl := List.mem_singleton.mp new
    rcases h.each server server_mem with todo | some_reset | registered
    · cases todo
    · exact absurd (none server server_mem) some_reset
    · exact registered

end Initializing

end Main

/-! ## All nodes -/

def EngineMain.entered : EngineMain → Nat
  | .tables _ | .initTable .. => 0
  | .inBarrier | .running _ => 1

def EngineMain.returned : EngineMain → Nat
  | .running _ => 1
  | _ => 0

open EngineState

/-- What holds of a node whose main thread stands at `main`. -/
def MainInv (cluster : Cluster n) (tasks : List (EngineTask n)) (i : Fin n) (t : Nat)
    (registered : Tid → UInt32 → Option (Nat × List Tid)) (resets : Tid → List (Posted Val))
    (replies : List (Posted Val)) : EngineMain → Prop
  | .tables rest => ∃ done, tablesOf tasks t = done ++ rest ∧
      Settled (cluster.servers i) t done registered resets replies
  | .initTable table id todo count rest => ∃ done, tablesOf tasks t = done ++ table :: rest ∧
      cluster.nodeOf id = i ∧
      Initializing (cluster.servers i) t done table id todo count registered resets replies
  | .inBarrier => Settled (cluster.servers i) t (tablesOf tasks t) registered resets replies
  | .running workers => (∀ worker ∈ workers, worker ∈ idsOf tasks t) ∧
      Settled (cluster.servers i) t (tablesOf tasks t) registered resets replies

section MainInv

variable {cluster : Cluster n} {tasks : List (EngineTask n)} {i : Fin n} {t : Nat}
  {registered registered' : Tid → UInt32 → Option (Nat × List Tid)}
  {resets resets' : Tid → List (Posted Val)} {replies : List (Posted Val)} {main : EngineMain}

theorem Settled.congr {servers : List Tid} {done : List UInt32}
    (h : Settled servers t done registered resets replies)
    (same : ∀ server ∈ servers, registered' server = registered server ∧ resets' server = resets server) :
    Settled servers t done registered' resets' replies where
  done table mem server server_mem := by
    rw [(same server server_mem).1]
    exact h.done table mem server server_mem
  no_reset server mem := (same server mem).2.trans (h.no_reset server mem)
  no_reply := h.no_reply

/-- A node does not see what happens to the servers of the others. -/
theorem MainInv.congr (h : MainInv cluster tasks i t registered resets replies main)
    (same : ∀ server ∈ cluster.servers i,
      registered' server = registered server ∧ resets' server = resets server) :
    MainInv cluster tasks i t registered' resets' replies main := by
  cases main with
  | tables rest =>
      obtain ⟨done, split, settled⟩ := h
      exact ⟨done, split, settled.congr same⟩
  | inBarrier => exact h.congr same
  | running workers => exact ⟨h.1, h.2.congr same⟩
  | initTable table id todo count rest =>
      obtain ⟨done, split, home, h⟩ := h
      refine ⟨done, split, home, ?_, h.id_other, h.todo_known, ?_, h.reply_to, ?_, ?_⟩
      · intro T mem server server_mem
        rw [(same server server_mem).1]
        exact h.done T mem server server_mem
      · intro server mem
        rw [(same server mem).2]
        exact h.reset_of server mem
      · intro server mem
        rw [(same server mem).1, (same server mem).2]
        exact h.each server mem
      · have total := h.count_eq
        rw [← Finset.sum_congr rfl fun server mem =>
          congrArg List.length (same server (List.mem_toFinset.mp mem)).2] at total
        exact total

end MainInv

namespace EngineState

variable (cluster : Cluster n) (tasks : List (EngineTask n))

/-- The messages that register workers with a server, from its own node. -/
def resetsTo (state : EngineState Val n) (server : Tid) : List (Posted Val) :=
  (state.own cluster server).filter Posted.isReset

/-- The last reset of a table that a server has handled. -/
def lastReset (events : List (EngineEvent Val)) (server : Tid) (table : UInt32) :
    Option (Nat × List Tid) :=
  events.foldl (fun found event => match event with
    | .reset s T task ids => if s = server ∧ T = table then some (task, ids) else found
    | .processed .. => found) none

def barriersOn (links : Fin n → Fin n → Link (EnginePacket Val)) (i j : Fin n) : Nat :=
  (links i j).inFlight.countP EnginePacket.isBarrier

structure Inv (state : EngineState Val n) : Prop where
  counted : BarrierState.Counted state.mailboxes (barriersOn state.links) state.entered state.returned
  entered : ∀ i, state.entered i = state.task i + (state.main i).entered
  returned : ∀ i, state.returned i = state.task i + (state.main i).returned
  servers : ∀ j, ∀ server ∈ cluster.servers j, TaskInv tasks j state.task state.entered
    state.returned (state.registered server) (state.serverQueue server)
    fun k => state.inbound cluster k server
  mains : ∀ i, MainInv cluster tasks i (state.task i) state.registered (state.resetsTo cluster)
    (state.replies cluster i) (state.main i)
  routed : ∀ k, ∀ posted ∈ state.sendQueue k, posted.isReset → cluster.nodeOf posted.msg.recver = k
  linked : ∀ k j, ∀ posted ∈ onLink state.links k j,
    cluster.nodeOf posted.msg.recver = j ∧ (posted.isReset → j = k)
  serving : ∀ server, state.serverQueue server ≠ [] → server ∈ cluster.servers (cluster.nodeOf server)

end EngineState

end FlexPS
