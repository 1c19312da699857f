import FlexPS.Server.BSP.Model

/-! # What one BSP server guarantees

In every iteration a worker sends a `Get` or none, its `Add`s and one `Clock`, and
waits only for the reply to the `Get`. A worker that has left the iteration of the
minimum clock is held back by its next `Get` alone; as long as it is, the two buffers
never hold requests of two iterations.
-/

namespace FlexPS

/-- What the workers send to one server. -/
structure BSPWorkload (Val : Type) where
  server : Tid
  modelId : UInt32
  /-- The keys of the `Get` of a worker's iteration, when it has one. -/
  gets : Tid → Nat → Option (List Key)
  adds : Tid → Nat → List (KVPairs Val)

namespace BSPWorkload

variable {Val : Type} (W : BSPWorkload Val)

-- the clients leave the version of these messages uninitialised, and the model does not read it

def getMsg (w : Tid) (keys : List Key) : Message Val :=
  { sender := w, recver := W.server, modelId := W.modelId, flag := .kGet, version := 0,
    data := [.u32 keys] }

def addMsg (w : Tid) (kvs : KVPairs Val) : Message Val :=
  { sender := w, recver := W.server, modelId := W.modelId, flag := .kAdd, version := 0,
    data := [.u32 kvs.keys, .val kvs.vals] }

def clockMsg (w : Tid) : Message Val :=
  { sender := w, recver := W.server, modelId := W.modelId, flag := .kClock, version := 0, data := [] }

/-- What a worker sends in an iteration before its `Clock`. -/
def requests (w : Tid) (iteration : Nat) : List (Message Val) :=
  (W.gets w iteration).toList.map (W.getMsg w) ++ (W.adds w iteration).map (W.addMsg w)

/-- How many `Get`s an iteration has. -/
def getCount (w : Tid) (iteration : Nat) : Nat := (W.gets w iteration).toList.length

/-- The request after the first `sent` of an iteration. -/
inductive Next (w : Tid) (iteration sent : Nat) : Option (Message Val) → Prop where
  | get {keys} (reads : W.gets w iteration = some keys) (first : sent = 0) :
      Next w iteration sent (some (W.getMsg w keys))
  | add {kvs} (later : W.getCount w iteration ≤ sent)
      (found : (W.adds w iteration)[sent - W.getCount w iteration]? = some kvs) :
      Next w iteration sent (some (W.addMsg w kvs))
  | clock (done : W.getCount w iteration + (W.adds w iteration).length ≤ sent) :
      Next w iteration sent none

theorem next (w : Tid) (iteration sent : Nat) :
    W.Next w iteration sent (W.requests w iteration)[sent]? := by
  rw [requests, List.getElem?_append]
  simp only [List.length_map]
  split
  · next early =>
      cases reads : W.gets w iteration with
      | none => simp [reads] at early
      | some keys =>
          obtain rfl : sent = 0 := by simpa [reads] using early
          exact .get reads rfl
  · next late =>
      replace late : W.getCount w iteration ≤ sent := Nat.le_of_not_lt late
      rw [List.getElem?_map]
      change W.Next w iteration sent
        (((W.adds w iteration)[sent - W.getCount w iteration]?).map (W.addMsg w))
      cases found : (W.adds w iteration)[sent - W.getCount w iteration]? with
      | none =>
          have := List.getElem?_eq_none_iff.mp found
          exact .clock (by omega)
      | some kvs => exact .add late found

end BSPWorkload

/-- A server, and how far it has come in the requests of each worker. -/
structure BSPState (Val : Type) where
  model : BSPModel Val
  iteration : Tid → Nat
  /-- How many requests of its iteration a worker has sent. -/
  sent : Tid → Nat
  /-- How many `Get`s a worker has sent. -/
  asked : Tid → Nat

namespace BSPState

variable {Val : Type}

/-- The state after a `ResetWorker` that names `tids`, on a new model. -/
def start (modelId : UInt32) (storage : Storage Val) (tids : List Tid) : BSPState Val :=
  { model := { BSPModel.new modelId storage with progressTracker := .init tids }
    iteration := fun _ => 0, sent := fun _ => 0, asked := fun _ => 0 }

def threads (state : BSPState Val) : List Tid := state.model.progressTracker.threads

def minClock (state : BSPState Val) : Nat := state.model.progressTracker.minClock

/-- The next message of `w` reaches the server. -/
def step [AddCommMonoid Val] (W : BSPWorkload Val) (state : BSPState Val) (w : Tid) :
    Except Fault (BSPState Val × List (Event Val)) :=
  match (W.requests w (state.iteration w))[state.sent w]? with
  | some msg => do
      let (model, events) ← AbstractModel.handle state.model msg
      let asked := if msg.flag = .kGet then
        Function.update state.asked w (state.asked w + 1) else state.asked
      return ({ state with
        model, asked, sent := Function.update state.sent w (state.sent w + 1) }, events)
  | none => do
      let (model, events) ← AbstractModel.handle state.model (W.clockMsg w)
      return ({ state with
        model
        iteration := Function.update state.iteration w (state.iteration w + 1)
        sent := Function.update state.sent w 0 }, events)

/-- The replies to a worker, in order. -/
def repliesTo (w : Tid) (events : List (Event Val)) : List (Message Val) :=
  (events.filterMap Event.pushed).filter fun reply => reply.recver = w

/-- A registered worker sends when all its `Get`s have been answered. -/
def MaySend (state : BSPState Val) (events : List (Event Val)) (w : Tid) : Prop :=
  w ∈ state.threads ∧ (repliesTo w events).length = state.asked w

instance (state : BSPState Val) (events : List (Event Val)) (w : Tid) :
    Decidable (state.MaySend events w) := inferInstanceAs (Decidable (_ ∧ _))

end BSPState

/-! ## What the server has received -/

section Positions

variable {Val : Type} [AddCommMonoid Val] (W : BSPWorkload Val) (threads : List Tid)

/-- What a list of `Add`s adds to a key. -/
def adding (kvss : List (KVPairs Val)) (key : Key) : Val := (kvss.map (·.contribution key)).sum

/-- The value of a key with all `Add`s of the iterations before `iteration`. -/
def BSPWorkload.valueBefore (storage : Storage Val) (iteration : Nat) (key : Key) : Val :=
  storage.value key + ∑ v ∈ threads.toFinset, ∑ i ∈ Finset.range iteration, adding (W.adds v i) key

/-- The reply to the `Get` of an iteration. -/
def BSPWorkload.reply (storage : Storage Val) (w : Tid) (iteration : Nat) (keys : List Key) :
    Message Val :=
  { sender := W.server, recver := w, modelId := W.modelId, flag := .kGet, version := 0,
    data := [.u32 keys, .val (keys.map (W.valueBefore threads storage iteration))] }

/-- The replies to the `Get`s of the iterations before `iteration`. -/
def BSPWorkload.repliesBefore (storage : Storage Val) (w : Tid) (iteration : Nat) :
    List (Message Val) :=
  (List.range iteration).filterMap fun i => (W.gets w i).map (W.reply threads storage w i)

/-- The request of a worker that waits in `get_buffer_`, by its position. -/
def BSPWorkload.waiting (minClock : Nat) (w : Tid) (iteration sent : Nat) : List (Message Val) :=
  if iteration = minClock + 1 ∧ 0 < sent then (W.gets w iteration).toList.map (W.getMsg w) else []

/-- What the requests of a worker in `add_buffer_` add to a key, by its position. -/
def BSPWorkload.buffered (minClock : Nat) (key : Key) (w : Tid) (iteration sent : Nat) : Val :=
  adding (if iteration = minClock then (W.adds w minClock).take (sent - W.getCount w minClock)
    else W.adds w minClock) key

/-- How many iterations the `Get`s answered to a worker belong to, by its position. -/
def answeredBefore (minClock iteration sent : Nat) : Nat :=
  if iteration ≤ minClock ∧ 0 < sent then iteration + 1 else iteration

variable {W threads}

omit [AddCommMonoid Val] in
theorem BSPWorkload.getCount_of_some {w : Tid} {iteration : Nat} {keys : List Key}
    (reads : W.gets w iteration = some keys) : W.getCount w iteration = 1 := by
  simp [BSPWorkload.getCount, reads]

theorem BSPWorkload.repliesBefore_succ {storage : Storage Val} {w : Tid} (i : Nat) :
    W.repliesBefore threads storage w (i + 1) = W.repliesBefore threads storage w i ++
      (W.gets w i).toList.map (W.reply threads storage w i) := by
  rw [BSPWorkload.repliesBefore, List.range_succ, List.filterMap_append]
  cases reads : W.gets w i <;> simp [BSPWorkload.repliesBefore, reads]

/-- The `Add`s of an iteration are taken in when all workers have left it. -/
theorem BSPWorkload.valueBefore_succ (storage : Storage Val) (iteration : Nat) (key : Key) :
    W.valueBefore threads storage (iteration + 1) key =
      W.valueBefore threads storage iteration key +
        ∑ v ∈ threads.toFinset, adding (W.adds v iteration) key := by
  simp only [BSPWorkload.valueBefore, Finset.sum_range_succ, Finset.sum_add_distrib, add_assoc]

theorem sum_update_add {f : Tid → Val} {w : Tid} (member : w ∈ threads) (more : Val) :
    ∑ v ∈ threads.toFinset, Function.update f w (f w + more) v =
      (∑ v ∈ threads.toFinset, f v) + more := by
  have listed : w ∈ threads.toFinset := List.mem_toFinset.mpr member
  rw [Finset.sum_update_of_mem listed, Finset.sdiff_singleton_eq_erase,
    ← Finset.add_sum_erase _ f listed]
  abel

end Positions

/-! ## The invariant of a run -/

section Invariant

variable {Val : Type} [AddCommMonoid Val] (W : BSPWorkload Val) (threads : List Tid)

/-- A server that started with `storage` and has emitted `events`. -/
structure BSPInv (storage : Storage Val) (events : List (Event Val)) (state : BSPState Val) : Prop where
  threads_eq : state.model.progressTracker.threads = threads
  exact : state.model.progressTracker.Exact
  iteration_eq : ∀ w, state.iteration w = state.model.progressTracker.progresses w
  ahead : ∀ w, state.iteration w ≤ state.minClock + 1
  /-- A worker ahead of the minimum has sent nothing but its `Get`. -/
  held : ∀ w, state.iteration w = state.minClock + 1 → state.sent w ≤ W.getCount w (state.iteration w)
  getBuffer : ∀ w, state.model.getBuffer.filter (fun msg => msg.sender = w) =
    W.waiting state.minClock w (state.iteration w) (state.sent w)
  addBuffer : ∀ key, (state.model.addBuffer.map fun msg => msg.kvs.contribution key).sum =
    ∑ w ∈ threads.toFinset, W.buffered state.minClock key w (state.iteration w) (state.sent w)
  values : ∀ key, state.model.storage.value key = W.valueBefore threads storage state.minClock key
  replies : ∀ w, BSPState.repliesTo w events = W.repliesBefore threads storage w
    (answeredBefore state.minClock (state.iteration w) (state.sent w))
  asked : ∀ w, state.asked w = (BSPState.repliesTo w events).length +
    (W.waiting state.minClock w (state.iteration w) (state.sent w)).length

variable {W threads}

omit [AddCommMonoid Val] in
theorem BSPState.repliesTo_append (w : Tid) (events out : List (Event Val)) :
    BSPState.repliesTo w (events ++ out) = BSPState.repliesTo w events ++ BSPState.repliesTo w out := by
  simp [BSPState.repliesTo, List.filterMap_append, List.filter_append]

omit [AddCommMonoid Val] in
theorem BSPState.repliesTo_reply (w : Tid) (request reply : Message Val) (clocks : ProgressTracker) :
    BSPState.repliesTo w [.reply request reply clocks] = if reply.recver = w then [reply] else [] := by
  simp only [BSPState.repliesTo, List.filterMap_cons, Event.pushed, List.filterMap_nil,
    List.filter_singleton]
  split <;> simp_all

theorem BSPWorkload.replyTo_getMsg {storage storage' : Storage Val} {iteration : Nat}
    (values : ∀ key, storage'.value key = W.valueBefore threads storage iteration key) (w : Tid)
    (keys : List Key) :
    storage'.replyTo (W.getMsg w keys) = W.reply threads storage w iteration keys := by
  have same : storage'.value = W.valueBefore threads storage iteration := funext values
  simp [Storage.replyTo, BSPWorkload.reply, BSPWorkload.getMsg, Message.keys, SArray.asU32, same]

namespace BSPInv

variable {storage : Storage Val} {events out : List (Event Val)} {state state' : BSPState Val}
  {w : Tid} {model' : BSPModel Val}

theorem start (modelId : UInt32) (storage : Storage Val) (tids : List Tid) :
    BSPInv W tids.dedup storage [] (.start modelId storage tids) where
  threads_eq := rfl
  exact := ProgressTracker.exact_init tids
  iteration_eq := fun _ => rfl
  ahead := fun _ => Nat.zero_le _
  held := fun _ _ => Nat.zero_le _
  getBuffer := fun w => by simp [BSPWorkload.waiting, BSPState.start, BSPModel.new]
  addBuffer := by
    intro key
    symm
    apply Finset.sum_eq_zero
    intro w _
    simp [BSPWorkload.buffered, BSPState.start, BSPState.minClock, adding]
  values := by
    intro key
    simp [BSPWorkload.valueBefore, BSPState.start, BSPState.minClock, BSPModel.new]
  replies := fun w => by
    simp [BSPState.repliesTo, BSPState.start, answeredBefore, BSPWorkload.repliesBefore]
  asked := fun w => by
    simp [BSPWorkload.waiting, BSPState.start, BSPState.repliesTo]

/-- A step that moves only `w` and not the minimum. -/
theorem move (inv : BSPInv W threads storage events state) (registered : w ∈ threads)
    (more : Key → Val)
    (threads_eq : state'.model.progressTracker.threads = state.model.progressTracker.threads)
    (exact : state'.model.progressTracker.Exact)
    (minClock_eq : state'.minClock = state.minClock)
    (storage_eq : state'.model.storage = state.model.storage)
    (others : ∀ v, v ≠ w → state'.iteration v = state.iteration v ∧ state'.sent v = state.sent v ∧
      state'.asked v = state.asked v ∧
      state'.model.progressTracker.progresses v = state.model.progressTracker.progresses v ∧
      state'.model.getBuffer.filter (fun msg => msg.sender = v) =
        state.model.getBuffer.filter (fun msg => msg.sender = v) ∧ BSPState.repliesTo v out = [])
    (iteration_eq : state'.iteration w = state'.model.progressTracker.progresses w)
    (ahead : state'.iteration w ≤ state.minClock + 1)
    (held : state'.iteration w = state.minClock + 1 → state'.sent w ≤ W.getCount w (state'.iteration w))
    (getBuffer : state'.model.getBuffer.filter (fun msg => msg.sender = w) =
      W.waiting state.minClock w (state'.iteration w) (state'.sent w))
    (addBuffer : ∀ key, (state'.model.addBuffer.map fun msg => msg.kvs.contribution key).sum =
      (state.model.addBuffer.map fun msg => msg.kvs.contribution key).sum + more key)
    (buffered : ∀ key, W.buffered state.minClock key w (state'.iteration w) (state'.sent w) =
      W.buffered state.minClock key w (state.iteration w) (state.sent w) + more key)
    (replies : W.repliesBefore threads storage w
        (answeredBefore state.minClock (state'.iteration w) (state'.sent w)) =
      W.repliesBefore threads storage w
        (answeredBefore state.minClock (state.iteration w) (state.sent w)) ++ BSPState.repliesTo w out)
    (asked : state'.asked w + (W.waiting state.minClock w (state.iteration w) (state.sent w)).length =
      state.asked w + (BSPState.repliesTo w out).length +
        (W.waiting state.minClock w (state'.iteration w) (state'.sent w)).length) :
    BSPInv W threads storage (events ++ out) state' where
  threads_eq := threads_eq.trans inv.threads_eq
  exact := exact
  iteration_eq := by
    intro v
    by_cases same : v = w
    · exact same ▸ iteration_eq
    · obtain ⟨iteration', -, -, progress, -⟩ := others v same
      rw [iteration', progress, inv.iteration_eq]
  ahead := by
    intro v
    rw [minClock_eq]
    by_cases same : v = w
    · exact same ▸ ahead
    · exact (others v same).1 ▸ inv.ahead v
  held := by
    intro v
    rw [minClock_eq]
    by_cases same : v = w
    · exact same ▸ held
    · obtain ⟨iteration', sent', -⟩ := others v same
      rw [iteration', sent']
      exact inv.held v
  getBuffer := by
    intro v
    rw [minClock_eq]
    by_cases same : v = w
    · exact same ▸ getBuffer
    · obtain ⟨iteration', sent', -, -, waits, -⟩ := others v same
      rw [iteration', sent', waits, inv.getBuffer]
  addBuffer := by
    intro key
    rw [minClock_eq, addBuffer, inv.addBuffer, ← sum_update_add registered]
    apply Finset.sum_congr rfl
    intro v _
    by_cases same : v = w
    · rw [same, Function.update_self, buffered]
    · obtain ⟨iteration', sent', -⟩ := others v same
      rw [Function.update_of_ne same, iteration', sent']
  values := by
    intro key
    rw [minClock_eq, storage_eq, inv.values]
  replies := by
    intro v
    rw [minClock_eq, BSPState.repliesTo_append, inv.replies]
    by_cases same : v = w
    · rw [same, replies]
    · obtain ⟨iteration', sent', -, -, -, none⟩ := others v same
      rw [iteration', sent', none, List.append_nil]
  asked := by
    intro v
    have before := inv.asked v
    rw [minClock_eq, BSPState.repliesTo_append, List.length_append]
    by_cases same : v = w
    · subst same
      omega
    · obtain ⟨iteration', sent', asked', -, -, none⟩ := others v same
      rw [iteration', sent', asked', none, List.length_nil]
      omega

variable (threads storage) in
/-- The replies up to the end of an iteration that the worker leaves. -/
theorem replies_left {iteration sent : Nat} (done : W.getCount w iteration ≤ sent) :
    W.repliesBefore threads storage w (answeredBefore iteration iteration sent) =
      W.repliesBefore threads storage w (iteration + 1) := by
  unfold answeredBefore
  split
  · rfl
  · next first =>
      have none : W.gets w iteration = none := by
        cases reads : W.gets w iteration with
        | none => rfl
        | some keys =>
            rw [BSPWorkload.getCount_of_some reads] at done
            omega
      simp [BSPWorkload.repliesBefore_succ, none]

/-- A `Get` is answered at the minimum and waits ahead of it. -/
theorem get (inv : BSPInv W threads storage events state) {keys : List Key}
    (reads : W.gets w (state.iteration w) = some keys) (first : state.sent w = 0)
    (got : state.model.get (W.getMsg w keys) = .ok (model', out)) :
    BSPInv W threads storage (events ++ out) { state with
      model := model'
      sent := Function.update state.sent w (state.sent w + 1)
      asked := Function.update state.asked w (state.asked w + 1) } := by
  have one : W.getCount w (state.iteration w) = 1 := BSPWorkload.getCount_of_some reads
  obtain ⟨registered, ⟨late, rfl, rfl⟩ | ⟨early, rfl, rfl⟩⟩ := BSPModel.get_cases got
  all_goals replace registered : w ∈ threads := inv.threads_eq ▸ registered
  · replace late : state.iteration w = state.minClock + 1 := (inv.iteration_eq w).trans late
    have asks := late ▸ reads
    apply inv.move registered fun _ => 0
    case threads_eq | minClock_eq | storage_eq => rfl
    case exact => exact inv.exact
    case others =>
      intro v other
      refine ⟨rfl, Function.update_of_ne other _ _, Function.update_of_ne other _ _, rfl, ?_, rfl⟩
      rw [List.filter_append, List.filter_singleton]
      simp [BSPWorkload.getMsg, Ne.symm other]
    case iteration_eq => exact inv.iteration_eq w
    case ahead => exact inv.ahead w
    case held => simp [one, first]
    case getBuffer =>
      rw [List.filter_append, inv.getBuffer]
      simp [BSPWorkload.waiting, first, late, asks, BSPWorkload.getMsg]
    case addBuffer => exact fun _ => (add_zero _).symm
    case buffered => simp [BSPWorkload.buffered, late]
    case replies => simp [answeredBefore, late, BSPState.repliesTo]
    case asked => simp [BSPWorkload.waiting, first, late, asks, BSPState.repliesTo]
  · replace early : state.iteration w = state.minClock := (inv.iteration_eq w).trans early
    have asks := early ▸ reads
    rw [early] at one
    rw [BSPWorkload.replyTo_getMsg inv.values]
    apply inv.move registered fun _ => 0
    case threads_eq | minClock_eq | storage_eq => rfl
    case exact => exact inv.exact
    case others =>
      intro v other
      refine ⟨rfl, Function.update_of_ne other _ _, Function.update_of_ne other _ _, rfl, rfl, ?_⟩
      rw [BSPState.repliesTo_reply]
      exact if_neg (Ne.symm other)
    case iteration_eq => exact inv.iteration_eq w
    case ahead => exact inv.ahead w
    case held =>
      intro ahead
      exact absurd (early.symm.trans ahead) (Nat.ne_of_lt (Nat.lt_succ_self _))
    case getBuffer =>
      rw [inv.getBuffer]
      simp [BSPWorkload.waiting, early]
    case addBuffer => exact fun _ => (add_zero _).symm
    case buffered => simp [BSPWorkload.buffered, early, first, one]
    case replies =>
      rw [BSPState.repliesTo_reply]
      simp [answeredBefore, early, first, BSPWorkload.repliesBefore_succ, asks, BSPWorkload.reply]
    case asked =>
      rw [BSPState.repliesTo_reply]
      simp [BSPWorkload.waiting, early, BSPWorkload.reply]

/-- An `Add` is buffered with those of the iteration of the minimum. -/
theorem add (inv : BSPInv W threads storage events state) {kvs : KVPairs Val}
    (later : W.getCount w (state.iteration w) ≤ state.sent w)
    (found : (W.adds w (state.iteration w))[state.sent w - W.getCount w (state.iteration w)]? = some kvs)
    (added : state.model.add (W.addMsg w kvs) = .ok (model', out)) :
    BSPInv W threads storage (events ++ out) { state with
      model := model', sent := Function.update state.sent w (state.sent w + 1) } := by
  obtain ⟨registered, atMin, rfl, rfl⟩ := BSPModel.add_cases added
  replace registered : w ∈ threads := inv.threads_eq ▸ registered
  replace atMin : state.iteration w = state.minClock := (inv.iteration_eq w).trans atMin
  rw [atMin] at later found
  apply inv.move registered kvs.contribution
  case threads_eq | minClock_eq | storage_eq => rfl
  case exact => exact inv.exact
  case others =>
    intro v other
    exact ⟨rfl, Function.update_of_ne other _ _, rfl, rfl, rfl, rfl⟩
  case iteration_eq => exact inv.iteration_eq w
  case ahead => exact inv.ahead w
  case held =>
    intro ahead
    exact absurd (atMin.symm.trans ahead) (Nat.ne_of_lt (Nat.lt_succ_self _))
  case getBuffer =>
    rw [inv.getBuffer]
    simp [BSPWorkload.waiting, atMin]
  case addBuffer =>
    intro key
    simp [BSPWorkload.addMsg, Message.kvs, SArray.asU32, SArray.asVals]
  case buffered =>
    intro key
    have next : state.sent w + 1 - W.getCount w state.minClock =
        state.sent w - W.getCount w state.minClock + 1 := by omega
    simp [BSPWorkload.buffered, atMin, next, List.take_add_one, found, adding]
  case replies =>
    -- an `Add` that is the first request of its iteration follows no `Get`
    have left := replies_left threads storage later
    simp only [Function.update_self, atMin, left, BSPState.repliesTo, List.filterMap_nil,
      List.filter_nil, List.append_nil]
    simp [answeredBefore]
  case asked => simp [BSPWorkload.waiting, atMin, BSPState.repliesTo]

/-- A `Clock` that leaves the minimum where it is. -/
theorem clock_kept (inv : BSPInv W threads storage events state) (registered : w ∈ threads)
    (done : W.getCount w (state.iteration w) + (W.adds w (state.iteration w)).length ≤ state.sent w)
    {tracker : ProgressTracker} (advanced : state.model.progressTracker.Advanced w none tracker)
    (near : tracker.progresses w ≤ tracker.minClock + 1) :
    BSPInv W threads storage (events ++ []) { state with
      model := { state.model with progressTracker := tracker }
      iteration := Function.update state.iteration w (state.iteration w + 1)
      sent := Function.update state.sent w 0 } := by
  have listed : w ∈ state.model.progressTracker.threads := inv.threads_eq ▸ registered
  have exact := advanced.exact listed inv.exact
  have threads_eq := advanced.threads
  have progresses := advanced.progresses
  have minClock_eq : tracker.minClock = state.minClock := advanced.minClock_of_none
  have atMin : state.iteration w = state.minClock := by
    have above : state.minClock ≤ state.model.progressTracker.progresses w := inv.exact.le w listed
    rw [progresses, Function.update_self, minClock_eq, ← inv.iteration_eq] at near
    rw [← inv.iteration_eq] at above
    omega
  rw [atMin] at done
  apply inv.move registered fun _ => 0
  case threads_eq => exact threads_eq
  case exact => exact exact
  case minClock_eq => exact minClock_eq
  case storage_eq => rfl
  case others =>
    intro v other
    exact ⟨Function.update_of_ne other _ _, Function.update_of_ne other _ _, rfl,
      by rw [progresses, Function.update_of_ne other], rfl, rfl⟩
  case iteration_eq => simp [progresses, inv.iteration_eq]
  case ahead => simp [atMin]
  case held => simp
  case getBuffer =>
    rw [inv.getBuffer]
    simp [BSPWorkload.waiting, atMin]
  case addBuffer => exact fun _ => (add_zero _).symm
  case buffered =>
    intro key
    have all : (W.adds w state.minClock).take (state.sent w - W.getCount w state.minClock) =
        W.adds w state.minClock := List.take_of_length_le (by omega)
    simp [BSPWorkload.buffered, atMin, all]
  case replies =>
    have left := replies_left threads storage (Nat.le_of_add_right_le done)
    simp only [Function.update_self, atMin, left, BSPState.repliesTo, List.filterMap_nil,
      List.filter_nil, List.append_nil]
    simp [answeredBefore]
  case asked => simp [BSPWorkload.waiting, atMin, BSPState.repliesTo]

theorem repliesTo_map (w : Tid) (requests : List (Message Val)) (storage : Storage Val)
    (clocks : ProgressTracker) :
    BSPState.repliesTo w (requests.map fun request => .reply request (storage.replyTo request) clocks) =
      (requests.filter fun msg => msg.sender = w).map storage.replyTo := by
  rw [BSPState.repliesTo, List.filterMap_map]
  change (requests.filterMap (some ∘ storage.replyTo)).filter _ = _
  rw [List.filterMap_eq_map, List.filter_map]
  rfl

/-- The answers that the request of a worker waits for become due with the new minimum. -/
theorem replies_released {storage' : Storage Val} {minClock iteration sent : Nat} {v : Tid}
    (values : ∀ key, storage'.value key = W.valueBefore threads storage (minClock + 1) key)
    (ahead : iteration ≤ minClock + 1) :
    W.repliesBefore threads storage v (answeredBefore minClock iteration sent) ++
        (W.waiting minClock v iteration sent).map storage'.replyTo =
      W.repliesBefore threads storage v (answeredBefore (minClock + 1) iteration sent) := by
  cases Nat.lt_or_eq_of_le ahead with
  | inl early =>
      have before : iteration ≤ minClock := Nat.le_of_lt_succ early
      simp [answeredBefore, BSPWorkload.waiting, before, ahead, Nat.ne_of_lt early]
  | inr late =>
      subst late
      cases sent with
      | zero => simp [answeredBefore, BSPWorkload.waiting]
      | succ sent =>
          simp [answeredBefore, BSPWorkload.waiting, Function.comp_def,
            BSPWorkload.replyTo_getMsg values, BSPWorkload.repliesBefore_succ (minClock + 1)]

/-- A `Clock` that moves the minimum: the last worker has left the iteration. -/
theorem clock_changed (inv : BSPInv W threads storage events state) (registered : w ∈ threads)
    (done : W.getCount w (state.iteration w) + (W.adds w (state.iteration w)).length ≤ state.sent w)
    {tracker : ProgressTracker} {minClock : Nat} {storage' : Storage Val}
    (advanced : state.model.progressTracker.Advanced w (some minClock) tracker)
    (applied : state.model.addBuffer.foldlM Storage.add state.model.storage = .ok storage') :
    BSPInv W threads storage (events ++ state.model.getBuffer.map fun request =>
        .reply request (storage'.replyTo request) tracker) { state with
      model := { state.model with
        progressTracker := tracker, storage := storage', addBuffer := [], getBuffer := [] }
      iteration := Function.update state.iteration w (state.iteration w + 1)
      sent := Function.update state.sent w 0 } := by
  have listed : w ∈ state.model.progressTracker.threads := inv.threads_eq ▸ registered
  have exact := advanced.exact listed inv.exact
  have threads_eq := advanced.threads
  have progresses := advanced.progresses
  obtain ⟨minClock_eq, atMin, above⟩ : tracker.minClock = state.minClock + 1 ∧
      state.iteration w = state.minClock ∧
      ∀ v ∈ threads, v ≠ w → state.iteration v = state.minClock + 1 := by
    cases advanced with
    | moved unique =>
        refine ⟨rfl, (inv.iteration_eq w).trans unique.1, fun v member other => ?_⟩
        have inThreads : v ∈ state.model.progressTracker.threads := inv.threads_eq.symm ▸ member
        have le : state.minClock ≤ state.iteration v := inv.iteration_eq v ▸ inv.exact.le v inThreads
        have ne : state.iteration v ≠ state.minClock := fun same =>
          other (unique.2 v inThreads ((inv.iteration_eq v).symm.trans same))
        have := inv.ahead v
        omega
  rw [atMin] at done
  have all : (W.adds w state.minClock).take (state.sent w - W.getCount w state.minClock) =
      W.adds w state.minClock := List.take_of_length_le (by omega)
  have values : ∀ key, storage'.value key = W.valueBefore threads storage (state.minClock + 1) key := by
    intro key
    rw [Storage.foldlM_add_spec applied, inv.values, inv.addBuffer, BSPWorkload.valueBefore_succ]
    congr 1
    apply Finset.sum_congr rfl
    intro v member
    by_cases same : v = w
    · rw [same, BSPWorkload.buffered, if_pos atMin, all]
    · rw [BSPWorkload.buffered, if_neg (by rw [above v (List.mem_toFinset.mp member) same]; omega)]
  -- nobody waits at the new minimum
  have idle : ∀ v, W.waiting (state.minClock + 1) v
      (Function.update state.iteration w (state.iteration w + 1) v)
      (Function.update state.sent w 0 v) = [] := by
    intro v
    apply if_neg
    by_cases same : v = w
    · simp [same]
    · have := inv.ahead v
      rw [Function.update_of_ne same]
      omega
  have answers : ∀ v, BSPState.repliesTo v (state.model.getBuffer.map fun request =>
      .reply request (storage'.replyTo request) tracker) =
      (W.waiting state.minClock v (state.iteration v) (state.sent v)).map storage'.replyTo := by
    intro v
    rw [repliesTo_map, inv.getBuffer]
  refine ⟨threads_eq.trans inv.threads_eq, exact, fun v => ?_, fun v => ?_, fun v => ?_, fun v => ?_,
    fun key => ?_, fun key => ?_, fun v => ?_, fun v => ?_⟩
  · by_cases same : v = w
    · simp [same, progresses, inv.iteration_eq]
    · simp [Function.update_of_ne same, progresses, inv.iteration_eq]
  · change Function.update state.iteration w _ v ≤ tracker.minClock + 1
    rw [minClock_eq]
    by_cases same : v = w
    · simp [same, atMin]
    · have := inv.ahead v
      rw [Function.update_of_ne same]
      omega
  · change Function.update state.iteration w _ v = tracker.minClock + 1 → _
    rw [minClock_eq]
    by_cases same : v = w
    · simp [same]
    · intro late
      have := inv.ahead v
      rw [Function.update_of_ne same] at late
      omega
  · change [] = W.waiting tracker.minClock v _ _
    rw [minClock_eq]
    exact (idle v).symm
  · change 0 = ∑ v ∈ threads.toFinset, W.buffered tracker.minClock key v _ _
    rw [minClock_eq]
    symm
    apply Finset.sum_eq_zero
    intro v member
    by_cases same : v = w
    · simp [same, BSPWorkload.buffered, atMin, adding]
    · have late := above v (List.mem_toFinset.mp member) same
      have little := inv.held v late
      rw [late] at little
      simp [Function.update_of_ne same, BSPWorkload.buffered, late, Nat.sub_eq_zero_of_le little, adding]
  · change storage'.value key = W.valueBefore threads storage tracker.minClock key
    rw [minClock_eq]
    exact values key
  · change _ = W.repliesBefore threads storage v (answeredBefore tracker.minClock _ _)
    rw [minClock_eq, BSPState.repliesTo_append, inv.replies, answers]
    by_cases same : v = w
    · have left := replies_left threads storage (Nat.le_of_add_right_le done)
      rw [same, atMin, left]
      simp [BSPWorkload.waiting, answeredBefore]
    · simp only [Function.update_of_ne same]
      exact replies_released values (inv.ahead v)
  · change state.asked v = _ + (W.waiting tracker.minClock v _ _).length
    rw [minClock_eq, idle, BSPState.repliesTo_append, List.length_append, answers, List.length_map,
      inv.asked]
    rfl

theorem step (inv : BSPInv W threads storage events state)
    (stepped : state.step W w = .ok (state', out)) :
    BSPInv W threads storage (events ++ out) state' := by
  unfold BSPState.step at stepped
  have request := W.next w (state.iteration w) (state.sent w)
  generalize (W.requests w (state.iteration w))[state.sent w]? = next at request stepped
  cases request with
  | get reads first =>
      obtain ⟨⟨model', events'⟩, got, stepped⟩ := Except.bind_eq_ok.mp stepped
      cases stepped
      exact inv.get reads first got
  | add later found =>
      obtain ⟨⟨model', events'⟩, added, stepped⟩ := Except.bind_eq_ok.mp stepped
      cases stepped
      exact inv.add later found added
  | clock done =>
      obtain ⟨⟨model', events'⟩, clocked, stepped⟩ := Except.bind_eq_ok.mp stepped
      cases stepped
      obtain ⟨registered, clocked⟩ := BSPModel.clock_cases clocked
      replace registered : w ∈ threads := inv.threads_eq ▸ registered
      cases clocked with
      | kept advanced near => exact inv.clock_kept registered done advanced near
      | changed advanced applied => exact inv.clock_changed registered done advanced applied

/-- A worker that may send has no `Get` waiting. -/
theorem nothing_waits (inv : BSPInv W threads storage events state) (may : state.MaySend events w) :
    W.waiting state.minClock w (state.iteration w) (state.sent w) = [] := by
  have counts := inv.asked w
  have answered := may.2
  exact List.eq_nil_of_length_eq_zero (by omega)

end BSPInv

/-- The three progress checks of the model. -/
def ProgressCheck (c : Check) : Prop := c = .bspClock ∨ c = .bspAdd ∨ c = .bspGet

variable (W) in
/-- The worker is in the iteration of the minimum, or has a `Get` in its iteration. -/
def BSPState.Paced (state : BSPState Val) (w : Tid) : Prop :=
  state.iteration w ≤ state.minClock ∨ (W.gets w (state.iteration w)).isSome

namespace BSPInv

variable {storage : Storage Val} {events out : List (Event Val)} {state state' : BSPState Val}
  {w : Tid} {e : Fault}

/-- A worker ahead of the minimum that may send more than its `Get` has none. -/
theorem not_paced (inv : BSPInv W threads storage events state) (may : state.MaySend events w)
    (other : state.model.progressTracker.progresses w ≠ state.model.progressTracker.minClock)
    (later : W.getCount w (state.iteration w) ≤ state.sent w) : ¬ state.Paced W w := by
  have above : state.minClock ≤ state.iteration w := inv.iteration_eq w ▸ inv.exact.le w may.1
  have near := inv.ahead w
  have apart : state.iteration w ≠ state.minClock := fun same => other (inv.iteration_eq w ▸ same)
  have waits := inv.nothing_waits may
  rintro (behind | reads)
  · omega
  · obtain ⟨keys, reads⟩ := Option.isSome_iff_exists.mp reads
    rw [BSPWorkload.getCount_of_some reads] at later
    have late : state.iteration w = state.minClock + 1 := by omega
    rw [BSPWorkload.waiting, if_pos ⟨late, later⟩, reads] at waits
    cases waits

/-- Why a worker that may send brings the server to a stop. -/
theorem step_error (inv : BSPInv W threads storage events state) (may : state.MaySend events w)
    (failed : state.step W w = .error e) :
    e = .overflow ∨ (∃ c, Storage.StorageCheck c ∧ e = .check c) ∧
        (state.Paced W w) ∨
      (∃ c, ProgressCheck c ∧ e = .check c) ∧ ¬ state.Paced W w := by
  have registered := may.1
  unfold BSPState.step at failed
  have request := W.next w (state.iteration w) (state.sent w)
  generalize (W.requests w (state.iteration w))[state.sent w]? = next at request failed
  cases request with
  | get reads first =>
      obtain failed | ⟨_, -, failed⟩ := Except.bind_eq_error.mp failed
      · obtain stored | ⟨-, notMin, notNext⟩ := BSPModel.get_error registered failed
        · exact .inr (.inl ⟨stored, .inr (Option.isSome_of_eq_some reads)⟩)
        · have above := inv.exact.le w registered
          have near := inv.ahead w
          rw [inv.iteration_eq] at near
          change _ ≤ state.model.progressTracker.minClock + 1 at near
          change state.model.progressTracker.progresses w ≠ _ at notMin notNext
          omega
      · cases failed
  | add later found =>
      obtain failed | ⟨_, -, failed⟩ := Except.bind_eq_error.mp failed
      · obtain ⟨rfl, other⟩ := BSPModel.add_error registered failed
        exact .inr (.inr ⟨⟨_, .inr (.inl rfl), rfl⟩, inv.not_paced may other later⟩)
      · cases failed
  | clock done =>
      obtain failed | ⟨_, -, failed⟩ := Except.bind_eq_error.mp failed
      · obtain overflow | ⟨stored, holds⟩ | ⟨rfl, other⟩ := BSPModel.clock_error registered failed
        · exact .inl overflow
        · exact .inr (.inl ⟨stored, .inl (inv.iteration_eq w ▸ Nat.le_of_eq holds)⟩)
        · exact .inr (.inr ⟨⟨_, .inl rfl, rfl⟩,
            inv.not_paced may other (Nat.le_of_add_right_le done)⟩)
      · cases failed

/-- The server takes no `Add` and no `Clock` of a worker ahead of the minimum. -/
theorem paced (inv : BSPInv W threads storage events state)
    (stepped : state.step W w = .ok (state', out)) : state.Paced W w := by
  unfold BSPState.step at stepped
  have request := W.next w (state.iteration w) (state.sent w)
  generalize (W.requests w (state.iteration w))[state.sent w]? = next at request stepped
  cases request with
  | get reads first => exact .inr (Option.isSome_of_eq_some reads)
  | add later found =>
      obtain ⟨⟨model', events'⟩, added, -⟩ := Except.bind_eq_ok.mp stepped
      obtain ⟨-, holds, -⟩ := BSPModel.add_cases added
      exact .inl (inv.iteration_eq w ▸ Nat.le_of_eq holds)
  | clock done =>
      obtain ⟨⟨model', events'⟩, clocked, -⟩ := Except.bind_eq_ok.mp stepped
      obtain ⟨-, clocked⟩ := BSPModel.clock_cases clocked
      left
      rw [inv.iteration_eq]
      cases clocked with
      | changed advanced _ => exact Nat.le_of_eq advanced.minClock_of_some.2.2.1
      | kept advanced near =>
          rw [advanced.progresses, advanced.minClock_of_none, Function.update_self] at near
          exact Nat.le_of_succ_le_succ near

theorem run {modelId : UInt32} {tids ws : List Tid} (run : Machine.Runs (BSPState.step W)
      BSPState.MaySend (.start modelId storage tids) ws state events) :
    BSPInv W tids.dedup storage events state := by
  refine run.invariant (P := fun _ state events => BSPInv W tids.dedup storage events state)
    (.start modelId storage tids) ?_
  intro _ _ _ _ _ _ _ inv _ stepped
  exact inv.step stepped

end BSPInv

/-- A server stops at a progress check exactly when a worker that is ahead of the minimum
    goes on without a `Get`. -/
theorem aborts_unless_paced {modelId : UInt32} {storage : Storage Val} {tids ws : List Tid}
    {state : BSPState Val} {events : List (Event Val)}
    (run : Machine.Runs (BSPState.step W) BSPState.MaySend (.start modelId storage tids) ws state events)
    {w : Tid} (may : state.MaySend events w) :
    (state.Paced W w → ∀ c, ProgressCheck c → ∀ e, state.step W w = .error e → e ≠ .check c) ∧
      (¬ state.Paced W w → ∃ e, state.step W w = .error e ∧
        (e = .overflow ∨ ∃ c, ProgressCheck c ∧ e = .check c)) := by
  have inv := BSPInv.run run
  constructor
  · rintro paced c progress e failed rfl
    obtain overflow | ⟨⟨c', stored, same⟩, -⟩ | ⟨-, unpaced⟩ := inv.step_error may failed
    · cases overflow
    · cases same
      rcases progress with rfl | rfl | rfl <;> simp [Storage.StorageCheck] at stored
    · exact unpaced paced
  · intro unpaced
    cases stepped : state.step W w with
    | ok result => exact absurd (inv.paced stepped) unpaced
    | error e =>
        refine ⟨e, rfl, ?_⟩
        obtain overflow | ⟨-, paced⟩ | ⟨progress, -⟩ := inv.step_error may stepped
        · exact .inl overflow
        · exact absurd paced unpaced
        · exact .inr progress

omit [AddCommMonoid Val] in
theorem BSPWorkload.length_repliesBefore [AddCommMonoid Val] (reading : ∀ w i, (W.gets w i).isSome)
    (storage : Storage Val) (w : Tid) (iteration : Nat) :
    (W.repliesBefore threads storage w iteration).length = iteration := by
  induction iteration with
  | zero => rfl
  | succ iteration ih =>
      obtain ⟨keys, reads⟩ := Option.isSome_iff_exists.mp (reading w iteration)
      simp [BSPWorkload.repliesBefore_succ, ih, reads]

theorem BSPWorkload.repliesBefore_prefix {storage : Storage Val} {w : Tid} {earlier later : Nat}
    (le : earlier ≤ later) :
    W.repliesBefore threads storage w earlier <+: W.repliesBefore threads storage w later := by
  induction le with
  | refl => exact List.prefix_rfl
  | step _ ih =>
      rw [BSPWorkload.repliesBefore_succ]
      exact ih.trans (List.prefix_append _ _)

/-- Workers that read in every iteration: no check of the model fails, every `Get` received
    has been answered once or waits for the minimum to reach its iteration, and the `n`-th
    answer to a worker is that of its `n`-th iteration, whatever the interleaving. -/
theorem replies_independent_of_schedule (reading : ∀ w i, (W.gets w i).isSome) {modelId : UInt32}
    {storage : Storage Val} {tids ws : List Tid} {state : BSPState Val} {events : List (Event Val)}
    (run : Machine.Runs (BSPState.step W) BSPState.MaySend (.start modelId storage tids) ws state events) :
    (∀ w e, state.MaySend events w → state.step W w = .error e →
        e = .overflow ∨ ∃ c, Storage.StorageCheck c ∧ e = .check c) ∧
      (∀ w, BSPState.repliesTo w events = W.repliesBefore tids.dedup storage w
        (BSPState.repliesTo w events).length) ∧
      (∀ w, state.asked w = (BSPState.repliesTo w events).length +
        (state.model.getBuffer.filter fun msg => msg.sender = w).length) ∧
      (∀ msg ∈ state.model.getBuffer, state.iteration msg.sender = state.minClock + 1 ∧
        (state.model.getBuffer.filter fun other => other.sender = msg.sender) = [msg]) ∧
      ∀ ws' state' events', Machine.Runs (BSPState.step W) BSPState.MaySend
          (.start modelId storage tids) ws' state' events' →
        ∀ w, BSPState.repliesTo w events <+: BSPState.repliesTo w events' ∨
          BSPState.repliesTo w events' <+: BSPState.repliesTo w events := by
  have inv := BSPInv.run run
  refine ⟨fun w e may failed => ?_, fun w => ?_, fun w => ?_, fun msg member => ?_,
    fun ws' state' events' run' w => ?_⟩
  · obtain overflow | ⟨stored, -⟩ | ⟨-, unpaced⟩ := inv.step_error may failed
    · exact .inl overflow
    · exact .inr stored
    · exact absurd (.inr (reading w _)) unpaced
  · rw [inv.replies, BSPWorkload.length_repliesBefore reading]
  · rw [inv.getBuffer]
    exact inv.asked w
  · have waits := inv.getBuffer msg.sender
    have present : msg ∈ state.model.getBuffer.filter (fun other => other.sender = msg.sender) := by
      simp [member]
    rw [waits] at present ⊢
    unfold BSPWorkload.waiting at present ⊢
    split at present
    · next late =>
        rw [if_pos late]
        obtain ⟨keys, reads⟩ := Option.isSome_iff_exists.mp (reading msg.sender (state.iteration msg.sender))
        rw [reads] at present ⊢
        rw [Option.toList_some, List.map_singleton, List.mem_singleton] at present
        exact ⟨late.1, congrArg (· :: []) present.symm⟩
    · cases present
  · rw [inv.replies, (BSPInv.run run').replies]
    cases Nat.le_total (answeredBefore state.minClock (state.iteration w) (state.sent w))
        (answeredBefore state'.minClock (state'.iteration w) (state'.sent w)) with
    | inl le => exact .inl (BSPWorkload.repliesBefore_prefix le)
    | inr le => exact .inr (BSPWorkload.repliesBefore_prefix le)

end Invariant

/-! ## Two workers -/

/-- Both workers read key 7 and add 1 to it in every iteration. -/
def BSPWorkload.sharedKey : BSPWorkload Int :=
  { server := 0, modelId := 0, gets := fun _ _ => some [7], adds := fun _ _ => [⟨[7], [1]⟩] }

/-- Worker 1 reads in its second iteration before worker 2 has finished its first, and
    then sees the `Add`s of both first iterations. -/
theorem replies_independent_of_schedule_sharedKey :
    ∃ (state : BSPState Int) (events : List (Event Int)),
      state.asked 1 = 2 ∧ (BSPState.repliesTo 1 events).length = 2 ∧
      BSPState.repliesTo 1 events = BSPWorkload.sharedKey.repliesBefore [1, 2] (.map fun _ => 0) 1 2 := by
  obtain ⟨state, events, run, asked, two⟩ := Machine.runs_of_exec (BSPState.step BSPWorkload.sharedKey)
    BSPState.MaySend (.start 0 (.map fun _ => 0) [1, 2]) [1, 1, 1, 1, 2, 2, 2]
    (fun state events => state.asked 1 = 2 ∧ (BSPState.repliesTo 1 events).length = 2)
    (by decide +kernel)
  obtain ⟨-, replies, -⟩ := replies_independent_of_schedule (fun _ _ => rfl) run
  refine ⟨state, events, asked, two, ?_⟩
  rw [replies, two]
  rfl

/-- Workers that only send `Clock`s. -/
def BSPWorkload.clocksOnly : BSPWorkload Int :=
  { server := 0, modelId := 0, gets := fun _ _ => none, adds := fun _ _ => [] }

theorem aborts_unless_paced_clocksOnly :
    ∃ (state : BSPState Int), state.Paced BSPWorkload.clocksOnly 1 ∧
      ∀ e, state.step BSPWorkload.clocksOnly 1 = .error e → e ≠ .check .bspClock := by
  obtain ⟨state, events, run, may, here⟩ := Machine.runs_of_exec
    (BSPState.step BSPWorkload.clocksOnly) BSPState.MaySend (.start 0 (.map fun _ => 0) [1, 2]) [1, 2]
    (fun (state : BSPState Int) events => state.MaySend events 1 ∧ state.iteration 1 ≤ state.minClock)
    (by decide +kernel)
  obtain ⟨fine, -⟩ := aborts_unless_paced run may
  exact ⟨state, .inl here, fine (.inl here) .bspClock (.inl rfl)⟩

/-- Worker 1 sends `Clock` twice while worker 2 has sent nothing. -/
theorem progress_checks_fail : ¬ ∀ (W : BSPWorkload Int) (tids ws : List Tid) (state : BSPState Int)
    (events : List (Event Int)),
    Machine.Runs (BSPState.step W) BSPState.MaySend (.start 0 (.map fun _ => 0) tids) ws state events →
    ∀ w, state.MaySend events w → ∀ c, ProgressCheck c →
      ∀ e, state.step W w = .error e → e ≠ .check c := by
  intro never
  obtain ⟨state, events, run, may, fails⟩ := Machine.runs_of_exec
    (BSPState.step BSPWorkload.clocksOnly) BSPState.MaySend (.start 0 (.map fun _ => 0) [1, 2]) [1]
    (fun (state : BSPState Int) events => state.MaySend events 1 ∧
      (match state.step BSPWorkload.clocksOnly 1 with
        | .error e => decide (e = .check .bspClock)
        | .ok _ => false) = true)
    (by decide +kernel)
  split at fails
  · next e failed =>
      exact never _ _ _ _ _ run 1 may .bspClock (.inl rfl) e failed (of_decide_eq_true fails)
  · cases fails

end FlexPS
