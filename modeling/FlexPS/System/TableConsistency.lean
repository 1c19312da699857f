import FlexPS.Server.ASP.Model
import FlexPS.Server.BSP.Histories
import FlexPS.Server.SSP.Histories
import FlexPS.System.TableAnswers

/-! # What a `Get` of a table returns

Whatever the order in which clients, links and servers take their steps, a `Get` returns the start
of the storages with the `Add`s of a beginning of every program, one beginning for each server. The
models differ in what they promise about the beginnings: ASP only that the worker sees itself, SSP
that nobody is more than `staleness` clocks behind, and BSP which beginning it is.
-/

namespace FlexPS

variable {Val : Type}

/-! ## Programs -/

namespace ClientCall

def isClock : ClientCall Val → Bool
  | .clock => true
  | .get _ | .add _ => false

/-- What a call adds to a key. -/
def contribution [AddCommMonoid Val] (key : Key) : ClientCall Val → Val
  | .add kvs => kvs.contribution key
  | .get _ | .clock => 0

end ClientCall

def clocksIn (calls : List (ClientCall Val)) : Nat := calls.countP ClientCall.isClock

/-- What a part of a program adds to a key. -/
def addedIn [AddCommMonoid Val] (calls : List (ClientCall Val)) (key : Key) : Val :=
  (calls.map (ClientCall.contribution key)).sum

section Calls

variable {calls : List (ClientCall Val)} {keys : List Key} {call : Nat}

theorem clocksIn_take_get (next : calls[call]? = some (.get keys)) :
    clocksIn (calls.take (call + 1)) = clocksIn (calls.take call) := by
  rw [clocksIn, List.take_add_one, next, List.countP_append]
  rfl

theorem addedIn_take_get [AddCommMonoid Val] (next : calls[call]? = some (.get keys)) (key : Key) :
    addedIn (calls.take (call + 1)) key = addedIn (calls.take call) key := by
  simp [addedIn, List.take_add_one, next, ClientCall.contribution]

end Calls

/-! ## Programs and streams -/

namespace TableJob

variable {Model : Type} {job : TableJob Val Model} {server u : Tid} {range : Range} {key : Key}

theorem any_request (call : ClientCall Val) :
    (job.request server u call).any Message.isClock = call.isClock := by
  cases call with
  | get keys =>
      rw [request]
      split
      · rfl
      · rfl
  | add kvs =>
      rw [request]
      split
      · rfl
      · rfl
  | clock => rfl

theorem countP_stream (k : Nat) :
    (job.stream server u k).countP Message.isClock = clocksIn ((job.program u).take k) :=
  Marks.countP_filterMap any_request

/-- The call at this place of a worker's program is an `Add` to the key. -/
def AddsTo (job : TableJob Val Model) (key : Key) (place : Tid × Nat) : Prop :=
  ∃ kvs, (job.program place.1)[place.2]? = some (.add kvs) ∧ key ∈ kvs.keys

/-- What the call at this place of a worker's program adds to the key. -/
def addedAt [AddCommMonoid Val] (job : TableJob Val Model) (key : Key) (place : Tid × Nat) : Val :=
  (((job.program place.1)[place.2]?).map (ClientCall.contribution key)).getD 0

theorem addedIn_eq_sum [AddCommMonoid Val] (key : Key) (n : Nat) :
    addedIn ((job.program u).take n) key = ∑ i ∈ Finset.range n, job.addedAt key (u, i) := by
  induction n with
  | zero => rfl
  | succ n ih =>
      rw [Finset.sum_range_succ, ← ih, addedAt, addedIn, addedIn, List.take_add_one, List.map_append,
        List.sum_append]
      cases (job.program u)[n]? with
      | none => simp
      | some call => simp

theorem addsTo_of_ne_zero [AddCommMonoid Val] {place : Tid × Nat} (some : job.addedAt key place ≠ 0) :
    job.AddsTo key place := by
  unfold addedAt at some
  cases next : (job.program place.1)[place.2]? with
  | none =>
      rw [next] at some
      exact absurd rfl some
  | some call =>
      rw [next] at some
      cases call with
      | get _ => exact absurd rfl some
      | clock => exact absurd rfl some
      | add kvs =>
          refine ⟨kvs, next, ?_⟩
          by_contra absent
          refine some (KVPairs.contribution_of_absent ?_)
          exact absent

theorem range_of_asked (sortedKeys : job.SortedKeys) {keys : List Key} {w : Tid} (called : .get keys ∈ job.program w)
    (inAsked : key ∈ job.asked server keys) :
    ∃ range, (range, server) ∈ job.manager.ranges.zip job.servers ∧ range.Owns key := by
  obtain ⟨sorted, -⟩ := sortedKeys.get w keys called
  have inServers := SimpleRangePartitionManager.mem_of_part sortedKeys.sound.apart
    (List.ne_nil_of_mem inAsked)
  obtain ⟨range, inZip⟩ := SimpleRangePartitionManager.range_of_server inServers
  have part : job.manager.part (⟨keys, []⟩ : KVPairs Val) server = KVPairs.part 0 ⟨keys, []⟩ range :=
    SimpleRangePartitionManager.part_eq sortedKeys.sound (.inl sorted) (Nat.zero_mul _).symm inZip
  rw [asked, part, KVPairs.part_keys] at inAsked
  exact ⟨range, inZip, of_decide_eq_true (List.mem_filter.mp inAsked).2⟩

variable [AddCommMonoid Val]

theorem addedBy_request (sortedKeys : job.SortedKeys)
    (inZip : (range, server) ∈ job.manager.ranges.zip job.servers)
    (owned : range.Owns key) {call : ClientCall Val} (made : call ∈ job.program u) :
    addedBy (job.request server u call).toList key = call.contribution key := by
  cases call with
  | get keys =>
      rw [request]
      split
      · rfl
      · rfl
  | add kvs =>
      obtain ⟨sorted, sized⟩ := sortedKeys.add u kvs made
      have all := SimpleRangePartitionManager.contribution_part sortedKeys.sound sorted sized inZip owned
      rw [request, ClientCall.contribution, ← all]
      split
      next none => simp [KVPairs.contribution, none, addedBy, ofFlag]
      next => simp [addedBy, ofFlag, addMsg, Message.kvs, SArray.asU32, SArray.asVals]
  | clock => rfl

/-- The owner of a key is sent all that is added to it. -/
theorem addedBy_requests (sortedKeys : job.SortedKeys)
    (inZip : (range, server) ∈ job.manager.ranges.zip job.servers)
    (owned : range.Owns key) {calls : List (ClientCall Val)} (made : ∀ call ∈ calls, call ∈ job.program u) :
    addedBy (calls.filterMap (job.request server u)) key = addedIn calls key := by
  induction calls with
  | nil => rfl
  | cons call rest ih =>
      obtain ⟨first, later⟩ := List.forall_mem_cons.mp made
      have split : (call :: rest).filterMap (job.request server u) =
          (job.request server u call).toList ++ rest.filterMap (job.request server u) := by
        rw [List.filterMap_cons]
        cases job.request server u call with
        | none => rfl
        | some msg => rfl
      rw [split, addedBy_append, ih later, addedBy_request sortedKeys inZip owned first, addedIn, addedIn,
        List.map_cons, List.sum_cons]

end TableJob

/-! ## What the servers had taken -/

namespace TableSystem

variable {Model : Type} [AddCommMonoid Val] [AbstractModel Val Model] {job : TableJob Val Model}
  {storage : Model → Storage Val} {state : TableSystem job} {events : List (TableEvent Val)}
  {inputs : List TableInput} {w : Tid} {call : Nat} {vals : List Val}

variable (storage) in
/-- The state from which a server has answered a `Get`. -/
def Source (state : TableSystem job) (w : Tid) (call : Nat) (keys : List Key) (server : Tid)
    (taken : List (Message Val)) (model : Model) : Prop :=
  ∃ reply events, job.Answers storage state.calls server w call keys reply taken model events

/-- What is known of the states that servers answer from is known of what a worker gets. -/
theorem gotten_from {α : Type} [Inhabited α] (Known : Tid → α → Prop) (value : Tid → α → Key → Val)
    (sortedKeys : job.SortedKeys)
    (answers : ∀ server ∈ job.servers, AnswersGets (job.start server) job.workers storage)
    (run : Run job inputs state events) (got : .gotten w call vals ∈ events)
    (known : w ∈ job.workers → ∀ keys, (job.program w)[call]? = some (.get keys) →
      ∀ server ∈ job.owners keys, ∀ taken model, Source storage state w call keys server taken model →
      ∃ a, Known server a ∧ ∀ range, (range, server) ∈ job.manager.ranges.zip job.servers →
        ∀ key, range.Owns key → (storage model).value key = value server a key) :
    ∃ keys, (job.program w)[call]? = some (.get keys) ∧ vals.length = keys.length ∧
      ∃ a : Tid → α, ∀ key val, (key, val) ∈ keys.zip vals → ∃ range server,
        (range, server) ∈ job.manager.ranges.zip job.servers ∧ range.Owns key ∧
          Known server (a server) ∧ val = value server (a server) key := by
  obtain ⟨member, keys, replies, called, each, sized, zipped⟩ := gotten_run sortedKeys answers run got
  refine ⟨keys, called, sized, ?_⟩
  have inProgram := List.mem_of_getElem? called
  have sources : List.Forall₂ (fun server reply => ∃ a, Known server a ∧
      ∀ key val, (key, val) ∈ reply.kvs.keys.zip reply.kvs.vals → ∃ range,
        (range, server) ∈ job.manager.ranges.zip job.servers ∧ range.Owns key ∧
          val = value server a key) (job.owners keys) replies := by
    refine ((List.forall₂_and_left _ _).mpr ⟨fun _ owner => owner, each⟩).imp ?_
    rintro server reply ⟨owner, taken, model, out, answers⟩
    obtain ⟨a, holds, values⟩ := known member keys called server owner taken model ⟨reply, out, answers⟩
    refine ⟨a, holds, fun key val inReply => ?_⟩
    have reply_eq : reply.kvs.keys.zip reply.kvs.vals =
        (job.asked server keys).map fun key => (key, (storage model).value key) := by
      have zipped := List.zip_map' (f := id) (l := job.asked server keys) (g := (storage model).value)
      rw [List.map_id] at zipped
      rw [answers.reply_eq]
      exact zipped
    rw [reply_eq] at inReply
    obtain ⟨key', inAsked, same⟩ := List.mem_map.mp inReply
    cases same
    obtain ⟨range, inZip, owned⟩ := TableJob.range_of_asked sortedKeys inProgram inAsked
    exact ⟨range, inZip, owned, values range inZip key owned⟩
  obtain ⟨a, assigned⟩ := Gather.assign (sortedKeys.sound.apart.sublist List.filter_sublist) sources
  refine ⟨a, fun key val inZip => ?_⟩
  rw [zipped] at inZip
  obtain ⟨reply, inReplies, inReply⟩ := List.mem_flatMap.mp inZip
  obtain ⟨server, -, holds, values⟩ := Gather.item_of_mem assigned.flip inReplies
  obtain ⟨range, inRanges, owned, val_eq⟩ := values key val inReply
  exact ⟨range, server, inRanges, owned, holds, val_eq⟩

/-! ### How much of every program they had taken -/

variable (job) in
/-- What the first `seen u` calls of every worker `u` add to a key. -/
def added (seen : Tid → Nat) (key : Key) : Val :=
  ∑ u ∈ job.workers.toFinset, addedIn ((job.program u).take (seen u)) key

omit [AbstractModel Val Model] in
/-- What is added by beginnings of the programs is added by the set of `Add`s in them. -/
theorem added_eq_sum (seen : Tid → Nat) (key : Key) : ∃ counted : Finset (Tid × Nat),
    (∀ place, place ∈ counted ↔ place.1 ∈ job.workers ∧ place.2 < seen place.1 ∧ job.AddsTo key place) ∧
    added job seen key = ∑ place ∈ counted, job.addedAt key place := by
  classical
  let places (u : Tid) : Finset Nat := (Finset.range (seen u)).filter fun i => job.AddsTo key (u, i)
  let counted : Finset (Tid × Nat) :=
    (job.workers.toFinset.sigma places).map (Equiv.sigmaEquivProd Tid Nat).toEmbedding
  have mem_counted : ∀ place, place ∈ counted ↔ place.1 ∈ job.workers.toFinset ∧ place.2 ∈ places place.1 := by
    intro place
    simp [counted, Finset.mem_map_equiv]
  refine ⟨counted, fun place => ?_, ?_⟩
  · rw [mem_counted, List.mem_toFinset, Finset.mem_filter, Finset.mem_range]
  · rw [Finset.sum_finset_product counted job.workers.toFinset places mem_counted, added]
    refine Finset.sum_congr rfl fun u _ => ?_
    rw [TableJob.addedIn_eq_sum, Finset.sum_filter_of_ne]
    exact fun i _ some => TableJob.addsTo_of_ne_zero some

omit [AddCommMonoid Val] [AbstractModel Val Model] in
/-- The last call of the worker that a server has taken is the `Get` itself. -/
theorem stream_of_owner {server : Tid} {keys : List Key} (owner : server ∈ job.owners keys)
    (called : (job.program w)[call]? = some (.get keys)) :
    job.stream server w (call + 1) =
      job.stream server w call ++ [job.getMsg server w (job.asked server keys)] := by
  rw [TableJob.stream_succ called, TableJob.request, if_neg (TableJob.mem_owners.mp owner).2]
  rfl

/-- A server answers from a state in which the `Get` is the last it has taken of the worker, and
    all `Get`s of the worker are answered. -/
theorem last_of_answers {server : Tid} {keys : List Key} (owner : server ∈ job.owners keys)
    (called : (job.program w)[call]? = some (.get keys)) {reply : Message Val} {taken : List (Message Val)}
    {model : Model} {out : List (Event Val)}
    (answers : job.Answers storage state.calls server w call keys reply taken model out) :
    (sentBy w taken).getLast? = some (job.getMsg server w (job.asked server keys)) ∧
      (ofFlag .kGet (sentBy w taken)).length ≤ (sentBy w (out.filterMap Event.answered)).length := by
  rw [answers.all, answers.own]
  refine ⟨?_, Nat.le_refl _⟩
  rw [stream_of_owner owner called, List.getLast?_concat]

/-- A server answers from a beginning of every program; of the worker's own, all before the `Get`. -/
structure Saw (state : TableSystem job) (w : Tid) (call : Nat) (server : Tid)
    (taken : List (Message Val)) (seen : Tid → Nat) : Prop where
  own : seen w = call
  made : ∀ u ∈ job.workers, seen u ≤ state.calls u
  clocks : ∀ u ∈ job.workers, clocksBy u taken = clocksIn ((job.program u).take (seen u))
  adds : ∀ range, (range, server) ∈ job.manager.ranges.zip job.servers → ∀ key, range.Owns key →
    ∀ u ∈ job.workers, addedBy (sentBy u taken) key = addedIn ((job.program u).take (seen u)) key

theorem saw_of_source (sortedKeys : job.SortedKeys) {server : Tid} {keys : List Key} (member : w ∈ job.workers)
    (owner : server ∈ job.owners keys) (called : (job.program w)[call]? = some (.get keys))
    {taken : List (Message Val)} {model : Model}
    (source : Source storage state w call keys server taken model) :
    ∃ seen, Saw state w call server taken seen := by
  obtain ⟨reply, out, answers⟩ := source
  choose! k made taken_eq using answers.others
  have last := stream_of_owner owner called
  have before : call < k w := by
    by_contra few
    have shorter : (job.stream server w (k w)).length ≤ (job.stream server w call).length :=
      (TableJob.stream_mono (Nat.le_of_not_lt few)).length_le
    rw [← taken_eq w member, answers.own, last, List.length_append, List.length_singleton] at shorter
    omega
  have clocks : ∀ u ∈ job.workers, clocksBy u taken = clocksIn ((job.program u).take (k u)) := by
    intro u memberU
    rw [clocksBy, taken_eq u memberU, TableJob.countP_stream]
  have ownClocks : clocksBy w taken = clocksIn ((job.program w).take call) := by
    rw [clocksBy, answers.own, TableJob.countP_stream, clocksIn_take_get called]
  have adds : ∀ range, (range, server) ∈ job.manager.ranges.zip job.servers → ∀ key, range.Owns key →
      ∀ u n, addedBy (job.stream server u n) key = addedIn ((job.program u).take n) key :=
    fun range inZip key owned u n =>
      TableJob.addedBy_requests sortedKeys inZip owned fun _ inTake => List.mem_of_mem_take inTake
  refine ⟨Function.update k w call, Function.update_self .., fun u memberU => ?_, fun u memberU => ?_,
    fun range inZip key owned u memberU => ?_⟩
  · by_cases same : u = w
    · have := made w member
      rw [same, Function.update_self]
      omega
    · rw [Function.update_of_ne same]
      exact made u memberU
  · by_cases same : u = w
    · rw [same, Function.update_self]
      exact ownClocks
    · rw [Function.update_of_ne same]
      exact clocks u memberU
  · by_cases same : u = w
    · rw [same, Function.update_self, answers.own, adds range inZip key owned, addedIn_take_get called]
    · rw [Function.update_of_ne same, taken_eq u memberU, adds range inZip key owned]

/-- The value of a key at a server that applies every `Add` when it takes it. -/
theorem value_of_saw {server : Tid} {start model : Model} {taken : List (Message Val)}
    {out : List (Event Val)} {initial value : Val} {seen : Tid → Nat}
    (serverRun : ModelRun start job.workers taken model out) (saw : Saw state w call server taken seen)
    {range : Range} (inZip : (range, server) ∈ job.manager.ranges.zip job.servers) {key : Key}
    (owned : range.Owns key) (holds : value = initial + addedBy taken key) :
    value = initial + added job seen key := by
  rw [holds, addedBy_eq_sum fun msg inTaken => (ofWorkers_of_run serverRun msg inTaken).1]
  exact congrArg (initial + ·) (Finset.sum_congr rfl fun u memberU =>
    saw.adds range inZip key owned u (List.mem_toFinset.mp memberU))

end TableSystem

/-! ## The three models -/

def TableJob.twoRanges : SimpleRangePartitionManager := ⟨[⟨0, 6⟩, ⟨6, 12⟩], [0, 1], rfl⟩

/-- Two servers and two workers, which add to a key on either, clock and read. -/
def TableJob.twoServers {Model : Type} (start : Model) : TableJob Int Model :=
  { manager := twoRanges
    modelId := 0
    workers := [8, 9]
    program := fun _ => [.add ⟨[2, 7], [1, 1]⟩, .clock, .get [2, 7]]
    start := fun _ => start }

theorem TableJob.twoServers_valid {Model : Type} (start : Model) : (TableJob.twoServers start).Valid where
  sound := ⟨List.cons_ne_nil _ _, (by decide : twoRanges.Contiguous),
    (by decide : twoRanges.serverThreadIds.Nodup)⟩
  get _ keys called := by
    obtain rfl : keys = [2, 7] := by simpa [TableJob.twoServers] using called
    refine ⟨List.cons_ne_nil _ _, by decide, ?_⟩
    exact (by decide : ∀ key ∈ ([2, 7] : List Key), twoRanges.span.Owns key)
  add _ kvs called := by
    obtain rfl : kvs = ⟨[2, 7], [1, 1]⟩ := by simpa [TableJob.twoServers] using called
    decide

namespace TableSystem

variable [AddCommMonoid Val] {events : List (TableEvent Val)} {inputs : List TableInput} {w : Tid}
  {call : Nat} {vals : List Val} (initial : Tid → Storage Val)

/-- Whether the event is the return of this call. -/
def returns (w : Tid) (call : Nat) : TableEvent Val → Bool
  | .gotten w' call' _ => w' = w && call' = call
  | .served .. => false

omit [AddCommMonoid Val] in
theorem exists_returned (returned : events.any (returns w call) = true) :
    ∃ vals, .gotten w call vals ∈ events := by
  obtain ⟨event, member, same⟩ := List.any_eq_true.mp returned
  cases event with
  | served _ _ => cases same
  | gotten w' call' vals =>
      simp only [returns, Bool.and_eq_true, decide_eq_true_eq] at same
      obtain ⟨rfl, rfl⟩ := same
      exact ⟨vals, member⟩

/-- With ASP a worker sees all that it has added itself, and of every other worker a beginning of
    what it has added, one for each server. -/
theorem asp_get_reads_prefixes {job : TableJob Val (ASPModel Val)} {state : TableSystem job}
    (valid : job.Valid)
    (started : ∀ server ∈ job.servers, job.start server = .start job.modelId (initial server) job.workers)
    (run : Run job inputs state events) (got : .gotten w call vals ∈ events) :
    ∃ keys, (job.program w)[call]? = some (.get keys) ∧ vals.length = keys.length ∧
      ∃ seen : Tid → Tid → Nat, ∀ key val, (key, val) ∈ keys.zip vals → ∃ range server,
        (range, server) ∈ job.manager.ranges.zip job.servers ∧ range.Owns key ∧
          (seen server w = call ∧ ∀ u ∈ job.workers, seen server u ≤ state.calls u) ∧
          val = (initial server).value key + added job (seen server) key := by
  have answers : ∀ server ∈ job.servers, AnswersGets (job.start server) job.workers ASPModel.storage :=
    fun server inServers => started server inServers ▸ asp_answersGets job.modelId (initial server) job.workers
  refine gotten_from
    (fun _ (seen : Tid → Nat) => seen w = call ∧ ∀ u ∈ job.workers, seen u ≤ state.calls u)
    (fun server seen key => (initial server).value key + added job seen key) valid.sortedKeys answers run got
    fun member keys called server owner taken model source => ?_
  obtain ⟨seen, saw⟩ := saw_of_source valid.sortedKeys member owner called source
  obtain ⟨reply, out, answer⟩ := source
  have serverRun := answer.run
  rw [started server (TableJob.mem_owners.mp owner).1] at serverRun
  exact ⟨seen, ⟨saw.own, saw.made⟩, fun range inZip key owned =>
    value_of_saw serverRun saw inZip owned (asp_values serverRun key)⟩

/-- A worker that reads while the other has done nothing. -/
theorem asp_get_reads_prefixes_twoServers : ∃ (vals : List Int) (seen : Tid → Tid → Nat),
    vals.length = 2 ∧ ∀ key val, (key, val) ∈ ([2, 7] : List Key).zip vals → ∃ server,
      seen server 8 = 2 ∧ seen server 9 = 0 ∧
        val = 0 + added (TableJob.twoServers (ASPModel.start 0 (.map fun _ => 0) [8, 9])) (seen server) key := by
  obtain ⟨state, events, run, calls, returned⟩ := Machine.runs_of_exec step Enabled
    (start (TableJob.twoServers (ASPModel.start 0 (.map fun _ => (0 : Int)) [8, 9])))
    [.call 8, .call 8, .call 8, .serve 0 8, .serve 0 8, .serve 0 8, .serve 1 8, .serve 1 8, .serve 1 8,
      .respond 1 8, .respond 0 8]
    (fun state events => state.calls 9 = 0 ∧ events.any (returns 8 2) = true) (by decide +kernel)
  obtain ⟨vals, got⟩ := exists_returned returned
  obtain ⟨keys, called, sized, seen, values⟩ := asp_get_reads_prefixes (fun _ => .map fun _ => 0)
    (TableJob.twoServers_valid _) (fun _ _ => rfl) run got
  obtain rfl : [2, 7] = keys := ClientCall.get.inj (Option.some.inj called)
  refine ⟨vals, seen, sized, fun key val inZip => ?_⟩
  obtain ⟨_, server, -, -, ⟨own, made⟩, val_eq⟩ := values key val inZip
  have other := made 9 (by decide)
  exact ⟨server, own, by omega, val_eq⟩

/-- What an SSP table returns, for any programs with sorted keys. -/
theorem ssp_gotten {job : TableJob Val (SSPModel Val)} {state : TableSystem job}
    {staleness : UInt32} (sortedKeys : job.SortedKeys) (small : staleness.toNat ≤ intMax)
    (started : ∀ server ∈ job.servers,
      job.start server = .start job.modelId (initial server) staleness job.workers)
    (run : Run job inputs state events) (got : .gotten w call vals ∈ events) :
    ∃ keys, (job.program w)[call]? = some (.get keys) ∧ vals.length = keys.length ∧
      ∃ seen : Tid → Tid → Nat, ∀ key val, (key, val) ∈ keys.zip vals → ∃ range server,
        (range, server) ∈ job.manager.ranges.zip job.servers ∧ range.Owns key ∧
          (seen server w = call ∧ ∀ u ∈ job.workers, seen server u ≤ state.calls u ∧
            clocksIn ((job.program w).take call) ≤
              clocksIn ((job.program u).take (seen server u)) + staleness.toNat) ∧
          val = (initial server).value key + added job (seen server) key := by
  have answers : ∀ server ∈ job.servers, AnswersGets (job.start server) job.workers SSPModel.storage :=
    fun server inServers => started server inServers ▸
      ssp_answersGets job.modelId (initial server) small job.workers
  refine gotten_from
    (fun _ (seen : Tid → Nat) => seen w = call ∧ ∀ u ∈ job.workers, seen u ≤ state.calls u ∧
      clocksIn ((job.program w).take call) ≤ clocksIn ((job.program u).take (seen u)) + staleness.toNat)
    (fun server seen key => (initial server).value key + added job seen key) sortedKeys answers run got
    fun member keys called server owner taken model source => ?_
  obtain ⟨seen, saw⟩ := saw_of_source sortedKeys member owner called source
  obtain ⟨reply, out, answer⟩ := source
  have serverRun := answer.run
  rw [started server (TableJob.mem_owners.mp owner).1] at serverRun
  obtain ⟨received, known⟩ := ssp_taken small serverRun
  obtain ⟨ends, all⟩ := last_of_answers owner called answer
  have fresh := known.fresh ends rfl all
  refine ⟨seen, ⟨saw.own, fun u memberU => ⟨saw.made u memberU, ?_⟩⟩, fun range inZip key owned =>
    value_of_saw serverRun saw inZip owned (known.values key)⟩
  have registered : u ∈ (⟨model, received⟩ : SSPState Val).threads :=
    known.inv.threads_eq.symm ▸ List.mem_dedup.mpr memberU
  have slowest : model.progressTracker.minClock ≤ model.progressTracker.progresses u :=
    known.inv.exact.le u registered
  have own := saw.clocks w member
  rw [saw.own] at own
  rw [known.clocks, saw.clocks u memberU] at slowest
  omega

/-- With SSP a worker at clock `c` sees all that it has added itself, and of every other worker at
    least what it has added before its clock reached `c - staleness`. -/
theorem ssp_get_reads_within_staleness {job : TableJob Val (SSPModel Val)} {state : TableSystem job}
    {staleness : UInt32} (valid : job.Valid) (small : staleness.toNat ≤ intMax)
    (started : ∀ server ∈ job.servers,
      job.start server = .start job.modelId (initial server) staleness job.workers)
    (run : Run job inputs state events) (got : .gotten w call vals ∈ events) :
    ∃ keys, (job.program w)[call]? = some (.get keys) ∧ vals.length = keys.length ∧
      ∃ seen : Tid → Tid → Nat, ∀ key val, (key, val) ∈ keys.zip vals → ∃ range server,
        (range, server) ∈ job.manager.ranges.zip job.servers ∧ range.Owns key ∧
          (seen server w = call ∧ ∀ u ∈ job.workers, seen server u ≤ state.calls u ∧
            clocksIn ((job.program w).take call) ≤
              clocksIn ((job.program u).take (seen server u)) + staleness.toNat) ∧
          val = (initial server).value key + added job (seen server) key :=
  ssp_gotten initial valid.sortedKeys small started run got

/-- With staleness 0 a worker in its second iteration sees what either has added in the first. -/
theorem ssp_get_reads_within_staleness_twoServers : ∃ (vals : List Int) (seen : Tid → Tid → Nat),
    vals.length = 2 ∧ ∀ key val, (key, val) ∈ ([2, 7] : List Key).zip vals → ∃ server,
      seen server 8 = 2 ∧ seen server 9 = 2 ∧
        val = 0 + added (TableJob.twoServers (SSPModel.start 0 (.map fun _ => 0) 0 [8, 9])) (seen server) key := by
  obtain ⟨state, events, run, calls, returned⟩ := Machine.runs_of_exec step Enabled
    (start (TableJob.twoServers (SSPModel.start 0 (.map fun _ => (0 : Int)) 0 [8, 9])))
    [.call 8, .call 8, .call 8, .serve 0 8, .serve 0 8, .serve 0 8, .serve 1 8, .serve 1 8, .serve 1 8,
      .call 9, .call 9, .serve 1 9, .serve 1 9, .respond 1 8, .serve 0 9, .serve 0 9, .respond 0 8]
    (fun state events => state.calls 9 = 2 ∧ events.any (returns 8 2) = true) (by decide +kernel)
  obtain ⟨vals, got⟩ := exists_returned returned
  obtain ⟨keys, called, sized, seen, values⟩ := ssp_get_reads_within_staleness
    (fun _ => .map fun _ => 0) (TableJob.twoServers_valid _) (by decide) (fun _ _ => rfl) run got
  obtain rfl : [2, 7] = keys := ClientCall.get.inj (Option.some.inj called)
  refine ⟨vals, seen, sized, fun key val inZip => ?_⟩
  obtain ⟨_, server, -, -, ⟨own, made⟩, val_eq⟩ := values key val inZip
  obtain ⟨few, fresh⟩ := made 9 (by decide)
  have all : seen server 9 = 2 := by
    rw [calls] at few
    interval_cases few_eq : seen server 9
    · exact absurd fresh (by decide)
    · exact absurd fresh (by decide)
    · rfl
  exact ⟨server, own, all, val_eq⟩

/-- A value that a worker at clock `c` gets is the start of the storage and the `Add`s of a set, each
    counted once: all that the worker itself has made before, all that any worker makes before its
    `(c - staleness)`-th `Clock`, and none that has not been made. -/
theorem ssp_get_counts_adds {job : TableJob Val (SSPModel Val)} {state : TableSystem job}
    {staleness : UInt32} (sortedKeys : job.SortedKeys) (small : staleness.toNat ≤ intMax)
    (started : ∀ server ∈ job.servers,
      job.start server = .start job.modelId (initial server) staleness job.workers)
    (run : Run job inputs state events) (got : .gotten w call vals ∈ events) :
    ∃ keys, (job.program w)[call]? = some (.get keys) ∧ vals.length = keys.length ∧
      ∀ key val, (key, val) ∈ keys.zip vals → ∃ range server,
        (range, server) ∈ job.manager.ranges.zip job.servers ∧ range.Owns key ∧
          ∃ counted : Finset (Tid × Nat),
            (∀ place ∈ counted, place.1 ∈ job.workers ∧ place.2 < state.calls place.1 ∧
              job.AddsTo key place) ∧
            (∀ i < call, job.AddsTo key (w, i) → (w, i) ∈ counted) ∧
            (∀ u ∈ job.workers, ∀ i, job.AddsTo key (u, i) →
              clocksIn ((job.program u).take i) <
                clocksIn ((job.program w).take call) - staleness.toNat → (u, i) ∈ counted) ∧
            val = (initial server).value key + ∑ place ∈ counted, job.addedAt key place := by
  have answers : ∀ server ∈ job.servers, AnswersGets (job.start server) job.workers SSPModel.storage :=
    fun server inServers => started server inServers ▸
      ssp_answersGets job.modelId (initial server) small job.workers
  have member := (gotten_run sortedKeys answers run got).1
  obtain ⟨keys, called, sized, seen, values⟩ := ssp_gotten initial sortedKeys small started run got
  refine ⟨keys, called, sized, fun key val inZip => ?_⟩
  obtain ⟨range, server, inRanges, owned, ⟨own, known⟩, val_eq⟩ := values key val inZip
  obtain ⟨counted, mem_counted, counted_eq⟩ : ∃ counted : Finset (Tid × Nat), _ ∧
      added job (seen server) key = _ := added_eq_sum (seen server) key
  refine ⟨range, server, inRanges, owned, counted, ?_, ?_, ?_, by rw [val_eq, counted_eq]⟩
  · intro place inCounted
    obtain ⟨worker, before, adds⟩ := (mem_counted place).mp inCounted
    exact ⟨worker, Nat.lt_of_lt_of_le before (known place.1 worker).1, adds⟩
  · intro i before adds
    exact (mem_counted (w, i)).mpr ⟨member, own ▸ before, adds⟩
  · intro u worker i adds early
    refine (mem_counted (u, i)).mpr ⟨worker, ?_, adds⟩
    by_contra late
    have fewer : clocksIn ((job.program u).take (seen server u)) ≤ clocksIn ((job.program u).take i) :=
      (List.take_prefix_take_left (Nat.le_of_not_lt late)).sublist.countP_le
    have fresh := (known u worker).2
    omega

/-- With staleness 0 the value of a key contains the `Add` of either worker once. -/
theorem ssp_get_counts_adds_twoServers : ∃ vals : List Int,
    vals.length = 2 ∧ ∀ key val, (key, val) ∈ ([2, 7] : List Key).zip vals →
      ∃ counted : Finset (Tid × Nat), (8, 0) ∈ counted ∧ (9, 0) ∈ counted ∧
        val = 0 + ∑ place ∈ counted,
          (TableJob.twoServers (SSPModel.start 0 (.map fun _ => (0 : Int)) 0 [8, 9])).addedAt key place := by
  obtain ⟨state, events, run, returned⟩ := Machine.runs_of_exec step Enabled
    (start (TableJob.twoServers (SSPModel.start 0 (.map fun _ => (0 : Int)) 0 [8, 9])))
    [.call 8, .call 8, .call 8, .serve 0 8, .serve 0 8, .serve 0 8, .serve 1 8, .serve 1 8, .serve 1 8,
      .call 9, .call 9, .serve 1 9, .serve 1 9, .respond 1 8, .serve 0 9, .serve 0 9, .respond 0 8]
    (fun _ events => events.any (returns 8 2) = true) (by decide +kernel)
  obtain ⟨vals, got⟩ := exists_returned returned
  obtain ⟨keys, called, sized, values⟩ := ssp_get_counts_adds (fun _ => .map fun _ => 0)
    (TableJob.twoServers_valid _).sortedKeys (by decide) (fun _ _ => rfl) run got
  obtain rfl : [2, 7] = keys := ClientCall.get.inj (Option.some.inj called)
  refine ⟨vals, sized, fun key val inZip => ?_⟩
  have inKeys : key ∈ ([2, 7] : List Key) := (List.of_mem_zip inZip).1
  obtain ⟨_, server, -, -, counted, -, own, early, val_eq⟩ := values key val inZip
  exact ⟨counted, own 0 (by decide) ⟨_, rfl, inKeys⟩, early 9 (by decide) 0 ⟨_, rfl, inKeys⟩ (by decide),
    val_eq⟩

/-- With BSP a worker at clock `c` sees exactly what every worker has added before its `c`-th
    `Clock`, whatever the order in which the messages have come. -/
theorem bsp_get_reads_iterations {job : TableJob Val (BSPModel Val)} {state : TableSystem job}
    (valid : job.Valid)
    (started : ∀ server ∈ job.servers, job.start server = .start job.modelId (initial server) job.workers)
    (run : Run job inputs state events) (got : .gotten w call vals ∈ events) :
    ∃ keys, (job.program w)[call]? = some (.get keys) ∧ vals.length = keys.length ∧
      ∀ key val, (key, val) ∈ keys.zip vals → ∃ range server,
        (range, server) ∈ job.manager.ranges.zip job.servers ∧ range.Owns key ∧
          val = (initial server).value key + ∑ u ∈ job.workers.toFinset, addedIn
            (Marks.upTo ClientCall.isClock (clocksIn ((job.program w).take call)) (job.program u)) key := by
  have answers : ∀ server ∈ job.servers, AnswersGets (job.start server) job.workers BSPModel.storage :=
    fun server inServers => started server inServers ▸ bsp_answersGets job.modelId (initial server) job.workers
  suffices known : _ from by
    obtain ⟨keys, called, sized, -, values⟩ := gotten_from (fun _ (_ : Unit) => True)
      (fun server _ key => (initial server).value key + ∑ u ∈ job.workers.toFinset, addedIn
        (Marks.upTo ClientCall.isClock (clocksIn ((job.program w).take call)) (job.program u)) key)
      valid.sortedKeys answers run got known
    refine ⟨keys, called, sized, fun key val inZip => ?_⟩
    obtain ⟨range, server, inRanges, owned, -, val_eq⟩ := values key val inZip
    exact ⟨range, server, inRanges, owned, val_eq⟩
  intro member keys called server owner taken model source
  obtain ⟨seen, saw⟩ := saw_of_source valid.sortedKeys member owner called source
  obtain ⟨reply, out, answer⟩ := source
  have serverRun := answer.run
  rw [started server (TableJob.mem_owners.mp owner).1] at serverRun
  have known := bsp_taken serverRun
  obtain ⟨ends, all⟩ := last_of_answers owner called answer
  have iteration := known.fresh member ends rfl all
  have own := saw.clocks w member
  rw [saw.own] at own
  refine ⟨(), trivial, fun range inZip key owned => ?_⟩
  rw [known.settled key, iteration, own]
  refine congrArg ((initial server).value key + ·) (Finset.sum_congr rfl fun u memberU => ?_)
  replace memberU := List.mem_toFinset.mp memberU
  obtain ⟨k, -, taken_eq⟩ := answer.others u memberU
  have reached := known.le memberU
  rw [iteration, own, taken_eq, TableJob.countP_stream] at reached
  have whole : Marks.upTo ClientCall.isClock (clocksIn ((job.program w).take call)) (job.program u) =
      Marks.upTo ClientCall.isClock (clocksIn ((job.program w).take call)) ((job.program u).take k) := by
    conv_lhs => rw [← List.take_append_drop k (job.program u)]
    exact Marks.upTo_append_of_le reached
  rw [taken_eq, TableJob.stream, Marks.upTo_filterMap TableJob.any_request, whole]
  exact TableJob.addedBy_requests valid.sortedKeys inZip owned fun other inPart =>
    List.mem_of_mem_take (Marks.upTo_prefix.subset inPart)

/-- A worker in its second iteration sees what either has added in the first. -/
theorem bsp_get_reads_iterations_twoServers : ∃ vals : List Int, vals.length = 2 ∧
    ∀ key val, (key, val) ∈ ([2, 7] : List Key).zip vals → val = 2 := by
  obtain ⟨state, events, run, returned⟩ := Machine.runs_of_exec step Enabled
    (start (TableJob.twoServers (BSPModel.start 0 (.map fun _ => (0 : Int)) [8, 9])))
    [.call 8, .call 8, .call 8, .serve 0 8, .serve 0 8, .serve 0 8, .serve 1 8, .serve 1 8, .serve 1 8,
      .call 9, .call 9, .serve 1 9, .serve 1 9, .respond 1 8, .serve 0 9, .serve 0 9, .respond 0 8]
    (fun _ events => events.any (returns 8 2) = true) (by decide +kernel)
  obtain ⟨vals, got⟩ := exists_returned returned
  obtain ⟨keys, called, sized, values⟩ := bsp_get_reads_iterations
    (fun _ => .map fun _ => 0) (TableJob.twoServers_valid _) (fun _ _ => rfl) run got
  obtain rfl : [2, 7] = keys := ClientCall.get.inj (Option.some.inj called)
  refine ⟨vals, sized, fun key val inZip => ?_⟩
  obtain ⟨_, server, -, -, val_eq⟩ := values key val inZip
  have inKeys : key ∈ ([2, 7] : List Key) := (List.of_mem_zip inZip).1
  rw [val_eq]
  simp only [List.mem_cons, List.not_mem_nil, or_false] at inKeys
  obtain rfl | rfl := inKeys
  · decide +kernel
  · decide +kernel

end TableSystem

end FlexPS
