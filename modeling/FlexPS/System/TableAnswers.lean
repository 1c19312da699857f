import FlexPS.Lib.Gather
import FlexPS.System.TableStreams

/-! # A `Get` returns its own answers

A worker waits in every `Get`, so a server never has two `Get`s of one worker to answer, and
what arrives while a worker waits are the answers to the `Get` it is in, although no message says
which `Get` it belongs to.
-/

namespace FlexPS

variable {Val Model : Type}

/-! ## The `Get`s in a stream -/

namespace TableJob

variable (job : TableJob Val Model)

/-- The `Get`s that the first `calls` calls of a worker send to one server. -/
def gets (server w : Tid) (calls : Nat) : List (Message Val) := ofFlag .kGet (job.stream server w calls)

/-- The servers that a `Get` is sent to. -/
def owners (keys : List Key) : List Tid := job.manager.owners (⟨keys, []⟩ : KVPairs Val)

variable {job} {server w : Tid} {calls : Nat} {keys : List Key}

theorem mem_owners : server ∈ job.owners keys ↔ server ∈ job.servers ∧ job.asked server keys ≠ [] :=
  SimpleRangePartitionManager.mem_owners

variable (server) in
theorem gets_succ_get (next : (job.program w)[calls]? = some (.get keys)) :
    job.gets server w (calls + 1) = job.gets server w calls ++
      if job.asked server keys = [] then [] else [job.getMsg server w (job.asked server keys)] := by
  rw [gets, stream_succ next, ofFlag_append, ← gets, request]
  split
  · rfl
  · rfl

theorem gets_succ_other {call : ClientCall Val} (next : (job.program w)[calls]? = some call)
    (other : ∀ keys, call ≠ .get keys) : job.gets server w (calls + 1) = job.gets server w calls := by
  rw [gets, stream_succ next, ofFlag_append, ← gets]
  cases call with
  | get keys => exact absurd rfl (other keys)
  | add kvs =>
      rw [request]
      split
      · exact List.append_nil _
      · exact List.append_nil _
  | clock => exact List.append_nil _

variable (job server w) in
theorem gets_mono {calls' : Nat} (le : calls ≤ calls') :
    job.gets server w calls <+: job.gets server w calls' := (stream_mono le).filter _

variable (job server w) in
theorem length_gets_mono {calls' : Nat} (le : calls ≤ calls') :
    (job.gets server w calls).length ≤ (job.gets server w calls').length :=
  (gets_mono job server w le).length_le

/-- What has arrived of a stream is the stream of fewer calls. -/
theorem prefix_stream {msgs : List (Message Val)} (arrived : msgs <+: job.stream server w calls) :
    ∃ k ≤ calls, msgs = job.stream server w k := by
  induction calls with
  | zero => exact ⟨0, Nat.le_refl 0, List.prefix_nil.mp arrived⟩
  | succ calls ih =>
      cases next : (job.program w)[calls]? with
      | none =>
          have past := List.getElem?_eq_none_iff.mp next
          have same : job.stream server w (calls + 1) = job.stream server w calls := by
            rw [stream, stream, List.take_of_length_le (by omega), List.take_of_length_le past]
          rw [same] at arrived
          obtain ⟨k, le, msgs_eq⟩ := ih arrived
          exact ⟨k, by omega, msgs_eq⟩
      | some call =>
          rw [stream_succ next] at arrived
          cases sent : job.request server w call with
          | none =>
              rw [sent, Option.toList_none, List.append_nil] at arrived
              obtain ⟨k, le, msgs_eq⟩ := ih arrived
              exact ⟨k, by omega, msgs_eq⟩
          | some msg =>
              rw [sent, Option.toList_some] at arrived
              rcases List.prefix_concat_iff.mp arrived with all | fewer
              · refine ⟨calls + 1, Nat.le_refl _, ?_⟩
                rw [all, stream_succ next, sent]
                rfl
              · obtain ⟨k, le, msgs_eq⟩ := ih fewer
                exact ⟨k, by omega, msgs_eq⟩

end TableJob

/-! ## What a worker waits for -/

variable [AddCommMonoid Val] [AbstractModel Val Model]

/-- The reply to the `Get` that is call `call` of the worker, from a state of the server in which it
    has taken exactly what the worker has sent up to this call, has answered every `Get` of
    the worker, and has taken a beginning of what every other worker has sent. -/
structure TableJob.Answers (job : TableJob Val Model) (storage : Model → Storage Val) (calls : Tid → Nat)
    (server w : Tid) (call : Nat) (keys : List Key) (reply : Message Val) (taken : List (Message Val))
    (model : Model) (events : List (Event Val)) : Prop where
  run : ModelRun (job.start server) job.workers taken model events
  reply_eq : reply = (storage model).replyTo (job.getMsg server w (job.asked server keys))
  own : sentBy w taken = job.stream server w (call + 1)
  others : ∀ u ∈ job.workers, ∃ k ≤ calls u, sentBy u taken = job.stream server u k
  all : (sentBy w (events.filterMap Event.answered)).length = (job.gets server w (call + 1)).length

/-- Some state of the server has answered so. -/
def TableJob.Answered (job : TableJob Val Model) (storage : Model → Storage Val) (calls : Tid → Nat)
    (server w : Tid) (call : Nat) (keys : List Key) (reply : Message Val) : Prop :=
  ∃ taken model events, job.Answers storage calls server w call keys reply taken model events

namespace TableSystem

variable {job : TableJob Val Model} {storage : Model → Storage Val} {state state' : TableSystem job}
  {events : List (TableEvent Val)} {server w : Tid} {keys : List Key}

omit [AddCommMonoid Val] [AbstractModel Val Model] in
/-- The replies of a server that have arrived since a worker has called `Get`. -/
def arrivedFrom (state : TableSystem job) (w server : Tid) : List (Message Val) :=
  (state.replies server w).arrived.drop (job.gets server w (state.calls w - 1)).length

omit [AddCommMonoid Val] [AbstractModel Val Model] in
def gathered (state : TableSystem job) (w : Tid) (keys : List Key) : List (Message Val) :=
  (job.owners keys).flatMap (state.arrivedFrom w)

/-- What a server has answered to a worker. -/
def answeredTo (w server : Tid) (events : List (TableEvent Val)) : List (Message Val) :=
  sentBy w ((events.filterMap (TableEvent.at? server)).filterMap Event.answered)

variable (storage) in
/-- A worker in a `Get` of these keys. -/
structure Waiting (state : TableSystem job) (w : Tid) (keys : List Key) : Prop where
  made : 0 < state.calls w
  called : (job.program w)[state.calls w - 1]? = some (.get keys)
  keys_eq : (state.clients w).keys = keys
  tracker : (state.clients w).tracker = ((job.owners keys).length, (state.gathered w keys).length)
  started : ∀ server ∈ job.servers,
    (job.gets server w (state.calls w - 1)).length ≤ (state.replies server w).arrived.length
  answers : ∀ server ∈ job.servers,
    ∀ reply ∈ (state.replies server w).sent.drop (job.gets server w (state.calls w - 1)).length,
      job.Answered storage state.calls server w (state.calls w - 1) keys reply

variable (storage) in
structure ClientInv (state : TableSystem job) (events : List (TableEvent Val)) (w : Tid) : Prop where
  answered : ∀ server ∈ job.servers,
    answeredTo w server events <+: job.gets server w (state.calls w)
  idle : (state.clients w).waits = false → ∀ server ∈ job.servers,
    (state.replies server w).arrived.length = (job.gets server w (state.calls w)).length
  waiting : (state.clients w).waits = true → ∃ keys, Waiting storage state w keys
  recvKvs : (state.clients w).table.box.recvKvs.Perm
    (if (state.clients w).waits = true ∧ (state.clients w).tracker.2 < (state.clients w).tracker.1 then
      (state.gathered w (state.clients w).keys).map Message.kvs else [])

/-! ## What a server answers -/

section Replies

omit [AbstractModel Val Model]

theorem pushed_of_genuine {out : List (Event Val)} {kept : Storage Val} (genuine : ∀ event ∈ out,
    ∃ request clocks, event = .reply request (kept.replyTo request) clocks) :
    out.filterMap Event.pushed = (out.filterMap Event.answered).map kept.replyTo := by
  induction out with
  | nil => rfl
  | cons event rest ih =>
      obtain ⟨here, later⟩ := List.forall_mem_cons.mp genuine
      obtain ⟨request, clocks, rfl⟩ := here
      rw [List.filterMap_cons, List.filterMap_cons]
      exact congrArg (kept.replyTo request :: ·) (ih later)

theorem pushedTo_of_genuine {out : List (Event Val)} {kept : Storage Val} (genuine : ∀ event ∈ out,
    ∃ request clocks, event = .reply request (kept.replyTo request) clocks) (w : Tid) :
    ((out.filterMap Event.pushed).filter fun msg => msg.recver = w) =
      (sentBy w (out.filterMap Event.answered)).map kept.replyTo := by
  rw [pushed_of_genuine genuine, List.filter_map]
  rfl

end Replies

section Run

variable {start : Model} {tids : List Tid} {taken : List (Message Val)} {model : Model}
  {out : List (Event Val)}

theorem length_pushedTo (answers : AnswersGets start tids storage) (run : ModelRun start tids taken model out)
    (w : Tid) : ((out.filterMap Event.pushed).filter fun msg => msg.recver = w).length =
      (sentBy w (out.filterMap Event.answered)).length := by
  refine run.invariant (P := fun _ _ out =>
    ((out.filterMap Event.pushed).filter fun msg => msg.recver = w).length =
      (sentBy w (out.filterMap Event.answered)).length) rfl ?_
  intro _ _ _ _ _ _ run same admitted stepped
  have pushed := pushedTo_of_genuine (answers.genuine run admitted stepped) w
  rw [List.filterMap_append, List.filter_append, List.length_append, same, pushed, List.length_map,
    List.filterMap_append, sentBy_append, List.length_append]

end Run

variable {msg : Message Val} {rest : List (Message Val)} {model : Model} {out : List (Event Val)}

theorem length_sent (answers : AnswersGets (job.start server) job.workers storage)
    (wires : state.WireInv events) (inServers : server ∈ job.servers) (w : Tid) :
    (state.replies server w).sent.length = (answeredTo w server events).length := by
  obtain ⟨taken, projected⟩ := wires.projected server inServers
  rw [wires.replied]
  exact length_pushedTo answers projected.run w

omit [AddCommMonoid Val] [AbstractModel Val Model] in
theorem arrived_le_sent (state : TableSystem job) (server w : Tid) :
    (state.replies server w).arrived.length ≤ (state.replies server w).sent.length :=
  (List.prefix_append _ _).length_le

omit [AddCommMonoid Val] in
/-- What a server has taken of a worker after it has taken one more message. -/
theorem taken_eq_stream (wires : state.WireInv events) (inServers : server ∈ job.servers)
    {taken : List (Message Val)} (projected : state.Projected events server taken) {u : Tid}
    (member : u ∈ job.workers) : ∃ k ≤ state.calls u, sentBy u taken = job.stream server u k := by
  rw [projected.of_worker u member]
  apply TableJob.prefix_stream
  rw [← wires.sent u server inServers]
  exact List.prefix_append _ _

/-- The answers of one step to a worker: none, or the one to the `Get` it waits in, of which the
    server has then taken all that has been sent. -/
inductive Serves (state : TableSystem job) (events : List (TableEvent Val)) (server u : Tid)
    (taken : List (Message Val)) (requests : List (Message Val)) : Prop where
  | none (nothing : requests = [])
  | answer {keys : List Key} (waits : (state.clients u).waits = true) (made : 0 < state.calls u)
      (called : (job.program u)[state.calls u - 1]? = some (.get keys))
      (asked : job.asked server keys ≠ [])
      (request : requests = [job.getMsg server u (job.asked server keys)])
      (before : answeredTo u server events = job.gets server u (state.calls u - 1))
      (all : sentBy u taken = job.stream server u (state.calls u))

theorem serves (answers : AnswersGets (job.start server) job.workers storage) (wires : state.WireInv events)
    {u : Tid} (inv : ClientInv storage state events u) (inServers : server ∈ job.servers)
    (member : w ∈ job.workers) (memberU : u ∈ job.workers) {taken : List (Message Val)}
    (projected : state.Projected events server taken)
    (next : (state.requests w server).inFlight = msg :: rest)
    (handled : AbstractModel.handle (state.servers server) msg = .ok (model, out)) :
    Serves state events server u (taken ++ [msg]) (sentBy u (out.filterMap Event.answered)) := by
  have projected' := projected.serve wires inServers member next handled
  have wires' := wire_serve wires inServers member next handled
  obtain ⟨k, le, taken_eq⟩ := taken_eq_stream wires' inServers projected' memberU
  replace le : k ≤ state.calls u := le
  have once : (answeredTo u server events ++ sentBy u (out.filterMap Event.answered)).Subperm
      (job.gets server u k) := by
    have all := (answers.once projected'.run).filter fun msg => msg.sender = u
    rw [List.filterMap_append, filterMap_served, if_pos rfl, List.filterMap_append, List.filter_append] at all
    have commute : (ofFlag .kGet (taken ++ [msg])).filter (fun msg => msg.sender = u) =
        ofFlag .kGet (sentBy u (taken ++ [msg])) := List.filter_comm ..
    rw [commute, taken_eq] at all
    exact all
  have bound := once.length_le
  rw [List.length_append] at bound
  have sent := length_sent answers wires inServers u
  have arrived := arrived_le_sent state server u
  cases waits : (state.clients u).waits with
  | false =>
      have idle := inv.idle waits server inServers
      have few := TableJob.length_gets_mono job server u le
      exact .none (List.eq_nil_of_length_eq_zero (by omega))
  | true =>
      obtain ⟨keys, waiting⟩ := inv.waiting waits
      have started := waiting.started server inServers
      have made := waiting.made
      have succ := TableJob.gets_succ_get server waiting.called
      rw [Nat.sub_add_cancel made] at succ
      cases new : sentBy u (out.filterMap Event.answered) with
      | nil => exact .none rfl
      | cons request more =>
          rw [new, List.length_cons] at bound
          by_cases asked : job.asked server keys = []
          · rw [if_pos asked, List.append_nil] at succ
            have few := TableJob.length_gets_mono job server u le
            rw [succ] at few
            omega
          · rw [if_neg asked] at succ
            have lengths := congrArg List.length succ
            rw [List.length_append, List.length_singleton] at lengths
            have all : k = state.calls u := by
              by_contra fewer
              have few := TableJob.length_gets_mono job server u
                (by omega : k ≤ state.calls u - 1)
              omega
            subst all
            obtain rfl : more = [] := List.eq_nil_of_length_eq_zero (by omega)
            have before : answeredTo u server events = job.gets server u (state.calls u - 1) := by
              have prior := inv.answered server inServers
              have earlier := TableJob.gets_mono job server u
                (Nat.sub_le (state.calls u) 1)
              exact (List.prefix_of_prefix_length_le prior earlier (by omega)).eq_of_length (by omega)
            refine .answer waits made waiting.called asked ?_ before taken_eq
            rw [new, before, succ, List.subperm_append_left] at once
            exact List.perm_singleton.mp (once.perm_of_length_le (Nat.le_refl 1))

/-! ## Every step keeps what a worker waits for -/

theorem answered_mono {calls calls' : Tid → Nat} (more : ∀ u, calls u ≤ calls' u) {call : Nat}
    {reply : Message Val} (answered : job.Answered storage calls server w call keys reply) :
    job.Answered storage calls' server w call keys reply := by
  obtain ⟨taken, model, events, answers⟩ := answered
  refine ⟨taken, model, events, answers.run, answers.reply_eq, answers.own, fun u member => ?_, answers.all⟩
  obtain ⟨k, le, taken_eq⟩ := answers.others u member
  exact ⟨k, Nat.le_trans le (more u), taken_eq⟩

omit [AddCommMonoid Val] [AbstractModel Val Model] in
theorem gathered_congr (calls : state'.calls w = state.calls w)
    (arrived : ∀ server, (state'.replies server w).arrived = (state.replies server w).arrived)
    (keys : List Key) : state'.gathered w keys = state.gathered w keys := by
  have each : state'.arrivedFrom w = state.arrivedFrom w := by
    funext server
    rw [arrivedFrom, arrivedFrom, calls, arrived]
  rw [gathered, gathered, each]

/-- Nothing has changed for the worker but what is on its way to it. -/
theorem ClientInv.of_same {events' : List (TableEvent Val)} (inv : ClientInv storage state events w)
    (client : state'.clients w = state.clients w) (calls : state'.calls w = state.calls w)
    (arrived : ∀ server, (state'.replies server w).arrived = (state.replies server w).arrived)
    (answered : ∀ server ∈ job.servers, answeredTo w server events' <+: job.gets server w (state.calls w))
    (answers : ∀ keys, Waiting storage state w keys → ∀ server ∈ job.servers,
      ∀ reply ∈ (state'.replies server w).sent.drop (job.gets server w (state.calls w - 1)).length,
        job.Answered storage state'.calls server w (state.calls w - 1) keys reply) :
    ClientInv storage state' events' w := by
  constructor
  case answered =>
    rw [calls]
    exact answered
  case idle =>
    intro outside server inServers
    rw [client] at outside
    rw [arrived, calls]
    exact inv.idle outside server inServers
  case waiting =>
    intro waits
    rw [client] at waits
    obtain ⟨keys, waiting⟩ := inv.waiting waits
    refine ⟨keys, ?_⟩
    constructor
    · exact calls ▸ waiting.made
    · exact calls ▸ waiting.called
    · exact client ▸ waiting.keys_eq
    · rw [client, gathered_congr calls arrived]
      exact waiting.tracker
    · intro server inServers
      rw [calls, arrived]
      exact waiting.started server inServers
    · rw [calls]
      exact answers keys waiting
  case recvKvs =>
    rw [client, gathered_congr calls arrived]
    exact inv.recvKvs

theorem client_call_other (inv : ClientInv storage state events w) {u : Tid} (other : w ≠ u)
    (client : TableClient Val) (msgs : List (Message Val)) :
    ClientInv storage (state.makeCall u client msgs) events w := by
  refine inv.of_same (Function.update_of_ne other _ _) (Function.update_of_ne other _ _) (fun _ => rfl)
    inv.answered fun keys waiting server inServers reply member => ?_
  refine answered_mono (fun v => ?_) (waiting.answers server inServers reply member)
  dsimp only [makeCall]
  by_cases same : v = u
  · rw [same, Function.update_self]
    exact Nat.le_succ _
  · rw [Function.update_of_ne same]

/-- A call that does not wait. -/
theorem client_idle {call : ClientCall Val} (idle : (state'.clients w).waits = false)
    (next : (job.program w)[state.calls w]? = some call) (other : ∀ keys, call ≠ .get keys)
    (calls : state'.calls w = state.calls w + 1)
    (arrived : ∀ server ∈ job.servers,
      (state'.replies server w).arrived.length = (job.gets server w (state.calls w)).length)
    (empty : (state'.clients w).table.box.recvKvs = [])
    (answered : ∀ server ∈ job.servers,
      answeredTo w server events <+: job.gets server w (state.calls w + 1)) :
    ClientInv storage state' events w where
  answered := calls ▸ answered
  idle := by
    intro _ server inServers
    rw [calls, TableJob.gets_succ_other next other]
    exact arrived server inServers
  waiting waits := by
    rw [idle] at waits
    cases waits
  recvKvs := by
    rw [empty, if_neg (fun both => by rw [idle] at both; cases both.1)]

theorem client_call (apart : job.servers.Nodup)
    (answers : ∀ server ∈ job.servers, AnswersGets (job.start server) job.workers storage)
    (wires : state.WireInv events) (inv : ClientInv storage state events w)
    (idle : (state.clients w).waits = false) {call : ClientCall Val} {client : TableClient Val}
    {msgs : List (Message Val)} (next : (job.program w)[state.calls w]? = some call)
    (called : (state.clients w).call call = .ok (client, msgs)) :
    ClientInv storage (state.makeCall w client msgs) events w := by
  obtain ⟨client_eq, -⟩ := TableJob.call_spec apart (wires.own w) called
  have client_same : (state.makeCall w client msgs).clients w = client := Function.update_self ..
  have calls_same : (state.makeCall w client msgs).calls w = state.calls w + 1 := Function.update_self ..
  have arrived := inv.idle idle
  have settled : ∀ server ∈ job.servers,
      (state.replies server w).sent.length ≤ (job.gets server w (state.calls w)).length := by
    intro server inServers
    rw [length_sent (answers server inServers) wires inServers]
    exact (inv.answered server inServers).length_le
  have empty : (state.clients w).table.box.recvKvs = [] := by
    have before := inv.recvKvs
    rw [if_neg (fun both => by rw [idle] at both; cases both.1)] at before
    exact before.eq_nil
  have answered : ∀ server ∈ job.servers,
      answeredTo w server events <+: job.gets server w (state.calls w + 1) :=
    fun server inServers => (inv.answered server inServers).trans (TableJob.gets_mono job server w (Nat.le_succ _))
  cases call with
  | get keys =>
      have none : (state.makeCall w client msgs).gathered w keys = [] := by
        refine List.flatMap_eq_nil_iff.mpr fun server owner => ?_
        rw [arrivedFrom, calls_same, Nat.add_sub_cancel]
        exact List.drop_eq_nil_of_le (Nat.le_of_eq (arrived server (TableJob.mem_owners.mp owner).1))
      constructor
      case answered => exact calls_same ▸ answered
      case idle =>
        intro outside
        rw [client_same, client_eq] at outside
        cases outside
      case waiting =>
        intro _
        refine ⟨keys, ?_⟩
        constructor
        · rw [calls_same]
          exact Nat.succ_pos _
        · rw [calls_same]
          exact next
        · rw [client_same, client_eq]
          rfl
        · rw [none, client_same, client_eq]
          rfl
        · intro server inServers
          rw [calls_same]
          exact Nat.le_of_eq (arrived server inServers).symm
        · intro server inServers reply member
          rw [calls_same, Nat.add_sub_cancel] at member
          have nothing := List.drop_eq_nil_of_le (settled server inServers)
          exact absurd (nothing ▸ member) List.not_mem_nil
      case recvKvs =>
        have keys_eq : client.keys = keys := by
          rw [client_eq]
          rfl
        have kept : client.table.box.recvKvs = (state.clients w).table.box.recvKvs := by
          rw [client_eq]
          rfl
        rw [client_same, keys_eq, none, kept, empty, List.map_nil, ite_self]
  | add kvs =>
      refine client_idle ?_ next (fun _ same => by cases same) calls_same arrived ?_ answered
      · rw [client_same, client_eq]
        exact idle
      · rw [client_same, client_eq]
        exact empty
  | clock =>
      refine client_idle ?_ next (fun _ same => by cases same) calls_same arrived ?_ answered
      · rw [client_same, client_eq]
        exact idle
      · rw [client_same, client_eq]
        exact empty

theorem arrived_le (answers : AnswersGets (job.start server) job.workers storage)
    (wires : state.WireInv events) (inv : ClientInv storage state events w) (inServers : server ∈ job.servers) :
    (state.replies server w).arrived.length ≤ (job.gets server w (state.calls w)).length := by
  refine Nat.le_trans (arrived_le_sent state server w) ?_
  rw [length_sent answers wires inServers]
  exact (inv.answered server inServers).length_le

/-- How many `Get`s a server has been sent when the worker waits. -/
theorem Waiting.length_gets (waiting : Waiting storage state w keys) (server : Tid) :
    (job.gets server w (state.calls w)).length = (job.gets server w (state.calls w - 1)).length +
      if job.asked server keys = [] then 0 else 1 := by
  have succ := TableJob.gets_succ_get server waiting.called
  rw [Nat.sub_add_cancel waiting.made] at succ
  rw [succ, List.length_append]
  split <;> rfl

theorem Waiting.arrivedFrom_le_one (waiting : Waiting storage state w keys)
    (answers : AnswersGets (job.start server) job.workers storage) (wires : state.WireInv events)
    (inv : ClientInv storage state events w) (owner : server ∈ job.owners keys) :
    (state.arrivedFrom w server).length ≤ 1 := by
  obtain ⟨inServers, asked⟩ := TableJob.mem_owners.mp owner
  have bound := arrived_le answers wires inv inServers
  rw [waiting.length_gets server, if_neg asked] at bound
  rw [arrivedFrom, List.length_drop]
  omega

/-- Every owner has answered a worker that has all it waits for. -/
theorem Waiting.complete (waiting : Waiting storage state w keys)
    (answers : ∀ server ∈ job.servers, AnswersGets (job.start server) job.workers storage)
    (wires : state.WireInv events) (inv : ClientInv storage state events w)
    (all : (state.clients w).tracker.1 = (state.clients w).tracker.2) :
    List.Forall₂ (fun server msg => state.arrivedFrom w server = [msg]) (job.owners keys)
      (state.gathered w keys) := by
  rw [waiting.tracker] at all
  exact Gather.complete (fun server owner => waiting.arrivedFrom_le_one
    (answers server (TableJob.mem_owners.mp owner).1) wires inv owner) all.symm

theorem client_finish (answers : ∀ server ∈ job.servers, AnswersGets (job.start server) job.workers storage)
    (wires : state.WireInv events) (inv : ClientInv storage state events w)
    (waits : (state.clients w).waits = true) (all : (state.clients w).tracker.1 = (state.clients w).tracker.2) :
    ClientInv storage (state.finish w) events w := by
  have client_same : (state.finish w).clients w = { state.clients w with waits := false } :=
    Function.update_self ..
  obtain ⟨keys, waiting⟩ := inv.waiting waits
  constructor
  case answered => exact inv.answered
  case idle =>
    intro _ server inServers
    change (state.replies server w).arrived.length = (job.gets server w (state.calls w)).length
    have bound := arrived_le (answers server inServers) wires inv inServers
    have started := waiting.started server inServers
    have count := waiting.length_gets server
    by_cases asked : job.asked server keys = []
    · rw [if_pos asked] at count
      omega
    · obtain ⟨msg, -, one⟩ := Gather.item_of_mem (waiting.complete answers wires inv all)
        (TableJob.mem_owners.mpr ⟨inServers, asked⟩)
      have length := congrArg List.length one
      rw [arrivedFrom, List.length_drop, List.length_singleton] at length
      rw [if_neg asked] at count
      omega
  case waiting =>
    intro still
    rw [client_same] at still
    cases still
  case recvKvs =>
    have before := inv.recvKvs
    rw [if_neg (fun both => by omega)] at before
    rw [client_same, if_neg (fun both => by cases both.1)]
    exact before

theorem client_finish_other (inv : ClientInv storage state events w) {u : Tid} (other : w ≠ u) :
    ClientInv storage (state.finish u) events w :=
  inv.of_same (Function.update_of_ne other _ _) rfl (fun _ => rfl) inv.answered
    fun _ waiting => waiting.answers

theorem client_serve (answers : AnswersGets (job.start server) job.workers storage)
    (wires : state.WireInv events) {u : Tid} (inv : ClientInv storage state events u)
    (inServers : server ∈ job.servers) (member : w ∈ job.workers) (memberU : u ∈ job.workers)
    (next : (state.requests w server).inFlight = msg :: rest)
    (handled : AbstractModel.handle (state.servers server) msg = .ok (model, out)) :
    ClientInv storage (state.serve server w model out) (events ++ out.map (.served server)) u := by
  obtain ⟨taken, projected⟩ := wires.projected server inServers
  have projected' := projected.serve wires inServers member next handled
  have wires' : (state.serve server w model out).WireInv _ :=
    wire_serve wires inServers member next handled
  have served := serves answers wires inv inServers member memberU projected next handled
  obtain ⟨sender, -, flag⟩ := next_request wires inServers next
  have genuine := answers.genuine projected.run ⟨sender ▸ member, flag⟩ handled
  have answered_eq : ∀ server', answeredTo u server' (events ++ out.map (.served server)) =
      answeredTo u server' events ++
        if server = server' then sentBy u (out.filterMap Event.answered) else [] := by
    intro server'
    rw [answeredTo, List.filterMap_append, filterMap_served, List.filterMap_append, sentBy_append]
    split
    · rfl
    · rfl
  refine inv.of_same rfl rfl (fun server' => Link.arrived_post ..) ?_ ?_
  · intro server' inServers'
    rw [answered_eq]
    have before := inv.answered server' inServers'
    split
    next here =>
      subst here
      cases served with
      | none nothing =>
          rw [nothing, List.append_nil]
          exact before
      | answer waits made called asked request earlier all =>
          have succ := TableJob.gets_succ_get server called
          rw [Nat.sub_add_cancel made, if_neg asked] at succ
          rw [request, earlier, succ]
    next => rw [List.append_nil]; exact before
  · intro keys waiting server' inServers' reply inSent
    by_cases here : server' = server
    · subst here
      dsimp only [serve] at inSent
      rw [Link.sent_post, pushedTo_of_genuine genuine] at inSent
      cases served with
      | none nothing =>
          rw [nothing, List.map_nil, List.append_nil] at inSent
          exact waiting.answers server' inServers' reply inSent
      | @answer keys' waits made called asked request earlier all =>
          obtain rfl : keys' = keys := by
            cases called.symm.trans waiting.called
            rfl
          have sent := length_sent answers wires inServers u
          rw [earlier] at sent
          rw [request, List.map_singleton, ← sent, List.drop_left, List.mem_singleton] at inSent
          have run := projected'.run
          dsimp only [serve] at run
          rw [Function.update_self] at run
          refine ⟨taken ++ [msg], model, _, run, inSent, ?_,
            fun v memberV => taken_eq_stream wires' inServers projected' memberV, ?_⟩
          · rw [Nat.sub_add_cancel made]
            exact all
          · have total := congrArg List.length (answered_eq server')
            rw [if_pos rfl, request, earlier] at total
            rw [Nat.sub_add_cancel made, waiting.length_gets server', if_neg asked]
            rw [List.length_append] at total
            exact total
    · dsimp only [serve] at inSent
      rw [Link.post_of_ne here] at inSent
      exact waiting.answers server' inServers' reply inSent

/-! ## The replies that arrive -/

/-- The next reply of a server is for the `Get` the worker waits in, and the first of this server. -/
structure Arrives (storage : Model → Storage Val) (state : TableSystem job) (server w : Tid)
    (keys : List Key) (msg : Message Val) : Prop where
  waits : (state.clients w).waits = true
  waiting : Waiting storage state w keys
  owner : server ∈ job.owners keys
  first : state.arrivedFrom w server = []
  more : (state.clients w).tracker.2 < (state.clients w).tracker.1
  answered : job.Answered storage state.calls server w (state.calls w - 1) keys msg

theorem arrives (answers : ∀ server ∈ job.servers, AnswersGets (job.start server) job.workers storage)
    (wires : state.WireInv events) (inv : ClientInv storage state events w) (inServers : server ∈ job.servers)
    (next : (state.replies server w).inFlight = msg :: rest) : ∃ keys, Arrives storage state server w keys msg := by
  have sent_eq : (state.replies server w).sent = (state.replies server w).arrived ++ msg :: rest := by
    rw [Link.sent, next]
  have behind : (state.replies server w).arrived.length < (job.gets server w (state.calls w)).length := by
    have bound := (inv.answered server inServers).length_le
    rw [← length_sent (answers server inServers) wires inServers, sent_eq, List.length_append,
      List.length_cons] at bound
    omega
  cases waits : (state.clients w).waits with
  | false =>
      have idle := inv.idle waits server inServers
      omega
  | true =>
      obtain ⟨keys, waiting⟩ := inv.waiting waits
      have started := waiting.started server inServers
      have count := waiting.length_gets server
      by_cases asked : job.asked server keys = []
      · rw [if_pos asked] at count
        omega
      · rw [if_neg asked] at count
        have owner := TableJob.mem_owners.mpr ⟨inServers, asked⟩
        have here : (state.replies server w).arrived.length =
            (job.gets server w (state.calls w - 1)).length := by omega
        have first : state.arrivedFrom w server = [] := List.drop_eq_nil_of_le (Nat.le_of_eq here)
        refine ⟨keys, waits, waiting, owner, first, ?_, ?_⟩
        · have few : (state.gathered w keys).length ≤ (job.owners keys).length :=
            Gather.length_le fun other owner => waiting.arrivedFrom_le_one
              (answers other (TableJob.mem_owners.mp owner).1) wires inv owner
          have tracker := waiting.tracker
          have notAll : (state.clients w).tracker.1 ≠ (state.clients w).tracker.2 := by
            intro all
            obtain ⟨reply, -, one⟩ := Gather.item_of_mem (waiting.complete answers wires inv all) owner
            rw [first] at one
            cases one
          rw [tracker] at notAll ⊢
          exact Nat.lt_of_le_of_ne few (Ne.symm notAll)
        · refine waiting.answers server inServers msg ?_
          rw [sent_eq, ← here, List.drop_left]
          exact List.mem_cons_self

theorem kvs_of_answered {calls : Tid → Nat} {call : Nat} {reply : Message Val}
    (answered : job.Answered storage calls server w call keys reply) :
    reply.kvs.keys = job.asked server keys ∧ reply.kvs.vals.length = reply.kvs.keys.length ∧
      ∃ vals, reply.data = [.u32 (job.asked server keys), .val vals] := by
  obtain ⟨taken, model, events, answers⟩ := answered
  rw [answers.reply_eq]
  refine ⟨rfl, ?_, _, rfl⟩
  change ((job.asked server keys).map (storage model).value).length = (job.asked server keys).length
  exact List.length_map _

omit [AddCommMonoid Val] in
theorem addResponse_spec {client client' : TableClient Val} {finished : Option (List Val)}
    {asked : List Key} {values : List Val} (data : msg.data = [.u32 asked, .val values])
    (added : client.addResponse msg = .ok (client', finished)) :
    client'.waits = client.waits ∧ client'.keys = client.keys ∧
      client'.tracker = (client.tracker.1, client.tracker.2 + 1) ∧
      (client.tracker.1 = client.tracker.2 + 1 → ∃ vals, finished = some vals ∧
        KVTableBox.handleFinish ⟨client.table.box.recvKvs ++ [msg.kvs]⟩ client.keys = .ok (vals, ⟨[]⟩) ∧
        client'.table.box.recvKvs = []) ∧
      (client.tracker.1 ≠ client.tracker.2 + 1 → finished = none ∧
        client'.table.box.recvKvs = client.table.box.recvKvs ++ [msg.kvs]) := by
  have handled : client.table.box.handleMsg msg = .ok ⟨client.table.box.recvKvs ++ [msg.kvs]⟩ := by
    simp only [KVTableBox.handleMsg, Message.kvs, data]
  simp only [TableClient.addResponse, handled, Except.ok_bind] at added
  split at added
  next last =>
    obtain ⟨⟨vals, box⟩, finish, added⟩ := Except.bind_eq_ok.mp added
    cases added
    have emptied : box = ⟨[]⟩ := by
      obtain ⟨_, -, rest⟩ := Except.bind_eq_ok.mp finish
      obtain ⟨_, -, rest⟩ := Except.bind_eq_ok.mp rest
      cases rest
      rfl
    subst emptied
    exact ⟨rfl, rfl, rfl, fun _ => ⟨vals, rfl, finish, rfl⟩, fun other => absurd last other⟩
  next other =>
    cases added
    exact ⟨rfl, rfl, rfl, fun last => absurd last other, fun _ => ⟨rfl, rfl⟩⟩

omit [AddCommMonoid Val] [AbstractModel Val Model] in
theorem arrivedFrom_respond (client : TableClient Val)
    (next : (state.replies server w).inFlight = msg :: rest) (other : Tid)
    (late : (job.gets other w (state.calls w - 1)).length ≤ (state.replies other w).arrived.length) :
    (state.respond server w client).arrivedFrom w other =
      state.arrivedFrom w other ++ if other = server then [msg] else [] := by
  dsimp only [arrivedFrom, respond]
  rw [Link.set_apply]
  by_cases same : other = server
  · subst same
    rw [if_pos ⟨rfl, rfl⟩, if_pos rfl, Link.receive_eq next, List.drop_append_of_le_length late]
  · rw [if_neg fun both => same both.1, if_neg same, List.append_nil]

theorem gathered_respond (apart : job.servers.Nodup) (arrives : Arrives storage state server w keys msg)
    (client : TableClient Val) (next : (state.replies server w).inFlight = msg :: rest) :
    ((state.respond server w client).gathered w keys).Perm (state.gathered w keys ++ [msg]) := by
  have distinct : (job.owners keys).Nodup := apart.sublist List.filter_sublist
  have late : ∀ other ∈ job.owners keys, (job.gets other w (state.calls w - 1)).length ≤
      (state.replies other w).arrived.length :=
    fun other owner => arrives.waiting.started other (TableJob.mem_owners.mp owner).1
  apply Gather.flatMap_arrival distinct arrives.owner
  · rw [arrivedFrom_respond client next server (late server arrives.owner), if_pos rfl]
  · intro other owner apart
    rw [arrivedFrom_respond client next other (late other owner), if_neg apart, List.append_nil]

theorem client_respond (apart : job.servers.Nodup) (inv : ClientInv storage state events w)
    (arrives : Arrives storage state server w keys msg)
    (next : (state.replies server w).inFlight = msg :: rest) {client : TableClient Val}
    {finished : Option (List Val)} (added : (state.clients w).addResponse msg = .ok (client, finished))
    {events' : List (TableEvent Val)} (same : ∀ server, answeredTo w server events' = answeredTo w server events) :
    ClientInv storage (state.respond server w client) events' w := by
  obtain ⟨-, -, values, data⟩ := kvs_of_answered arrives.answered
  obtain ⟨waits, keys_eq, tracker, lastOne, notLast⟩ := addResponse_spec data added
  have client_same : (state.respond server w client).clients w = client := Function.update_self ..
  have more := gathered_respond apart arrives client next
  have waiting := arrives.waiting
  constructor
  case answered =>
    intro server inServers
    rw [same]
    exact inv.answered server inServers
  case idle =>
    intro outside
    rw [client_same, waits, arrives.waits] at outside
    cases outside
  case waiting =>
    intro _
    refine ⟨keys, waiting.made, waiting.called, ?_, ?_, ?_, ?_⟩
    · rw [client_same, keys_eq]
      exact waiting.keys_eq
    · rw [client_same, tracker, more.length_eq, List.length_append, waiting.tracker]
      rfl
    · intro other inServers
      refine Nat.le_trans (waiting.started other inServers) ?_
      dsimp only [respond]
      rw [Link.set_apply]
      split
      next here =>
        obtain ⟨rfl, -⟩ := here
        rw [Link.receive_eq next, List.length_append]
        exact Nat.le_add_right _ _
      next => exact Nat.le_refl _
    · intro other inServers reply inSent
      have sent_same : ((state.respond server w client).replies other w).sent =
          (state.replies other w).sent := by
        dsimp only [respond]
        rw [Link.set_apply]
        split
        next here => rw [Link.sent_receive, here.1]
        next => rfl
      rw [sent_same] at inSent
      exact waiting.answers other inServers reply inSent
  case recvKvs =>
    rw [client_same, keys_eq, waiting.keys_eq, waits, tracker]
    have before := inv.recvKvs
    rw [if_pos ⟨arrives.waits, arrives.more⟩, waiting.keys_eq] at before
    by_cases last : (state.clients w).tracker.1 = (state.clients w).tracker.2 + 1
    · obtain ⟨_, -, -, emptied⟩ := lastOne last
      rw [emptied, if_neg fun both => by simp only at both; omega]
    · have waiting := arrives.more
      rw [(notLast last).2, if_pos ⟨arrives.waits, by simp only; omega⟩]
      have longer : (state.gathered w keys ++ [msg]).map Message.kvs =
          (state.gathered w keys).map Message.kvs ++ [msg.kvs] := by
        rw [List.map_append, List.map_singleton]
      exact (before.append_right _).trans (longer ▸ (more.map Message.kvs).symm)

theorem client_respond_other (inv : ClientInv storage state events w) {u : Tid} (other : w ≠ u)
    (client : TableClient Val) {events' : List (TableEvent Val)}
    (same : ∀ server, answeredTo w server events' = answeredTo w server events) :
    ClientInv storage (state.respond server u client) events' w := by
  have replies : ∀ server', (state.respond server u client).replies server' w = state.replies server' w := by
    intro server'
    dsimp only [respond]
    rw [Link.set_apply, if_neg fun both => other both.2]
  refine inv.of_same (Function.update_of_ne other _ _) rfl (fun server' => by rw [replies]) ?_ ?_
  · intro server' inServers
    rw [same]
    exact inv.answered server' inServers
  · intro keys waiting server' inServers
    rw [replies]
    exact waiting.answers server' inServers

/-! ## Runs -/

theorem client_start : ClientInv storage (start job) [] w where
  answered _ _ := List.nil_prefix
  idle _ _ _ := rfl
  waiting waits := by cases waits
  recvKvs := List.Perm.refl _

theorem client_step (apart : job.servers.Nodup)
    (answers : ∀ server ∈ job.servers, AnswersGets (job.start server) job.workers storage)
    (wires : state.WireInv events) (inv : ∀ w ∈ job.workers, ClientInv storage state events w)
    {input : TableInput} {out : List (TableEvent Val)} (stepped : Stepped state input state' out) :
    ∀ w ∈ job.workers, ClientInv storage state' (events ++ out) w := by
  intro u member
  cases stepped with
  | @call w call client msgs memberW idle next called =>
      rw [List.append_nil]
      by_cases same : u = w
      · subst same
        exact client_call apart answers wires (inv u member) idle next called
      · exact client_call_other (inv u member) same client msgs
  | @finish w memberW waits all =>
      rw [List.append_nil]
      by_cases same : u = w
      · subst same
        exact client_finish answers wires (inv u member) waits all
      · exact client_finish_other (inv u member) same
  | serve inServers memberW next handled =>
      exact client_serve (answers _ inServers) wires (inv u member) inServers memberW member next handled
  | @respond server w msg rest client finished inServers memberW next added =>
      have same_events : ∀ server, answeredTo u server
          (events ++ finished.toList.map (TableEvent.gotten w (state.calls w - 1))) =
            answeredTo u server events := by
        intro server
        rw [answeredTo, List.filterMap_append]
        cases finished with
        | none => rw [Option.toList_none, List.map_nil, List.filterMap_nil, List.append_nil, answeredTo]
        | some vals => exact congrArg (fun list => sentBy u (list.filterMap Event.answered)) (List.append_nil _)
      by_cases same : u = w
      · subst same
        obtain ⟨keys, arrives⟩ := arrives answers wires (inv u member) inServers next
        exact client_respond apart (inv u member) arrives next added same_events
      · exact client_respond_other (inv u member) same client same_events

theorem client_run (apart : job.servers.Nodup)
    (answers : ∀ server ∈ job.servers, AnswersGets (job.start server) job.workers storage)
    {inputs : List TableInput} (run : Run job inputs state events) :
    ∀ w ∈ job.workers, ClientInv storage state events w := by
  refine run.invariant (P := fun _ state events => ∀ w ∈ job.workers, ClientInv storage state events w)
    (fun _ _ => client_start) ?_
  intro _ state events input state' out run inv admitted stepped
  exact client_step apart answers (wire_run apart run) inv (step_cases admitted stepped)

omit [AddCommMonoid Val] in
theorem calls_step {input : TableInput} {out : List (TableEvent Val)}
    (stepped : Stepped state input state' out) (u : Tid) : state.calls u ≤ state'.calls u := by
  cases stepped with
  | @call w call client msgs member idle next called =>
      dsimp only [makeCall]
      by_cases same : u = w
      · rw [same, Function.update_self]
        exact Nat.le_succ _
      · rw [Function.update_of_ne same]
  | finish _ _ _ => exact Nat.le_refl _
  | serve _ _ _ _ => exact Nat.le_refl _
  | respond _ _ _ _ => exact Nat.le_refl _

/-- What the finish handle writes when every owner has sent its answer. -/
theorem handleFinish_answers (sortedKeys : job.SortedKeys) {call : Nat} {calls : Tid → Nat}
    (called : (job.program w)[call]? = some (.get keys)) (some_key : keys ≠ []) {replies : List (Message Val)}
    (each : List.Forall₂ (fun server reply => job.Answered storage calls server w call keys reply)
      (job.owners keys) replies) {recvKvs : List (KVPairs Val)}
    (received : recvKvs.Perm (replies.map Message.kvs)) {vals : List Val} {box : KVTableBox Val}
    (finished : KVTableBox.handleFinish ⟨recvKvs⟩ keys = .ok (vals, box)) :
    vals.length = keys.length ∧
      keys.zip vals = replies.flatMap fun reply => reply.kvs.keys.zip reply.kvs.vals := by
  obtain ⟨sorted, inside⟩ := sortedKeys.get w keys (List.mem_of_getElem? called)
  obtain ⟨sliced, cut⟩ : ∃ sliced, job.manager.slice (⟨keys, []⟩ : KVPairs Val) = .ok sliced :=
    ⟨_, SimpleRangePartitionManager.slice_of_cuts sortedKeys.sound.some_range sortedKeys.sound.contiguous
      some_key (.inl sorted) (Nat.zero_mul _).symm⟩
  have replied : Replies sliced (replies.map Message.kvs) := by
    apply SimpleRangePartitionManager.replies_of_owners sortedKeys.sound.apart cut
    rw [List.forall₂_map_right_iff]
    refine each.imp fun server reply answered => ?_
    obtain ⟨keys_eq, sized, -⟩ := kvs_of_answered answered
    exact ⟨keys_eq, sized⟩
  have inOrder := replied.inOrder sortedKeys.sound.some_range sortedKeys.sound.contiguous some_key
    (.inl sorted) inside cut
  have vals_eq : vals = (replies.map Message.kvs).flatMap KVPairs.vals := by
    obtain ⟨_, -, rest⟩ := Except.bind_eq_ok.mp finished
    obtain ⟨_, -, rest⟩ := Except.bind_eq_ok.mp rest
    rw [inOrder.sort_eq received] at rest
    cases rest
    rfl
  refine ⟨vals_eq ▸ inOrder.vals_length, ?_⟩
  have zipped := InOrder.zip_flatMap inOrder.sized
  rw [inOrder.keys_eq] at zipped
  rw [vals_eq, zipped, List.flatMap_map]

/-- With the last reply, a worker has one answer of every owner. -/
theorem last_answers (apart : job.servers.Nodup)
    (answers : ∀ server ∈ job.servers, AnswersGets (job.start server) job.workers storage)
    (wires : state.WireInv events) (inv : ClientInv storage state events w)
    (arrives : Arrives storage state server w keys msg)
    (next : (state.replies server w).inFlight = msg :: rest)
    (last : (state.clients w).tracker.1 = (state.clients w).tracker.2 + 1) :
    ∃ replies, List.Forall₂ (fun server reply =>
        job.Answered storage state.calls server w (state.calls w - 1) keys reply) (job.owners keys) replies ∧
      ((state.clients w).table.box.recvKvs ++ [msg.kvs]).Perm (replies.map Message.kvs) := by
  have waiting := arrives.waiting
  have more := gathered_respond apart arrives (state.clients w) next
  let after : TableSystem job := state.respond server w (state.clients w)
  have late : ∀ other ∈ job.owners keys, (job.gets other w (state.calls w - 1)).length ≤
      (state.replies other w).arrived.length :=
    fun other owner => waiting.started other (TableJob.mem_owners.mp owner).1
  have handed : ∀ other ∈ job.owners keys, after.arrivedFrom w other =
      state.arrivedFrom w other ++ if other = server then [msg] else [] :=
    fun other owner => arrivedFrom_respond (state.clients w) next other (late other owner)
  have once : ∀ other ∈ job.owners keys, (after.arrivedFrom w other).length ≤ 1 := by
    intro other owner
    rw [handed other owner]
    by_cases same : other = server
    · rw [if_pos same, same, arrives.first]
      exact Nat.le_refl 1
    · rw [if_neg same, List.append_nil]
      exact waiting.arrivedFrom_le_one (answers other (TableJob.mem_owners.mp owner).1) wires inv owner
  have all : (after.gathered w keys).length = (job.owners keys).length := by
    rw [more.length_eq, List.length_append, List.length_singleton]
    rw [waiting.tracker] at last
    exact last.symm
  refine ⟨after.gathered w keys, ?_, ?_⟩
  · refine ((List.forall₂_and_left _ _).mpr ⟨fun _ owner => owner, Gather.complete once all⟩).imp ?_
    rintro other reply ⟨owner, one⟩
    have inServers := (TableJob.mem_owners.mp owner).1
    have member : reply ∈ after.arrivedFrom w other := one ▸ List.mem_singleton_self reply
    rw [handed other owner] at member
    rcases List.mem_append.mp member with before | now
    · refine waiting.answers other inServers reply ?_
      rw [Link.sent, List.drop_append_of_le_length (late other owner)]
      exact List.mem_append_left _ before
    · split at now
      next here =>
        rw [List.mem_singleton.mp now, here]
        exact arrives.answered
      next => cases now
  · have before := inv.recvKvs
    rw [if_pos ⟨arrives.waits, arrives.more⟩, waiting.keys_eq] at before
    have longer : (state.gathered w keys ++ [msg]).map Message.kvs =
        (state.gathered w keys).map Message.kvs ++ [msg.kvs] := by
      rw [List.map_append, List.map_singleton]
    exact (before.append_right _).trans (longer ▸ (more.map Message.kvs).symm)

/-- What a worker has got are the answers of the owners of its keys, each from a state of its server
    in which it had taken everything that the worker has sent before. -/
theorem gotten_run (sortedKeys : job.SortedKeys)
    (answers : ∀ server ∈ job.servers, AnswersGets (job.start server) job.workers storage)
    {inputs : List TableInput} (run : Run job inputs state events) {call : Nat} {vals : List Val}
    (got : .gotten w call vals ∈ events) :
    w ∈ job.workers ∧ ∃ keys replies, (job.program w)[call]? = some (.get keys) ∧
      List.Forall₂ (fun server reply => job.Answered storage state.calls server w call keys reply)
        (job.owners keys) replies ∧
      vals.length = keys.length ∧
      keys.zip vals = replies.flatMap fun reply => reply.kvs.keys.zip reply.kvs.vals := by
  refine run.invariant (P := fun _ state events => .gotten w call vals ∈ events →
    w ∈ job.workers ∧ ∃ keys replies, (job.program w)[call]? = some (.get keys) ∧
      List.Forall₂ (fun server reply => job.Answered storage state.calls server w call keys reply)
        (job.owners keys) replies ∧
      vals.length = keys.length ∧
      keys.zip vals = replies.flatMap fun reply => reply.kvs.keys.zip reply.kvs.vals)
    (fun member => by cases member) ?_ got
  intro _ state events input state' out run earlier admitted stepped got
  have taken := step_cases admitted stepped
  have apart : job.servers.Nodup := sortedKeys.sound.apart
  have wires := wire_run apart run
  rcases List.mem_append.mp got with before | now
  · obtain ⟨member, keys, replies, called, each, result⟩ := earlier before
    exact ⟨member, keys, replies, called, each.imp fun _ _ => answered_mono (calls_step taken), result⟩
  · cases taken with
    | call _ _ _ _ => cases now
    | finish _ _ _ => cases now
    | serve _ _ _ _ =>
        obtain ⟨event, -, same⟩ := List.mem_map.mp now
        cases same
    | @respond server w' msg rest client finished inServers member next added =>
        obtain ⟨vals', inFinished, same⟩ := List.mem_map.mp now
        cases same
        have inv := client_run apart answers run w member
        obtain ⟨keys, arrives⟩ := arrives answers wires inv inServers next
        obtain ⟨-, -, values, data⟩ := kvs_of_answered arrives.answered
        obtain ⟨-, -, -, lastOne, notLast⟩ := addResponse_spec data added
        by_cases last : (state.clients w).tracker.1 = (state.clients w).tracker.2 + 1
        · obtain ⟨vals', rfl, finished, -⟩ := lastOne last
          cases Option.mem_toList.mp inFinished
          obtain ⟨replies, each, received⟩ := last_answers apart answers wires inv arrives next last
          rw [arrives.waiting.keys_eq] at finished
          have some_key : keys ≠ [] := SimpleRangePartitionManager.keys_of_part
            (TableJob.mem_owners.mp arrives.owner).2
          exact ⟨member, keys, replies, arrives.waiting.called, each,
            handleFinish_answers sortedKeys arrives.waiting.called some_key each received finished⟩
        · obtain ⟨rfl, -⟩ := notLast last
          cases inFinished

end TableSystem

end FlexPS
