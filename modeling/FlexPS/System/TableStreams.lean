import FlexPS.Server.Histories
import FlexPS.System.TableSystem

/-! # What the clients of a table send to one server

A call sends at most one message to a server, and the messages of a worker reach the server in
the order of the program. What a server has taken of a worker is what the worker has sent to it so
far, less what is on its way.
-/

namespace FlexPS

variable {Val Model : Type}

/-! ## The stream of one worker to one server -/

namespace TableJob

variable (job : TableJob Val Model)

def getMsg (server w : Tid) (keys : List Key) : Message Val :=
  { sender := w, recver := server, modelId := job.modelId, flag := .kGet, version := 0,
    data := [.u32 keys] }

def addMsg (server w : Tid) (kvs : KVPairs Val) : Message Val :=
  { sender := w, recver := server, modelId := job.modelId, flag := .kAdd, version := 0,
    data := [.u32 kvs.keys, .val kvs.vals] }

def clockMsg (server w : Tid) : Message Val :=
  { sender := w, recver := server, modelId := job.modelId, flag := .kClock, version := 0, data := [] }

/-- The part of a `Get` that one server is asked for. -/
def asked (server : Tid) (keys : List Key) : List Key :=
  (job.manager.part (⟨keys, []⟩ : KVPairs Val) server).keys

/-- What a call of a worker sends to one server. -/
def request (server w : Tid) : ClientCall Val → Option (Message Val)
  | .get keys =>
      if job.asked server keys = [] then none else some (job.getMsg server w (job.asked server keys))
  | .add kvs =>
      if (job.manager.part kvs server).keys = [] then none
      else some (job.addMsg server w (job.manager.part kvs server))
  | .clock => some (job.clockMsg server w)

/-- What the first `calls` calls of a worker send to one server. -/
def stream (server w : Tid) (calls : Nat) : List (Message Val) :=
  ((job.program w).take calls).filterMap (job.request server w)

/-- Contiguous ranges, one for each of different servers; the keys of every request are sorted,
    those of a `Get` inside the ranges, and an `Add` has a value for each. -/
structure SortedKeys : Prop where
  sound : job.manager.Sound
  get : ∀ w, ∀ keys, .get keys ∈ job.program w →
    keys.Pairwise (· ≤ ·) ∧ ∀ key ∈ keys, job.manager.span.Owns key
  add : ∀ w, ∀ kvs, .add kvs ∈ job.program w →
    kvs.keys.Pairwise (· ≤ ·) ∧ kvs.vals.length = kvs.keys.length

/-- Contiguous ranges, one for each of different servers; every request of a program has sorted
    keys, at least one, and an `Add` has a value for each. -/
structure Valid : Prop where
  sound : job.manager.Sound
  get : ∀ w, ∀ keys, .get keys ∈ job.program w →
    keys ≠ [] ∧ keys.Pairwise (· ≤ ·) ∧ ∀ key ∈ keys, job.manager.span.Owns key
  add : ∀ w, ∀ kvs, .add kvs ∈ job.program w →
    kvs.keys ≠ [] ∧ kvs.keys.Pairwise (· ≤ ·) ∧ kvs.vals.length = kvs.keys.length

variable {job} {server w : Tid} {calls : Nat} {call : ClientCall Val}

theorem Valid.sortedKeys (valid : job.Valid) : job.SortedKeys where
  sound := valid.sound
  get w keys called := (valid.get w keys called).2
  add w kvs called := (valid.add w kvs called).2

theorem stream_succ (next : (job.program w)[calls]? = some call) :
    job.stream server w (calls + 1) = job.stream server w calls ++ (job.request server w call).toList := by
  rw [stream, List.take_add_one, next, Option.toList_some, List.filterMap_append, ← stream,
    List.filterMap_cons]
  cases job.request server w call with
  | none => rfl
  | some msg => rfl

theorem stream_mono {calls' : Nat} (le : calls ≤ calls') :
    job.stream server w calls <+: job.stream server w calls' :=
  (List.take_prefix_take_left le).filterMap _

theorem request_eq {msg : Message Val} (sent : job.request server w call = some msg) :
    msg.sender = w ∧ msg.recver = server ∧
      (msg.flag = .kClock ∨ msg.flag = .kAdd ∨ msg.flag = .kGet) := by
  cases call with
  | get keys =>
      rw [request] at sent
      split at sent
      · cases sent
      · cases sent
        exact ⟨rfl, rfl, .inr (.inr rfl)⟩
  | add kvs =>
      rw [request] at sent
      split at sent
      · cases sent
      · cases sent
        exact ⟨rfl, rfl, .inr (.inl rfl)⟩
  | clock =>
      cases sent
      exact ⟨rfl, rfl, .inl rfl⟩

theorem mem_stream {msg : Message Val} (member : msg ∈ job.stream server w calls) :
    msg.sender = w ∧ msg.recver = server ∧
      (msg.flag = .kClock ∨ msg.flag = .kAdd ∨ msg.flag = .kGet) := by
  obtain ⟨call, -, sent⟩ := List.mem_filterMap.mp member
  exact request_eq sent

/-! ## Calls -/

variable (job) in
/-- The table of a worker. -/
def table (w : Tid) (box : KVTableBox Val) : KVClientTable Val := ⟨w, job.modelId, job.manager, box⟩

variable (job) in
/-- The client after a call. -/
def afterCall (client : TableClient Val) : ClientCall Val → TableClient Val
  | .get keys => { client with
      tracker := ((job.manager.owners (⟨keys, []⟩ : KVPairs Val)).length, 0), keys, waits := true }
  | .add _ | .clock => client

theorem filter_send (apart : job.servers.Nodup) {send : KVPairs Val} {sliced : SlicedKVs Val}
    (cut : job.manager.slice send = .ok sliced) (box : KVTableBox Val) (isAdd : Bool) (server : Tid) :
    (((job.table w box).send sliced isAdd).filter fun msg => msg.recver = server) =
      (if (job.manager.part send server).keys = [] then none
        else some (if isAdd then job.addMsg server w (job.manager.part send server)
          else job.getMsg server w (job.manager.part send server).keys)).toList := by
  have slices := SimpleRangePartitionManager.filter_slices apart cut server
  rw [KVClientTable.send, List.filter_map]
  simp only [Function.comp_def, slices]
  by_cases empty : (job.manager.part send server).keys = []
  · simp only [if_pos empty, List.map_nil, Option.toList_none]
  · simp only [if_neg empty, List.map_singleton, Option.toList_some]
    cases isAdd with
    | true => rfl
    | false => rfl

theorem filter_clock (apart : job.servers.Nodup) (box : KVTableBox Val) (member : server ∈ job.servers) :
    ((job.table w box).clock.filter fun msg => msg.recver = server) = [job.clockMsg server w] := by
  have once : (job.servers.filter fun other => other = server) = [server] := by
    rw [List.filter_eq, List.count_eq_one_of_mem apart member, List.replicate_one]
  rw [KVClientTable.clock, List.filter_map]
  change ((job.servers.filter fun other => other = server).map _) = _
  rw [once]
  rfl

/-- A call sends every server its part. -/
theorem call_spec (apart : job.servers.Nodup) {client client' : TableClient Val} {msgs : List (Message Val)}
    (own : client.table = job.table w client.table.box) (called : client.call call = .ok (client', msgs)) :
    client' = job.afterCall client call ∧ ∀ server ∈ job.servers,
      (msgs.filter fun msg => msg.recver = server) = (job.request server w call).toList := by
  generalize client.table.box = box at own
  cases call with
  | get keys =>
      obtain ⟨⟨expected, msgs'⟩, got, called⟩ := Except.bind_eq_ok.mp called
      obtain ⟨sliced, cut, got⟩ := Except.bind_eq_ok.mp got
      rw [own] at cut
      cases got
      cases called
      have receivers := SimpleRangePartitionManager.receivers_eq apart cut
      refine ⟨?_, fun server _ => ?_⟩
      · have count := congrArg List.length receivers
        rw [List.length_map] at count
        rw [count]
        rfl
      · rw [own]
        exact filter_send apart cut box false server
  | add kvs =>
      obtain ⟨msgs', added, called⟩ := Except.bind_eq_ok.mp called
      obtain ⟨sliced, cut, added⟩ := Except.bind_eq_ok.mp added
      rw [own] at cut
      cases added
      cases called
      refine ⟨rfl, fun server _ => ?_⟩
      rw [own]
      exact filter_send apart cut box true server
  | clock =>
      cases called
      refine ⟨rfl, fun server member => ?_⟩
      rw [own]
      exact filter_clock apart box member

end TableJob

/-! ## The projection to a server -/

namespace TableSystem

variable {job : TableJob Val Model}

section Invariant

variable [AbstractModel Val Model]

/-- A server alone has taken `taken`, of each worker what has arrived. -/
structure Projected (state : TableSystem job) (events : List (TableEvent Val)) (server : Tid)
    (taken : List (Message Val)) : Prop where
  run : ModelRun (job.start server) job.workers taken (state.servers server)
    (events.filterMap (TableEvent.at? server))
  of_worker : ∀ w ∈ job.workers, sentBy w taken = (state.requests w server).arrived

/-- What is on the links. -/
structure WireInv (state : TableSystem job) (events : List (TableEvent Val)) : Prop where
  own : ∀ w, (state.clients w).table = job.table w (state.clients w).table.box
  inTime : ∀ w, state.calls w ≤ (job.program w).length
  sent : ∀ w, ∀ server ∈ job.servers,
    (state.requests w server).sent = job.stream server w (state.calls w)
  projected : ∀ server ∈ job.servers, ∃ taken, state.Projected events server taken
  replied : ∀ server w, (state.replies server w).sent =
    ((events.filterMap (TableEvent.at? server)).filterMap Event.pushed).filter fun msg => msg.recver = w

end Invariant

/-- What a step does when it is taken. -/
inductive Stepped [AbstractModel Val Model] (state : TableSystem job) :
    TableInput → TableSystem job → List (TableEvent Val) → Prop where
  | call {w : Tid} {call : ClientCall Val} {client : TableClient Val} {msgs : List (Message Val)}
      (member : w ∈ job.workers) (idle : (state.clients w).waits = false)
      (next : (job.program w)[state.calls w]? = some call)
      (called : (state.clients w).call call = .ok (client, msgs)) :
      Stepped state (.call w) (state.makeCall w client msgs) []
  | finish {w : Tid} (member : w ∈ job.workers) (waits : (state.clients w).waits = true)
      (all : (state.clients w).tracker.1 = (state.clients w).tracker.2) :
      Stepped state (.finish w) (state.finish w) []
  | serve {server w : Tid} {msg : Message Val} {rest : List (Message Val)} {model : Model}
      {out : List (Event Val)} (inServers : server ∈ job.servers) (member : w ∈ job.workers)
      (next : (state.requests w server).inFlight = msg :: rest)
      (handled : AbstractModel.handle (state.servers server) msg = .ok (model, out)) :
      Stepped state (.serve server w) (state.serve server w model out) (out.map (.served server))
  | respond {server w : Tid} {msg : Message Val} {rest : List (Message Val)} {client : TableClient Val}
      {finished : Option (List Val)} (inServers : server ∈ job.servers) (member : w ∈ job.workers)
      (next : (state.replies server w).inFlight = msg :: rest)
      (added : (state.clients w).addResponse msg = .ok (client, finished)) :
      Stepped state (.respond server w) (state.respond server w client)
        (finished.toList.map (.gotten w (state.calls w - 1)))

variable [AbstractModel Val Model] {state state' : TableSystem job} {events : List (TableEvent Val)}
  {server w : Tid}

theorem step_cases {input : TableInput} {out : List (TableEvent Val)}
    (admitted : state.Enabled events input) (stepped : state.step input = .ok (state', out)) :
    Stepped state input state' out := by
  cases input with
  | call w =>
      obtain ⟨member, idle, more⟩ := admitted
      have next : (job.program w)[state.calls w]? = some _ := List.getElem?_eq_getElem more
      simp only [step, next] at stepped
      obtain ⟨⟨client, msgs⟩, called, stepped⟩ := Except.bind_eq_ok.mp stepped
      cases stepped
      exact .call member idle next called
  | finish w =>
      obtain ⟨member, waits, all⟩ := admitted
      cases stepped
      exact .finish member waits all
  | serve server w =>
      obtain ⟨inServers, member, some_request⟩ := admitted
      obtain ⟨msg, rest, next⟩ := List.exists_cons_of_ne_nil some_request
      simp only [step, next] at stepped
      obtain ⟨⟨model, out⟩, handled, stepped⟩ := Except.bind_eq_ok.mp stepped
      cases stepped
      exact .serve inServers member next handled
  | respond server w =>
      obtain ⟨inServers, member, some_reply⟩ := admitted
      obtain ⟨msg, rest, next⟩ := List.exists_cons_of_ne_nil some_reply
      simp only [step, next] at stepped
      obtain ⟨⟨client, finished⟩, added, stepped⟩ := Except.bind_eq_ok.mp stepped
      cases stepped
      exact .respond inServers member next added

/-! ### Every step keeps the projection -/

theorem wire_call (apart : job.servers.Nodup) (inv : state.WireInv events) {call : ClientCall Val}
    {client : TableClient Val} {msgs : List (Message Val)}
    (next : (job.program w)[state.calls w]? = some call)
    (called : (state.clients w).call call = .ok (client, msgs)) :
    (state.makeCall w client msgs).WireInv events := by
  obtain ⟨client_eq, sends⟩ := TableJob.call_spec apart (inv.own w) called
  constructor
  case own =>
    intro u
    dsimp only [makeCall]
    by_cases same : u = w
    · subst same
      have own := inv.own u
      rw [Function.update_self, client_eq]
      cases call with
      | get keys => exact own
      | add kvs => exact own
      | clock => exact own
    · rw [Function.update_of_ne same]
      exact inv.own u
  case inTime =>
    intro u
    dsimp only [makeCall]
    by_cases same : u = w
    · subst same
      obtain ⟨inside, -⟩ := List.getElem?_eq_some_iff.mp next
      rw [Function.update_self]
      exact inside
    · rw [Function.update_of_ne same]
      exact inv.inTime u
  case sent =>
    intro u server inServers
    dsimp only [makeCall]
    by_cases same : u = w
    · subst same
      rw [Link.sent_post, Function.update_self, inv.sent u server inServers, sends server inServers,
        TableJob.stream_succ next]
    · rw [Link.post_of_ne same, Function.update_of_ne same]
      exact inv.sent u server inServers
  case projected =>
    intro server inServers
    obtain ⟨taken, projected⟩ := inv.projected server inServers
    refine ⟨taken, projected.run, fun u member => ?_⟩
    dsimp only [makeCall]
    rw [Link.arrived_post]
    exact projected.of_worker u member
  case replied => exact inv.replied

theorem wire_finish (inv : state.WireInv events) : (state.finish w).WireInv events where
  own u := by
    dsimp only [finish]
    by_cases same : u = w
    · subst same
      rw [Function.update_self]
      exact inv.own u
    · rw [Function.update_of_ne same]
      exact inv.own u
  inTime := inv.inTime
  sent := inv.sent
  projected server inServers := by
    obtain ⟨taken, projected⟩ := inv.projected server inServers
    exact ⟨taken, projected.run, projected.of_worker⟩
  replied := inv.replied

theorem addResponse_table {client client' : TableClient Val} {msg : Message Val}
    {finished : Option (List Val)} (added : client.addResponse msg = .ok (client', finished)) :
    client' = { client with
      table := { client.table with box := client'.table.box }
      tracker := (client.tracker.1, client.tracker.2 + 1) } := by
  obtain ⟨box, -, added⟩ := Except.bind_eq_ok.mp added
  split at added
  · obtain ⟨⟨vals, box'⟩, -, added⟩ := Except.bind_eq_ok.mp added
    cases added
    rfl
  · cases added
    rfl

omit [AbstractModel Val Model] in
theorem filterMap_served (server server' : Tid) (out : List (Event Val)) :
    (out.map (TableEvent.served server)).filterMap (TableEvent.at? server') =
      if server = server' then out else [] := by
  rw [List.filterMap_map]
  split
  next same =>
    have at_eq : TableEvent.at? server' ∘ TableEvent.served server = (some : Event Val → _) := by
      funext event
      simp only [Function.comp_apply, TableEvent.at?, if_pos same]
    rw [at_eq, List.filterMap_some]
  next apart =>
    apply List.filterMap_eq_nil_iff.mpr
    intro event _
    simp only [Function.comp_apply, TableEvent.at?, if_neg apart]

theorem wire_respond (inv : state.WireInv events) {client : TableClient Val} {msg : Message Val}
    {finished : Option (List Val)} {call : Nat}
    (added : (state.clients w).addResponse msg = .ok (client, finished)) :
    (state.respond server w client).WireInv (events ++ finished.toList.map (.gotten w call)) := by
  have at_eq : ∀ server, (events ++ finished.toList.map (TableEvent.gotten w call)).filterMap
      (TableEvent.at? server) = events.filterMap (TableEvent.at? server) := by
    intro server
    rw [List.filterMap_append]
    cases finished with
    | none => exact List.append_nil _
    | some vals => exact List.append_nil _
  constructor
  case own =>
    intro u
    dsimp only [respond]
    by_cases same : u = w
    · subst same
      have own := inv.own u
      rw [Function.update_self, addResponse_table added, own]
      rfl
    · rw [Function.update_of_ne same]
      exact inv.own u
  case inTime => exact inv.inTime
  case sent => exact inv.sent
  case projected =>
    intro server' inServers
    obtain ⟨taken, projected⟩ := inv.projected server' inServers
    refine ⟨taken, ?_, projected.of_worker⟩
    rw [at_eq]
    exact projected.run
  case replied =>
    intro server' u
    dsimp only [respond]
    rw [at_eq, ← inv.replied server' u, Link.set_apply]
    split
    next same => rw [Link.sent_receive, same.1, same.2]
    next => rfl

/-- The next message on the way to a server is one of its worker's. -/
theorem next_request (inv : state.WireInv events) (inServers : server ∈ job.servers)
    {msg : Message Val} {rest : List (Message Val)} (next : (state.requests w server).inFlight = msg :: rest) :
    msg.sender = w ∧ msg.recver = server ∧
      (msg.flag = .kClock ∨ msg.flag = .kAdd ∨ msg.flag = .kGet) := by
  have inSent : msg ∈ (state.requests w server).sent := by simp [Link.sent, next]
  rw [inv.sent w server inServers] at inSent
  exact TableJob.mem_stream inSent

theorem Projected.serve (inv : state.WireInv events) {taken : List (Message Val)}
    (projected : state.Projected events server taken) (inServers : server ∈ job.servers)
    (member : w ∈ job.workers) {msg : Message Val} {rest : List (Message Val)}
    (next : (state.requests w server).inFlight = msg :: rest) {model : Model} {out : List (Event Val)}
    (handled : AbstractModel.handle (state.servers server) msg = .ok (model, out)) :
    (state.serve server w model out).Projected (events ++ out.map (.served server)) server
      (taken ++ [msg]) := by
  obtain ⟨sender, -, flag⟩ := next_request inv inServers next
  refine ⟨?_, fun u memberU => ?_⟩
  · rw [List.filterMap_append, filterMap_served, if_pos rfl]
    simp only [TableSystem.serve, Function.update_self]
    exact projected.run.snoc ⟨sender ▸ member, flag⟩ handled
  · dsimp only [TableSystem.serve]
    rw [sentBy_snoc, projected.of_worker u memberU, sender, Link.set_apply]
    by_cases same : w = u
    · subst same
      rw [if_pos rfl, if_pos ⟨rfl, rfl⟩, Link.receive_eq next]
    · rw [if_neg same, if_neg (fun both => same both.1.symm), List.append_nil]

theorem wire_serve (inv : state.WireInv events) (inServers : server ∈ job.servers)
    (member : w ∈ job.workers) {msg : Message Val} {rest : List (Message Val)}
    (next : (state.requests w server).inFlight = msg :: rest) {model : Model} {out : List (Event Val)}
    (handled : AbstractModel.handle (state.servers server) msg = .ok (model, out)) :
    (state.serve server w model out).WireInv (events ++ out.map (.served server)) := by
  constructor
  case own => exact inv.own
  case inTime => exact inv.inTime
  case sent =>
    intro u server' inServers'
    dsimp only [serve]
    rw [← inv.sent u server' inServers', Link.set_apply]
    split
    next same => rw [Link.sent_receive, same.1, same.2]
    next => rfl
  case projected =>
    intro server' inServers'
    obtain ⟨taken, projected⟩ := inv.projected server' inServers'
    by_cases here : server = server'
    · subst here
      exact ⟨taken ++ [msg], projected.serve inv inServers member next handled⟩
    · refine ⟨taken, ?_, fun u memberU => ?_⟩
      · rw [List.filterMap_append, filterMap_served, if_neg here, List.append_nil]
        simp only [serve, Function.update_of_ne (Ne.symm here)]
        exact projected.run
      · dsimp only [serve]
        rw [projected.of_worker u memberU, Link.set_apply, if_neg fun both => here both.2.symm]
  case replied =>
    intro server' u
    dsimp only [serve]
    rw [List.filterMap_append, filterMap_served]
    by_cases here : server = server'
    · subst here
      rw [Link.sent_post, inv.replied, if_pos rfl, List.filterMap_append, List.filter_append]
    · rw [Link.post_of_ne (Ne.symm here), if_neg here, List.append_nil]
      exact inv.replied server' u

theorem wire_step (apart : job.servers.Nodup) (inv : state.WireInv events) {input : TableInput}
    {out : List (TableEvent Val)} (stepped : Stepped state input state' out) :
    state'.WireInv (events ++ out) := by
  cases stepped with
  | call member idle next called =>
      rw [List.append_nil]
      exact wire_call apart inv next called
  | finish member waits all =>
      rw [List.append_nil]
      exact wire_finish inv
  | serve inServers member next handled => exact wire_serve inv inServers member next handled
  | respond inServers member next added => exact wire_respond inv added

theorem wire_start : (start job).WireInv [] where
  own _ := rfl
  inTime _ := Nat.zero_le _
  sent _ _ _ := rfl
  projected _ _ := ⟨[], .nil, fun _ _ => rfl⟩
  replied _ _ := rfl

variable (job) in
/-- The runs of all clients and servers. -/
abbrev Run (inputs : List TableInput) (state : TableSystem job) (events : List (TableEvent Val)) : Prop :=
  Machine.Runs step Enabled (start job) inputs state events

theorem wire_run (apart : job.servers.Nodup) {inputs : List TableInput} (run : Run job inputs state events) :
    state.WireInv events := by
  refine run.invariant (P := fun _ state events => state.WireInv events) wire_start ?_
  intro _ state events input state' out _ inv admitted stepped
  exact wire_step apart inv (step_cases admitted stepped)

end TableSystem

end FlexPS
