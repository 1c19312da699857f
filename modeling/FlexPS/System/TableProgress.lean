import FlexPS.System.SparseProgress
import FlexPS.System.TableConsistency

/-! # The clients of a table finish

When nothing can happen any more, a worker that still waits in a `Get` waits for a worker that is
further behind, and the one furthest behind waits for nobody: it has finished its program. So all
have, when no program has its `Get`s too many clocks after the last `Clock` of another.
-/

namespace FlexPS

variable {Val Model : Type}

namespace TableJob

/-- No `Get` is more than `slack` clocks past the end of another program. -/
def Balanced (job : TableJob Val Model) (slack : Nat) : Prop :=
  ∀ w ∈ job.workers, ∀ u ∈ job.workers, ∀ call keys, (job.program w)[call]? = some (.get keys) →
    clocksIn ((job.program w).take call) ≤ clocksIn (job.program u) + slack

/-- No program has more clocks than calls. -/
theorem balanced_total (job : TableJob Val Model) :
    job.Balanced (∑ w ∈ job.workers.toFinset, (job.program w).length) := by
  intro w member u _ call keys _
  have calls : clocksIn ((job.program w).take call) ≤ (job.program w).length :=
    List.countP_le_length.trans (List.length_take_le' ..)
  have total : (job.program w).length ≤ ∑ w ∈ job.workers.toFinset, (job.program w).length :=
    Finset.single_le_sum_of_canonicallyOrdered (f := fun w => (job.program w).length)
      (List.mem_toFinset.mpr member)
  omega

/-- The workers of `twoServers` call `Get` at a clock that both reach. -/
theorem twoServers_balanced (start : Model) : (twoServers start).Balanced 0 := by
  intro w _ u _ call keys called
  match call, called with
  | 2, _ => exact le_refl 1

end TableJob

namespace TableSystem

variable {job : TableJob Val Model} {state state' : TableSystem job} {events : List (TableEvent Val)}
  {server w : Tid}

def Stuck (state : TableSystem job) (events : List (TableEvent Val)) : Prop :=
  ∀ input, ¬ state.Enabled events input

/-- How often a worker has called `Clock`. -/
def clocksOf (state : TableSystem job) (w : Tid) : Nat :=
  clocksIn ((job.program w).take (state.calls w))

/-- A worker has returned from all calls of its program. -/
def Done (state : TableSystem job) (w : Tid) : Prop :=
  (state.clients w).waits = false ∧ state.calls w = (job.program w).length

/-! ## Stuck states -/

namespace Stuck

theorem requests (stuck : state.Stuck events) (inServers : server ∈ job.servers) (member : w ∈ job.workers) :
    (state.requests w server).inFlight = [] := by
  by_contra some_request
  exact stuck (.serve server w) ⟨inServers, member, some_request⟩

theorem replies (stuck : state.Stuck events) (inServers : server ∈ job.servers) (member : w ∈ job.workers) :
    (state.replies server w).inFlight = [] := by
  by_contra some_reply
  exact stuck (.respond server w) ⟨inServers, member, some_reply⟩

theorem notAll (stuck : state.Stuck events) (member : w ∈ job.workers) (waits : (state.clients w).waits = true) :
    (state.clients w).tracker.1 ≠ (state.clients w).tracker.2 :=
  fun all => stuck (.finish w) ⟨member, waits, all⟩

variable [AbstractModel Val Model]

theorem done_of_idle (stuck : state.Stuck events) (wires : state.WireInv events) (member : w ∈ job.workers)
    (idle : (state.clients w).waits = false) : state.Done w := by
  refine ⟨idle, ?_⟩
  have most := wires.inTime w
  have few : ¬ state.calls w < (job.program w).length := fun more => stuck (.call w) ⟨member, idle, more⟩
  omega

/-- The servers have taken all that has been sent. -/
theorem taken_eq (stuck : state.Stuck events) (wires : state.WireInv events) (inServers : server ∈ job.servers)
    {taken : List (Message Val)} (projected : state.Projected events server taken) (member : w ∈ job.workers) :
    sentBy w taken = job.stream server w (state.calls w) := by
  rw [projected.of_worker w member, ← wires.sent w server inServers, Link.sent,
    stuck.requests inServers member, List.append_nil]

theorem clocks_eq (stuck : state.Stuck events) (wires : state.WireInv events) (inServers : server ∈ job.servers)
    {taken : List (Message Val)} (projected : state.Projected events server taken) (member : w ∈ job.workers) :
    clocksBy w taken = state.clocksOf w := by
  rw [clocksBy, stuck.taken_eq wires inServers projected member, TableJob.countP_stream, clocksOf]

end Stuck

section Waiting

variable [AddCommMonoid Val] [AbstractModel Val Model] {storage : Model → Storage Val} {slack : Nat}
  {inputs : List TableInput}
  (answers : ∀ server ∈ job.servers, AnswersGets (job.start server) job.workers storage)
  (waitsOnlyFor : ∀ server ∈ job.servers, WaitsOnlyFor (job.start server) job.workers slack)
include answers

/-- A worker that waits forever has not been answered by some server. -/
theorem unanswered_of_stuck (valid : job.Valid) (run : Run job inputs state events)
    (stuck : state.Stuck events) (member : w ∈ job.workers) (waits : (state.clients w).waits = true) :
    ∃ server ∈ job.servers,
      (answeredTo w server events).length < (job.gets server w (state.calls w)).length := by
  have wires := wire_run valid.sound.apart run
  have inv := client_run valid.sound.apart answers run w member
  obtain ⟨keys, waiting⟩ := inv.waiting waits
  obtain ⟨server, owner, nothing⟩ : ∃ server ∈ job.owners keys, state.arrivedFrom w server = [] := by
    by_contra all
    push Not at all
    have each : ∀ server ∈ job.owners keys, (state.arrivedFrom w server).length = 1 := by
      intro server owner
      have once := waiting.arrivedFrom_le_one (answers server (TableJob.mem_owners.mp owner).1) wires inv owner
      have some_reply := List.length_pos_of_ne_nil (all server owner)
      omega
    have notAll := stuck.notAll member waits
    rw [waiting.tracker] at notAll
    exact notAll (Gather.length_eq each).symm
  obtain ⟨inServers, asked⟩ := TableJob.mem_owners.mp owner
  refine ⟨server, inServers, ?_⟩
  have sent := length_sent (answers server inServers) wires inServers w
  rw [Link.sent, stuck.replies inServers member, List.append_nil] at sent
  have few := List.drop_eq_nil_iff.mp nothing
  rw [← sent, waiting.length_gets server, if_neg asked]
  omega

include waitsOnlyFor

/-- Someone else is further behind than a worker that waits forever. -/
theorem behind_of_stuck (valid : job.Valid) (run : Run job inputs state events)
    (stuck : state.Stuck events) (member : w ∈ job.workers) (waits : (state.clients w).waits = true) :
    ∃ u ∈ job.workers, state.clocksOf u + slack < state.clocksOf w := by
  have wires := wire_run valid.sound.apart run
  obtain ⟨server, inServers, unanswered⟩ := unanswered_of_stuck answers valid run stuck member waits
  obtain ⟨taken, projected⟩ := wires.projected server inServers
  rw [TableJob.gets, ← stuck.taken_eq wires inServers projected member] at unanswered
  obtain ⟨u, memberU, behind⟩ := waitsOnlyFor server inServers projected.run member unanswered
  rw [stuck.clocks_eq wires inServers projected memberU,
    stuck.clocks_eq wires inServers projected member] at behind
  exact ⟨u, memberU, behind⟩

theorem done_of_stuck (valid : job.Valid) (balanced : job.Balanced slack) (run : Run job inputs state events)
    (stuck : state.Stuck events) : ∀ w ∈ job.workers, state.Done w := by
  have wires := wire_run valid.sound.apart run
  suffices idle : ∀ w ∈ job.workers, (state.clients w).waits = false from
    fun w member => stuck.done_of_idle wires member (idle w member)
  by_contra someone
  push Not at someone
  obtain ⟨w', member', waits'⟩ := someone
  -- of the workers that wait, one is furthest behind
  obtain ⟨w, inWaiting, least⟩ := Finset.exists_min_image
    (job.workers.toFinset.filter fun w => (state.clients w).waits = true) state.clocksOf
    ⟨w', Finset.mem_filter.mpr ⟨List.mem_toFinset.mpr member', Bool.eq_true_of_not_eq_false waits'⟩⟩
  obtain ⟨member, waits⟩ := Finset.mem_filter.mp inWaiting
  replace member := List.mem_toFinset.mp member
  obtain ⟨u, memberU, behind⟩ := behind_of_stuck answers waitsOnlyFor valid run stuck member waits
  cases waitsU : (state.clients u).waits with
  | true =>
      have lower := least u (Finset.mem_filter.mpr ⟨List.mem_toFinset.mpr memberU, waitsU⟩)
      omega
  | false =>
      obtain ⟨-, finished⟩ := stuck.done_of_idle wires memberU waitsU
      obtain ⟨keys, waiting⟩ := (client_run valid.sound.apart answers run w member).waiting waits
      have near := balanced w member u memberU _ keys waiting.called
      have own := clocksIn_take_get waiting.called
      rw [Nat.sub_add_cancel waiting.made] at own
      rw [clocksOf, clocksOf, finished, List.take_length, own] at behind
      omega

end Waiting

/-! ## Every schedule stops -/

section Measure

/-- How often workers can still call their tables. -/
def callsLeft (state : TableSystem job) : Nat :=
  ∑ w ∈ job.workers.toFinset, ((job.program w).length - state.calls w)

def requestsInFlight (state : TableSystem job) : Nat :=
  ∑ w ∈ job.workers.toFinset, ∑ server ∈ job.servers.toFinset, (state.requests w server).inFlight.length

def repliesInFlight (state : TableSystem job) : Nat :=
  ∑ server ∈ job.servers.toFinset, ∑ w ∈ job.workers.toFinset, (state.replies server w).inFlight.length

/-- How many workers are in a `Get`. -/
def getsToFinish (state : TableSystem job) : Nat :=
  ∑ w ∈ job.workers.toFinset, if (state.clients w).waits = true then 1 else 0

/-- What is left to do, the most significant first. -/
def work (state : TableSystem job) : Nat × Nat × Nat × Nat :=
  (state.callsLeft, state.requestsInFlight, state.repliesInFlight, state.getsToFinish)

/-- Lexicographic order. -/
abbrev Less : Nat × Nat × Nat × Nat → Nat × Nat × Nat × Nat → Prop :=
  Prod.Lex (· < ·) (Prod.Lex (· < ·) (Prod.Lex (· < ·) (· < ·)))

variable [AbstractModel Val Model]

/-- Every step leaves less to do. -/
theorem less_of_step {input : TableInput} {out : List (TableEvent Val)}
    (stepped : Stepped state input state' out) : Less state'.work state.work := by
  have servers_mem : ∀ {server}, server ∈ job.servers → server ∈ job.servers.toFinset :=
    List.mem_toFinset.mpr
  have workers_mem : ∀ {w}, w ∈ job.workers → w ∈ job.workers.toFinset := List.mem_toFinset.mpr
  simp only [Less, work, Prod.lex_iff]
  cases stepped with
  | @call w call client msgs member idle next called =>
      obtain ⟨more, -⟩ := List.getElem?_eq_some_iff.mp next
      refine .inl (sum_lt_of_one (workers_mem member) ?_ fun u other => ?_)
      · simp only [makeCall, Function.update_self]
        omega
      · simp only [makeCall, Function.update_of_ne other]
  | @finish w member waits all =>
      refine .inr ⟨rfl, .inr ⟨rfl, .inr ⟨rfl, ?_⟩⟩⟩
      refine sum_lt_of_one (workers_mem member) ?_ fun u other => ?_
      · simp only [finish, Function.update_self, waits, if_true, Bool.false_eq_true, if_false]
        exact Nat.one_pos
      · simp only [finish, Function.update_of_ne other]
  | @serve server w msg rest model out inServers member next handled =>
      refine .inr ⟨rfl, .inl ?_⟩
      refine sum_lt_of_one (workers_mem member) ?_ fun u other => ?_
      · refine sum_lt_of_one (servers_mem inServers) ?_ fun server' other => ?_
        · simp only [serve, Link.set_apply, and_self, if_true, Link.receive_eq next, next, List.length_cons]
          exact Nat.lt_succ_self _
        · simp only [serve, Link.set_apply, other, and_false, if_false]
      · simp only [serve, Link.set_apply, other, false_and, if_false]
  | @respond server w msg rest client finished inServers member next added =>
      refine .inr ⟨rfl, .inr ⟨rfl, .inl ?_⟩⟩
      refine sum_lt_of_one (servers_mem inServers) ?_ fun server' other => ?_
      · refine sum_lt_of_one (workers_mem member) ?_ fun u other => ?_
        · simp only [respond, Link.set_apply, and_self, if_true, Link.receive_eq next, next, List.length_cons]
          exact Nat.lt_succ_self _
        · simp only [respond, Link.set_apply, other, and_false, if_false]
      · simp only [respond, Link.set_apply, other, false_and, if_false]

end Measure

section Schedules

variable [AddCommMonoid Val]

/-- Where a schedule ends: all programs are done, a check fails, or the schedule asks for a step
    that cannot be taken although another one can. -/
def Ends [AbstractModel Val Model] (state : TableSystem job) (events : List (TableEvent Val))
    (next : TableInput) : Prop :=
  (∀ w ∈ job.workers, state.Done w) ∨
    (∃ fault, state.Enabled events next ∧ state.step next = .error fault) ∨
    (¬ state.Enabled events next ∧ ∃ input, state.Enabled events input)

theorem schedule_ends [AbstractModel Val Model] (storage : Model → Storage Val) {slack : Nat}
    (answers : ∀ server ∈ job.servers, AnswersGets (job.start server) job.workers storage)
    (waitsOnlyFor : ∀ server ∈ job.servers, WaitsOnlyFor (job.start server) job.workers slack)
    (valid : job.Valid) (balanced : job.Balanced slack) (schedule : Nat → TableInput) :
    ∃ k state events, Run job ((List.range k).map schedule) state events ∧
      state.Ends events (schedule k) := by
  have lowers : ∀ inputs (state : TableSystem job) events input state' out, Run job inputs state events →
      state.Enabled events input → state.step input = .ok (state', out) → Less state'.work state.work :=
    fun _ _ _ _ _ _ _ admitted stepped => less_of_step (step_cases admitted stepped)
  obtain ⟨k, state, events, run, last⟩ := Machine.Runs.stops work lowers schedule
  refine ⟨k, state, events, run, ?_⟩
  by_cases admitted : state.Enabled events (schedule k)
  · obtain ⟨fault, failed⟩ := last admitted
    exact .inr (.inl ⟨fault, admitted, failed⟩)
  · by_cases stuck : state.Stuck events
    · exact .inl (done_of_stuck answers waitsOnlyFor valid balanced run stuck)
    · simp only [Stuck, not_forall, not_not] at stuck
      exact .inr (.inr ⟨admitted, stuck⟩)

variable (initial : Tid → Storage Val)

/-- However the clients and servers of an ASP table are scheduled, after finitely many steps all
    programs are done, a check fails, or the schedule asks for a step that cannot be taken although
    another one can. -/
theorem asp_schedule_ends {job : TableJob Val (ASPModel Val)} (valid : job.Valid)
    (started : ∀ server ∈ job.servers, job.start server = .start job.modelId (initial server) job.workers)
    (schedule : Nat → TableInput) :
    ∃ k state events, Run job ((List.range k).map schedule) state events ∧
      state.Ends events (schedule k) := by
  refine schedule_ends ASPModel.storage ?_ ?_ valid job.balanced_total schedule
  · exact fun server inServers => started server inServers ▸
      asp_answersGets job.modelId (initial server) job.workers
  · exact fun server inServers => started server inServers ▸
      asp_waitsOnlyFor job.modelId (initial server) job.workers _

/-- The workers of two servers make their calls and nothing else happens. -/
theorem asp_schedule_ends_twoServers : ∃ k,
    ∃ state : TableSystem (TableJob.twoServers (ASPModel.start 0 (.map fun _ => (0 : Int)) [8, 9])), ∃ events,
      Run _ ((List.range k).map fun i => .call (8 + i.toUInt32 % 2)) state events ∧
        state.Ends events (.call (8 + k.toUInt32 % 2)) :=
  asp_schedule_ends (fun _ => .map fun _ => 0) (TableJob.twoServers_valid _) (fun _ _ => rfl)
    fun i => .call (8 + i.toUInt32 % 2)

/-- The same of an SSP table, when no program has its `Get`s more than `staleness` clocks past the
    end of another: a worker that is ahead does not wait forever. -/
theorem ssp_schedule_ends {job : TableJob Val (SSPModel Val)} {staleness : UInt32} (valid : job.Valid)
    (small : staleness.toNat ≤ intMax)
    (started : ∀ server ∈ job.servers,
      job.start server = .start job.modelId (initial server) staleness job.workers)
    (balanced : job.Balanced staleness.toNat) (schedule : Nat → TableInput) :
    ∃ k state events, Run job ((List.range k).map schedule) state events ∧
      state.Ends events (schedule k) := by
  refine schedule_ends SSPModel.storage ?_ ?_ valid balanced schedule
  · exact fun server inServers => started server inServers ▸
      ssp_answersGets job.modelId (initial server) small job.workers
  · exact fun server inServers => started server inServers ▸
      ssp_waitsOnlyFor job.modelId (initial server) small job.workers

theorem ssp_schedule_ends_twoServers : ∃ k,
    ∃ state : TableSystem (TableJob.twoServers (SSPModel.start 0 (.map fun _ => (0 : Int)) 0 [8, 9])), ∃ events,
      Run _ ((List.range k).map fun i => .call (8 + i.toUInt32 % 2)) state events ∧
        state.Ends events (.call (8 + k.toUInt32 % 2)) :=
  ssp_schedule_ends (fun _ => .map fun _ => 0) (TableJob.twoServers_valid _) (by decide) (fun _ _ => rfl)
    (TableJob.twoServers_balanced _) fun i => .call (8 + i.toUInt32 % 2)

/-- The same of a BSP table, where no program may have its `Get`s in later iterations than another
    has. -/
theorem bsp_schedule_ends {job : TableJob Val (BSPModel Val)} (valid : job.Valid)
    (started : ∀ server ∈ job.servers, job.start server = .start job.modelId (initial server) job.workers)
    (balanced : job.Balanced 0) (schedule : Nat → TableInput) :
    ∃ k state events, Run job ((List.range k).map schedule) state events ∧
      state.Ends events (schedule k) := by
  refine schedule_ends BSPModel.storage ?_ ?_ valid balanced schedule
  · exact fun server inServers => started server inServers ▸
      bsp_answersGets job.modelId (initial server) job.workers
  · exact fun server inServers => started server inServers ▸
      bsp_waitsOnlyFor job.modelId (initial server) job.workers

theorem bsp_schedule_ends_twoServers : ∃ k,
    ∃ state : TableSystem (TableJob.twoServers (BSPModel.start 0 (.map fun _ => (0 : Int)) [8, 9])), ∃ events,
      Run _ ((List.range k).map fun i => .call (8 + i.toUInt32 % 2)) state events ∧
        state.Ends events (.call (8 + k.toUInt32 % 2)) :=
  bsp_schedule_ends (fun _ => .map fun _ => 0) (TableJob.twoServers_valid _) (fun _ _ => rfl)
    (TableJob.twoServers_balanced _) fun i => .call (8 + i.toUInt32 % 2)

end Schedules

end TableSystem

end FlexPS
