import FlexPS.Server.SSP.Model

/-! # What one SSP server guarantees

The pending buffer is drained only at the one value the minimum clock moves to.
No request is lost by that: the minimum moves by one, and every key in use is
above it.
-/

namespace FlexPS

variable {Val : Type}

inductive SSPInput (Val : Type) where
  | message (msg : Message Val)
  | getPendingSize (progress : Int)

/-- A server, and the `Get`s it has received, each with the clock of its sender. -/
structure SSPState (Val : Type) where
  model : SSPModel Val
  received : List (Message Val × Nat)

namespace SSPState

/-- The state after a `ResetWorker` that names `tids`, on a new model. -/
def start (modelId : UInt32) (storage : Storage Val) (staleness : UInt32) (tids : List Tid) :
    SSPState Val :=
  { model := { SSPModel.new modelId storage staleness with progressTracker := .init tids }
    received := [] }

def threads (state : SSPState Val) : List Tid := state.model.progressTracker.threads

def minClock (state : SSPState Val) : Nat := state.model.progressTracker.minClock

def step [AddCommMonoid Val] (state : SSPState Val) :
    SSPInput Val → Except Fault (SSPState Val × List (Event Val))
  | .message msg => do
      let (model, events) ← AbstractModel.handle state.model msg
      let received := if msg.flag = .kGet then
        state.received ++ [(msg, state.model.progressTracker.progresses msg.sender)]
      else state.received
      return ({ model, received }, events)
  | .getPendingSize progress =>
      return ({ state with model := (state.model.getPendingSize progress).2 }, [])

/-- `Clock`, `Add` and `Get` messages of registered workers. -/
def Admitted (state : SSPState Val) (_ : List (Event Val)) : SSPInput Val → Prop
  | .message msg => msg.sender ∈ state.threads ∧
      (msg.flag = .kClock ∨ msg.flag = .kAdd ∨ msg.flag = .kGet)
  | .getPendingSize _ => True

instance (state : SSPState Val) (events : List (Event Val)) (input : SSPInput Val) :
    Decidable (state.Admitted events input) :=
  match input with
  | .message _ => inferInstanceAs (Decidable (_ ∧ _))
  | .getPendingSize _ => inferInstanceAs (Decidable True)

end SSPState

/-! ## The received `Get`s -/

/-- The `Get`s the bound allows to answer. -/
def within (minClock staleness : Nat) (received : List (Message Val × Nat)) : List (Message Val) :=
  (received.filter fun get => get.2 ≤ minClock + staleness).map Prod.fst

/-- The other `Get`s, by the minimum clock they wait for. -/
def blockedAt (minClock staleness : Nat) (received : List (Message Val × Nat)) (key : Int) :
    List (Message Val) :=
  (received.filter fun get => minClock + staleness < get.2 ∧ (get.2 : Int) - staleness = key).map
    Prod.fst

section Received

variable {minClock staleness progress : Nat} {received : List (Message Val × Nat)} {msg : Message Val}

theorem within_snoc : within minClock staleness (received ++ [(msg, progress)]) =
    within minClock staleness received ++ if progress ≤ minClock + staleness then [msg] else [] := by
  unfold within
  by_cases early : progress ≤ minClock + staleness <;> simp [early]

theorem blockedAt_snoc {key : Int} : blockedAt minClock staleness (received ++ [(msg, progress)]) key =
    blockedAt minClock staleness received key ++
      if minClock + staleness < progress ∧ (progress : Int) - staleness = key then [msg] else [] := by
  unfold blockedAt
  by_cases late : minClock + staleness < progress ∧ (progress : Int) - staleness = key <;>
    simp [late]

/-- Moving the minimum by one lets exactly the requests at its new value go. -/
theorem within_succ_perm : (within (minClock + 1) staleness received).Perm
    (within minClock staleness received ++
      blockedAt minClock staleness received (minClock + 1 : Nat)) := by
  unfold within blockedAt
  rw [← List.map_append]
  apply List.Perm.map
  have split := (List.filter_append_perm (fun get => decide (get.2 ≤ minClock + staleness))
    (received.filter fun get => get.2 ≤ minClock + 1 + staleness)).symm
  rw [List.filter_filter, List.filter_filter] at split
  refine split.trans (List.Perm.of_eq (congrArg₂ (· ++ ·) ?_ ?_))
  · apply List.filter_congr
    intro get _
    simp only [Bool.and_eq_decide, decide_eq_true_eq, decide_eq_decide]
    omega
  · apply List.filter_congr
    intro get _
    simp only [← decide_not, Bool.and_eq_decide, decide_eq_true_eq, decide_eq_decide]
    omega

theorem blockedAt_succ (key : Int) : blockedAt (minClock + 1) staleness received key =
    if key = (minClock + 1 : Nat) then [] else blockedAt minClock staleness received key := by
  unfold blockedAt
  split
  · next here =>
      rw [List.map_eq_nil_iff, List.filter_eq_nil_iff]
      intro get _ waits
      have := of_decide_eq_true waits
      omega
  · next apart =>
      congr 1
      apply List.filter_congr
      intro get _
      apply decide_eq_decide.mpr
      omega

theorem lt_of_blockedAt {key : Int} (blocked : msg ∈ blockedAt minClock staleness received key) :
    (minClock : Int) < key := by
  obtain ⟨get, waits, -⟩ := List.mem_map.mp blocked
  have := of_decide_eq_true (List.mem_filter.mp waits).2
  omega

end Received

/-! ## The invariant of a server -/

variable (staleness : UInt32) (tids : List Tid) in
structure SSPInv (answered : List (Message Val)) (state : SSPState Val) : Prop where
  threads_eq : state.threads = tids.dedup
  exact : state.model.progressTracker.Exact
  staleness_eq : state.model.staleness = staleness
  clocks_le : ∀ w ∈ tids.dedup, state.model.progressTracker.progresses w ≤ intMax
  answered : answered.Perm (within state.minClock staleness.toNat state.received)
  pending : ∀ key, state.model.buffer.at_ key =
    blockedAt state.minClock staleness.toNat state.received key

variable {staleness : UInt32} {tids : List Tid} {answered : List (Message Val)}
  {state : SSPState Val}

theorem SSPInv.minClock_le (inv : SSPInv staleness tids answered state) (nonempty : tids ≠ []) :
    state.minClock ≤ intMax := by
  obtain ⟨w, member⟩ := List.exists_mem_of_ne_nil tids nonempty
  have registered := List.mem_dedup.mpr member
  exact Nat.le_trans (inv.exact.le w (inv.threads_eq.symm ▸ registered : w ∈ state.threads))
    (inv.clocks_le w registered)

theorem sspInv_start (modelId : UInt32) (storage : Storage Val) (staleness : UInt32) (tids : List Tid) :
    SSPInv staleness tids [] (.start modelId storage staleness tids) where
  threads_eq := rfl
  exact := ProgressTracker.exact_init tids
  staleness_eq := rfl
  clocks_le := fun _ _ => Nat.zero_le _
  answered := List.Perm.nil
  pending := fun _ => rfl

section Steps

variable {model' : SSPModel Val} {events : List (Event Val)} {msg : Message Val}

variable [AddCommMonoid Val]

theorem ssp_clock_spec (inv : SSPInv staleness tids answered state)
    (clocked : state.model.clock msg = .ok (model', events)) :
    SSPInv staleness tids (answered ++ events.filterMap Event.answered) { state with model := model' } := by
  obtain ⟨updated, tracker, advanced, outcome⟩ := SSPModel.clock_cases clocked
  obtain ⟨inThreads, small, advanced⟩ := ProgressTracker.advance_eq_ok.mp advanced
  have exact := advanced.exact inThreads inv.exact
  have threads_eq : tracker.threads = tids.dedup := advanced.threads.trans inv.threads_eq
  have clocks_le : ∀ w ∈ tids.dedup, tracker.progresses w ≤ intMax := by
    intro w member
    rw [advanced.progresses]
    by_cases same : w = msg.sender
    · rw [same, Function.update_self]
      exact small
    · rw [Function.update_of_ne same]
      exact inv.clocks_le w member
  cases advanced with
  | kept shared =>
      obtain ⟨-, rfl, rfl⟩ | ⟨_, absurd', -⟩ := outcome
      · refine ⟨threads_eq, exact, inv.staleness_eq, clocks_le, ?_, inv.pending⟩
        rw [List.filterMap_nil, List.append_nil]
        exact inv.answered
      · cases absurd'
  | moved unique =>
      obtain ⟨absurd', -⟩ | ⟨minClock, raised, pushed, rfl⟩ := outcome
      · cases absurd'
      obtain rfl := Option.some.inj raised
      rw [inv.pending] at pushed
      refine ⟨threads_eq, exact, inv.staleness_eq, clocks_le, ?_, fun key => ?_⟩
      · rw [answered_of_mapM pushed]
        exact (inv.answered.append_right _).trans within_succ_perm.symm
      · rw [PendingBuffer.at_pop, inv.pending]
        exact (blockedAt_succ key).symm

theorem ssp_get_spec (inv : SSPInv staleness tids answered state) (small : staleness.toNat ≤ intMax)
    (registered : msg.sender ∈ tids.dedup) (got : state.model.get msg = .ok (model', events)) :
    SSPInv staleness tids (answered ++ events.filterMap Event.answered)
      { model := model'
        received := state.received ++
          [(msg, state.model.progressTracker.progresses msg.sender)] } := by
  have minClock_le := inv.minClock_le (List.ne_nil_of_mem (List.mem_dedup.mp registered))
  have progress_le := inv.clocks_le msg.sender registered
  have valid : msg.sender ∈ state.model.progressTracker.threads :=
    (inv.threads_eq.symm ▸ registered : msg.sender ∈ state.threads)
  obtain ⟨late, rfl, rfl⟩ | ⟨early, rfl, rfl⟩ := SSPModel.get_cases valid progress_le minClock_le
    (inv.staleness_eq.symm ▸ small) got
  · replace late : state.minClock + staleness.toNat <
        state.model.progressTracker.progresses msg.sender := inv.staleness_eq ▸ late
    have outside : within state.minClock staleness.toNat (state.received ++
        [(msg, state.model.progressTracker.progresses msg.sender)]) =
        within state.minClock staleness.toNat state.received := by
      rw [within_snoc, if_neg (Nat.not_le.mpr late), List.append_nil]
    refine ⟨inv.threads_eq, inv.exact, inv.staleness_eq, inv.clocks_le, ?_, fun key => ?_⟩
    · rw [List.filterMap_nil, List.append_nil]
      exact inv.answered.trans (.of_eq outside.symm)
    · rw [PendingBuffer.at_push, inv.pending, blockedAt_snoc, inv.staleness_eq]
      exact congrArg _ (if_congr ⟨fun same => ⟨late, same.symm⟩, fun here => here.2.symm⟩ rfl rfl)
  · replace early : state.model.progressTracker.progresses msg.sender ≤
        state.minClock + staleness.toNat := inv.staleness_eq ▸ early
    have inside : within state.minClock staleness.toNat (state.received ++
        [(msg, state.model.progressTracker.progresses msg.sender)]) =
        within state.minClock staleness.toNat state.received ++ [msg] := by
      rw [within_snoc, if_pos early]
    refine ⟨inv.threads_eq, inv.exact, inv.staleness_eq, inv.clocks_le, ?_, fun key => ?_⟩
    · exact (inv.answered.append_right [msg]).trans (.of_eq inside.symm)
    · rw [inv.pending, blockedAt_snoc, if_neg (fun waits => Nat.not_lt.mpr early waits.1),
        List.append_nil]
      rfl

theorem ssp_add_spec (inv : SSPInv staleness tids answered state)
    (added : state.model.add msg = .ok (model', events)) :
    events = [] ∧ SSPInv staleness tids answered { state with model := model' } := by
  obtain ⟨storage, -, added⟩ := Except.bind_eq_ok.mp added
  cases added
  exact ⟨rfl, inv.threads_eq, inv.exact, inv.staleness_eq, inv.clocks_le, inv.answered, inv.pending⟩

omit [AddCommMonoid Val] in
theorem ssp_getPendingSize_spec (inv : SSPInv staleness tids answered state) (progress : Int) :
    SSPInv staleness tids answered { state with model := (state.model.getPendingSize progress).2 } where
  threads_eq := inv.threads_eq
  exact := inv.exact
  staleness_eq := inv.staleness_eq
  clocks_le := inv.clocks_le
  answered := inv.answered
  pending := fun key => (PendingBuffer.at_size _ progress key).trans (inv.pending key)

theorem ssp_step_spec (inv : SSPInv staleness tids answered state) (small : staleness.toNat ≤ intMax)
    {input : SSPInput Val} {all : List (Event Val)} (admitted : state.Admitted all input)
    {state' : SSPState Val} (stepped : state.step input = .ok (state', events)) :
    SSPInv staleness tids (answered ++ events.filterMap Event.answered) state' := by
  cases input with
  | getPendingSize progress =>
      cases stepped
      simpa using ssp_getPendingSize_spec inv progress
  | message msg =>
      obtain ⟨registered, flag⟩ := admitted
      rw [inv.threads_eq] at registered
      obtain ⟨⟨model', out⟩, handled, stepped⟩ := Except.bind_eq_ok.mp stepped
      cases stepped
      rcases flag with isClock | isAdd | isGet
      · simp only [AbstractModel.handle, isClock] at handled
        simpa [isClock] using ssp_clock_spec inv handled
      · simp only [AbstractModel.handle, isAdd] at handled
        obtain ⟨rfl, inv'⟩ := ssp_add_spec inv handled
        simpa [isAdd] using inv'
      · simp only [AbstractModel.handle, isGet] at handled
        simpa [isGet] using ssp_get_spec inv small registered handled

/-- In every state a server of a non-empty set of workers reaches, the `Get`s received
    at a clock within the bound are the answered ones, each once, and every other one
    waits once, under the minimum clock it needs, which has not been reached. -/
theorem answered_exactly_when {modelId : UInt32} {storage : Storage Val}
    (small : staleness.toNat ≤ intMax) {inputs : List (SSPInput Val)}
    (run : Machine.Runs SSPState.step SSPState.Admitted (.start modelId storage staleness tids)
      inputs state events) :
    (events.filterMap Event.answered).Perm
        (within state.minClock staleness.toNat state.received) ∧
      ∀ key, state.model.buffer.at_ key = blockedAt state.minClock staleness.toNat state.received key ∧
        (state.model.buffer.at_ key ≠ [] → (state.minClock : Int) < key) := by
  have inv : SSPInv staleness tids (events.filterMap Event.answered) state := by
    apply run.invariant (P := fun _ state events =>
      SSPInv staleness tids (events.filterMap Event.answered) state)
    · exact sspInv_start modelId storage staleness tids
    · intro _ state events input state' out _ inv admitted stepped
      rw [List.filterMap_append]
      exact ssp_step_spec inv small admitted stepped
  refine ⟨inv.answered, fun key => ⟨inv.pending key, fun inUse => ?_⟩⟩
  obtain ⟨msg, blocked⟩ := List.exists_mem_of_ne_nil _ inUse
  exact lt_of_blockedAt (inv.pending key ▸ blocked)

end Steps

/-- With staleness 1, a `Get` of worker 1 at clock 2 is answered when worker 2 reaches clock 1. -/
theorem answered_exactly_when_twoWorkers :
    ∃ (state : SSPState Int) (events : List (Event Int)), state.minClock = 1 ∧
      (events.filterMap Event.answered).Perm [createMessage .kGet 0 1 0 0 [7]] := by
  obtain ⟨state, events, run, minClock, received⟩ := Machine.runs_of_exec SSPState.step
    SSPState.Admitted (.start 0 (.map fun _ => 0) 1 [1, 2])
    [.message (createMessage .kClock 0 1 0 0), .message (createMessage .kClock 0 1 0 0),
      .message (createMessage .kGet 0 1 0 0 [7]), .getPendingSize 5,
      .message (createMessage .kClock 0 2 0 0)]
    (fun (state : SSPState Int) _ => state.minClock = 1 ∧
      state.received = [(createMessage .kGet 0 1 0 0 [7], 2)])
    (by decide +kernel)
  obtain ⟨answered, -⟩ := answered_exactly_when (by decide) run
  rw [minClock, received] at answered
  exact ⟨state, events, minClock, answered⟩

end FlexPS
