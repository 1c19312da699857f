import FlexPS.Server.SparseSSP.ModelSteps

/-! # Runs of one server over abstract slots -/

namespace FlexPS

variable {Val : Type} [AddCommMonoid Val] {W : Workload Val}

/-! ## What one step takes -/

namespace StreamState

section Steps

variable {Main : Type} [MainRecorder Val Main] {state state' : StreamState Val Main} {w : Tid}
  {events : List (Event Val)}

omit [AddCommMonoid Val] [MainRecorder Val Main] in
/-- A worker has sent no `Clock` whose `Get` of the next iteration is still unsent, unless it
    does not speculate and sends a `Clock`. -/
theorem clocks_le_gets (state : StreamState Val Main) {w : Tid}
    (paced : 1 ≤ W.speculation ∨ state.clocks W w = 0) : state.clocks W w ≤ state.gets W w ∧
      (state.gets W w ≠ 0 → state.clocks W w < state.gets W w) := by
  have bounds := streamGets_bounds W.speculation (state.position w)
  simp only [clocks, gets] at paced ⊢
  omega

variable (W state w) in
/-- The server takes an item of `w`'s stream: what it handles, and how many `Get`s,
    `Clock`s and `Add`s it has received afterwards. -/
inductive Takes (model' : SparseSSPModel Val Main) (events : List (Event Val)) :
    (gets clocks adds : Tid → Nat) → Prop where
  | absentGet : W.keys w (state.gets W w) = [] → model' = state.model → events = [] →
      Takes model' events (Function.update (state.gets W) w (state.gets W w + 1)) (state.clocks W)
        (state.adds W)
  | get : W.keys w (state.gets W w) ≠ [] →
      state.model.get (W.getMsg w (state.gets W w)) = .ok (model', events) →
      Takes model' events (Function.update (state.gets W) w (state.gets W w + 1)) (state.clocks W)
        (state.adds W)
  | absentAdd : state.adds W w = state.clocks W w → (W.adds w (state.clocks W w)).keys = [] →
      model' = state.model → events = [] →
      Takes model' events (state.gets W) (state.clocks W)
        (Function.update (state.adds W) w (state.adds W w + 1))
  | add : state.adds W w = state.clocks W w → (W.adds w (state.clocks W w)).keys ≠ [] →
      state.model.add (W.addMsg w (state.clocks W w)) = .ok (model', events) →
      Takes model' events (state.gets W) (state.clocks W)
        (Function.update (state.adds W) w (state.adds W w + 1))
  | clock : state.next W w = .clock (state.clocks W w) → state.adds W w = state.clocks W w + 1 →
      state.gets W w = state.clocks W w + W.speculation + 1 →
      state.model.clock (W.clockMsg w (state.clocks W w)) = .ok (model', events) →
      Takes model' events (state.gets W) (Function.update (state.clocks W) w (state.clocks W w + 1))
        (state.adds W)

theorem step_eq_ok : state.step W w = .ok (state', events) ↔
    state'.position = Function.update state.position w (state.position w + 1) ∧
      match W.message? w (state.next W w) with
      | none => state'.model = state.model ∧ events = []
      | some msg => AbstractModel.handle state.model msg = .ok (state'.model, events) := by
  obtain ⟨model', position'⟩ := state'
  simp only [step]
  cases W.message? w (state.next W w) with
  | none =>
      simp only [Except.pure_eq_ok, Except.ok.injEq, Prod.mk.injEq, StreamState.mk.injEq]
      grind
  | some msg =>
      simp only [Except.bind_eq_ok, Except.pure_eq_ok, Except.ok.injEq, Prod.mk.injEq,
        StreamState.mk.injEq, Prod.exists]
      grind

/-- How a counter of stream items changes with the position of one worker. -/
theorem counter_update (f : Nat → Nat) {position position' : Tid → Nat} {w : Tid}
    (moved : position' = Function.update position w (position w + 1)) :
    (fun v => f (position' v)) = Function.update (fun v => f (position v)) w (f (position w + 1)) := by
  rw [moved]
  exact Function.comp_update f position w (position w + 1)

theorem counter_same {f : Nat → Nat} {position position' : Tid → Nat} {w : Tid}
    (moved : position' = Function.update position w (position w + 1))
    (same : f (position w + 1) = f (position w)) :
    (fun v => f (position' v)) = fun v => f (position v) := by
  rw [counter_update f moved, same]
  exact Function.update_eq_self w (fun v => f (position v))

theorem clocks_mono (stepped : state.step W w = .ok (state', events)) (v : Tid) :
    state.clocks W v ≤ state'.clocks W v := by
  simp only [clocks, (step_eq_ok.mp stepped).1, Function.update_apply]
  split
  next same =>
    rw [same]
    simp only [streamClocks]
    omega
  next => exact Nat.le_refl _

variable (W) in
/-- The clients speculate, or the server has taken no `Clock` of them. -/
def Paced (tids : List Tid) (state : StreamState Val Main) : Prop :=
  1 ≤ W.speculation ∨ ∀ w ∈ tids, state.clocks W w = 0

theorem Paced.before {tids : List Tid} (paced : state'.Paced W tids)
    (stepped : state.step W w = .ok (state', events)) : state.Paced W tids := by
  refine Or.imp_right (fun quiet v member => ?_) paced
  exact Nat.le_zero.mp (quiet v member ▸ clocks_mono stepped v)

theorem step_takes (stepped : state.step W w = .ok (state', events)) :
    state.Takes W w state'.model events (state'.gets W) (state'.clocks W) (state'.adds W) := by
  obtain ⟨moved, handled⟩ := step_eq_ok.mp stepped
  have item := streamItem_next W.speculation (state.position w)
  simp only [next] at handled
  generalize sent_eq : streamItem W.speculation (state.position w) = sent at item handled
  have gets_eq := counter_update (streamGets W.speculation) moved
  have adds_eq := counter_update (streamAdds W.speculation) moved
  have clocks_eq := counter_update (streamClocks W.speculation) moved
  change state.Takes W w state'.model events
    (fun v => streamGets W.speculation (state'.position v))
    (fun v => streamClocks W.speculation (state'.position v))
    (fun v => streamAdds W.speculation (state'.position v))
  cases item with
  | get getsNext addsNext clocksNext _ _ =>
      rw [getsNext] at gets_eq
      replace adds_eq := counter_same moved addsNext
      replace clocks_eq := counter_same moved clocksNext
      by_cases absent : W.keys w (streamGets W.speculation (state.position w)) = []
      · simp only [Workload.message?, if_pos absent] at handled
        rw [gets_eq, clocks_eq, adds_eq]
        exact .absentGet absent handled.1 handled.2
      · simp only [Workload.message?, if_neg absent] at handled
        rw [gets_eq, clocks_eq, adds_eq]
        exact .get absent handled
  | add getsNext addsNext clocksNext sameRound _ =>
      rw [addsNext] at adds_eq
      replace gets_eq := counter_same moved getsNext
      replace clocks_eq := counter_same moved clocksNext
      by_cases absent : (W.adds w (streamClocks W.speculation (state.position w))).keys = []
      · simp only [Workload.message?, if_pos absent] at handled
        rw [gets_eq, clocks_eq, adds_eq]
        exact .absentAdd sameRound absent handled.1 handled.2
      · simp only [Workload.message?, if_neg absent] at handled
        rw [gets_eq, clocks_eq, adds_eq]
        exact .add sameRound absent handled
  | clock getsNext addsNext clocksNext addsDone getsDone =>
      rw [clocksNext] at clocks_eq
      replace gets_eq := counter_same moved getsNext
      replace adds_eq := counter_same moved addsNext
      rw [gets_eq, clocks_eq, adds_eq]
      exact .clock sent_eq addsDone getsDone handled

end Steps

end StreamState

/-! ## The invariant of a run -/

section Invariant

variable {staleness : Nat} {threads : List Tid}

/-- What the received `Add`s add to the value of a key. -/
def Workload.applied (W : Workload Val) (threads : List Tid) (adds : Tid → Nat) (key : Key) : Val :=
  ∑ w ∈ threads.toFinset, ∑ version ∈ Finset.range (adds w), (W.adds w version).contribution key

theorem Workload.applied_update {w : Tid} (registered : w ∈ threads) (adds : Tid → Nat) (key : Key) :
    W.applied threads (Function.update adds w (adds w + 1)) key =
      W.applied threads adds key + (W.adds w (adds w)).contribution key := by
  have member : w ∈ threads.toFinset := List.mem_toFinset.mpr registered
  simp only [applied]
  rw [← Finset.add_sum_erase _ _ member, ← Finset.add_sum_erase threads.toFinset _ member,
    Function.update_self, Finset.sum_range_succ]
  have rest : ∀ v ∈ threads.toFinset.erase w,
      ∑ version ∈ Finset.range (Function.update adds w (adds w + 1) v),
        (W.adds v version).contribution key =
      ∑ version ∈ Finset.range (adds v), (W.adds v version).contribution key := by
    intro v inErase
    rw [Function.update_of_ne (Finset.ne_of_mem_erase inErase)]
  rw [Finset.sum_congr rfl rest]
  abel

variable (W staleness threads) in
/-- A server over abstract slots that started with `storage` and has given the
    answers `answered` counts. -/
structure StreamInv (storage : Storage Val) (answered : Tid → Nat → Nat)
    (state : StreamState Val (Slots Val)) : Prop where
  server : ServerInv W staleness threads (state.gets W) (state.clocks W) answered state.model
  values : ∀ key, state.model.storage.value key =
    storage.value key + W.applied threads (state.adds W) key

variable {state state' : StreamState Val (Slots Val)} {storage : Storage Val}
  {answered : Tid → Nat → Nat} {w : Tid} {events : List (Event Val)}

theorem StreamInv.threads_eq (inv : StreamInv W staleness threads storage answered state) :
    state.threads = threads := inv.server.base.clocks.threads_eq

theorem step_spec (paced : 1 ≤ W.speculation ∨ state'.clocks W w = 0)
    (inv : StreamInv W staleness threads storage answered state) (registered : w ∈ threads)
    (stepped : state.step W w = .ok (state', events)) :
    StreamInv W staleness threads storage
        (fun v u => answered v u + tally v u (events.filterMap Event.answered)) state' ∧
      ∀ event ∈ events, FairEvent W staleness threads (state'.gets W)
        state'.model.progressTracker.progresses state'.model.storage event := by
  obtain ⟨behind, ahead⟩ := state.clocks_le_gets
    (paced.imp_right fun quiet => Nat.le_zero.mp (quiet ▸ StreamState.clocks_mono stepped w))
  suffices taken : ∀ gets clocks adds, (1 ≤ W.speculation ∨ clocks w = 0) →
      state.Takes W w state'.model events gets clocks adds →
      (ServerInv W staleness threads gets clocks
          (fun v u => answered v u + tally v u (events.filterMap Event.answered)) state'.model ∧
        ∀ key, state'.model.storage.value key =
          storage.value key + W.applied threads adds key) ∧
      ∀ event ∈ events, FairEvent W staleness threads gets
        state'.model.progressTracker.progresses state'.model.storage event by
    obtain ⟨⟨server, values⟩, fair⟩ := taken _ _ _ paced (StreamState.step_takes stepped)
    exact ⟨⟨server, values⟩, fair⟩
  intro gets clocks adds paced taken
  cases taken with
  | absentGet absent same none =>
      rw [same, none]
      exact ⟨⟨by simpa using inv.server.absent registered behind ahead absent, inv.values⟩, by simp⟩
  | get sent got =>
      obtain ⟨handled, storage_eq⟩ := get_spec inv.server registered behind ahead sent got
      rw [storage_eq]
      exact ⟨⟨handled.inv, inv.values⟩, handled.fair⟩
  | absentAdd round absent same none =>
      rw [same, none]
      refine ⟨⟨by simpa using inv.server, fun key => ?_⟩, by simp⟩
      rw [inv.values, W.applied_update registered, round,
        KVPairs.contribution_of_absent (absent ▸ List.not_mem_nil), add_zero]
  | add round sent added =>
      obtain ⟨server, rfl, values⟩ := add_spec inv.server added
      refine ⟨⟨by simpa using server, fun key => ?_⟩, by simp⟩
      rw [values, inv.values, W.applied_update registered, round, add_assoc]
  | clock _ addsDone getsDone clocked =>
      -- a `Clock` has just been taken
      have speculative : 1 ≤ W.speculation :=
        paced.resolve_right (by simp only [Function.update_self, Nat.add_one_ne_zero, not_false_iff])
      obtain ⟨handled, storage_eq⟩ := clock_spec speculative inv.server registered clocked
      rw [storage_eq]
      exact ⟨⟨handled.inv, inv.values⟩, handled.fair⟩

/-- The recorder over the slots themselves. -/
def slotsRecorder (staleness speculation : Nat) (dcheckIsOn : Bool) :
    SparseSSPRecorder Val (Slots Val) :=
  .new staleness speculation ⟨fun _ _ => 0, []⟩ dcheckIsOn

theorem streamInv_start (storage : Storage Val) (staleness : Nat) (dcheckIsOn : Bool)
    (tids : List Tid) :
    StreamInv W staleness tids.dedup storage (fun _ _ => 0)
      (.start W storage (slotsRecorder staleness W.speculation dcheckIsOn) tids) := by
  have gets_eq : ∀ w, (StreamState.start W storage
      (slotsRecorder staleness W.speculation dcheckIsOn) tids).gets W w = 0 := by
    intro w
    simp [StreamState.gets, StreamState.start, streamGets]
  refine ⟨⟨⟨?_, rfl, rfl, ?_⟩, ?_⟩, ?_⟩
  · exact ⟨rfl, ProgressTracker.exact_init tids, fun _ _ => Nat.zero_le _,
      fun msg member => absurd member List.not_mem_nil, List.nodup_nil⟩
  · refine ⟨rfl, rfl, ?_, ?_, ?_, ?_, ?_, ?_⟩
    · funext version key
      symm
      apply recordedCount_eq_zero
      intro v _ _ below
      rw [gets_eq] at below
      exact absurd below (Nat.not_lt_zero _)
    · intro w _
      rw [gets_eq]
      rfl
    · intro w _
      rw [gets_eq]
      rfl
    · exact fun h member => absurd member List.not_mem_nil
    · exact fun msg member => absurd member List.not_mem_nil
    · intro w _ version
      rw [gets_eq]
      simp [StreamState.start, SparseSSPModel.new, slotsRecorder, SparseSSPRecorder.new]
  · intro w
    simp [StreamState.clocks, StreamState.start, streamClocks, SparseSSPModel.new]
  · intro key
    simp [StreamState.start, SparseSSPModel.new, Workload.applied, StreamState.adds, streamAdds]

theorem streamInv_run {guard : StreamState Val (Slots Val) → List (Event Val) → Tid → Prop}
    (registered : ∀ state events w, guard state events w → w ∈ state.threads) {dcheckIsOn : Bool}
    {tids ws : List Tid} (run : Machine.Runs (StreamState.step W) guard
      (.start W storage (slotsRecorder staleness W.speculation dcheckIsOn) tids) ws state events)
    (paced : state.Paced W tids) :
    StreamInv W staleness tids.dedup storage
      (fun w v => tally w v (events.filterMap Event.answered)) state := by
  refine run.invariant (P := fun _ state events =>
    state.Paced W tids → StreamInv W staleness tids.dedup storage
      (fun w v => tally w v (events.filterMap Event.answered)) state) ?_ ?_ paced
  · exact fun _ => streamInv_start storage staleness dcheckIsOn tids
  · intro _ state events w state' out _ inv admitted stepped paced
    have inv := inv (paced.before stepped)
    have member : w ∈ tids.dedup := inv.threads_eq ▸ registered state events w admitted
    have next := (step_spec (paced.imp_right fun quiet => quiet w (List.mem_dedup.mp member)) inv member
      stepped).1
    simpa only [List.filterMap_append, tally_append] using next

/-- Every event of a run was fair when it was pushed. -/
theorem fair_run {guard : StreamState Val (Slots Val) → List (Event Val) → Tid → Prop}
    (registered : ∀ state events w, guard state events w → w ∈ state.threads) {dcheckIsOn : Bool}
    {tids ws : List Tid} (run : Machine.Runs (StreamState.step W) guard
      (.start W storage (slotsRecorder staleness W.speculation dcheckIsOn) tids) ws state events)
    (paced : state.Paced W tids) :
    ∀ event ∈ events, ∃ gets limit storage,
      FairEvent W staleness tids.dedup gets limit storage event := by
  refine run.invariant (P := fun _ state events =>
    state.Paced W tids → ∀ event ∈ events, ∃ gets limit storage,
      FairEvent W staleness tids.dedup gets limit storage event) ?_ ?_ paced
  · exact fun _ event member => absurd member List.not_mem_nil
  · intro _ state events w state' out run fair admitted stepped paced event member
    have inv := streamInv_run registered run (paced.before stepped)
    have registered := inv.threads_eq ▸ registered state events w admitted
    rcases List.mem_append.mp member with old | new
    · exact fair (paced.before stepped) event old
    · have here := paced.imp_right fun quiet => quiet w (List.mem_dedup.mp registered)
      exact ⟨_, _, _, (step_spec here inv registered stepped).2 event new⟩

end Invariant

end FlexPS
