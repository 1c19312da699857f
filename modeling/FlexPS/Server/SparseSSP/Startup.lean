import FlexPS.Server.SparseSSP.Guarantees

/-! # Which conflict tests are complete

Once the minimum clock is 1 every `Get` a conflict test can meet has been received,
since the `Get`s of a worker run `speculation` ahead of its `Clock`s. At minimum
clock 0 nothing was required of a slow worker yet.
-/

namespace FlexPS

variable {Val : Type} {W : Workload Val} {staleness : Nat} {threads : List Tid} {w : Tid}

variable (W) in
/-- A conflict test at which every `Get` of its window had been received. `gets` are
    the `Get`s received at that moment, `progresses` the clocks. -/
def Scan.Complete (tids : List Tid) (gets progresses : Tid → Nat) (scan : Scan) : Prop :=
  ∀ v ∈ tids, ∀ u : Nat, scan.beginVersion ≤ u → (u : Int) ≤ scan.endVersion →
    W.keys v u ≠ [] →
      u < gets v ∧ (u < progresses v ∨ ∀ key, (W.keys v u).count key ≤ scan.count u key)

variable (W staleness) in
/-- The next item of `w` does not outrun the first `Get`s of a worker: when it is a
    `Clock_v` that leaves the minimum at 0 and makes the server test `Get_{v+1}`, the
    `Get`s that test looks for have been received. -/
def StreamState.KnowsGets {Main : Type} (state : StreamState Val Main) (w : Tid) : Prop :=
  ∀ version, state.next W w = .clock version →
    (∃ v ∈ state.threads, v ≠ w ∧ state.progress v = 0) →
    version + 1 ≤ staleness + W.speculation → W.keys w (version + 1) ≠ [] →
    ∀ v ∈ state.threads, ∀ u, u + staleness ≤ version → W.keys v u ≠ [] → u < state.gets W v

/-- The iterations that `KnowsGets` looks at are bounded. -/
theorem StreamState.knowsGets_clock {Main : Type} {state : StreamState Val Main} {version : Nat}
    (next : state.next W w = .clock version) :
    ((∃ v ∈ state.threads, v ≠ w ∧ state.progress v = 0) →
      version + 1 ≤ staleness + W.speculation → W.keys w (version + 1) ≠ [] →
      ∀ v ∈ state.threads, ∀ u < version + 1, u + staleness ≤ version → W.keys v u ≠ [] →
        u < state.gets W v) ↔ state.KnowsGets W staleness w := by
  simp only [KnowsGets, next, StreamItem.clock.injEq, forall_eq']
  constructor
  · intro bounded behind slow sent v member u old asked
    exact bounded behind slow sent v member u (by omega) old asked
  · intro knows behind slow sent v member u _ old asked
    exact knows behind slow sent v member u old asked

theorem StreamState.knowsGets_of_not_clock {Main : Type} {state : StreamState Val Main}
    (other : ∀ version, state.next W w ≠ .clock version) : state.KnowsGets W staleness w :=
  fun version next => absurd next (other version)

instance {Main : Type} (state : StreamState Val Main) (w : Tid) :
    Decidable (state.KnowsGets W staleness w) :=
  match h : state.next W w with
  | .clock version =>
      decidable_of_iff ((∃ v ∈ state.threads, v ≠ w ∧ state.progress v = 0) →
          version + 1 ≤ staleness + W.speculation → W.keys w (version + 1) ≠ [] →
          ∀ v ∈ state.threads, ∀ u < version + 1, u + staleness ≤ version → W.keys v u ≠ [] →
            u < state.gets W v) (StreamState.knowsGets_clock h)
  | .get _ | .add _ => isTrue (StreamState.knowsGets_of_not_clock fun _ next => by
      rw [h] at next
      cases next)

variable (W staleness threads) in
/-- Every `Get` that is a staleness older than an entered one has been received, as
    long as the entered one is not too fast at minimum clock 0. -/
def Known (slots : StreamState Val (Slots Val)) : Prop :=
  ∀ w ∈ threads, ∀ version ≤ slots.clocks W w, version ≤ staleness + W.speculation →
    W.keys w version ≠ [] → ∀ v ∈ threads, ∀ u, u + staleness + 1 ≤ version →
      W.keys v u ≠ [] → u < slots.gets W v

/-- A worker whose `Clock` has been received has sent more than `speculation` `Get`s. -/
theorem gets_of_clocked {Main : Type} (state : StreamState Val Main) {v : Tid}
    (clocked : 0 < state.clocks W v) : state.clocks W v + W.speculation ≤ state.gets W v := by
  exact (streamGets_bounds W.speculation (state.position v)).2.1 clocked

section Steps

variable [AddCommMonoid Val] {slots slots' : StreamState Val (Slots Val)} {storage : Storage Val}
  {answered : Tid → Nat → Nat} {out : List (Event Val)}

theorem known_step (inv : StreamInv W staleness threads storage answered slots)
    (knows : slots.KnowsGets W staleness w) (known : Known W staleness threads slots)
    (stepped : slots.step W w = .ok (slots', out)) : Known W staleness threads slots' := by
  suffices taken : ∀ gets clocks adds, slots.Takes W w slots'.model out gets clocks adds →
      ∀ x ∈ threads, ∀ version ≤ clocks x, version ≤ staleness + W.speculation →
        W.keys x version ≠ [] → ∀ v ∈ threads, ∀ u, u + staleness + 1 ≤ version →
          W.keys v u ≠ [] → u < gets v from taken _ _ _ (StreamState.step_takes stepped)
  intro gets clocks adds taken x member version entered slow sent v registered u below asked
  have more := le_update_succ (slots.gets W) w v
  cases taken with
  | absentGet =>
      exact Nat.lt_of_lt_of_le (known x member version entered slow sent v registered u below asked) more
  | get =>
      exact Nat.lt_of_lt_of_le (known x member version entered slow sent v registered u below asked) more
  | absentAdd => exact known x member version entered slow sent v registered u below asked
  | add => exact known x member version entered slow sent v registered u below asked
  | clock next _ getsDone _ =>
      by_cases old : version ≤ slots.clocks W x
      · exact known x member version old slow sent v registered u below asked
      · have own : x = w := by
          by_contra other
          rw [Function.update_of_ne other] at entered
          exact old entered
        subst own
        rw [Function.update_self] at entered
        obtain rfl : version = slots.clocks W x + 1 := by omega
        by_cases behind : ∃ v ∈ slots.threads, v ≠ x ∧ slots.progress v = 0
        · exact knows _ next behind slow sent v (inv.threads_eq ▸ registered) u (by omega) asked
        · -- every other worker has been clocked, so its first `Get`s are in
          by_cases same : v = x
          · subst same
            omega
          · have moved : slots.progress v ≠ 0 :=
              fun zero => behind ⟨v, inv.threads_eq ▸ registered, same, zero⟩
            have received := inv.server.progress_le v
            have enough := gets_of_clocked (W := W) slots (v := v) (by
              simp only [StreamState.progress] at moved
              omega)
            omega

/-- What is known makes every fair scan complete. -/
theorem complete_of_fair {clocks : ProgressTracker} {scan : Scan}
    (inv : StreamInv W staleness threads storage answered slots)
    (known : Known W staleness threads slots)
    (taken : Taken threads slots.model.progressTracker.progresses clocks)
    (fair : FairScan W staleness threads clocks.progresses (slots.gets W) clocks.minClock scan) :
    scan.Complete W threads (slots.gets W) clocks.progresses := by
  intro v registered u above below sent
  obtain ⟨msg, ⟨due, slow⟩, -, last⟩ := fair.request
  rw [fair.first] at above
  have below : u + staleness + 1 ≤ msg.version := by
    rw [last] at below
    omega
  have behind : ∀ v, clocks.progresses v ≤ slots.clocks W v :=
    fun v => Nat.le_trans (taken.le v) (inv.server.progress_le v)
  have received : u < slots.gets W v := by
    rcases Nat.eq_zero_or_pos clocks.minClock with start | running
    · exact known msg.sender due.registered msg.version (Nat.le_trans due.entered (behind _))
        (by omega) due.sent v registered u below sent
    · have minimum := taken.exact.le v (taken.threads_eq ▸ registered)
      have clocked := behind v
      have enough := gets_of_clocked (W := W) slots (v := v) (by omega)
      omega
  refine ⟨received, ?_⟩
  by_cases processed : u < clocks.progresses v
  · exact .inl processed
  · right
    intro key
    rw [fair.count]
    exact le_recordedCount registered (Nat.le_of_not_lt processed) received

end Steps

section Runs

variable [AddCommMonoid Val] {type : SparseSSPRecorderType} {storage : Storage Val}
  {dcheckIsOn : Bool} {recorder : SparseSSPRecorder Val (type.Main Val)} {tids ws : List Tid}
  {state state' : StreamState Val (type.Main Val)}
  {events out : List (Event Val)}

theorem known_run (speculative : 1 ≤ W.speculation) {slots : StreamState Val (Slots Val)}
    (run : Machine.Runs (StreamState.step W)
      (fun slots _ w => w ∈ slots.threads ∧ slots.KnowsGets W staleness w)
      (.start W storage (slotsRecorder staleness W.speculation dcheckIsOn) tids) ws slots events) :
    Known W staleness tids.dedup slots := by
  apply run.invariant (P := fun _ slots _ => Known W staleness tids.dedup slots)
  · intro w _ version entered _ _ v _ u below
    simp only [StreamState.clocks, StreamState.start, streamClocks] at entered
    omega
  · intro ws slots events w slots' out run known admitted stepped
    exact known_step (streamInv_run (fun _ _ _ h => h.1) run (.inl speculative)) admitted.2 known stepped

omit [AddCommMonoid Val] in
theorem knowsGets_of_coupled {size : Nat} {slots : StreamState Val (Slots Val)}
    (coupled : Coupled W staleness tids.dedup (type.Models size) state slots)
    (knows : state.KnowsGets W staleness w) : slots.KnowsGets W staleness w := by
  have progress_eq := coupled.progress_eq
  rwa [StreamState.KnowsGets, coupled.next_eq, coupled.gets_eq, StreamState.threads,
    coupled.tracker_eq, progress_eq] at knows

/-- In a run in which no `Clock` at minimum clock 0 outruns the first `Get`s of another
    worker, a conflict test never misses a `Get` that is still in flight. -/
theorem scans_complete
    (constructed : type.recorder staleness W.speculation dcheckIsOn = .ok recorder)
    (owned : ∀ w version, ∀ key ∈ W.keys w version, type.Owns key)
    (speculative : 1 ≤ W.speculation)
    (run : Machine.Runs (StreamState.step W)
      (fun state events w => state.Registered events w ∧ state.KnowsGets W staleness w)
      (.start W storage recorder tids) ws state events)
    (admitted : state.Registered events w ∧ state.KnowsGets W staleness w)
    (stepped : state.step W w = .ok (state', out)) {scan : Scan} {clocks : ProgressTracker}
    (scanned : .scan scan clocks ∈ out) :
    scan.Complete W tids (state'.gets W) clocks.progresses := by
  obtain ⟨slots, events', run', coupled, -⟩ :=
    slots_run type (fun slots _ w => w ∈ slots.threads ∧ slots.KnowsGets W staleness w)
      (type.recorder_eq_ok.mp constructed).2 owned
      (fun _ _ _ h => h.1)
      (fun _ _ _ _ _ coupled _ _ h =>
        ⟨registered_of_coupled coupled h.1, knowsGets_of_coupled coupled h.2⟩) run
  have inv := streamInv_run (fun _ _ _ h => h.1) run' (.inl speculative)
  obtain ⟨slots', out', stepped', facts⟩ :=
    step_facts owned speculative coupled inv admitted.1 stepped
  have known := known_step inv (knowsGets_of_coupled coupled admitted.2)
    (known_run speculative run') stepped'
  obtain ⟨event, inOut', same⟩ := exists_same_of_mem facts.same scanned
  cases same with
  | @scan _ scan' _ sameScan =>
      cases facts.fair _ inOut' with
      | scan taken fair =>
          have complete := complete_of_fair facts.after known taken fair
          intro v member u above below sent
          obtain ⟨received, recorded⟩ := complete v (List.mem_dedup.mpr member) u
            (sameScan.begin_eq ▸ above) (sameScan.end_eq ▸ below) sent
          refine ⟨facts.coupled'.gets_eq ▸ received, recorded.imp_right fun counted key => ?_⟩
          by_cases asked : key ∈ W.keys v u
          · rw [sameScan.count_eq u above below key (owned v u key asked)]
            exact counted key
          · rw [List.count_eq_zero.mpr asked]
            exact Nat.zero_le _

/-- Both workers' first `Get`s are in before the first `Clock`. -/
theorem scans_complete_sharedKey :
    ∃ (gets progresses : Tid → Nat) (scan : Scan), scan.beginVersion = 0 ∧ scan.endVersion = 0 ∧
      0 < gets 2 ∧ (0 < progresses 2 ∨ 1 ≤ scan.count 0 7) := by
  obtain ⟨state, events, run, admitted, computed⟩ := Machine.runs_of_exec
    (StreamState.step (Workload.sharedKey 1))
    (fun state events w => state.Registered events w ∧ state.KnowsGets (Workload.sharedKey 1) 0 w)
    (.start (Workload.sharedKey 1) (.map fun _ => 0)
      (UnorderedMapSparseSSPRecorder 0 1 true) [1, 2]) [1, 1, 1, 2, 2]
    (fun state events => (state.Registered events 1 ∧ state.KnowsGets (Workload.sharedKey 1) 0 1) ∧
      (state.step (Workload.sharedKey 1) 1).toOption.map (fun x =>
        (x.2.filterMap Event.scanned).map fun scan => (scan.beginVersion, scan.endVersion)) =
          some [(0, 0)])
    (by decide +kernel)
  have owned : ∀ w version, ∀ key ∈ (Workload.sharedKey 1).keys w version,
      SparseSSPRecorderType.map.Owns key := fun _ _ _ _ => trivial
  cases stepped : state.step (Workload.sharedKey 1) 1 with
  | error e => simp [stepped, Except.toOption] at computed
  | ok next =>
      obtain ⟨state', out⟩ := next
      simp only [stepped, Except.toOption, Option.map_some, Option.some.injEq] at computed
      obtain ⟨scan, member, window⟩ := List.mem_map.mp (computed ▸ List.mem_cons_self)
      obtain ⟨clocks, scanned⟩ := Event.exists_scan member
      obtain ⟨first, last⟩ := Prod.mk.inj window
      obtain ⟨received, recorded⟩ :=
        scans_complete (SparseSSPRecorderType.recorder_map 0 1 true) owned (Nat.le_refl 1) run admitted
          stepped scanned 2 (by decide) 0 (by omega) (by omega) (List.cons_ne_nil 7 [])
      exact ⟨_, _, scan, first, last, received, recorded.imp_right fun counted => counted 7⟩

/-- Worker 1 clocks its first iteration before anything of worker 2 has arrived. -/
theorem scans_complete_fails : ¬ ∀ ws (state : StreamState Int (MapRecorder Int)) events
    w state' out scan clocks,
    Machine.Runs (StreamState.step (Workload.sharedKey 1))
      (fun state events w => state.Registered events w ∧ state.Replied (Workload.sharedKey 1) events w)
      (.start (Workload.sharedKey 1) (.map fun _ => 0)
        (UnorderedMapSparseSSPRecorder 0 1 true) [1, 2]) ws state events →
    state.Registered events w ∧ state.Replied (Workload.sharedKey 1) events w →
    state.step (Workload.sharedKey 1) w = .ok (state', out) → .scan scan clocks ∈ out →
    scan.Complete (Workload.sharedKey 1) [1, 2] (state'.gets (Workload.sharedKey 1)) clocks.progresses := by
  intro complete
  obtain ⟨state, events, run, admitted, computed⟩ := Machine.runs_of_exec
    (StreamState.step (Workload.sharedKey 1))
    (fun state events w => state.Registered events w ∧ state.Replied (Workload.sharedKey 1) events w)
    (.start (Workload.sharedKey 1) (.map fun _ => 0)
      (UnorderedMapSparseSSPRecorder 0 1 true) [1, 2]) [1, 1, 1]
    (fun state events => (state.Registered events 1 ∧ state.Replied (Workload.sharedKey 1) events 1) ∧
      (state.step (Workload.sharedKey 1) 1).toOption.map (fun x => (x.1.gets (Workload.sharedKey 1) 2,
        (x.2.filterMap Event.scanned).map fun scan => (scan.beginVersion, scan.endVersion))) =
          some (0, [(0, 0)]))
    (by decide +kernel)
  cases stepped : state.step (Workload.sharedKey 1) 1 with
  | error e => simp [stepped, Except.toOption] at computed
  | ok next =>
      obtain ⟨state', out⟩ := next
      simp only [stepped, Except.toOption, Option.map_some, Option.some.injEq, Prod.mk.injEq]
        at computed
      obtain ⟨scan, member, window⟩ := List.mem_map.mp (computed.2 ▸ List.mem_cons_self)
      obtain ⟨clocks, scanned⟩ := Event.exists_scan member
      obtain ⟨first, last⟩ := Prod.mk.inj window
      obtain ⟨received, -⟩ := complete _ state events 1 state' out scan clocks run admitted stepped
        scanned 2 (by decide) 0 (by omega) (by omega) (List.cons_ne_nil 7 [])
      omega

end Runs

end FlexPS
