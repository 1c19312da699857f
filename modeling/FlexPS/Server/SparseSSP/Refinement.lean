import FlexPS.Server.SparseSSP.Guarantees

/-! # The ring recorder refines the map recorder

Both recorders mirror the same abstract slots, so neither can be told from the other by its
replies or its clocks. But the ring passes some of its indices through an `int`: it completes
exactly those runs of the map in which every such index fits one.
-/

namespace FlexPS

variable {Val : Type} [AddCommMonoid Val] {W : Workload Val} {staleness : Nat}
  {storage : Storage Val} {dcheckIsOn : Bool} {tids ws : List Tid}

section Transfer

variable {type type' : SparseSSPRecorderType} {state : StreamState Val (type.Main Val)}
  {events : List (Event Val)}

/-- Two servers that cannot be told apart from outside. -/
structure SameBehaviour {Main Main' : Type} (state : StreamState Val Main)
    (events : List (Event Val)) (state' : StreamState Val Main') (events' : List (Event Val)) :
    Prop where
  pushed : events.filterMap Event.pushed = events'.filterMap Event.pushed
  progressTracker : state.model.progressTracker = state'.model.progressTracker
  storage : state.model.storage = state'.model.storage

omit [AddCommMonoid Val] in
theorem SameScan.conflict_eq {keys : Key → Prop} {scan scan' : Scan} (same : SameScan keys scan scan')
    (owned : ∀ key ∈ scan.keys, keys key) : scan.conflict = scan'.conflict := by
  rw [Scan.conflict, Scan.conflict, ← same.keys_eq, ← same.begin_eq, ← same.end_eq]
  apply findSome?_congr
  intro version inRange
  obtain ⟨above, below⟩ := SparseSSPRecorder.mem_checkVersions.mp inRange
  congr 1
  apply List.find?_congr
  intro key member
  rw [same.count_eq version above below key (owned key member)]

omit [AddCommMonoid Val] in
theorem fitScans_iff_of_same {limits : Limits} {events events' : List (Event Val)}
    (same : List.Forall₂ (SameEvent fun _ => True) events events') :
    limits.FitScans (events.filterMap Event.scanned) ↔
      limits.FitScans (events'.filterMap Event.scanned) := by
  induction same with
  | nil => exact Iff.rfl
  | cons head _ ih =>
      cases head with
      | reply | resetDone => exact ih
      | scan clocks sameScan =>
          refine List.forall_mem_cons.trans (Iff.trans (and_congr ?_ ih) List.forall_mem_cons.symm)
          rw [sameScan.conflict_eq fun _ _ => trivial]

omit [AddCommMonoid Val] in
theorem stepFits_iff_of_coupled {limits : Limits} {size : Nat}
    {state state' : StreamState Val (SparseSSPRecorderType.map.Main Val)} {slots slots' : StreamState Val (Slots Val)}
    {out out' : List (Event Val)}
    (coupled : Coupled W staleness tids.dedup (SparseSSPRecorderType.map.Models size) state slots)
    (coupled' : Coupled W staleness tids.dedup (SparseSSPRecorderType.map.Models size) state' slots')
    (same : List.Forall₂ (SameEvent fun _ => True) out out') :
    limits.StepFits W (state.gets W) state.progress state'.progress out ↔
      limits.StepFits W (slots.gets W) slots.progress slots'.progress out' := by
  rw [coupled.gets_eq, coupled.progress_eq, coupled'.progress_eq]
  have scans : limits.FitScans _ ↔ limits.FitScans _ := fitScans_iff_of_same same
  exact ⟨fun fits => ⟨scans.mp fits.scans, fits.removed⟩,
    fun fits => ⟨scans.mpr fits.scans, fits.removed⟩⟩

/-- The map recorder and the slots keep to the same limits. -/
theorem keepsTo_iff_of_coupled {limits : Limits} {size : Nat}
    {state : StreamState Val (SparseSSPRecorderType.map.Main Val)}
    {slots : StreamState Val (Slots Val)} {w : Tid} (size_eq : size = staleness + 2 * W.speculation + 3)
    (coupled : Coupled W staleness tids.dedup (SparseSSPRecorderType.map.Models size) state slots)
    (registered : w ∈ tids.dedup) : state.KeepsTo W limits w ↔ slots.KeepsTo W limits w := by
  subst size_eq
  have both := (step_mirrors (SparseSSPRecorderType.map.faithful (Nat.succ_pos _) fun _ owns => owns)
    (fun _ _ _ _ => trivial) coupled registered).sim fun exceeded =>
      exceeded.elim fun _ past => past.2 ⟨trivial, trivial⟩
  constructor
  · intro keeps slots' out' stepped'
    obtain ⟨⟨state', out⟩, stepped, coupled', same⟩ := both.symm.exists_ok stepped'
    exact (stepFits_iff_of_coupled coupled coupled' same).mp (keeps state' out stepped)
  · intro keeps state' out stepped
    obtain ⟨⟨slots', out'⟩, stepped', coupled', same⟩ := both.exists_ok stepped
    exact (stepFits_iff_of_coupled coupled coupled' same).mpr (keeps slots' out' stepped')

variable (type) in
/-- A run over the slots is a run with either recorder, as long as it keeps to the limits of
    the recorder. -/
theorem run_of_slots {slots : StreamState Val (Slots Val)}
    {recorder : SparseSSPRecorder Val (type.Main Val)}
    {guard' : StreamState Val (Slots Val) → List (Event Val) → Tid → Prop}
    (guard : StreamState Val (type.Main Val) → List (Event Val) → Tid → Prop)
    (recorder_eq : recorder =
      .new staleness W.speculation (type.mainRecorder staleness W.speculation) dcheckIsOn)
    (owned : ∀ w version, ∀ key ∈ W.keys w version, type.Owns key)
    (keeps : ∀ state slots events w,
      Coupled W staleness tids.dedup (type.Models (staleness + 2 * W.speculation + 3)) state slots →
      guard' slots events w → slots.Registered events w ∧ slots.KeepsTo W type.limits w)
    (admits : ∀ state events slots events' w,
      Coupled W staleness tids.dedup (type.Models (staleness + 2 * W.speculation + 3)) state slots →
      w ∈ tids.dedup → guard' slots events' w → guard state events w)
    (run : Machine.Runs (StreamState.step W) guard'
      (.start W storage (slotsRecorder staleness W.speculation dcheckIsOn) tids) ws slots events) :
    ∃ (state : StreamState Val (type.Main Val)) (events' : List (Event Val)),
      Machine.Runs (StreamState.step W) guard (.start W storage recorder tids) ws state events' ∧
      Coupled W staleness tids.dedup (type.Models (staleness + 2 * W.speculation + 3)) state slots ∧
      List.Forall₂ (SameEvent type.Owns) events' events := by
  apply run.lockstep (R := fun slots events (state : StreamState Val (type.Main Val)) events' =>
    Coupled W staleness tids.dedup (type.Models (staleness + 2 * W.speculation + 3)) state slots ∧
      List.Forall₂ (SameEvent type.Owns) events' events)
  · exact ⟨SparseSSPRecorderType.coupled_start storage recorder_eq tids, .nil⟩
  · intro _ slots events state events' w slots' out _ _ related admitted stepped
    obtain ⟨coupled, same⟩ := related
    obtain ⟨registered, fits⟩ := keeps state slots events w coupled admitted
    have member : w ∈ tids.dedup := coupled.threads_eq ▸ registered
    obtain ⟨⟨state', out'⟩, stepped', coupled', same'⟩ :=
      (step_mirrors (type.faithful (Nat.succ_pos _) fun _ owns => owns) owned coupled member).exists_of_fits
        stepped (fits slots' out stepped)
    exact ⟨admits state events' slots events w coupled member admitted, state', out', stepped', coupled',
      List.rel_append same same'⟩

omit [AddCommMonoid Val] in
/-- Two servers that mirror the same slots cannot be told apart. -/
theorem sameBehaviour_of_coupled {state : StreamState Val (type.Main Val)}
    {state' : StreamState Val (type'.Main Val)} {slots : StreamState Val (Slots Val)} {size : Nat}
    {events events' slotEvents : List (Event Val)}
    (coupled : Coupled W staleness tids.dedup (type.Models size) state slots)
    (coupled' : Coupled W staleness tids.dedup (type'.Models size) state' slots)
    (same : List.Forall₂ (SameEvent type.Owns) events slotEvents)
    (same' : List.Forall₂ (SameEvent type'.Owns) events' slotEvents) :
    SameBehaviour state events state' events' where
  pushed := by rw [pushed_eq_of_same same, pushed_eq_of_same same']
  progressTracker := by rw [coupled.tracker_eq, coupled'.tracker_eq]
  storage := by rw [coupled.storage_eq, coupled'.storage_eq]

end Transfer

/-! ## Versions that share a level -/

/-- Something of `version` is still counted or waiting. -/
def MapRecorder.InUse (main : MapRecorder Val) (version : Nat) : Prop :=
  ∃ key, 0 < MainRecorder.count main version key ∨ MainRecorder.pending main version key ≠ []

/-- No two versions in use would share a level of a ring with `size` levels. -/
def MapRecorder.LevelsApart (size : Nat) (main : MapRecorder Val) : Prop :=
  ∀ version version', main.InUse version → main.InUse version' →
    version % size = version' % size → version = version'

omit [AddCommMonoid Val] in
/-- What the counts of a map allow to be in use. -/
theorem MapRecorder.Models.recorded_of_inUse {threads : List Tid} {prog gets : Tid → Nat}
    {main : MapRecorder Val} {slots : Slots Val} (models : main.Models slots)
    (counts : slots.counts = recordedCount W threads prog gets) {version : Nat}
    (inUse : main.InUse version) : ∃ w ∈ threads, prog w ≤ version ∧ version < gets w := by
  obtain ⟨key, some⟩ := inUse
  have counted : 0 < slots.counts version key := by
    rcases some with counted | waiting
    · rwa [MapRecorder.represents.count models trivial trivial] at counted
    · by_contra zero
      apply waiting
      rw [MapRecorder.represents.pending models trivial trivial]
      exact Slots.pendingAt_eq_nil models.live (Nat.eq_zero_of_not_pos zero)
  rw [counts] at counted
  obtain ⟨w, member, above, below, -⟩ := recordedCount_pos counted
  exact ⟨w, member, above, below⟩

omit [AddCommMonoid Val] in
theorem MapRecorder.Models.levelsApart {threads : List Tid} {prog gets : Tid → Nat}
    {main : MapRecorder Val} {slots : Slots Val} (models : main.Models slots)
    (counts : slots.counts = recordedCount W threads prog gets) {first size : Nat}
    (above : ∀ w ∈ threads, first ≤ prog w) (below : ∀ w ∈ threads, gets w ≤ first + size) :
    main.LevelsApart size := by
  have inside : ∀ version, main.InUse version → Window.Inside first size version := by
    intro version inUse
    obtain ⟨w, member, entered, received⟩ := models.recorded_of_inUse counts inUse
    exact ⟨Nat.le_trans (above w member) entered, Nat.lt_of_lt_of_le received (below w member)⟩
  exact fun version version' inUse inUse' => Window.mod_injective (inside _ inUse) (inside _ inUse')

variable {range : Range}

/-- In a run with the map the versions in use are apart on the ring, also when a `Clock` that
    has raised the minimum is about to remove a level, and that level is not in use. -/
theorem levelsApart_run {state : StreamState Val (MapRecorder Val)} {events : List (Event Val)}
    (run : Machine.Runs (StreamState.step W) StreamState.Registered
      (.start W storage (UnorderedMapSparseSSPRecorder staleness W.speculation dcheckIsOn) tids)
      ws state events) :
    state.model.recorder.mainRecorder.LevelsApart (staleness + 2 * W.speculation + 3) ∧
      ∀ w ∈ tids, ∀ minClock tracker recorder out,
        state.model.progressTracker.advanceAndGetChangedMinClock w = .ok (some minClock, tracker) →
        state.model.recorder.getNonConflictMsgs (state.progress w + 1) w minClock =
          .ok (recorder, out) →
        recorder.mainRecorder.LevelsApart (staleness + 2 * W.speculation + 3) ∧
          ¬ recorder.mainRecorder.InUse (minClock - 1) := by
  obtain ⟨slots, -, -, coupled, -⟩ := slots_run .map StreamState.Registered
    (SparseSSPRecorderType.map_recorder_eq staleness W.speculation dcheckIsOn) (fun _ _ _ _ => trivial)
    (fun _ _ _ h => h) (fun _ _ _ _ _ coupled _ _ h => registered_of_coupled coupled h) run
  obtain ⟨main, models, mirrors⟩ := coupled.mirrors
  have stored := coupled.stored.base.stored
  have clocks := coupled.stored.base.clocks
  have above : ∀ v ∈ tids.dedup, slots.minClock ≤ slots.progress v :=
    fun v member => clocks.exact.le v (clocks.threads_eq ▸ member)
  have progress_eq : state.progress = slots.progress := coupled.progress_eq
  rw [mirrors]
  refine ⟨models.levelsApart stored.counts above fun v member => coupled.gets_le member, ?_⟩
  intro w member minClock tracker recorder out raised handled
  have registered := List.mem_dedup.mpr member
  obtain ⟨-, -, advanced⟩ := ProgressTracker.advance_eq_ok.mp raised
  have exact := advanced.exact (clocks.threads_eq ▸ registered) clocks.exact
  have scannable : ∀ msg, Received W tids.dedup (slots.gets W) msg →
      Scannable (fun _ => True) (fun _ => True) staleness minClock msg :=
    fun _ _ => ⟨fun _ _ => trivial, fun _ _ _ => trivial⟩
  rw [progress_eq] at handled
  obtain ⟨⟨released, slotOut⟩, -, -, ⟨⟨main', models', mirrors'⟩, -⟩, stored'⟩ :=
    (getNonConflictMsgs_mirrors MapRecorder.represents (fun _ _ _ _ => trivial) models stored
      registered (fun _ => trivial) scannable).exists_ok handled
  obtain rfl : recorder = released.withMain main' := mirrors'
  have later := le_update_succ slots.progress w
  constructor
  · exact models'.levelsApart stored'.counts
      (fun v member => Nat.le_trans (above v member) (later v)) fun v member => coupled.gets_le member
  · intro inUse
    obtain ⟨v, member, entered, -⟩ := models'.recorded_of_inUse stored'.counts inUse
    have minimum := exact.le v (advanced.threads ▸ clocks.threads_eq ▸ member)
    rw [advanced.progresses] at minimum
    cases advanced with
    | moved unique => exact absurd (Nat.le_trans minimum entered) (Nat.not_succ_le_self _)

omit [AddCommMonoid Val] in
theorem ring_constructed {staleness speculation : Nat} {range : Range} :
    (∃ ring : SparseSSPRecorder Val (VectorRecorder Val),
        VectorSparseSSPRecorder staleness speculation range dcheckIsOn = .ok ring) ↔
      (dcheckIsOn = true → range.begin_ < range.end_) := by
  constructor
  · rintro ⟨ring, constructed⟩
    exact ((SparseSSPRecorderType.vector range).recorder_eq_ok.mp constructed).1
  · intro nonEmpty
    exact ⟨_, (SparseSSPRecorderType.vector range).recorder_eq_ok.mpr ⟨nonEmpty, rfl⟩⟩

/-- A registered worker sends, and the indices that a ring for `range` computes for what the map
    recorder then does fit an `int`: of the keys requests are forwarded to, and of the
    offsets of the keys whose records are removed. -/
def StreamState.Indexable (W : Workload Val) (range : Range) (state : StreamState Val (MapRecorder Val))
    (events : List (Event Val)) (w : Tid) : Prop :=
  state.Registered events w ∧ state.KeepsTo W (.ofRange range) w

section BothWays

variable (owned : ∀ w version, ∀ key ∈ W.keys w version, range.Owns key)
  {ring : SparseSSPRecorder Val (VectorRecorder Val)}
  (constructed : VectorSparseSSPRecorder staleness W.speculation range dcheckIsOn = .ok ring)

include owned constructed

/-- A run with the ring is a run with the map, one that keeps to what the ring can index. -/
theorem map_run_of_ring {state' : StreamState Val (VectorRecorder Val)} {events' : List (Event Val)}
    (run : Machine.Runs (StreamState.step W) StreamState.Registered (.start W storage ring tids)
      ws state' events') :
    ∃ (state : StreamState Val (MapRecorder Val)) (events : List (Event Val)),
      Machine.Runs (StreamState.step W) (StreamState.Indexable W range)
        (.start W storage (UnorderedMapSparseSSPRecorder staleness W.speculation dcheckIsOn) tids)
        ws state events ∧
      SameBehaviour state events state' events' := by
  have ring_eq := ((SparseSSPRecorderType.vector range).recorder_eq_ok.mp constructed).2
  obtain ⟨slots, slotEvents, slotRun, coupled', same'⟩ := slots_run (.vector range)
    (fun slots events w => slots.Registered events w ∧ slots.KeepsTo W (.ofRange range) w) ring_eq owned
    (fun _ _ _ h => h)
    (fun _ _ _ _ _ coupled _ keeps h => ⟨registered_of_coupled coupled h, keeps⟩) run
  have unlimited : ∀ (slots : StreamState Val (Slots Val)) w, slots.KeepsTo W .unlimited w :=
    fun _ _ _ _ _ => ⟨fun _ _ _ _ _ => trivial, fun _ _ _ _ _ _ _ => trivial⟩
  obtain ⟨state, events, mapRun, coupled, same⟩ := run_of_slots .map
    (StreamState.Indexable W range)
    (SparseSSPRecorderType.map_recorder_eq staleness W.speculation dcheckIsOn) (fun _ _ _ _ => trivial)
    (fun _ slots _ w _ h => ⟨h.1, unlimited slots w⟩)
    (fun _ events _ _ _ coupled member h =>
      ⟨coupled.registered events member, (keepsTo_iff_of_coupled rfl coupled member).mpr h.2⟩) slotRun
  exact ⟨state, events, mapRun, sameBehaviour_of_coupled coupled coupled' same same'⟩

/-- A run with the map that keeps to what the ring can index is a run with the ring. -/
theorem ring_run_of_map {state : StreamState Val (MapRecorder Val)} {events : List (Event Val)}
    (run : Machine.Runs (StreamState.step W) (StreamState.Indexable W range)
      (.start W storage (UnorderedMapSparseSSPRecorder staleness W.speculation dcheckIsOn) tids)
      ws state events) :
    ∃ (state' : StreamState Val (VectorRecorder Val)) (events' : List (Event Val)),
      Machine.Runs (StreamState.step W) StreamState.Registered (.start W storage ring tids)
        ws state' events' ∧
      SameBehaviour state events state' events' := by
  have ring_eq := ((SparseSSPRecorderType.vector range).recorder_eq_ok.mp constructed).2
  obtain ⟨slots, slotEvents, slotRun, coupled, same⟩ := slots_run .map
    (fun slots events w => slots.Registered events w ∧ slots.KeepsTo W (.ofRange range) w)
    (SparseSSPRecorderType.map_recorder_eq staleness W.speculation dcheckIsOn) (fun _ _ _ _ => trivial)
    (fun _ _ _ h => h.1)
    (fun _ _ _ _ _ coupled _ _ h => ⟨registered_of_coupled coupled h.1,
      (keepsTo_iff_of_coupled rfl coupled
        (coupled.threads_eq ▸ registered_of_coupled coupled h.1)).mp h.2⟩) run
  obtain ⟨state', events', ringRun, coupled', same'⟩ :=
    run_of_slots (.vector range) StreamState.Registered ring_eq owned (fun _ _ _ _ _ h => h)
      (fun _ events _ _ _ coupled member _ => coupled.registered events member) slotRun
  exact ⟨state', events', ringRun, sameBehaviour_of_coupled coupled coupled' same same'⟩

end BothWays

/-- With keys below `2 ^ 31` every index fits. -/
theorem indexable_run_of_small (owned : ∀ w version, ∀ key ∈ W.keys w version, range.Owns key)
    (small : ∀ w version, ∀ key ∈ W.keys w version, key.toNat ≤ intMax)
    (nonEmpty : dcheckIsOn = true → range.begin_ < range.end_)
    {state : StreamState Val (MapRecorder Val)} {events : List (Event Val)}
    (run : Machine.Runs (StreamState.step W) StreamState.Registered
      (.start W storage (UnorderedMapSparseSSPRecorder staleness W.speculation dcheckIsOn) tids)
      ws state events) :
    Machine.Runs (StreamState.step W) (StreamState.Indexable W range)
      (.start W storage (UnorderedMapSparseSSPRecorder staleness W.speculation dcheckIsOn) tids)
      ws state events := by
  obtain ⟨ring, constructed⟩ := ring_constructed.mpr nonEmpty
  have ring_eq := ((SparseSSPRecorderType.vector range).recorder_eq_ok.mp constructed).2
  obtain ⟨slots, slotEvents, slotRun, coupled, same⟩ := slots_run .map StreamState.Registered
    (SparseSSPRecorderType.map_recorder_eq staleness W.speculation dcheckIsOn) (fun _ _ _ _ => trivial)
    (fun _ _ _ h => h) (fun _ _ _ _ _ coupled _ _ h => registered_of_coupled coupled h) run
  obtain ⟨state', events', ringRun, -⟩ := run_of_slots (.vector range) StreamState.Registered ring_eq owned
    (fun _ _ _ _ coupled h => ⟨h, keepsTo_of_indexed owned small coupled (coupled.threads_eq ▸ h)⟩)
    (fun _ events _ _ _ coupled member _ => coupled.registered events member) slotRun
  obtain ⟨state'', events'', mapRun, -⟩ := map_run_of_ring owned constructed ringRun
  obtain ⟨rfl, rfl⟩ := run.unique (mapRun.mono fun _ _ _ h => h.1)
  exact mapRun

/-- The ring recorder and the map recorder push the same replies and keep the same
    clocks on the same messages, exactly as long as the ring is constructed and every
    index it computes fits an `int`. At any time in a run with the map, and when a `Clock`
    that has raised the minimum is about to remove a level, the versions in use are apart
    on the ring. -/
theorem vector_refines_map (owned : ∀ w version, ∀ key ∈ W.keys w version, range.Owns key) :
    (∀ ws (state : StreamState Val (MapRecorder Val)) events,
      Machine.Runs (StreamState.step W) StreamState.Registered (.start W storage
        (UnorderedMapSparseSSPRecorder staleness W.speculation dcheckIsOn) tids) ws state events →
      ((∃ ring, VectorSparseSSPRecorder staleness W.speculation range dcheckIsOn = .ok ring ∧
        ∃ (state' : StreamState Val (VectorRecorder Val)) (events' : List (Event Val)),
          Machine.Runs (StreamState.step W) StreamState.Registered (.start W storage ring tids)
            ws state' events' ∧
          SameBehaviour state events state' events') ↔
        (dcheckIsOn = true → range.begin_ < range.end_) ∧
          Machine.Runs (StreamState.step W) (StreamState.Indexable W range) (.start W storage
            (UnorderedMapSparseSSPRecorder staleness W.speculation dcheckIsOn) tids) ws state events) ∧
      state.model.recorder.mainRecorder.LevelsApart (staleness + 2 * W.speculation + 3) ∧
      ∀ w ∈ tids, ∀ minClock tracker recorder out,
        state.model.progressTracker.advanceAndGetChangedMinClock w = .ok (some minClock, tracker) →
        state.model.recorder.getNonConflictMsgs (state.progress w + 1) w minClock =
          .ok (recorder, out) →
        recorder.mainRecorder.LevelsApart (staleness + 2 * W.speculation + 3) ∧
          ¬ recorder.mainRecorder.InUse (minClock - 1)) ∧
    (∀ ring, VectorSparseSSPRecorder staleness W.speculation range dcheckIsOn = .ok ring →
      ∀ ws (state' : StreamState Val (VectorRecorder Val)) events',
      Machine.Runs (StreamState.step W) StreamState.Registered (.start W storage ring tids)
        ws state' events' →
      ∃ (state : StreamState Val (MapRecorder Val)) (events : List (Event Val)),
        Machine.Runs (StreamState.step W) (StreamState.Indexable W range) (.start W storage
          (UnorderedMapSparseSSPRecorder staleness W.speculation dcheckIsOn) tids) ws state events ∧
        SameBehaviour state events state' events') := by
  constructor
  · intro ws state events run
    refine ⟨⟨?_, ?_⟩, levelsApart_run run⟩
    · rintro ⟨ring, constructed, state', events', ringRun, -⟩
      obtain ⟨state'', events'', mapRun, -⟩ := map_run_of_ring owned constructed ringRun
      obtain ⟨rfl, rfl⟩ := run.unique (mapRun.mono fun _ _ _ h => h.1)
      exact ⟨ring_constructed.mp ⟨ring, constructed⟩, mapRun⟩
    · rintro ⟨nonEmpty, mapRun⟩
      obtain ⟨ring, constructed⟩ := ring_constructed.mpr nonEmpty
      exact ⟨ring, constructed, ring_run_of_map owned constructed mapRun⟩
  · intro ring constructed ws state' events' ringRun
    exact map_run_of_ring owned constructed ringRun

/-- The ring recorder gives the four replies of the map recorder. -/
theorem vector_refines_map_sharedKey :
    ∃ (ring : SparseSSPRecorder Int (VectorRecorder Int)) (state : StreamState Int (VectorRecorder Int))
      (events : List (Event Int)), VectorSparseSSPRecorder 0 1 ⟨0, 10⟩ true = .ok ring ∧
      Machine.Runs (StreamState.step (Workload.sharedKey 1)) StreamState.Registered
        (.start (Workload.sharedKey 1) (.map fun _ => 0) ring [1, 2]) [1, 1, 2, 2, 1, 1, 1, 2, 2]
        state events ∧
      (events.filterMap Event.pushed).length = 4 := by
  have keys : ∀ w version, ∀ key ∈ (Workload.sharedKey 1).keys w version, key = 7 :=
    fun w version key member => List.mem_singleton.mp member
  have owned : ∀ w version, ∀ key ∈ (Workload.sharedKey 1).keys w version,
      (⟨0, 10⟩ : Range).Owns key := by
    intro w version key member
    rw [keys w version key member]
    decide
  have small : ∀ w version, ∀ key ∈ (Workload.sharedKey 1).keys w version, key.toNat ≤ intMax := by
    intro w version key member
    rw [keys w version key member]
    decide
  have nonEmpty : true = true → (0 : Nat) < 10 := fun _ => by decide
  obtain ⟨state, events, run, four⟩ := Machine.runs_of_exec
    (StreamState.step (Workload.sharedKey 1)) StreamState.Registered
    (.start (Workload.sharedKey 1) (.map fun _ => 0)
      (UnorderedMapSparseSSPRecorder 0 1 true) [1, 2]) [1, 1, 2, 2, 1, 1, 1, 2, 2]
    (fun _ events => (events.filterMap Event.pushed).length = 4) (by decide +kernel)
  obtain ⟨⟨-, refined⟩, -⟩ := (vector_refines_map owned).1 _ state events run
  obtain ⟨ring, constructed, state', events', run', same⟩ :=
    refined ⟨nonEmpty, indexable_run_of_small owned small nonEmpty run⟩
  exact ⟨ring, state', events', constructed, run', same.pushed ▸ four⟩

/-- Every worker reads key `2 ^ 31` and adds 1 to it in every iteration. -/
def Workload.highKey : Workload Int :=
  { speculation := 1, server := 0, modelId := 0, keys := fun _ _ => [2147483648]
    adds := fun _ _ => ⟨[2147483648], [1]⟩ }

/-- When `Get_1` of worker 1 meets `Get_0` of worker 2 at key `2 ^ 31`, the ring recorder
    indexes with a negative `int`. -/
theorem vector_refines_map_fails :
    (∀ w version, ∀ key ∈ Workload.highKey.keys w version,
      (⟨2147483648, 2147483658⟩ : Range).Owns key) ∧
    ¬ ∀ ws (state : StreamState Int (MapRecorder Int)) events,
      Machine.Runs (StreamState.step Workload.highKey) StreamState.Registered
        (.start Workload.highKey (.map fun _ => 0) (UnorderedMapSparseSSPRecorder 0 1 true) [1, 2])
        ws state events →
      ∃ ring, VectorSparseSSPRecorder 0 1 ⟨2147483648, 2147483658⟩ true = .ok ring ∧
        ∃ (state' : StreamState Int (VectorRecorder Int)) (events' : List (Event Int)),
          Machine.Runs (StreamState.step Workload.highKey) StreamState.Registered
            (.start Workload.highKey (.map fun _ => 0) ring [1, 2]) ws state' events' ∧
          SameBehaviour state events state' events' := by
  constructor
  · intro w version key member
    rw [List.mem_singleton.mp member]
    decide
  intro refined
  obtain ⟨state, events, run, -⟩ := Machine.runs_of_exec (StreamState.step Workload.highKey)
    StreamState.Registered
    (.start Workload.highKey (.map fun _ => 0) (UnorderedMapSparseSSPRecorder 0 1 true) [1, 2])
    [1, 1, 2, 2, 1, 1] (fun _ _ => True) (by decide +kernel)
  obtain ⟨ring, constructed, state', events', run', -⟩ := refined _ state events run
  have stuck : ((VectorSparseSSPRecorder 0 1 ⟨2147483648, 2147483658⟩ true).toOption.bind fun ring =>
      Machine.exec (StreamState.step Workload.highKey) StreamState.Registered
        (.start Workload.highKey (.map fun _ => 0) ring [1, 2]) [] [1, 1, 2, 2, 1, 1]).isNone = true := by
    decide +kernel
  rw [constructed] at stuck
  simp only [Except.toOption, Option.bind_some, Machine.exec_of_runs run'] at stuck
  exact absurd stuck (by simp)

end FlexPS
