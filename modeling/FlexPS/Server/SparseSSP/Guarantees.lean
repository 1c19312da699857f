import FlexPS.Server.SparseSSP.Coupled

/-! # What one sparse SSP server guarantees

Every statement is about all runs of one server that takes the streams of its
registered workers in any interleaving, with either recorder.
-/

namespace FlexPS

variable {Val : Type} [AddCommMonoid Val] {W : Workload Val} {staleness : Nat}

section Runs

variable {type : SparseSSPRecorderType} {storage : Storage Val} {dcheckIsOn : Bool}
  {recorder : SparseSSPRecorder Val (type.Main Val)}
  {tids ws : List Tid} {w : Tid} {events out : List (Event Val)}
  {state state' : StreamState Val (type.Main Val)}
  {guard : StreamState Val (type.Main Val) → List (Event Val) → Tid → Prop}

variable (type) in
/-- Every run of a server is a run over the slots. -/
theorem slots_run (guard' : StreamState Val (Slots Val) → List (Event Val) → Tid → Prop)
    (recorder_eq : recorder =
      .new staleness W.speculation (type.mainRecorder staleness W.speculation) dcheckIsOn)
    (owned : ∀ w version, ∀ key ∈ W.keys w version, type.Owns key)
    (registered : ∀ state events w, guard state events w → w ∈ state.threads)
    (admits : ∀ state events slots events' w,
      Coupled W staleness tids.dedup (type.Models (staleness + 2 * W.speculation + 3)) state slots →
      List.Forall₂ (SameEvent type.Owns) events events' → slots.KeepsTo W type.limits w →
      guard state events w → guard' slots events' w)
    (run : Machine.Runs (StreamState.step W) guard (.start W storage recorder tids) ws state events) :
    ∃ slots events', Machine.Runs (StreamState.step W) guard'
        (.start W storage (slotsRecorder staleness W.speculation dcheckIsOn) tids) ws slots events' ∧
      Coupled W staleness tids.dedup (type.Models (staleness + 2 * W.speculation + 3)) state slots ∧
      List.Forall₂ (SameEvent type.Owns) events events' :=
  coupled_run (type.faithful (Nat.succ_pos _) fun _ owns => owns) owned registered admits
    (SparseSSPRecorderType.coupled_start storage recorder_eq tids) run

omit [AddCommMonoid Val] in
theorem registered_of_coupled {size : Nat} {slots : StreamState Val (Slots Val)}
    (coupled : Coupled W staleness tids.dedup (type.Models size) state slots)
    (registered : w ∈ state.threads) : w ∈ slots.threads := by
  rwa [StreamState.threads, coupled.tracker_eq] at registered

omit [AddCommMonoid Val] in
theorem startedUp_of_coupled {size : Nat} {slots : StreamState Val (Slots Val)}
    (coupled : Coupled W staleness tids.dedup (type.Models size) state slots)
    (startedUp : state.StartedUp W w) : slots.StartedUp W w := by
  rwa [StreamState.StartedUp, coupled.next_eq, coupled.gets_eq, StreamState.threads,
    coupled.tracker_eq] at startedUp

variable (W staleness storage tids) in
/-- One step of a server, with what it does over the slots. -/
structure StepFacts (type : SparseSSPRecorderType) (state state' : StreamState Val (type.Main Val))
    (out : List (Event Val)) (slots slots' : StreamState Val (Slots Val)) (out' : List (Event Val))
    (answered : Tid → Nat → Nat) : Prop where
  coupled : Coupled W staleness tids.dedup (type.Models (staleness + 2 * W.speculation + 3))
    state slots
  coupled' : Coupled W staleness tids.dedup (type.Models (staleness + 2 * W.speculation + 3))
    state' slots'
  same : List.Forall₂ (SameEvent type.Owns) out out'
  before : StreamInv W staleness tids.dedup storage answered slots
  after : StreamInv W staleness tids.dedup storage
    (fun v u => answered v u + tally v u (out'.filterMap Event.answered)) slots'
  fair : ∀ event ∈ out', FairEvent W staleness tids.dedup (slots'.gets W)
    slots'.model.progressTracker.progresses slots'.model.storage event

theorem step_facts (owned : ∀ w version, ∀ key ∈ W.keys w version, type.Owns key)
    (speculative : 1 ≤ W.speculation)
    (coupled : Coupled W staleness tids.dedup (type.Models (staleness + 2 * W.speculation + 3))
      state slots)
    (inv : StreamInv W staleness tids.dedup storage answered slots)
    (registered : w ∈ state.threads) (stepped : state.step W w = .ok (state', out)) :
    ∃ slots' out', slots.step W w = .ok (slots', out') ∧
      StepFacts W staleness storage tids type state state' out slots slots' out' answered := by
  have member : w ∈ tids.dedup := coupled.threads_eq ▸ registered_of_coupled coupled registered
  obtain ⟨-, slots', out', stepped', coupled', same⟩ :=
    exists_slots_step (type.faithful (Nat.succ_pos _) fun _ owns => owns) owned coupled member stepped
  obtain ⟨after, fair⟩ := step_spec (.inl speculative) inv member stepped'
  exact ⟨slots', out', stepped', coupled, coupled', same, inv, after, fair⟩

/-! ## Bounded staleness -/

variable (W) in
/-- Once a `Clock` has been received, the first `speculation + 1` `Get`s of every worker are in. -/
def Started (threads : List Tid) (slots : StreamState Val (Slots Val)) : Prop :=
  ∀ w, 0 < slots.clocks W w → ∀ v ∈ threads, W.speculation + 1 ≤ slots.gets W v

theorem started_step {threads : List Tid} {slots slots' : StreamState Val (Slots Val)}
    (threads_eq : slots.threads = threads) (startedUp : slots.StartedUp W w)
    (started : Started W threads slots) (stepped : slots.step W w = .ok (slots', out)) :
    Started W threads slots' := by
  suffices taken : ∀ gets clocks adds, slots.Takes W w slots'.model out gets clocks adds →
      ∀ u, 0 < clocks u → ∀ v ∈ threads, W.speculation + 1 ≤ gets v from
    taken _ _ _ (StreamState.step_takes stepped)
  intro gets clocks adds taken u clocked v member
  have mono := le_update_succ (slots.gets W) w v
  cases taken with
  | absentGet => exact Nat.le_trans (started u clocked v member) mono
  | get => exact Nat.le_trans (started u clocked v member) mono
  | absentAdd => exact started u clocked v member
  | add => exact started u clocked v member
  | clock next _ _ _ => exact startedUp _ next v (threads_eq ▸ member)

theorem started_run (speculative : 1 ≤ W.speculation)
    {guard' : StreamState Val (Slots Val) → List (Event Val) → Tid → Prop}
    (admitted : ∀ state events w, guard' state events w →
      w ∈ state.threads ∧ state.StartedUp W w) {slots : StreamState Val (Slots Val)}
    (run : Machine.Runs (StreamState.step W) guard'
      (.start W storage (slotsRecorder staleness W.speculation dcheckIsOn) tids) ws slots events) :
    Started W tids.dedup slots := by
  apply run.invariant (P := fun _ slots _ => Started W tids.dedup slots)
  · intro w clocked
    simp [StreamState.clocks, StreamState.start, streamClocks] at clocked
  · intro ws slots events w slots' out run started guarded stepped
    have inv := streamInv_run (fun _ _ _ h => (admitted _ _ _ h).1) run (.inl speculative)
    exact started_step inv.server.base.clocks.threads_eq (admitted _ _ _ guarded).2 started stepped

/-- A clock at a push is that of a `Clock` received by the end of the step. -/
theorem behind_clocks {slots : StreamState Val (Slots Val)} {clocks : ProgressTracker}
    {answered : Tid → Nat → Nat}
    (inv : StreamInv W staleness tids.dedup storage answered slots)
    (taken : Taken tids.dedup slots.model.progressTracker.progresses clocks) (v : Tid) :
    clocks.progresses v ≤ slots.clocks W v :=
  Nat.le_trans (taken.le v) (inv.server.progress_le v)

/-- Whatever is a speculation behind an admitted request has been received: the
    `Get`s of every worker are at least `speculation` ahead of its `Clock`s. -/
theorem received_below {slots : StreamState Val (Slots Val)} {clocks : ProgressTracker}
    {answered : Tid → Nat → Nat} (started : Started W tids.dedup slots)
    (inv : StreamInv W staleness tids.dedup storage answered slots)
    (taken : Taken tids.dedup slots.model.progressTracker.progresses clocks)
    {request : Message Val} {gets : Tid → Nat}
    (admitted : Admitted W staleness tids.dedup clocks.progresses gets clocks.minClock request)
    {v : Tid} (registered : v ∈ tids.dedup) {u : Nat} (below : u + staleness + 1 ≤ request.version) :
    u < slots.gets W v := by
  have slow := admitted.slow
  have entered := admitted.due.entered
  have minimum := taken.exact.le v (taken.threads_eq ▸ registered)
  have behind := behind_clocks inv taken
  have bounds := (streamGets_bounds W.speculation (slots.position v)).2.1
  have ownClock := behind request.sender
  have clock := behind v
  have enough := started request.sender (by omega) v registered
  simp only [StreamState.gets, StreamState.clocks] at enough clock ⊢
  omega

/-- A reply to `Get_v` is given only when every conflicting `Get_u` with
    `u ≤ v - s - 1` of any worker has been followed by its `Clock_u`, and it
    contains every `Add` received so far, that of iteration `u` among them. -/
theorem bounded_staleness
    (constructed : type.recorder staleness W.speculation dcheckIsOn = .ok recorder)
    (owned : ∀ w version, ∀ key ∈ W.keys w version, type.Owns key)
    (speculative : 1 ≤ W.speculation)
    (run : Machine.Runs (StreamState.step W)
      (fun state events w => state.Registered events w ∧ state.Replied W events w ∧
        state.StartedUp W w)
      (.start W storage recorder tids) ws state events)
    (admitted : state.Registered events w ∧ state.Replied W events w ∧ state.StartedUp W w)
    (stepped : state.step W w = .ok (state', out)) {request reply : Message Val}
    {clocks : ProgressTracker} (pushed : .reply request reply clocks ∈ out) :
    ∃ w ∈ tids, ∃ v, request = W.getMsg w v ∧
      (∀ w' ∈ tids, ∀ u key, u + staleness + 1 ≤ v → key ∈ W.keys w' u → key ∈ W.keys w v →
        u < clocks.progresses w' ∧ u < state'.adds W w') ∧
      reply.data = [.u32 (W.keys w v), .val ((W.keys w v).map fun key =>
        storage.value key + W.applied tids.dedup (state'.adds W) key)] := by
  obtain ⟨slots, events', run', coupled, -⟩ :=
    slots_run type (fun slots _ w => w ∈ slots.threads ∧ slots.StartedUp W w)
      (type.recorder_eq_ok.mp constructed).2 owned
      (fun _ _ _ h => h.1)
      (fun state _ slots _ w coupled _ _ h =>
        ⟨registered_of_coupled coupled h.1, startedUp_of_coupled coupled h.2.2⟩) run
  have inv := streamInv_run (fun _ _ _ h => h.1) run' (.inl speculative)
  have started := started_run speculative (fun _ _ _ h => h) run'
  obtain ⟨slots', out', stepped', facts⟩ :=
    step_facts owned speculative coupled inv admitted.1 stepped
  have started' := started_step inv.server.base.clocks.threads_eq
    (startedUp_of_coupled coupled admitted.2.2) started stepped'
  obtain ⟨event, inOut', same⟩ := exists_same_of_mem facts.same pushed
  cases same with
  | reply =>
      cases facts.fair _ inOut' with
      | reply taken answerable =>
          have due := answerable.admitted.due
          have registered : ∀ v ∈ tids, v ∈ tids.dedup := fun v => List.mem_dedup.mpr
          have behind := behind_clocks facts.after taken
          refine ⟨request.sender, List.mem_dedup.mp due.registered, request.version, due.genuine, ?_, ?_⟩
          · intro w' member u key below inU inV
            have received := received_below started' facts.after taken answerable.admitted
              (registered w' member) below
            have clocked := answerable.clear u (by omega) w' (registered w' member) received key
              (due.genuine ▸ inV) inU
            refine ⟨clocked, ?_⟩
            have bounds := (streamGets_bounds W.speculation (slots'.position w')).2.2.1
            have := behind w'
            rw [facts.coupled'.adds_eq]
            simp only [StreamState.adds, StreamState.clocks] at this ⊢
            omega
          · have values := funext facts.after.values
            simp only [Storage.replyTo, due.keys_eq, values, facts.coupled'.adds_eq]

/-- Worker 1 is answered `Get_1` only after `Clock_0` of worker 2. -/
theorem bounded_staleness_sharedKey :
    ∃ (adds : Tid → Nat) (reply : Message Int) (clocks : ProgressTracker),
      0 < clocks.progresses 2 ∧ 0 < adds 2 ∧ reply.data = [.u32 [7],
        .val [0 + (Workload.sharedKey 1).applied [1, 2] adds 7]] := by
  obtain ⟨state, events, run, admitted, computed⟩ := Machine.runs_of_exec
    (StreamState.step (Workload.sharedKey 1))
    (fun state events w => state.Registered events w ∧
      state.Replied (Workload.sharedKey 1) events w ∧ state.StartedUp (Workload.sharedKey 1) w)
    (.start (Workload.sharedKey 1) (.map fun _ => 0)
      (UnorderedMapSparseSSPRecorder 0 1 true) [1, 2]) [1, 1, 2, 2, 1, 1, 1, 2]
    (fun state events => (state.Registered events 2 ∧
        state.Replied (Workload.sharedKey 1) events 2 ∧ state.StartedUp (Workload.sharedKey 1) 2) ∧
      (state.step (Workload.sharedKey 1) 2).toOption.map (fun x => x.2.filterMap Event.answered) =
        some [(Workload.sharedKey 1).getMsg 1 1, (Workload.sharedKey 1).getMsg 2 1])
    (by decide +kernel)
  have owned : ∀ w version, ∀ key ∈ (Workload.sharedKey 1).keys w version,
      SparseSSPRecorderType.map.Owns key := fun _ _ _ _ => trivial
  cases stepped : state.step (Workload.sharedKey 1) 2 with
  | error e => simp [stepped, Except.toOption] at computed
  | ok next =>
      obtain ⟨state', out⟩ := next
      simp only [stepped, Except.toOption, Option.map_some, Option.some.injEq] at computed
      obtain ⟨reply, clocks, pushed⟩ := Event.exists_reply (computed ▸ List.mem_cons_self)
      obtain ⟨w, -, v, genuine, clocked, value⟩ :=
        bounded_staleness (SparseSSPRecorderType.recorder_map 0 1 true) owned (Nat.le_refl 1) run admitted
          stepped pushed
      have version : 1 = v := congrArg (fun msg => msg.version) genuine
      subst version
      obtain ⟨before, added⟩ := clocked 2 (by decide) 0 7 (Nat.le_refl 1)
        List.mem_cons_self List.mem_cons_self
      exact ⟨_, reply, clocks, before, added, value⟩

/-! ## Where a `Get` is -/

/-- Where a server can keep a `Get`: among the answered ones, in `future_msgs_` of
    a worker, in `too_fast_buffer_`, or at a slot of `main_recorder_`. -/
inductive Place where
  | answered
  | future (tid : Tid)
  | tooFast
  | slot (version : Nat) (key : Key)
  deriving DecidableEq

def StreamState.messagesAt {Main : Type} [MainRecorder Val Main] (state : StreamState Val Main)
    (events : List (Event Val)) : Place → List (Message Val)
  | .answered => events.filterMap Event.answered
  | .future tid => (state.model.recorder.futureMsgs tid).map Prod.snd
  | .tooFast => state.model.recorder.tooFastBuffer
  | .slot version key => MainRecorder.pending state.model.recorder.mainRecorder version key

/-- The places a server of the registered workers `tids` has. The ring has one level
    for each version of the window that starts at the minimum clock. -/
def SparseSSPRecorderType.HasPlace (type : SparseSSPRecorderType) (tids : List Tid)
    (size minClock : Nat) : Place → Prop
  | .answered | .tooFast => True
  | .future tid => tid ∈ tids
  | .slot version key =>
      match type with
      | .map => True
      | .vector range => Window.Inside minClock size version ∧ range.Owns key

variable (W staleness) in
/-- The place of `Get_v` of `w` agrees with the clocks and the counts. -/
inductive StreamState.Fits {Main : Type} [MainRecorder Val Main] (state : StreamState Val Main)
    (w : Tid) (v : Nat) : Place → Prop where
  | answered : v ≤ state.progress w → state.Fits w v .answered
  | future : state.progress w < v → state.Fits w v (.future w)
  | tooFast : v = state.minClock + staleness + W.speculation + 1 → state.Fits w v .tooFast
  | slot {version : Nat} {key : Key} :
      0 < MainRecorder.count state.model.recorder.mainRecorder version key → key ∈ W.keys w v →
      state.minClock ≤ version → version + staleness + 1 ≤ v → state.Fits w v (.slot version key)

section Places

variable {size : Nat} {slots : StreamState Val (Slots Val)} {events' : List (Event Val)}

omit [AddCommMonoid Val] in
/-- The representation keeps the same messages at every place it has. -/
theorem messagesAt_eq (coupled : Coupled W staleness tids.dedup (type.Models size) state slots)
    (same : List.Forall₂ (SameEvent type.Owns) events events') {place : Place}
    (has : type.HasPlace tids size slots.minClock place) :
    state.messagesAt events place = slots.messagesAt events' place := by
  obtain ⟨main, models, mirrors⟩ := coupled.mirrors
  rw [StreamState.messagesAt.eq_def, StreamState.messagesAt.eq_def, mirrors]
  cases place with
  | answered => exact answered_eq_of_same same
  | future tid => rfl
  | tooFast => rfl
  | slot version key =>
      cases type with
      | map => exact MapRecorder.represents.pending models trivial trivial
      | vector range => exact (VectorRecorder.represents _ size range).pending models has.1 has.2

omit [AddCommMonoid Val] in
theorem fits_of_slots (coupled : Coupled W staleness tids.dedup (type.Models size) state slots)
    {v : Nat} {place : Place} (has : type.HasPlace tids size slots.minClock place)
    (fits : slots.Fits W staleness w v place) : state.Fits W staleness w v place := by
  obtain ⟨main, models, mirrors⟩ := coupled.mirrors
  have progress_eq := congrFun coupled.progress_eq w
  have minClock_eq := coupled.minClock_eq
  cases fits with
  | answered entered => exact .answered (progress_eq ▸ entered)
  | future later => exact .future (progress_eq ▸ later)
  | tooFast fast => exact .tooFast (minClock_eq ▸ fast)
  | @slot version key counted inKeys above below =>
      refine .slot ?_ inKeys (minClock_eq ▸ above) below
      rw [mirrors]
      cases type with
      | map => exact (MapRecorder.represents.count models trivial trivial).symm ▸ counted
      | vector range =>
          exact ((VectorRecorder.represents _ size range).count models has.1 has.2).symm ▸ counted

omit [AddCommMonoid Val] in
/-- `Get_v` of `w` is queued exactly when it was received ahead of its worker. -/
theorem tally_future {answered : Tid → Nat → Nat} [AddCommMonoid Val]
    (inv : StreamInv W staleness tids.dedup storage answered slots) {v : Nat}
    (received : v < slots.gets W w) (sent : W.keys w v ≠ []) {tid : Tid} (inTids : tid ∈ tids) :
    tally w v (slots.messagesAt events (.future tid)) =
      if tid = w ∧ slots.progress w < v then 1 else 0 := by
  rw [StreamState.messagesAt, inv.server.base.recorder.futureMsgs tid (List.mem_dedup.mpr inTids),
    tally_recorded]
  apply if_congr _ rfl rfl
  constructor
  · rintro ⟨rfl, later, -⟩
    exact ⟨rfl, later⟩
  · rintro ⟨rfl, later⟩
    exact ⟨rfl, later, received, sent⟩

/-- Over abstract slots the ledger tells the place of a `Get`. -/
theorem exists_place (owned : ∀ w version, ∀ key ∈ W.keys w version, type.Owns key)
    (inv : StreamInv W staleness tids.dedup storage
      (fun w v => tally w v (events.filterMap Event.answered)) slots)
    (bounded : ∀ w ∈ tids.dedup, slots.gets W w ≤ slots.minClock + size)
    (registered : w ∈ tids) {v : Nat} (received : v < slots.gets W w) (sent : W.keys w v ≠ []) :
    ∃ place, type.HasPlace tids size slots.minClock place ∧ slots.Fits W staleness w v place ∧
      ∀ other, type.HasPlace tids size slots.minClock other →
        tally w v (slots.messagesAt events other) = if other = place then 1 else 0 := by
  have member := List.mem_dedup.mpr registered
  have ledger : tally w v (slots.messagesAt events .answered) +
      tally w v (slots.messagesAt events .tooFast) +
      tally w v (slots.model.recorder.mainRecorder.held.map Prod.snd) =
        if v < slots.gets W w ∧ v ≤ slots.progress w ∧ W.keys w v ≠ [] then 1 else 0 :=
    inv.server.base.recorder.ledger w member v
  have queued : ∀ tid ∈ tids, tally w v (slots.messagesAt events (.future tid)) =
      if tid = w ∧ slots.progress w < v then 1 else 0 :=
    fun tid => tally_future inv received sent
  have unheld : tally w v (slots.model.recorder.mainRecorder.held.map Prod.snd) = 0 →
      ∀ version key, tally w v (slots.messagesAt events (.slot version key)) = 0 :=
    tally_pendingAt_eq_zero
  by_cases entered : v ≤ slots.progress w
  · rw [if_pos ⟨received, entered, sent⟩] at ledger
    rcases (by omega : tally w v (slots.messagesAt events .answered) = 1 ∨
        tally w v (slots.messagesAt events .tooFast) = 1 ∨
        tally w v (slots.model.recorder.mainRecorder.held.map Prod.snd) = 1)
      with answered | tooFast | held
    · refine ⟨.answered, trivial, .answered entered, fun other has => ?_⟩
      cases other with
      | answered => simpa using answered
      | future tid => rw [queued tid has, if_neg (by omega), if_neg (by simp)]
      | tooFast => simp; omega
      | slot version key => simpa using unheld (by omega) version key
    · obtain ⟨msg, inBuffer, sender, version⟩ := tally_pos (tooFast ▸ Nat.one_pos)
      obtain ⟨-, level⟩ := inv.server.base.recorder.tooFast msg inBuffer
      refine ⟨.tooFast, trivial, .tooFast (version ▸ level), fun other has => ?_⟩
      cases other with
      | answered => simp; omega
      | future tid => rw [queued tid has, if_neg (by omega), if_neg (by simp)]
      | tooFast => simpa using tooFast
      | slot version key => simpa using unheld (by omega) version key
    · obtain ⟨⟨⟨version, key⟩, msg⟩, inHeld, sender, version_eq, atSlot⟩ := tally_pendingAt_of_one held
      obtain ⟨admitted, waits⟩ := inv.server.base.recorder.held _ inHeld
      have inKeys : key ∈ W.keys w v := by
        rw [← sender, ← version_eq, ← admitted.due.keys_eq]
        exact waits.key
      have above : slots.minClock ≤ version := waits.above
      have below : version + staleness < v := version_eq ▸ waits.below
      have inside := bounded w member
      refine ⟨.slot version key, ?_, .slot waits.counted inKeys above below, fun other has => ?_⟩
      · cases type with
        | map => trivial
        | vector range => exact ⟨⟨above, by omega⟩, owned w _ key inKeys⟩
      · cases other with
        | answered => simp; omega
        | future tid => rw [queued tid has, if_neg (by omega), if_neg (by simp)]
        | tooFast => simp; omega
        | slot version' key' =>
            simp only [Place.slot.injEq]
            exact (atSlot version' key').trans (if_congr Prod.mk_inj rfl rfl)
  · rw [if_neg (by omega)] at ledger
    refine ⟨.future w, registered, .future (by omega), fun other has => ?_⟩
    cases other with
    | answered => rw [if_neg nofun]; omega
    | future tid =>
        rw [queued tid has]
        simp only [Place.future.injEq]
        exact if_congr (and_iff_left (by omega)) rfl rfl
    | tooFast => rw [if_neg nofun]; omega
    | slot version key => simpa using unheld (by omega) version key

/-- Every received `Get` is at exactly one place, exactly once, and that place agrees
    with the clocks; no `Get` is answered before its worker has entered its iteration,
    and within the staleness bound it is answered from then on. -/
theorem get_at_one_place
    (constructed : type.recorder staleness W.speculation dcheckIsOn = .ok recorder)
    (owned : ∀ w version, ∀ key ∈ W.keys w version, type.Owns key)
    (speculative : 1 ≤ W.speculation)
    (run : Machine.Runs (StreamState.step W) StreamState.Registered
      (.start W storage recorder tids) ws state events)
    (registered : w ∈ tids) {v : Nat} (received : v < state.gets W w) (sent : W.keys w v ≠ []) :
    (∃ place, type.HasPlace tids (staleness + 2 * W.speculation + 3) state.minClock place ∧
      state.Fits W staleness w v place ∧
      ∀ other, type.HasPlace tids (staleness + 2 * W.speculation + 3) state.minClock other →
        tally w v (state.messagesAt events other) = if other = place then 1 else 0) ∧
    (∀ reply clocks, .reply (W.getMsg w v) reply clocks ∈ events → v ≤ clocks.progresses w) ∧
    (v ≤ state.progress w → v ≤ state.minClock + staleness →
      tally w v (state.messagesAt events .answered) = 1) := by
  obtain ⟨slots, events', run', coupled, same⟩ :=
    slots_run type (fun slots _ w => w ∈ slots.threads) (type.recorder_eq_ok.mp constructed).2 owned
      (fun _ _ _ h => h)
      (fun _ _ _ _ _ coupled _ _ h => registered_of_coupled coupled h) run
  have inv := streamInv_run (fun _ _ _ h => h) run' (.inl speculative)
  have minClock_eq := coupled.minClock_eq
  have progress_eq := congrFun coupled.progress_eq w
  obtain ⟨place, has, fits, counts⟩ :=
    exists_place owned inv (fun _ member => coupled.gets_le member) registered
      (coupled.gets_eq ▸ received) sent
  have place_spec : ∀ other, type.HasPlace tids (staleness + 2 * W.speculation + 3) state.minClock other →
      tally w v (state.messagesAt events other) = if other = place then 1 else 0 := by
    intro other has'
    rw [minClock_eq] at has'
    rw [messagesAt_eq coupled same has', counts other has']
  have fits' := fits_of_slots coupled has fits
  refine ⟨⟨place, minClock_eq ▸ has, fits', place_spec⟩, ?_, ?_⟩
  · intro reply clocks pushed
    obtain ⟨event, inEvents', sameEvent⟩ := exists_same_of_mem same pushed
    obtain ⟨gets, limit, storage, fair⟩ := fair_run (fun _ _ _ h => h) run' (.inl speculative) event inEvents'
    cases sameEvent
    cases fair with
    | reply taken answerable => exact answerable.admitted.due.entered
  · intro entered within
    rw [place_spec .answered trivial]
    cases fits' with
    | answered => simp
    | future later => omega
    | tooFast fast => omega
    | slot counted inKeys above below => omega

/-- Before `Clock_0` of worker 2, `Get_1` of worker 1 waits at the slot of its `Get_0`. -/
theorem get_at_one_place_sharedKey :
    ∃ (state : StreamState Int (SparseSSPRecorderType.map.Main Int)) (events : List (Event Int)),
      state.Fits (Workload.sharedKey 1) 0 1 1 (.slot 0 7) ∧
        tally 1 1 (state.messagesAt events .answered) = 0 := by
  obtain ⟨state, events, run, received, computed⟩ := Machine.runs_of_exec
    (StreamState.step (Workload.sharedKey 1)) StreamState.Registered
    (.start (Workload.sharedKey 1) (.map fun _ => 0)
      (UnorderedMapSparseSSPRecorder 0 1 true) [1, 2]) [1, 1, 2, 2, 1, 1]
    (fun state events => 1 < state.gets (Workload.sharedKey 1) 1 ∧
      tally 1 1 (state.messagesAt events (.slot 0 7)) = 1)
    (by decide +kernel)
  have owned : ∀ w version, ∀ key ∈ (Workload.sharedKey 1).keys w version,
      SparseSSPRecorderType.map.Owns key := fun _ _ _ _ => trivial
  obtain ⟨⟨place, has, fits, counts⟩, -, -⟩ :=
    get_at_one_place (SparseSSPRecorderType.recorder_map 0 1 true) owned (Nat.le_refl 1) run (by decide)
      received (List.cons_ne_nil 7 [])
  have here : Place.slot 0 7 = place := by
    by_contra elsewhere
    have count := counts (.slot 0 7) trivial
    rw [if_neg elsewhere] at count
    exact absurd (computed.symm.trans count) Nat.one_ne_zero
  subst here
  exact ⟨state, events, fits, counts .answered trivial⟩

end Places

end Runs

end FlexPS
