import FlexPS.Server.SparseSSP.RecorderSteps

/-! # What each handler does to the picture

The handlers of `SparseSSPModel` over abstract slots. The same invariant describes
a server between two messages and a server between two replayed `Clock`s; only the
`Clock`s still to be processed differ.
-/

namespace FlexPS

open SparseSSPRecorder

variable {Val : Type} (W : Workload Val) (staleness : Nat) (threads : List Tid)

/-- The clocks at the moment of a push: exact, and no later than `limit`. -/
structure Taken (limit : Tid → Nat) (clocks : ProgressTracker) : Prop where
  threads_eq : clocks.threads = threads
  exact : clocks.Exact
  le : ∀ w, clocks.progresses w ≤ limit w

/-- An event of a server that has received `gets` and holds `storage`. -/
inductive FairEvent [AddCommMonoid Val] (gets limit : Tid → Nat) (storage : Storage Val) :
    Event Val → Prop where
  | reply {request clocks} : Taken threads limit clocks →
      Answerable W staleness threads clocks.progresses gets clocks.minClock request →
      FairEvent gets limit storage (.reply request (storage.replyTo request) clocks)
  | scan {scan clocks} : Taken threads limit clocks →
      FairScan W staleness threads clocks.progresses gets clocks.minClock scan →
      FairEvent gets limit storage (.scan scan clocks)

/-- The clocks of a server. `waiting` are the `Clock`s it has received and not
    processed; each is one iteration ahead of its worker, which is at `level`. -/
structure ClocksInv (level : Nat) (waiting : List (Message Val)) (tracker : ProgressTracker) :
    Prop where
  threads_eq : tracker.threads = threads
  exact : tracker.Exact
  ahead : ∀ w ∈ threads,
    tracker.progresses w ≤ tracker.minClock + staleness + W.speculation + 1
  waits : ∀ msg ∈ waiting, msg.sender ∈ threads ∧ msg = W.clockMsg msg.sender level ∧
    tracker.progresses msg.sender = level
  once : (waiting.map (fun msg => msg.sender)).Nodup

/-- A server over abstract slots. -/
structure ModelInv (gets : Tid → Nat) (level : Nat) (waiting : List (Message Val))
    (answered : Tid → Nat → Nat) (model : SparseSSPModel Val (Slots Val)) : Prop where
  clocks : ClocksInv W staleness threads level waiting model.progressTracker
  staleness_eq : model.staleness = staleness
  speculation_eq : model.speculation = W.speculation
  recorder : RecorderInv W staleness threads model.progressTracker.progresses
    model.progressTracker.progresses gets model.progressTracker.minClock
    (model.progressTracker.minClock + staleness + W.speculation + 1) answered model.recorder

variable {W staleness threads}

theorem Taken.mono {limit limit' : Tid → Nat} {clocks : ProgressTracker}
    (taken : Taken threads limit clocks) (more : ∀ w, limit w ≤ limit' w) :
    Taken threads limit' clocks :=
  ⟨taken.threads_eq, taken.exact, fun w => Nat.le_trans (taken.le w) (more w)⟩

namespace ClocksInv

variable {level : Nat} {waiting : List (Message Val)} {tracker tracker' : ProgressTracker} {w : Tid}

/-- A worker that is neither waiting nor too fast enters its next iteration. -/
theorem advance (inv : ClocksInv W staleness threads level waiting tracker)
    (registered : w ∈ threads) (idle : ∀ msg ∈ waiting, msg.sender ≠ w)
    (slow : tracker.progresses w ≤ tracker.minClock + staleness + W.speculation)
    {updated : Option Nat} (advanced : tracker.Advanced w updated tracker') :
    ClocksInv W staleness threads level waiting tracker' where
  threads_eq := advanced.threads.trans inv.threads_eq
  exact := advanced.exact (inv.threads_eq ▸ registered) inv.exact
  ahead := by
    intro v member
    have before := inv.ahead v member
    have raised := advanced.minClock_le.1
    rw [advanced.progresses]
    by_cases same : v = w
    · rw [same, Function.update_self]
      omega
    · rw [Function.update_of_ne same]
      omega
  waits := by
    intro msg member
    rw [advanced.progresses, Function.update_of_ne (idle msg member)]
    exact inv.waits msg member
  once := inv.once

theorem tail {msg : Message Val} (inv : ClocksInv W staleness threads level (msg :: waiting) tracker) :
    ClocksInv W staleness threads level waiting tracker :=
  { inv with
    waits := fun other member => inv.waits other (List.mem_cons_of_mem _ member)
    once := (List.nodup_cons.mp inv.once).2 }

theorem fresh_head {msg : Message Val}
    (inv : ClocksInv W staleness threads level (msg :: waiting) tracker) :
    ∀ other ∈ waiting, other.sender ≠ msg.sender := by
  intro other member same
  exact (List.nodup_cons.mp inv.once).1 (List.mem_map.mpr ⟨other, member, same⟩)

/-- A worker has at most one `Clock` waiting, and none unless it is at `level`. -/
theorem count_waiting (inv : ClocksInv W staleness threads level waiting tracker) (w : Tid) :
    (waiting.map (fun msg => msg.sender)).count w = 0 ∨
      (waiting.map (fun msg => msg.sender)).count w = 1 ∧ tracker.progresses w = level := by
  by_cases buffered : w ∈ waiting.map (fun msg => msg.sender)
  · right
    obtain ⟨msg, member, rfl⟩ := List.mem_map.mp buffered
    exact ⟨List.count_eq_one_of_mem inv.once buffered, (inv.waits msg member).2.2⟩
  · left
    exact List.count_eq_zero.mpr buffered

theorem idle_of_count (none : (waiting.map (fun msg => msg.sender)).count w = 0) :
    ∀ msg ∈ waiting, msg.sender ≠ w := by
  intro msg member same
  exact List.count_eq_zero.mp none (List.mem_map.mpr ⟨msg, member, same⟩)

/-- The `Clock` of a worker that is as far ahead as the bound allows joins the others. -/
theorem wait (inv : ClocksInv W staleness threads level waiting tracker) (registered : w ∈ threads)
    (none : (waiting.map (fun msg => msg.sender)).count w = 0)
    (atLevel : tracker.progresses w = level) :
    ClocksInv W staleness threads level (waiting ++ [W.clockMsg w level]) tracker := by
  refine { inv with waits := ?_, once := ?_ }
  · intro msg member
    rcases List.mem_append.mp member with old | new
    · exact inv.waits msg old
    · rw [List.mem_singleton.mp new]
      exact ⟨registered, rfl, atLevel⟩
  · rw [List.map_append, List.nodup_append_comm, List.map_singleton, List.singleton_append,
      List.nodup_cons]
    exact ⟨List.count_eq_zero.mp none, inv.once⟩

end ClocksInv

section Pushes

variable [AddCommMonoid Val] {gets limit limit' : Tid → Nat} {storage : Storage Val}

theorem FairEvent.mono {event : Event Val}
    (fair : FairEvent W staleness threads gets limit storage event)
    (more : ∀ w, limit w ≤ limit' w) : FairEvent W staleness threads gets limit' storage event := by
  cases fair with
  | reply taken answerable => exact .reply (taken.mono more) answerable
  | scan taken fair => exact .scan (taken.mono more) fair

/-- What `pushReplies` emits answers exactly the requests the recorder released. -/
theorem pushReplies_spec {model : SparseSSPModel Val (Slots Val)} {out : NonConflict Val}
    {events : List (Event Val)} (pushed : model.pushReplies out = .ok events)
    (taken : Taken threads limit model.progressTracker)
    (answerable : ∀ msg ∈ out.msgs, Answerable W staleness threads
      model.progressTracker.progresses gets model.progressTracker.minClock msg)
    (fair : ∀ scan ∈ out.scans, FairScan W staleness threads
      model.progressTracker.progresses gets model.progressTracker.minClock scan) :
    events.filterMap Event.answered = out.msgs ∧
      ∀ event ∈ events, FairEvent W staleness threads gets limit model.storage event := by
  obtain ⟨replies, replied, eq⟩ := Except.bind_eq_ok.mp pushed
  obtain ⟨-, rfl⟩ := mapM_pushReply_eq_ok.mp replied
  cases eq
  constructor
  · rw [List.filterMap_append, List.filterMap_map, List.filterMap_map]
    have scansNone : out.scans.filterMap
        ((Event.answered : Event Val → _) ∘ (Event.scan · model.progressTracker)) = [] :=
      List.filterMap_eq_nil_iff.mpr (fun _ _ => rfl)
    rw [scansNone, List.nil_append]
    exact List.filterMap_some
  · intro event member
    rcases List.mem_append.mp member with scans | replies
    · obtain ⟨scan, inScans, rfl⟩ := List.mem_map.mp scans
      exact .scan taken (fair scan inScans)
    · obtain ⟨msg, inMsgs, rfl⟩ := List.mem_map.mp replies
      exact .reply taken (answerable msg inMsgs)

end Pushes

section Clock

variable {prog gets : Tid → Nat} {minClock tooFast : Nat} {answered : Tid → Nat → Nat}
  {recorder : SparseSSPRecorder Val (Slots Val)} {w : Tid}

/-- Both halves of `GetNonConflictMsgs`. -/
theorem getNonConflictMsgs_spec
    (inv : RecorderInv W staleness threads prog prog gets minClock tooFast answered recorder)
    (registered : w ∈ threads) {minClock' : Nat} (raised : minClock ≤ minClock')
    (above : ∀ v ∈ threads, minClock' ≤ Function.update prog w (prog w + 1) v)
    (window : prog w ≤ minClock' + staleness + W.speculation)
    (fast : prog w = minClock' + staleness + W.speculation →
      tooFast = minClock' + staleness + W.speculation + 1) :
    ∃ recorder' out, recorder.getNonConflictMsgs (prog w + 1) w minClock' = .ok (recorder', out) ∧
      Released W staleness threads (Function.update prog w (prog w + 1))
        (Function.update prog w (prog w + 1)) gets minClock' tooFast answered recorder'
        out.msgs out.scans := by
  obtain ⟨first, out, removed, before⟩ := removeOwnRecord_spec inv registered raised above
  obtain ⟨second, msgs, scans, taken, after⟩ :=
    takeOwnGet_spec before.inv registered out above window fast
  refine ⟨second, ⟨out.msgs ++ msgs, out.scans ++ scans⟩,
    by simp only [getNonConflictMsgs, removed, Except.ok_bind, taken], ?_⟩
  refine ⟨?_, ?_, ?_⟩
  · simpa only [tally_append, Nat.add_assoc] using after.inv
  · intro msg member
    exact (List.mem_append.mp member).elim (before.answerable msg) (after.answerable msg)
  · intro scan member
    exact (List.mem_append.mp member).elim (before.scans scan) (after.scans scan)

variable [AddCommMonoid Val] {level : Nat} {waiting : List (Message Val)}
  {model model' : SparseSSPModel Val (Slots Val)} {events : List (Event Val)}

variable (W staleness threads) in
/-- What a processed `Clock` of `w` does to a server. -/
structure Clocked (w : Tid) (gets : Tid → Nat) (level : Nat) (waiting : List (Message Val))
    (answered : Tid → Nat → Nat) (model model' : SparseSSPModel Val (Slots Val))
    (events : List (Event Val)) (outcome : ClockOutcome) : Prop where
  inv : ModelInv W staleness threads gets level waiting
    (fun v u => answered v u + tally v u (events.filterMap Event.answered)) model'
  progresses : model'.progressTracker.progresses = Function.update
    model.progressTracker.progresses w (model.progressTracker.progresses w + 1)
  storage_eq : model'.storage = model.storage
  buffer_eq : model'.buffer = model.buffer
  minClock :
    outcome = .minClockKept ∧ model'.progressTracker.minClock = model.progressTracker.minClock ∨
    outcome = .minClockChanged ∧
      model'.progressTracker.minClock = model.progressTracker.minClock + 1 ∧
      model.progressTracker.progresses w = model.progressTracker.minClock
  fair : ∀ event ∈ events, FairEvent W staleness threads gets
    model'.progressTracker.progresses model.storage event

theorem clockOnce_spec (inv : ModelInv W staleness threads gets level waiting answered model)
    (registered : w ∈ threads) (idle : ∀ msg ∈ waiting, msg.sender ≠ w)
    (slow : model.progressTracker.progresses w ≤
      model.progressTracker.minClock + staleness + W.speculation) {outcome : ClockOutcome}
    (clocked : model.clockOnce (W.clockMsg w (model.progressTracker.progresses w)) =
      .ok (model', events, outcome)) :
    Clocked W staleness threads w gets level waiting answered model model' events outcome := by
  have early : ¬ (W.clockMsg w (model.progressTracker.progresses w)).version ≥
      model.staleness + model.speculation + model.progressTracker.minClock + 1 := by
    rw [inv.staleness_eq, inv.speculation_eq]
    rw [Workload.version_clockMsg]
    omega
  simp only [SparseSSPModel.clockOnce, if_neg early, Workload.sender_clockMsg] at clocked
  split at clocked
  · cases clocked
  obtain ⟨⟨updated, tracker⟩, advanced, clocked⟩ := Except.bind_eq_ok.mp clocked
  obtain ⟨inThreads, -, advanced⟩ := ProgressTracker.advance_eq_ok.mp advanced
  have clocks := inv.clocks.advance registered idle slow advanced
  have exact := clocks.exact
  have threads_eq := clocks.threads_eq
  have progresses := advanced.progresses
  have entered : tracker.getProgress w = .ok (model.progressTracker.progresses w + 1) := by
    rw [ProgressTracker.getProgress_eq (threads_eq ▸ registered), progresses, Function.update_self]
  obtain ⟨recorder, out, handled, released⟩ := getNonConflictMsgs_spec inv.recorder registered
    advanced.minClock_le.1
    (fun v member => progresses ▸ exact.le v (threads_eq ▸ member))
    (by have := advanced.minClock_le; omega)
    (by have := advanced.minClock_le; omega)
  rw [← progresses] at released
  simp only [entered, Except.ok_bind, handled] at clocked
  obtain ⟨pushes, pushed, clocked⟩ := Except.bind_eq_ok.mp clocked
  have taken : Taken threads tracker.progresses tracker := ⟨threads_eq, exact, fun _ => Nat.le_refl _⟩
  obtain ⟨answers, fair⟩ := pushReplies_spec pushed taken released.answerable released.scans
  have recorderInv := released.inv
  rw [← answers] at recorderInv
  cases advanced with
  | kept shared =>
      cases clocked
      exact ⟨⟨clocks, inv.staleness_eq, inv.speculation_eq, recorderInv⟩, rfl, rfl, rfl, .inl ⟨rfl, rfl⟩, fair⟩
  | moved unique =>
      obtain ⟨⟨last, more⟩, updated, clocked⟩ := Except.bind_eq_ok.mp clocked
      cases clocked
      simp only [SparseSSPModel.minClockUpdated] at updated
      obtain ⟨late, lateOut, flushed, lateReleased⟩ := handleTooFastBuffer_spec recorderInv
        (by simp only; omega) (fun v member => exact.le v (threads_eq ▸ member))
        (model.progressTracker.minClock + 1 + staleness + W.speculation + 1)
      have passed : ∀ v ∈ threads, model.progressTracker.minClock <
          Function.update model.progressTracker.progresses w
            (model.progressTracker.progresses w + 1) v :=
        fun v member => exact.le v (threads_eq ▸ member)
      have removed := removeRecord_spec recorderInv passed
      simp only [Nat.add_sub_cancel, removed, flushed, Except.ok_bind] at updated
      obtain ⟨lateEvents, latePushed, updated⟩ := Except.bind_eq_ok.mp updated
      cases updated
      obtain ⟨lateAnswers, lateFair⟩ :=
        pushReplies_spec latePushed taken lateReleased.answerable lateReleased.scans
      have lateInv := lateReleased.inv
      refine ⟨⟨clocks, inv.staleness_eq, inv.speculation_eq, ?_⟩, rfl, rfl, rfl, .inr ⟨rfl, rfl, unique.1⟩, ?_⟩
      · rw [← lateAnswers] at lateInv
        simpa only [List.filterMap_append, tally_append, Nat.add_assoc] using lateInv
      · intro event member
        exact (List.mem_append.mp member).elim (fair event) (lateFair event)

/-- The replay of `buffer_` after the minimum has moved: no worker in it can be a
    unique minimum, so the minimum stays and nothing is buffered again. -/
theorem foldlM_replay_spec (speculative : 1 ≤ W.speculation)
    (inv : ModelInv W staleness threads gets level waiting answered model)
    (level_eq : level = model.progressTracker.minClock + staleness + W.speculation)
    {before : List (Event Val)}
    (replayed : waiting.foldlM SparseSSPModel.replay (model, before) = .ok (model', events)) :
    ∃ more, events = before ++ more ∧
      ModelInv W staleness threads gets level []
        (fun v u => answered v u + tally v u (more.filterMap Event.answered)) model' ∧
      model'.storage = model.storage ∧
      (∀ v, model'.progressTracker.progresses v =
        model.progressTracker.progresses v + (waiting.map (fun msg => msg.sender)).count v) ∧
      ∀ event ∈ more, FairEvent W staleness threads gets
        model'.progressTracker.progresses model.storage event := by
  induction waiting generalizing model answered before with
  | nil =>
      cases replayed
      exact ⟨[], by simp, by simpa using inv, rfl, by simp, by simp⟩
  | cons msg rest ih =>
      obtain ⟨⟨middle, upToHere⟩, first, replayed⟩ := Except.bind_eq_ok.mp replayed
      obtain ⟨⟨clockedModel, events₁, outcome⟩, once, first⟩ := Except.bind_eq_ok.mp first
      obtain ⟨registered, genuine, atLevel⟩ := inv.clocks.waits msg List.mem_cons_self
      rw [genuine, ← atLevel] at once
      have clocked := clockOnce_spec { inv with clocks := inv.clocks.tail } registered
        inv.clocks.fresh_head (by omega) once
      have kept : outcome = .minClockKept ∧
          clockedModel.progressTracker.minClock = model.progressTracker.minClock := by
        rcases clocked.minClock with kept | changed
        · exact kept
        · omega
      rw [kept.1] at first
      cases first
      obtain ⟨more, rfl, inv', storage_eq, progresses, fair⟩ :=
        ih clocked.inv (by rw [kept.2]; exact level_eq) replayed
      have grows : ∀ v, middle.progressTracker.progresses v ≤ model'.progressTracker.progresses v :=
        fun v => progresses v ▸ Nat.le_add_right _ _
      refine ⟨events₁ ++ more, List.append_assoc _ _ _, ?_, storage_eq.trans clocked.storage_eq, ?_, ?_⟩
      · simpa only [List.filterMap_append, tally_append, Nat.add_assoc] using inv'
      · intro v
        rw [progresses, clocked.progresses, List.map_cons]
        by_cases same : v = msg.sender
        · rw [same, Function.update_self, List.count_cons_self]
          omega
        · rw [Function.update_of_ne same, List.count_cons_of_ne (Ne.symm same)]
      · intro event member
        rcases List.mem_append.mp member with now | later
        · exact (clocked.fair event now).mono grows
        · exact clocked.storage_eq ▸ fair event later

variable (W staleness threads) in
/-- A server between two messages, `clocks` of whose `Clock`s it has received. -/
structure ServerInv (gets clocks : Tid → Nat) (answered : Tid → Nat → Nat)
    (model : SparseSSPModel Val (Slots Val)) : Prop where
  base : ModelInv W staleness threads gets
    (model.progressTracker.minClock + staleness + W.speculation + 1) model.buffer answered model
  clocks_eq : ∀ w, clocks w = model.progressTracker.progresses w +
    (model.buffer.map (fun msg => msg.sender)).count w

variable (W staleness threads) in
/-- What a message does to a server that then has received `gets` and `clocks`. -/
structure Handled (gets clocks : Tid → Nat) (answered : Tid → Nat → Nat)
    (model model' : SparseSSPModel Val (Slots Val)) (events : List (Event Val)) : Prop where
  inv : ServerInv W staleness threads gets clocks
    (fun v u => answered v u + tally v u (events.filterMap Event.answered)) model'
  fair : ∀ event ∈ events, FairEvent W staleness threads gets
    model'.progressTracker.progresses model.storage event

omit [AddCommMonoid Val] in
/-- A processed `Clock` is received and leaves `buffer_` alone. -/
theorem clocks_eq_of_processed {clocks : Tid → Nat} {model' : SparseSSPModel Val (Slots Val)}
    (clocks_eq : ∀ v, clocks v = model.progressTracker.progresses v +
      (model.buffer.map (fun msg => msg.sender)).count v)
    (progresses : model'.progressTracker.progresses = Function.update
      model.progressTracker.progresses w (model.progressTracker.progresses w + 1))
    (buffer_eq : model'.buffer = model.buffer) (v : Tid) :
    Function.update clocks w (clocks w + 1) v = model'.progressTracker.progresses v +
      (model'.buffer.map (fun msg => msg.sender)).count v := by
  rw [progresses, buffer_eq]
  by_cases same : v = w
  · rw [same, Function.update_self, Function.update_self, clocks_eq]
    omega
  · rw [Function.update_of_ne same, Function.update_of_ne same, clocks_eq]

theorem clock_spec (speculative : 1 ≤ W.speculation) {clocks : Tid → Nat}
    (inv : ServerInv W staleness threads gets clocks answered model) (registered : w ∈ threads)
    (clocked : model.clock (W.clockMsg w (clocks w)) = .ok (model', events)) :
    Handled W staleness threads gets (Function.update clocks w (clocks w + 1)) answered
      model model' events ∧ model'.storage = model.storage := by
  obtain ⟨⟨clockedModel, first, outcome⟩, once, clocked⟩ := Except.bind_eq_ok.mp clocked
  by_cases early : clocks w < model.progressTracker.minClock + staleness + W.speculation + 1
  · have slow : model.progressTracker.progresses w ≤
        model.progressTracker.minClock + staleness + W.speculation ∧
        (model.buffer.map (fun msg => msg.sender)).count w = 0 := by
      have := inv.clocks_eq w
      have := inv.base.clocks.count_waiting w
      omega
    have version : clocks w = model.progressTracker.progresses w := by
      rw [inv.clocks_eq, slow.2, Nat.add_zero]
    rw [version] at once
    have done := clockOnce_spec inv.base registered (ClocksInv.idle_of_count slow.2) slow.1 once
    rcases done.minClock with ⟨rfl, kept⟩ | ⟨rfl, changed, -⟩
    · cases clocked
      refine ⟨⟨⟨?_, ?_⟩, done.fair⟩, done.storage_eq⟩
      · rw [kept, done.buffer_eq]
        exact done.inv
      · exact clocks_eq_of_processed inv.clocks_eq done.progresses done.buffer_eq
    · obtain ⟨⟨replayedModel, all⟩, replayed, clocked⟩ := Except.bind_eq_ok.mp clocked
      cases clocked
      rw [done.buffer_eq] at replayed
      obtain ⟨more, rfl, inv', storage_eq, progresses, fair⟩ :=
        foldlM_replay_spec speculative done.inv (by omega) replayed
      have grows : ∀ v, clockedModel.progressTracker.progresses v ≤
          replayedModel.progressTracker.progresses v := fun v => progresses v ▸ Nat.le_add_right _ _
      refine ⟨⟨⟨?_, ?_⟩, ?_⟩, storage_eq.trans done.storage_eq⟩
      · refine ⟨{ inv'.clocks with waits := by simp, once := List.nodup_nil }, inv'.staleness_eq,
          inv'.speculation_eq, ?_⟩
        simpa only [List.filterMap_append, tally_append, Nat.add_assoc] using inv'.recorder
      · intro v
        rw [clocks_eq_of_processed inv.clocks_eq done.progresses done.buffer_eq, done.buffer_eq]
        simp only [progresses, List.map_nil, List.count_nil, Nat.add_zero]
      · intro event member
        rcases List.mem_append.mp member with now | later
        · exact (done.fair event now).mono grows
        · exact done.storage_eq ▸ fair event later
  · -- the `Clock` is one of a worker that is as far ahead as the bound allows
    have late : (W.clockMsg w (clocks w)).version ≥
        model.staleness + model.speculation + model.progressTracker.minClock + 1 := by
      rw [inv.base.staleness_eq, inv.base.speculation_eq, Workload.version_clockMsg]
      omega
    simp only [SparseSSPModel.clockOnce, if_pos late] at once
    split at once
    · cases once
    obtain ⟨_, exactly, once⟩ := Except.bind_eq_ok.mp once
    rw [check_eq_ok, inv.base.staleness_eq, inv.base.speculation_eq,
      Workload.version_clockMsg] at exactly
    cases once
    cases clocked
    have counts := inv.base.clocks.count_waiting w
    have sum := inv.clocks_eq w
    have idle : (model.buffer.map (fun msg => msg.sender)).count w = 0 := by omega
    have atLevel : model.progressTracker.progresses w =
        model.progressTracker.minClock + staleness + W.speculation + 1 := by omega
    have version : clocks w = model.progressTracker.minClock + staleness + W.speculation + 1 := by
      omega
    refine ⟨⟨⟨?_, ?_⟩, by simp⟩, rfl⟩
    · rw [version]
      exact { inv.base with clocks := inv.base.clocks.wait registered idle atLevel }
    · intro v
      rw [List.map_append, List.count_append]
      by_cases same : v = w
      · rw [same, Function.update_self, sum]
        simp [Nat.add_assoc]
      · rw [Function.update_of_ne same, inv.clocks_eq]
        simp [List.count_cons_of_ne (Ne.symm same)]

end Clock

section GetAndAdd

variable [AddCommMonoid Val] {gets clocks : Tid → Nat} {answered : Tid → Nat → Nat}
  {model model' : SparseSSPModel Val (Slots Val)} {events : List (Event Val)} {w : Tid}

omit [AddCommMonoid Val] in
theorem ServerInv.progress_le (inv : ServerInv W staleness threads gets clocks answered model)
    (w : Tid) : model.progressTracker.progresses w ≤ clocks w :=
  inv.clocks_eq w ▸ Nat.le_add_right _ _

omit [AddCommMonoid Val] in
theorem ServerInv.absent (inv : ServerInv W staleness threads gets clocks answered model)
    (registered : w ∈ threads) (behind : clocks w ≤ gets w) (ahead : gets w ≠ 0 → clocks w < gets w)
    (absent : W.keys w (gets w) = []) :
    ServerInv W staleness threads (Function.update gets w (gets w + 1)) clocks answered model where
  base := { inv.base with
    recorder := inv.base.recorder.absent registered (Nat.le_trans (inv.progress_le w) behind)
      (fun some => Nat.lt_of_le_of_lt (inv.progress_le w) (ahead some)) absent }
  clocks_eq := inv.clocks_eq

theorem get_spec (inv : ServerInv W staleness threads gets clocks answered model)
    (registered : w ∈ threads) (behind : clocks w ≤ gets w) (ahead : gets w ≠ 0 → clocks w < gets w)
    (sent : W.keys w (gets w) ≠ [])
    (got : model.get (W.getMsg w (gets w)) = .ok (model', events)) :
    Handled W staleness threads (Function.update gets w (gets w + 1)) clocks answered
      model model' events ∧ model'.storage = model.storage := by
  obtain ⟨_, -, got⟩ := Except.bind_eq_ok.mp got
  obtain ⟨_, -, got⟩ := Except.bind_eq_ok.mp got
  have recorded {recorder} := @addRecord_spec _ _ _ _ _ _ _ _ _ _ _ recorder inv.base.recorder
    registered (Nat.le_trans (inv.progress_le w) behind)
    (fun some => Nat.lt_of_le_of_lt (inv.progress_le w) (ahead some)) sent
  have version : (W.getMsg w (gets w)).version = gets w := rfl
  by_cases first : gets w = 0
  · simp only [if_pos (version.trans first), Except.pure_eq_ok, Except.ok_bind] at got
    obtain ⟨event, pushed, got⟩ := Except.bind_eq_ok.mp got
    obtain ⟨recorder, added, got⟩ := Except.bind_eq_ok.mp got
    cases got
    have recorderInv := recorded added
    obtain ⟨-, -, rfl⟩ := pushReply_eq_ok.mp pushed
    rw [if_pos first] at recorderInv
    refine ⟨⟨⟨{ inv.base with recorder := recorderInv }, inv.clocks_eq⟩, ?_⟩, rfl⟩
    intro event member
    rw [List.mem_singleton.mp member]
    refine .reply ⟨inv.base.clocks.threads_eq, inv.base.clocks.exact, fun _ => Nat.le_refl _⟩ ⟨⟨⟨rfl, registered, ?_,
      sent, ?_⟩, ?_⟩, ?_⟩
    · rw [Workload.version_getMsg, Workload.sender_getMsg, Function.update_self]
      exact Nat.lt_succ_self _
    · rw [Workload.version_getMsg, first]
      exact Nat.zero_le _
    · rw [Workload.version_getMsg, first]
      exact Nat.zero_le _
    · intro version below
      rw [Workload.version_getMsg, first] at below
      exact absurd below (Nat.not_lt_zero _)
  · have later : ¬ (W.getMsg w (gets w)).version = 0 := first
    simp only [if_neg later, Except.pure_eq_ok, Except.ok_bind] at got
    obtain ⟨recorder, added, got⟩ := Except.bind_eq_ok.mp got
    cases got
    have recorderInv := recorded added
    rw [if_neg first] at recorderInv
    exact ⟨⟨⟨{ inv.base with recorder := recorderInv }, inv.clocks_eq⟩, by simp⟩, rfl⟩

theorem add_spec {version : Nat}
    (inv : ServerInv W staleness threads gets clocks answered model)
    (added : model.add (W.addMsg w version) = .ok (model', events)) :
    ServerInv W staleness threads gets clocks answered model' ∧ events = [] ∧
      ∀ key, model'.storage.value key =
        model.storage.value key + (W.adds w version).contribution key := by
  obtain ⟨progress, -, added⟩ := Except.bind_eq_ok.mp added
  obtain ⟨_, -, added⟩ := Except.bind_eq_ok.mp added
  obtain ⟨storage, stored, added⟩ := Except.bind_eq_ok.mp added
  cases added
  exact ⟨⟨{ inv.base with }, inv.clocks_eq⟩, rfl, (Storage.subAdd_spec stored).2⟩

end GetAndAdd

end FlexPS
