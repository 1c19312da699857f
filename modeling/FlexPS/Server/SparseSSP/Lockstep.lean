import FlexPS.Server.SparseSSP.Mirror
import FlexPS.Server.SparseSSP.Replay

/-! # A server and its slots in lockstep

The ring of levels is faithful on the window that starts at the minimum clock. A
message moves the minimum by at most one, and the level it leaves is empty by then. Where
the ring cannot index a key it stops, and what the slots go on to do shows that key.
-/

namespace FlexPS

open SparseSSPRecorder

variable {Val Main : Type}

/-- A representation with `size` levels, faithful on the window that starts at
    `first`, that can move on over an empty level. -/
structure Faithful [MainRecorder Val Main] (size : Nat) (limits : Limits) (keys : Key → Prop)
    (R : Nat → Main → Slots Val → Prop) : Prop where
  represents (first : Nat) : Represents limits (Window.Inside first size) keys (R first)
  shift {first : Nat} {main : Main} {slots : Slots Val} : R first main slots →
    (∀ key, slots.counts first key = 0) → (∀ key, slots.counts (first + size) key = 0) →
    R (first + 1) main slots

def SparseSSPModel.withRecorder {Main' : Type} (model : SparseSSPModel Val Main')
    (recorder : SparseSSPRecorder Val Main) : SparseSSPModel Val Main :=
  { model with recorder }

/-- Two servers that differ only in how they represent the slots. -/
def ModelMirrors (R : Main → Slots Val → Prop) (mirrored : SparseSSPModel Val Main)
    (model : SparseSSPModel Val (Slots Val)) : Prop :=
  ∃ main, R main model.recorder.mainRecorder ∧
    mirrored = model.withRecorder (model.recorder.withMain main)

inductive SameEvent (keys : Key → Prop) : Event Val → Event Val → Prop where
  | reply (request reply : Message Val) (clocks : ProgressTracker) :
      SameEvent keys (.reply request reply clocks) (.reply request reply clocks)
  | resetDone (reply : Message Val) : SameEvent keys (.resetDone reply) (.resetDone reply)
  | scan {scan scan' : Scan} (clocks : ProgressTracker) : SameScan keys scan scan' →
      SameEvent keys (.scan scan clocks) (.scan scan' clocks)

theorem SameEvent.refl (event : Event Val) : SameEvent keys event event := by
  cases event with
  | reply request reply clocks => exact .reply request reply clocks
  | resetDone reply => exact .resetDone reply
  | scan scan clocks => exact .scan clocks ⟨rfl, rfl, rfl, fun _ _ _ _ _ => rfl⟩

variable (W : Workload Val) (staleness : Nat) (threads : List Tid)

structure StoredModel (gets : Tid → Nat) (level : Nat) (waiting : List (Message Val))
    (model : SparseSSPModel Val (Slots Val)) : Prop where
  clocks : ClocksInv W staleness threads level waiting model.progressTracker
  staleness_eq : model.staleness = staleness
  speculation_eq : model.speculation = W.speculation
  stored : Stored W staleness threads model.progressTracker.progresses gets model.recorder

structure StoredServer (gets clocks : Tid → Nat) (model : SparseSSPModel Val (Slots Val)) :
    Prop where
  base : StoredModel W staleness threads gets
    (model.progressTracker.minClock + staleness + W.speculation + 1) model.buffer model
  clocks_eq : ∀ w, clocks w = model.progressTracker.progresses w +
    (model.buffer.map (fun msg => msg.sender)).count w

variable {W staleness threads}

section Limited

/-- What a server did keeps to the limits: no request was forwarded to a key past them, and no
    record removed for an iteration that was clocked has one. -/
structure Limits.StepFits (limits : Limits) (W : Workload Val) (gets prog prog' : Tid → Nat)
    (events : List (Event Val)) : Prop where
  scans : limits.FitScans (events.filterMap Event.scanned)
  removed : ∀ w version, prog w ≤ version → version < prog' w → version < gets w →
    ∀ key ∈ W.keys w version, limits.Removes key

namespace Limits.StepFits

variable {limits : Limits} {gets prog prog' prog'' : Tid → Nat} {events more : List (Event Val)}

theorem of_scans (scans : limits.FitScans (events.filterMap Event.scanned)) :
    limits.StepFits W gets prog prog events where
  scans := scans
  removed _ version from' below := absurd (Nat.lt_of_lt_of_le below from') (Nat.lt_irrefl version)

/-- What is done for the `Clock` of one worker. -/
theorem own_iff {w : Tid} :
    limits.StepFits W gets prog (Function.update prog w (prog w + 1)) events ↔
      (prog w < gets w → ∀ key ∈ W.keys w (prog w), limits.Removes key) ∧
        limits.FitScans (events.filterMap Event.scanned) := by
  constructor
  · intro fits
    refine ⟨fits.removed w (prog w) (Nat.le_refl _) ?_, fits.scans⟩
    rw [Function.update_self]
    exact Nat.lt_succ_self _
  · rintro ⟨removes, scans⟩
    refine ⟨scans, ?_⟩
    intro v version from' below received
    by_cases own : v = w
    · subst own
      rw [Function.update_self] at below
      obtain rfl : version = prog v := by omega
      exact removes received
    · rw [Function.update_of_ne own] at below
      exact absurd (Nat.lt_of_lt_of_le below from') (Nat.lt_irrefl version)

theorem append (first : limits.StepFits W gets prog prog' events)
    (next : limits.StepFits W gets prog' prog'' more) :
    limits.StepFits W gets prog prog'' (events ++ more) where
  scans := by
    rw [List.filterMap_append]
    exact fitScans_append.mpr ⟨first.scans, next.scans⟩
  removed w version from' below received := by
    rcases Nat.lt_or_ge version (prog' w) with early | late
    · exact first.removed w version from' early received
    · exact next.removed w version late below received

/-- What was done up to some point fits if all of it does. -/
theorem upTo (fits : limits.StepFits W gets prog prog'' (events ++ more))
    (later : ∀ v, prog' v ≤ prog'' v) : limits.StepFits W gets prog prog' events where
  scans := by
    have scans := fits.scans
    rw [List.filterMap_append] at scans
    exact (fitScans_append.mp scans).1
  removed w version from' below received :=
    fits.removed w version from' (Nat.lt_of_lt_of_le below (later w)) received

/-- What was done from some point on fits if all of it does. -/
theorem since (fits : limits.StepFits W gets prog prog'' (events ++ more))
    (earlier : ∀ v, prog v ≤ prog' v) : limits.StepFits W gets prog' prog'' more where
  scans := by
    have scans := fits.scans
    rw [List.filterMap_append] at scans
    exact (fitScans_append.mp scans).2
  removed w version from' below received :=
    fits.removed w version (Nat.le_trans (earlier w) from') below received

end Limits.StepFits

variable [AddCommMonoid Val] {model model' : SparseSSPModel Val Main} {msg : Message Val}
  {before events : List (Event Val)}

theorem scanned_of_pushReplies {out : NonConflict Val} (pushed : model.pushReplies out = .ok events) :
    events.filterMap Event.scanned = out.scans := by
  obtain ⟨replies, replied, pushed⟩ := Except.bind_eq_ok.mp pushed
  obtain ⟨-, rfl⟩ := mapM_pushReply_eq_ok.mp replied
  cases pushed
  have quiet : ((out.msgs.map fun request => Event.reply request (model.storage.replyTo request)
      model.progressTracker).filterMap Event.scanned) = [] := by
    rw [List.filterMap_eq_nil_iff]
    intro event member
    obtain ⟨request, -, rfl⟩ := List.mem_map.mp member
    rfl
  rw [List.filterMap_append, quiet, List.append_nil, List.filterMap_map]
  exact List.filterMap_some

variable [MainRecorder Val Main]

theorem replay_extends (replayed : SparseSSPModel.replay (model, before) msg = .ok (model', events)) :
    (∃ more, events = before ++ more) ∧
      ∀ v, model.progressTracker.progresses v ≤ model'.progressTracker.progresses v := by
  obtain ⟨⟨model₁, more, outcome⟩, once, replayed⟩ := Except.bind_eq_ok.mp replayed
  obtain ⟨clocked, -, -⟩ := SparseSSPModel.clockOnce_cases once
  cases clocked with
  | buffered => cases replayed
  | changed => cases replayed
  | kept slow valid advanced =>
      cases replayed
      exact ⟨⟨more, rfl⟩, fun v => advanced.progresses ▸ le_update_succ _ _ v⟩

theorem foldlM_replay_extends {msgs : List (Message Val)}
    (looped : msgs.foldlM SparseSSPModel.replay (model, before) = .ok (model', events)) :
    (∃ more, events = before ++ more) ∧
      ∀ v, model.progressTracker.progresses v ≤ model'.progressTracker.progresses v := by
  induction msgs generalizing model before with
  | nil =>
      cases looped
      exact ⟨⟨[], (List.append_nil _).symm⟩, fun v => Nat.le_refl _⟩
  | cons msg msgs ih =>
      obtain ⟨⟨middle, upToHere⟩, first, looped⟩ := Except.bind_eq_ok.mp looped
      obtain ⟨⟨more, rfl⟩, advanced⟩ := replay_extends first
      obtain ⟨⟨rest, rfl⟩, advanced'⟩ := ih looped
      exact ⟨⟨more ++ rest, List.append_assoc ..⟩, fun v => Nat.le_trans (advanced v) (advanced' v)⟩

end Limited

section Steps

variable [AddCommMonoid Val] [MainRecorder Val Main] {size : Nat} {limits : Limits} {keys : Key → Prop}
  {R : Nat → Main → Slots Val → Prop} {gets : Tid → Nat} {level : Nat}
  {waiting : List (Message Val)} {model : SparseSSPModel Val (Slots Val)} {w : Tid}

omit [MainRecorder Val Main] in
theorem pushReplies_mirrors {mirrored : SparseSSPModel Val Main} {out out' : NonConflict Val}
    (same : SameOut keys out out') (storage_eq : mirrored.storage = model.storage)
    (clocks_eq : mirrored.progressTracker = model.progressTracker) :
    Except.Sim (List.Forall₂ (SameEvent keys)) (mirrored.pushReplies out) (model.pushReplies out') := by
  simp only [SparseSSPModel.pushReplies, same.msgs, storage_eq, clocks_eq]
  refine .bind_same ?_
  intro replies replied
  obtain ⟨-, rfl⟩ := mapM_pushReply_eq_ok.mp replied
  refine .ok (List.rel_append ?_ ?_)
  · rw [List.forall₂_map_left_iff, List.forall₂_map_right_iff]
    exact same.scans.imp fun _ _ scan => .scan _ scan
  · rw [List.forall₂_map_left_iff, List.forall₂_map_right_iff]
    exact List.forall₂_same.mpr fun _ _ => .reply _ _ _

/-- What the lockstep of one `Clock` message of `w` keeps. -/
structure ClockedBoth (keys : Key → Prop) (staleness : Nat) (threads : List Tid) (R : Nat → Main → Slots Val → Prop)
    (W : Workload Val) (gets : Tid → Nat)
    (level : Nat) (waiting : List (Message Val)) (model : SparseSSPModel Val (Slots Val))
    (msg : Message Val) (x : SparseSSPModel Val Main × List (Event Val) × ClockOutcome)
    (y : SparseSSPModel Val (Slots Val) × List (Event Val) × ClockOutcome) : Prop where
  outcome : x.2.2 = y.2.2
  events : List.Forall₂ (SameEvent keys) x.2.1 y.2.1
  mirrors : ModelMirrors (R y.1.progressTracker.minClock) x.1 y.1
  stored : StoredModel W staleness threads gets level waiting y.1
  buffered : y.2.2 = .buffered → y.1.buffer = model.buffer ++ [msg] ∧
    y.1.progressTracker = model.progressTracker ∧ msg.version =
      model.progressTracker.minClock + staleness + W.speculation + 1
  processed : y.2.2 ≠ .buffered → y.1.buffer = model.buffer ∧
    y.1.progressTracker.progresses = Function.update model.progressTracker.progresses msg.sender
      (model.progressTracker.progresses msg.sender + 1) ∧
    msg.version < model.progressTracker.minClock + staleness + W.speculation + 1
  kept : y.2.2 = .minClockKept →
    y.1.progressTracker.minClock = model.progressTracker.minClock
  changed : y.2.2 = .minClockChanged →
    y.1.progressTracker.minClock = model.progressTracker.minClock + 1

omit [AddCommMonoid Val] in
/-- Every conflict test on behalf of a received request stays in the window. -/
theorem scannable_of_bounded (owned : ∀ w version, ∀ key ∈ W.keys w version, keys key)
    {first minClock : Nat} (bounded : ∀ v ∈ threads, gets v ≤ first + size) (above : first ≤ minClock)
    (msg : Message Val) (received : Received W threads gets msg) :
    Scannable (Window.Inside first size) keys staleness minClock msg where
  keys := by
    rw [received.genuine]
    exact owned _ _
  versions := by
    intro version from' below
    have inGets := received.received
    have := bounded _ received.registered
    exact ⟨Nat.le_trans above from', by omega⟩

theorem minClockUpdated_mirrors (faithful : Faithful size limits keys R)
    (owned : ∀ w version, ∀ key ∈ W.keys w version, keys key) {first : Nat}
    (bounded : ∀ v ∈ threads, gets v ≤ first + size) {mirrored : SparseSSPModel Val Main}
    (mirrors : ModelMirrors (R first) mirrored model)
    (stored : StoredModel W staleness threads gets level waiting model)
    (moved : model.progressTracker.minClock = first + 1) :
    limits.UpTo keys (fun z => limits.FitScans (z.2.filterMap Event.scanned))
      (fun x y => ModelMirrors (R (first + 1)) x.1 y.1 ∧
        List.Forall₂ (SameEvent keys) x.2 y.2 ∧
        StoredModel W staleness threads gets level waiting y.1 ∧
        y.1.progressTracker = model.progressTracker ∧ y.1.buffer = model.buffer)
      (mirrored.minClockUpdated (first + 1)) (model.minClockUpdated (first + 1)) := by
  obtain ⟨main, represents, rfl⟩ := mirrors
  have above : ∀ v ∈ threads, first + 1 ≤ model.progressTracker.progresses v := by
    intro v member
    rw [← moved]
    exact stored.clocks.exact.le v (stored.clocks.threads_eq ▸ member)
  have empty : ∀ version, version = first ∨ version = first + size → ∀ key,
      recordedCount W threads model.progressTracker.progresses gets version key = 0 := by
    intro version edge key
    apply recordedCount_eq_zero
    intro v member le lt
    have := above v member
    have := bounded v member
    omega
  obtain ⟨⟨main', represents', mirrors⟩, same⟩ :=
    removeRecord_mirrors (faithful.represents first) represents
      (fun key => stored.stored.counts ▸ empty first (.inl rfl) key)
  have recorder_eq : (model.withRecorder (model.recorder.withMain main)).recorder =
      model.recorder.withMain main := rfl
  simp only [SparseSSPModel.minClockUpdated, recorder_eq, Nat.add_sub_cancel, mirrors, same]
  refine (handleTooFastBuffer_mirrors (faithful.represents first) represents' stored.stored
    (scannable_of_bounded owned bounded (Nat.le_succ first))).bind ?_ ?_
  · intro x y _ fits handled
    obtain ⟨⟨⟨main'', represents'', mirrors'⟩, sameOut⟩, stored'⟩ := handled
    refine .bind (.of_sim (pushReplies_mirrors sameOut ?_ ?_) fun _ _ => trivial) ?_ ?_
    · rfl
    · rfl
    · intro events events' pushed _ sameEvents
      rw [mirrors']
      have shifted := faithful.shift represents''
        (fun key => stored'.counts ▸ empty first (.inl rfl) key)
        (fun key => stored'.counts ▸ empty (first + size) (.inr rfl) key)
      refine .ok ?_ ⟨⟨main'', shifted, rfl⟩, sameEvents,
        ⟨stored.clocks, stored.staleness_eq, stored.speculation_eq, stored'⟩, rfl, rfl⟩
      exact (scanned_of_pushReplies pushed).symm ▸ fits
    · intro _ _ _ _
      trivial
  · intro y z updated fits
    obtain ⟨events, pushed, updated⟩ := Except.bind_eq_ok.mp updated
    cases updated
    exact scanned_of_pushReplies pushed ▸ fits

theorem clockOnce_mirrors (faithful : Faithful size limits keys R)
    (owned : ∀ w version, ∀ key ∈ W.keys w version, keys key)
    (stored : StoredModel W staleness threads gets level waiting model)
    {mirrored : SparseSSPModel Val Main}
    (mirrors : ModelMirrors (R model.progressTracker.minClock) mirrored model)
    (bounded : ∀ v ∈ threads, gets v ≤ model.progressTracker.minClock + size)
    (registered : w ∈ threads) {version : Nat}
    (current : version < model.progressTracker.minClock + staleness + W.speculation + 1 →
      version = model.progressTracker.progresses w ∧ ∀ msg ∈ waiting, msg.sender ≠ w) :
    limits.UpTo keys (fun z => limits.StepFits W gets model.progressTracker.progresses
        z.1.progressTracker.progresses z.2.1)
      (ClockedBoth keys staleness threads R W gets level waiting model (W.clockMsg w version))
      (mirrored.clockOnce (W.clockMsg w version)) (model.clockOnce (W.clockMsg w version)) := by
  obtain ⟨main, represents, rfl⟩ := mirrors
  simp only [SparseSSPModel.clockOnce, SparseSSPModel.withRecorder, Workload.sender_clockMsg]
  refine .ite ?_ ?_
  · intro _
    exact .error _
  intro _
  refine .ite ?_ ?_
  · intro late
    refine .bind_same ?_
    intro _ exactly
    replace exactly := check_eq_ok.mp exactly
    rw [stored.staleness_eq, stored.speculation_eq] at exactly
    refine .ok (.of_scans limits.fitScans_nil) ⟨rfl, .nil, ⟨main, represents, rfl⟩, { stored with }, ?_, ?_, ?_, ?_⟩
    · intro _
      exact ⟨rfl, rfl, by rw [exactly]; omega⟩
    · simp
    · simp
    · simp
  intro early
  have slow : version < model.progressTracker.minClock + staleness + W.speculation + 1 := by
    rw [stored.staleness_eq, stored.speculation_eq, Workload.version_clockMsg] at early
    omega
  obtain ⟨rfl, idle⟩ := current slow
  refine .bind_same ?_
  intro advance advanced
  obtain ⟨updated, tracker⟩ := advance
  obtain ⟨-, -, advanced⟩ := ProgressTracker.advance_eq_ok.mp advanced
  have clocks := stored.clocks.advance registered idle (by omega) advanced
  have raised := advanced.minClock_le.1
  have progresses := advanced.progresses
  have entered : tracker.getProgress w = .ok (model.progressTracker.progresses w + 1) := by
    rw [ProgressTracker.getProgress_eq (clocks.threads_eq ▸ registered), progresses,
      Function.update_self]
  have inside : model.progressTracker.progresses w < gets w →
      Window.Inside model.progressTracker.minClock size (model.progressTracker.progresses w) := by
    intro received
    have := bounded w registered
    exact ⟨stored.clocks.exact.le w (stored.clocks.threads_eq ▸ registered), by omega⟩
  simp only [entered, Except.ok_bind]
  refine (getNonConflictMsgs_mirrors (faithful.represents _) owned represents stored.stored
    registered inside (scannable_of_bounded owned bounded raised)).bind ?_ ?_
  · intro x y _ removes handled
    obtain ⟨⟨⟨main', represents', mirrors⟩, sameOut⟩, stored'⟩ := handled
    rw [← progresses] at stored'
    refine .bind (.of_sim (pushReplies_mirrors sameOut ?_ ?_) fun _ _ => trivial) ?_ ?_
    · rfl
    · rfl
    · intro events events' pushed _ sameEvents
      have storedNext : StoredModel W staleness threads gets level waiting
          { model with progressTracker := tracker, recorder := y.1 } :=
        ⟨clocks, stored.staleness_eq, stored.speculation_eq, stored'⟩
      have own : limits.StepFits W gets model.progressTracker.progresses tracker.progresses events' := by
        rw [progresses, Limits.StepFits.own_iff, scanned_of_pushReplies pushed]
        exact removes
      cases advanced with
      | kept shared =>
          refine .ok own ⟨rfl, sameEvents, ⟨main', represents', ?_⟩, storedNext, ?_, ?_, ?_, ?_⟩
          · rw [mirrors]
            rfl
          · simp
          · intro _
            exact ⟨rfl, rfl, slow⟩
          · intro _
            rfl
          · simp
      | moved unique =>
          refine .bind (minClockUpdated_mirrors faithful owned bounded ?_ storedNext ?_) ?_ ?_
          · exact ⟨main', represents', by rw [mirrors]; rfl⟩
          · rfl
          · intro x' y' _ moreFits updated
            obtain ⟨mirrors', moreEvents, stored'', tracker_eq, buffer_eq⟩ := updated
            refine .ok ?_ ⟨rfl, List.rel_append sameEvents moreEvents, ?_, stored'', ?_, ?_, ?_, ?_⟩
            · simp only [tracker_eq]
              exact own.append (.of_scans moreFits)
            · rw [tracker_eq]
              exact mirrors'
            · simp
            · intro _
              exact ⟨buffer_eq, by rw [tracker_eq]; rfl, slow⟩
            · simp
            · intro _
              rw [tracker_eq]
          · intro y' z clocked fits
            cases clocked
            exact (fits.since fun v => Nat.le_refl _).scans
    · intro _ _ _ _
      trivial
  · intro y z clocked fits
    obtain ⟨events, pushed, clocked⟩ := Except.bind_eq_ok.mp clocked
    rw [← scanned_of_pushReplies pushed, ← Limits.StepFits.own_iff]
    cases advanced with
    | kept shared =>
        cases clocked
        exact progresses ▸ fits
    | moved unique =>
        obtain ⟨⟨last, more⟩, updated, clocked⟩ := Except.bind_eq_ok.mp clocked
        cases clocked
        obtain ⟨⟨recorder, out⟩, -, updated⟩ := Except.bind_eq_ok.mp updated
        obtain ⟨moreEvents, -, updated⟩ := Except.bind_eq_ok.mp updated
        cases updated
        exact progresses ▸ fits.upTo fun v => Nat.le_refl _

theorem replay_mirrors (faithful : Faithful size limits keys R)
    (owned : ∀ w version, ∀ key ∈ W.keys w version, keys key) {msg : Message Val}
    (stored : StoredModel W staleness threads gets level (msg :: waiting) model)
    {mirrored : SparseSSPModel Val Main}
    (mirrors : ModelMirrors (R model.progressTracker.minClock) mirrored model)
    (bounded : ∀ v ∈ threads, gets v ≤ model.progressTracker.minClock + size)
    {events events' : List (Event Val)} (same : List.Forall₂ (SameEvent keys) events events')
    {start : Tid → Nat} (earlier : ∀ v, start v ≤ model.progressTracker.progresses v)
    (fits : limits.StepFits W gets start model.progressTracker.progresses events') :
    limits.UpTo keys
      (fun z => limits.StepFits W gets start z.1.progressTracker.progresses z.2)
      (fun x y => ModelMirrors (R y.1.progressTracker.minClock) x.1 y.1 ∧
        List.Forall₂ (SameEvent keys) x.2 y.2 ∧
        StoredModel W staleness threads gets level waiting y.1 ∧
        y.1.progressTracker.minClock = model.progressTracker.minClock ∧
        y.1.progressTracker.progresses = Function.update model.progressTracker.progresses msg.sender
          (model.progressTracker.progresses msg.sender + 1))
      (SparseSSPModel.replay (mirrored, events) msg) (SparseSSPModel.replay (model, events') msg) := by
  obtain ⟨registered, genuine, atLevel⟩ := stored.clocks.waits msg List.mem_cons_self
  have rest : StoredModel W staleness threads gets level waiting model :=
    { stored with clocks := stored.clocks.tail }
  have current : level < model.progressTracker.minClock + staleness + W.speculation + 1 →
      level = model.progressTracker.progresses msg.sender ∧
        ∀ other ∈ waiting, other.sender ≠ msg.sender :=
    fun _ => ⟨atLevel.symm, stored.clocks.fresh_head⟩
  have clocked := clockOnce_mirrors faithful owned rest mirrors bounded registered current
  rw [← genuine] at clocked
  refine clocked.bind ?_ ?_
  · intro x y _ fits' both
    simp only [both.outcome]
    cases outcome : y.2.2 with
    | buffered => exact .error _
    | minClockChanged => exact .error _
    | minClockKept =>
        have advanced := both.processed (by simp [outcome])
        exact .ok (fits.append fits') ⟨both.mirrors, List.rel_append same both.events, both.stored,
          both.kept outcome, advanced.2.1⟩
  · intro y z replayed fits'
    obtain ⟨next, events, outcome⟩ := y
    cases outcome with
    | buffered => cases replayed
    | minClockChanged => cases replayed
    | minClockKept =>
        cases replayed
        exact fits'.since earlier

theorem foldlM_replay_mirrors (faithful : Faithful size limits keys R)
    (owned : ∀ w version, ∀ key ∈ W.keys w version, keys key)
    (stored : StoredModel W staleness threads gets level waiting model)
    {mirrored : SparseSSPModel Val Main}
    (mirrors : ModelMirrors (R model.progressTracker.minClock) mirrored model)
    (bounded : ∀ v ∈ threads, gets v ≤ model.progressTracker.minClock + size)
    {events events' : List (Event Val)} (same : List.Forall₂ (SameEvent keys) events events')
    {start : Tid → Nat} (earlier : ∀ v, start v ≤ model.progressTracker.progresses v)
    (fits : limits.StepFits W gets start model.progressTracker.progresses events') :
    limits.UpTo keys
      (fun z => limits.StepFits W gets start z.1.progressTracker.progresses z.2)
      (fun x y => ModelMirrors (R y.1.progressTracker.minClock) x.1 y.1 ∧
        List.Forall₂ (SameEvent keys) x.2 y.2 ∧
        StoredModel W staleness threads gets level [] y.1 ∧
        ∀ v, y.1.progressTracker.progresses v = model.progressTracker.progresses v +
          (waiting.map (fun msg => msg.sender)).count v)
      (waiting.foldlM SparseSSPModel.replay (mirrored, events))
      (waiting.foldlM SparseSSPModel.replay (model, events')) := by
  induction waiting generalizing mirrored model events events' with
  | nil => exact .ok fits ⟨mirrors, same, stored, by simp⟩
  | cons msg rest ih =>
      rw [List.foldlM_cons, List.foldlM_cons]
      refine (replay_mirrors faithful owned stored mirrors bounded same earlier fits).bind ?_ ?_
      · intro x y _ fits' replayed
        obtain ⟨mirrors', same', stored', minClock_eq, progresses⟩ := replayed
        have earlier' : ∀ v, start v ≤ y.1.progressTracker.progresses v :=
          fun v => Nat.le_trans (earlier v) (progresses ▸ le_update_succ _ _ v)
        refine (ih stored' mirrors' (minClock_eq ▸ bounded) same' earlier' fits').mono ?_
          fun _ _ fits => fits
        intro x' y' _ fits'' done
        obtain ⟨mirrors'', same'', stored'', counts⟩ := done
        refine ⟨fits'', mirrors'', same'', stored'', ?_⟩
        intro v
        rw [counts, progresses, List.map_cons]
        by_cases own : v = msg.sender
        · rw [own, Function.update_self, List.count_cons_self]
          omega
        · rw [Function.update_of_ne own, List.count_cons_of_ne (Ne.symm own)]
      · intro y z looped fits''
        obtain ⟨⟨more, eq⟩, later⟩ := foldlM_replay_extends looped
        exact (eq ▸ fits'').upTo later

/-- What the lockstep of one message keeps. -/
def HandledBoth (keys : Key → Prop) (staleness : Nat) (threads : List Tid) (R : Nat → Main → Slots Val → Prop)
    (W : Workload Val) (gets clocks : Tid → Nat) (x : SparseSSPModel Val Main × List (Event Val))
    (y : SparseSSPModel Val (Slots Val) × List (Event Val)) : Prop :=
  ModelMirrors (R y.1.progressTracker.minClock) x.1 y.1 ∧ List.Forall₂ (SameEvent keys) x.2 y.2 ∧
    StoredServer W staleness threads gets clocks y.1

theorem clock_mirrors (faithful : Faithful (staleness + 2 * W.speculation + 3) limits keys R)
    (owned : ∀ w version, ∀ key ∈ W.keys w version, keys key) {clocks : Tid → Nat}
    (stored : StoredServer W staleness threads gets clocks model)
    {mirrored : SparseSSPModel Val Main}
    (mirrors : ModelMirrors (R model.progressTracker.minClock) mirrored model)
    (bounded : ∀ v ∈ threads,
      gets v ≤ model.progressTracker.minClock + (staleness + 2 * W.speculation + 3))
    (registered : w ∈ threads) :
    limits.UpTo keys (fun z => limits.StepFits W gets model.progressTracker.progresses
        z.1.progressTracker.progresses z.2)
      (HandledBoth keys staleness threads R W gets (Function.update clocks w (clocks w + 1)))
      (mirrored.clock (W.clockMsg w (clocks w))) (model.clock (W.clockMsg w (clocks w))) := by
  have sum := stored.clocks_eq w
  have count := stored.base.clocks.count_waiting w
  have current : clocks w < model.progressTracker.minClock + staleness + W.speculation + 1 →
      clocks w = model.progressTracker.progresses w ∧ ∀ msg ∈ model.buffer, msg.sender ≠ w := by
    intro early
    have none : (model.buffer.map (fun msg => msg.sender)).count w = 0 := by omega
    exact ⟨by omega, ClocksInv.idle_of_count none⟩
  refine (clockOnce_mirrors faithful owned stored.base mirrors bounded registered current).bind ?_ ?_
  · intro x y _ fits both
    simp only [both.outcome]
    cases outcome : y.2.2 with
    | buffered =>
        obtain ⟨buffer_eq, tracker_eq, version⟩ := both.buffered outcome
        rw [Workload.version_clockMsg] at version
        have atLevel : model.progressTracker.progresses w = clocks w := by omega
        have none : (model.buffer.map (fun msg => msg.sender)).count w = 0 := by omega
        refine .ok fits ⟨both.mirrors, both.events, { both.stored with clocks := ?_ }, ?_⟩
        · have waited := stored.base.clocks.wait registered none (by omega)
          rw [buffer_eq, tracker_eq, ← version]
          rw [← version] at waited
          exact waited
        · intro v
          rw [tracker_eq, buffer_eq, List.map_append, List.count_append]
          by_cases same : v = w
          · rw [same, Function.update_self, sum]
            simp [Nat.add_assoc]
          · rw [Function.update_of_ne same, stored.clocks_eq]
            simp [List.count_cons_of_ne (Ne.symm same)]
    | minClockKept =>
        obtain ⟨buffer_eq, progresses, -⟩ := both.processed (by simp [outcome])
        rw [Workload.sender_clockMsg] at progresses
        refine .ok fits ⟨both.mirrors, both.events, ?_, ?_⟩
        · rw [both.kept outcome, buffer_eq]
          exact both.stored
        · exact clocks_eq_of_processed stored.clocks_eq progresses buffer_eq
    | minClockChanged =>
        obtain ⟨buffer_eq, progresses, -⟩ := both.processed (by simp [outcome])
        rw [Workload.sender_clockMsg] at progresses
        have raised := both.changed outcome
        have sameBuffer : x.1.buffer = y.1.buffer := by
          obtain ⟨main, -, eq⟩ := both.mirrors
          rw [eq]
          rfl
        simp only [sameBuffer]
        rw [buffer_eq]
        have bounded' : ∀ v ∈ threads,
            gets v ≤ y.1.progressTracker.minClock + (staleness + 2 * W.speculation + 3) := by
          intro v member
          have := bounded v member
          omega
        have earlier : ∀ v, model.progressTracker.progresses v ≤ y.1.progressTracker.progresses v :=
          fun v => progresses ▸ le_update_succ _ _ v
        refine (foldlM_replay_mirrors faithful owned both.stored both.mirrors bounded' both.events
          earlier fits).bind ?_ ?_
        · intro x' y' _ fits' replayed
          obtain ⟨⟨main, represents, mirrors'⟩, same, stored', counts⟩ := replayed
          refine .ok fits' ⟨⟨main, represents, by rw [mirrors']; rfl⟩, same,
            { stored' with clocks := { stored'.clocks with waits := by simp, once := List.nodup_nil } }, ?_⟩
          intro v
          have before := clocks_eq_of_processed stored.clocks_eq progresses buffer_eq v
          rw [before, buffer_eq]
          simp only [counts, List.map_nil, List.count_nil, Nat.add_zero]
        · intro y' z replayed fits'
          cases replayed
          exact fits'
  · intro y z clocked fits
    obtain ⟨next, events, outcome⟩ := y
    cases outcome with
    | buffered | minClockKept =>
        cases clocked
        exact fits
    | minClockChanged =>
        obtain ⟨⟨last, all⟩, looped, clocked⟩ := Except.bind_eq_ok.mp clocked
        cases clocked
        obtain ⟨⟨more, rfl⟩, later⟩ := foldlM_replay_extends looped
        exact fits.upTo later

/-- A `Get` makes no conflict test and moves no clock. -/
theorem stepFits_of_get {msg : Message Val} {gets : Tid → Nat} {model' : SparseSSPModel Val Main}
    {model : SparseSSPModel Val Main} {events : List (Event Val)}
    (got : model.get msg = .ok (model', events)) :
    limits.StepFits W gets model.progressTracker.progresses model'.progressTracker.progresses events := by
  obtain ⟨clocks, -⟩ := SparseSSPModel.get_cases got
  rw [clocks]
  refine .of_scans ?_
  obtain ⟨-, -, got⟩ := Except.bind_eq_ok.mp got
  obtain ⟨-, -, got⟩ := Except.bind_eq_ok.mp got
  split at got
  · obtain ⟨event, replied, got⟩ := Except.bind_eq_ok.mp got
    obtain ⟨_, same, got⟩ := Except.bind_eq_ok.mp got
    obtain ⟨recorder, -, got⟩ := Except.bind_eq_ok.mp got
    cases same
    cases got
    obtain ⟨-, -, rfl⟩ := pushReply_eq_ok.mp replied
    exact limits.fitScans_nil
  · obtain ⟨_, same, got⟩ := Except.bind_eq_ok.mp got
    obtain ⟨recorder, -, got⟩ := Except.bind_eq_ok.mp got
    cases same
    cases got
    exact limits.fitScans_nil

omit [MainRecorder Val Main] in
theorem stepFits_of_add {msg : Message Val} {model model' : SparseSSPModel Val Main}
    {events : List (Event Val)} (added : model.add msg = .ok (model', events)) :
    limits.StepFits W gets model.progressTracker.progresses model'.progressTracker.progresses events := by
  obtain ⟨clocks, -⟩ := SparseSSPModel.add_cases added
  rw [clocks]
  refine .of_scans ?_
  obtain ⟨progress, -, added⟩ := Except.bind_eq_ok.mp added
  obtain ⟨-, -, added⟩ := Except.bind_eq_ok.mp added
  obtain ⟨storage, -, added⟩ := Except.bind_eq_ok.mp added
  cases added
  exact limits.fitScans_nil

theorem get_mirrors (faithful : Faithful size limits keys R)
    (owned : ∀ w version, ∀ key ∈ W.keys w version, keys key) {clocks : Tid → Nat}
    (stored : StoredServer W staleness threads gets clocks model)
    {mirrored : SparseSSPModel Val Main}
    (mirrors : ModelMirrors (R model.progressTracker.minClock) mirrored model)
    (registered : w ∈ threads)
    (behind : clocks w ≤ gets w) (bounded : gets w < model.progressTracker.minClock + size)
    (sent : W.keys w (gets w) ≠ []) :
    Except.Sim (HandledBoth keys staleness threads R W (Function.update gets w (gets w + 1)) clocks)
      (mirrored.get (W.getMsg w (gets w))) (model.get (W.getMsg w (gets w))) := by
  obtain ⟨main, represents, rfl⟩ := mirrors
  have progress_le : model.progressTracker.progresses w ≤ clocks w :=
    stored.clocks_eq w ▸ Nat.le_add_right _ _
  have inside : Window.Inside model.progressTracker.minClock size (gets w) := by
    have above := stored.base.clocks.exact.le w (stored.base.clocks.threads_eq ▸ registered)
    exact ⟨by omega, bounded⟩
  have added := addRecord_mirrors (faithful.represents _) owned represents stored.base.stored
    registered (Nat.le_trans progress_le behind) inside sent
  have finish (events : List (Event Val)) : Except.Sim
      (HandledBoth keys staleness threads R W (Function.update gets w (gets w + 1)) clocks)
      ((model.recorder.withMain main).addRecord (W.getMsg w (gets w)) >>= fun recorder =>
        .ok (model.withRecorder recorder, events))
      (model.recorder.addRecord (W.getMsg w (gets w)) >>= fun recorder =>
        .ok (model.withRecorder recorder, events)) := by
    refine added.bind ?_
    intro x y recorded
    obtain ⟨⟨main', represents', mirrors'⟩, stored'⟩ := recorded
    refine .ok ⟨⟨main', represents', by rw [mirrors']; rfl⟩,
      List.forall₂_same.mpr fun event _ => .refl event, { stored.base with stored := stored' },
      stored.clocks_eq⟩
  simp only [SparseSSPModel.get, SparseSSPModel.withRecorder]
  refine .bind_same ?_
  intro _ _
  refine .bind_same ?_
  intro _ _
  refine .ite ?_ ?_
  · intro _
    refine .bind_same ?_
    intro event _
    exact finish [event]
  · intro _
    exact finish []

omit [AddCommMonoid Val] in
theorem StoredServer.absent {clocks : Tid → Nat}
    (stored : StoredServer W staleness threads gets clocks model) (registered : w ∈ threads)
    (behind : clocks w ≤ gets w) (absent : W.keys w (gets w) = []) :
    StoredServer W staleness threads (Function.update gets w (gets w + 1)) clocks model where
  base := { stored.base with
    stored := stored.base.stored.absent registered
      (Nat.le_trans (stored.clocks_eq w ▸ Nat.le_add_right _ _) behind) absent }
  clocks_eq := stored.clocks_eq

variable (keys) in
omit [MainRecorder Val Main] in
theorem add_mirrors {clocks : Tid → Nat} (stored : StoredServer W staleness threads gets clocks model)
    {mirrored : SparseSSPModel Val Main}
    (mirrors : ModelMirrors (R model.progressTracker.minClock) mirrored model) (version : Nat) :
    Except.Sim (HandledBoth keys staleness threads R W gets clocks)
      (mirrored.add (W.addMsg w version)) (model.add (W.addMsg w version)) := by
  obtain ⟨main, represents, rfl⟩ := mirrors
  simp only [SparseSSPModel.add, SparseSSPModel.withRecorder]
  refine .bind_same ?_
  intro _ _
  refine .bind_same ?_
  intro _ _
  refine .bind_same ?_
  intro storage _
  exact .ok ⟨⟨main, represents, rfl⟩, .nil, { stored.base with }, stored.clocks_eq⟩

end Steps

end FlexPS
