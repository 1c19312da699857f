import FlexPS.Server.SparseSSP.Model

/-! # The replay of the buffered clocks

`Clock` calls itself for every message of `buffer_`, the vector that `Clock` appends
to and clears. Only the order of each worker's `Clock`s is used here: whatever the
`Get`s and `Add`s are, the worker that has moved the minimum stays at the new one, so
no replayed `Clock` moves it again.
-/

namespace FlexPS

namespace SparseSSPModel

variable {Val Main : Type}

def tooFast (model : SparseSSPModel Val Main) : Nat :=
  model.staleness + model.speculation + model.progressTracker.minClock + 1

variable [AddCommMonoid Val] [MainRecorder Val Main]

/-- `Clock` calls for `msgs` one after the other. None of them changes `buffer_` or
    makes a further call. -/
inductive Replays : SparseSSPModel Val Main → List (Message Val) → List (Event Val) →
    SparseSSPModel Val Main → Prop where
  | done {model} : Replays model [] [] model
  | next {model model₁ model₂ msg msgs events₁ events₂}
      (once : model.clockOnce msg = .ok (model₁, events₁, .minClockKept))
      (untouched : model₁.buffer = model.buffer) (rest : Replays model₁ msgs events₂ model₂) :
      Replays model (msg :: msgs) (events₁ ++ events₂) model₂

section Cases

variable {model model' : SparseSSPModel Val Main} {msg : Message Val} {events : List (Event Val)}
  {outcome : ClockOutcome}

/-- What a `Clock` does to the clocks and to `buffer_`. -/
inductive ClockedOnce (model : SparseSSPModel Val Main) (msg : Message Val)
    (model' : SparseSSPModel Val Main) : ClockOutcome → Prop where
  | buffered (fast : msg.version = model.tooFast)
      (clocks : model'.progressTracker = model.progressTracker)
      (buffer : model'.buffer = model.buffer ++ [msg]) : ClockedOnce model msg model' .buffered
  | kept (slow : msg.version < model.tooFast) (valid : msg.sender ∈ model.progressTracker.threads)
      (advanced : model.progressTracker.Advanced msg.sender none model'.progressTracker)
      (buffer : model'.buffer = model.buffer) : ClockedOnce model msg model' .minClockKept
  | changed (slow : msg.version < model.tooFast) (valid : msg.sender ∈ model.progressTracker.threads)
      (advanced : model.progressTracker.Advanced msg.sender
        (some (model.progressTracker.minClock + 1)) model'.progressTracker)
      (buffer : model'.buffer = model.buffer) : ClockedOnce model msg model' .minClockChanged

theorem clockOnce_cases (clocked : model.clockOnce msg = .ok (model', events, outcome)) :
    ClockedOnce model msg model' outcome ∧ model'.staleness = model.staleness ∧
      model'.speculation = model.speculation := by
  simp only [clockOnce] at clocked
  split at clocked
  · cases clocked
  split at clocked
  · obtain ⟨_, fast, clocked⟩ := Except.bind_eq_ok.mp clocked
    cases clocked
    exact ⟨.buffered (check_eq_ok.mp fast) rfl rfl, rfl, rfl⟩
  next slow =>
    obtain ⟨⟨updated, tracker⟩, advanced, clocked⟩ := Except.bind_eq_ok.mp clocked
    obtain ⟨progress, -, clocked⟩ := Except.bind_eq_ok.mp clocked
    obtain ⟨⟨recorder, out⟩, -, clocked⟩ := Except.bind_eq_ok.mp clocked
    obtain ⟨pushes, -, clocked⟩ := Except.bind_eq_ok.mp clocked
    obtain ⟨valid, -, advanced⟩ := ProgressTracker.advance_eq_ok.mp advanced
    replace slow : msg.version < model.tooFast := Nat.lt_of_not_le slow
    cases updated with
    | none =>
        cases clocked
        exact ⟨.kept slow valid advanced rfl, rfl, rfl⟩
    | some minClock =>
        obtain ⟨⟨last, more⟩, updated, clocked⟩ := Except.bind_eq_ok.mp clocked
        cases clocked
        obtain ⟨⟨handled, released⟩, -, updated⟩ := Except.bind_eq_ok.mp updated
        obtain ⟨moreEvents, -, updated⟩ := Except.bind_eq_ok.mp updated
        cases updated
        obtain rfl := advanced.minClock_of_some.1
        exact ⟨.changed slow valid advanced rfl, rfl, rfl⟩

/-- Neither `Get` nor `Add` touches the clocks or `buffer_`. -/
theorem get_cases (got : model.get msg = .ok (model', events)) :
    model'.progressTracker = model.progressTracker ∧ model'.buffer = model.buffer ∧
      model'.staleness = model.staleness ∧ model'.speculation = model.speculation := by
  obtain ⟨-, -, got⟩ := Except.bind_eq_ok.mp got
  obtain ⟨-, -, got⟩ := Except.bind_eq_ok.mp got
  split at got
  · obtain ⟨events', -, got⟩ := Except.bind_eq_ok.mp got
    obtain ⟨_, -, got⟩ := Except.bind_eq_ok.mp got
    obtain ⟨recorder, -, got⟩ := Except.bind_eq_ok.mp got
    cases got
    exact ⟨rfl, rfl, rfl, rfl⟩
  · obtain ⟨_, -, got⟩ := Except.bind_eq_ok.mp got
    obtain ⟨recorder, -, got⟩ := Except.bind_eq_ok.mp got
    cases got
    exact ⟨rfl, rfl, rfl, rfl⟩

omit [MainRecorder Val Main] in
theorem add_cases (added : model.add msg = .ok (model', events)) :
    model'.progressTracker = model.progressTracker ∧ model'.buffer = model.buffer ∧
      model'.staleness = model.staleness ∧ model'.speculation = model.speculation := by
  obtain ⟨progress, -, added⟩ := Except.bind_eq_ok.mp added
  obtain ⟨-, -, added⟩ := Except.bind_eq_ok.mp added
  obtain ⟨storage, -, added⟩ := Except.bind_eq_ok.mp added
  cases added
  exact ⟨rfl, rfl, rfl, rfl⟩

theorem foldlM_replay_keeps {msgs : List (Message Val)} {before : List (Event Val)}
    (looped : msgs.foldlM replay (model, before) = .ok (model', events)) :
    model'.staleness = model.staleness ∧ model'.speculation = model.speculation := by
  induction msgs generalizing model before with
  | nil =>
      cases looped
      exact ⟨rfl, rfl⟩
  | cons msg msgs ih =>
      obtain ⟨⟨middle, upToHere⟩, first, looped⟩ := Except.bind_eq_ok.mp looped
      obtain ⟨⟨clocked, events₁, outcome⟩, once, first⟩ := Except.bind_eq_ok.mp first
      obtain ⟨-, staleness_eq, speculation_eq⟩ := clockOnce_cases once
      obtain ⟨staleness_eq', speculation_eq'⟩ := ih looped
      cases outcome <;> cases first
      exact ⟨staleness_eq'.trans staleness_eq, speculation_eq'.trans speculation_eq⟩

theorem clock_keeps (clocked : model.clock msg = .ok (model', events)) :
    model'.staleness = model.staleness ∧ model'.speculation = model.speculation := by
  obtain ⟨⟨model₁, events₁, outcome⟩, once, clocked⟩ := Except.bind_eq_ok.mp clocked
  obtain ⟨-, staleness_eq, speculation_eq⟩ := clockOnce_cases once
  cases outcome with
  | buffered | minClockKept =>
      cases clocked
      exact ⟨staleness_eq, speculation_eq⟩
  | minClockChanged =>
      obtain ⟨⟨model₂, all⟩, looped, clocked⟩ := Except.bind_eq_ok.mp clocked
      cases clocked
      obtain ⟨staleness_eq', speculation_eq'⟩ := foldlM_replay_keeps looped
      exact ⟨staleness_eq'.trans staleness_eq, speculation_eq'.trans speculation_eq⟩

end Cases

end SparseSSPModel

/-! ## Runs in which every worker's clocks arrive in order -/

/-- A server, and how many `Clock`s of each worker it has received. -/
structure ClockedState (Val Main : Type) where
  model : SparseSSPModel Val Main
  received : Tid → Nat

namespace ClockedState

variable {Val Main : Type}

/-- The state after a `ResetWorker` that names `tids`, on a new model. -/
def start (modelId : UInt32) (storage : Storage Val) (recorder : SparseSSPRecorder Val Main)
    (staleness speculation : Nat) (tids : List Tid) : ClockedState Val Main :=
  { model := { SparseSSPModel.new modelId storage recorder staleness speculation with
      progressTracker := .init tids }
    received := fun _ => 0 }

/-- Any `Get`s and `Add`s, and the next `Clock` of any worker. -/
def InOrder (state : ClockedState Val Main) (_ : List (Event Val)) (msg : Message Val) : Prop :=
  (msg.flag = .kClock ∧ msg.version = state.received msg.sender) ∨
    msg.flag = .kAdd ∨ msg.flag = .kGet

instance (state : ClockedState Val Main) (events : List (Event Val)) (msg : Message Val) :
    Decidable (state.InOrder events msg) := inferInstanceAs (Decidable (_ ∨ _))

variable [AddCommMonoid Val] [MainRecorder Val Main]

def step (state : ClockedState Val Main) (msg : Message Val) :
    Except Fault (ClockedState Val Main × List (Event Val)) := do
  let (model, events) ← AbstractModel.handle state.model msg
  let received := if msg.flag = .kClock then
    Function.update state.received msg.sender (state.received msg.sender + 1) else state.received
  return ({ model, received }, events)

end ClockedState

/-! ## The clocks between and within the calls -/

section Replay

variable {Val Main : Type} {tracker tracker' : ProgressTracker} {waiting : List (Message Val)}

/-- While the `Clock`s in `waiting` are replayed: each is one iteration ahead of its worker,
    and a worker that has none holds the minimum. -/
structure ReplayInv (level : Nat) (waiting : List (Message Val)) (tracker : ProgressTracker) : Prop where
  exact : tracker.Exact
  versions : ∀ msg ∈ waiting, msg.version = level ∧ tracker.progresses msg.sender = level
  once : (waiting.map (fun msg => msg.sender)).Nodup
  holder : ∃ v ∈ tracker.threads, tracker.progresses v = tracker.minClock ∧
    v ∉ waiting.map (fun msg => msg.sender)

/-- The worker of a replayed `Clock` does not hold the minimum alone. -/
theorem ReplayInv.next {level : Nat} {msg : Message Val} {updated : Option Nat}
    (inv : ReplayInv level (msg :: waiting) tracker) (valid : msg.sender ∈ tracker.threads)
    (advanced : tracker.Advanced msg.sender updated tracker') :
    updated = none ∧ tracker'.minClock = tracker.minClock ∧ ReplayInv level waiting tracker' := by
  obtain ⟨v, registered, holds, apart⟩ := inv.holder
  rw [List.map_cons, List.mem_cons, not_or] at apart
  obtain ⟨different, apart⟩ := apart
  have once := List.nodup_cons.mp inv.once
  have exact := advanced.exact valid inv.exact
  cases advanced with
  | moved unique => exact absurd (unique.2 v registered holds) different
  | kept _ =>
      refine ⟨rfl, rfl, exact, fun other member => ?_, once.2, v, registered, ?_, apart⟩
      · have later : other.sender ≠ msg.sender := by
          intro same
          exact once.1 (List.mem_map.mpr ⟨other, member, same⟩)
        simp only [Function.update_of_ne later]
        exact inv.versions other (List.mem_cons_of_mem _ member)
      · simpa only [Function.update_of_ne different] using holds

variable [AddCommMonoid Val] [MainRecorder Val Main] {level : Nat}
  {model model₁ model₂ : SparseSSPModel Val Main} {msg : Message Val} {events : List (Event Val)}

/-- A replayed `Clock` is early enough and leaves the minimum where it is. -/
theorem ReplayInv.clockOnce (inv : ReplayInv level (msg :: waiting) model.progressTracker)
    (level_eq : level + 1 = model.tooFast) {outcome : ClockOutcome}
    (clocked : model.clockOnce msg = .ok (model₁, events, outcome)) :
    outcome = .minClockKept ∧ model₁.buffer = model.buffer ∧ model₁.tooFast = model.tooFast ∧
      model₁.progressTracker.minClock = model.progressTracker.minClock ∧
      ReplayInv level waiting model₁.progressTracker ∧
      model₁.progressTracker.progresses = Function.update model.progressTracker.progresses
        msg.sender (model.progressTracker.progresses msg.sender + 1) := by
  obtain ⟨cases_, staleness_eq, speculation_eq⟩ := SparseSSPModel.clockOnce_cases clocked
  have early := (inv.versions msg List.mem_cons_self).1
  cases cases_ with
  | buffered fast => omega
  | kept slow valid advanced buffer =>
      obtain ⟨-, minClock, inv'⟩ := inv.next valid advanced
      refine ⟨rfl, buffer, ?_, minClock, inv', advanced.progresses⟩
      rw [SparseSSPModel.tooFast, SparseSSPModel.tooFast, staleness_eq, speculation_eq, minClock]
  | changed slow valid advanced buffer => cases (inv.next valid advanced).1

/-- What the replay of the first of the waiting `Clock`s leaves to be done. -/
theorem SparseSSPModel.Replays.spec {before after : List (Message Val)}
    (replays : SparseSSPModel.Replays model before events model₁)
    (inv : ReplayInv level (before ++ after) model.progressTracker)
    (level_eq : level + 1 = model.tooFast) :
    ReplayInv level after model₁.progressTracker ∧ model₁.tooFast = model.tooFast ∧
      model₁.buffer = model.buffer ∧
      model₁.progressTracker.minClock = model.progressTracker.minClock ∧
      ∀ w, model₁.progressTracker.progresses w =
        model.progressTracker.progresses w + (before.map (fun msg => msg.sender)).count w := by
  induction replays with
  | done => exact ⟨inv, rfl, rfl, rfl, fun _ => rfl⟩
  | @next _ _ _ msg _ _ _ once untouched _ ih =>
      obtain ⟨-, -, tooFast, minClock, inv', progresses⟩ := inv.clockOnce level_eq once
      obtain ⟨inv'', tooFast', buffer', minClock', progresses'⟩ := ih inv' (by rw [tooFast, level_eq])
      refine ⟨inv'', tooFast'.trans tooFast, buffer'.trans untouched, minClock'.trans minClock, fun w => ?_⟩
      rw [progresses', progresses, List.map_cons, List.count_cons]
      by_cases same : w = msg.sender
      · subst same
        simp only [Function.update_self, beq_self_eq_true, if_true]
        omega
      · simp [Function.update_of_ne same, Ne.symm same]

/-- The loop over `buffer_` is such a replay. -/
theorem foldlM_replay_cases {before : List (Event Val)} (inv : ReplayInv level waiting model.progressTracker)
    (level_eq : level + 1 = model.tooFast)
    (looped : waiting.foldlM SparseSSPModel.replay (model, before) = .ok (model₁, events)) :
    ∃ more, events = before ++ more ∧ SparseSSPModel.Replays model waiting more model₁ := by
  induction waiting generalizing model before with
  | nil =>
      cases looped
      exact ⟨[], (List.append_nil _).symm, .done⟩
  | cons msg waiting ih =>
      obtain ⟨⟨middle, upToHere⟩, first, looped⟩ := Except.bind_eq_ok.mp looped
      obtain ⟨⟨clocked, events₁, outcome⟩, once, first⟩ := Except.bind_eq_ok.mp first
      obtain ⟨rfl, untouched, tooFast, -, inv', -⟩ := inv.clockOnce level_eq once
      cases first
      obtain ⟨more, rfl, rest⟩ := ih inv' (by rw [tooFast, level_eq]) looped
      exact ⟨events₁ ++ more, List.append_assoc _ _ _, .next once untouched rest⟩

variable (model : SparseSSPModel Val Main) (received : Tid → Nat) in
/-- A server between two messages. -/
structure BufferedInv : Prop where
  exact : model.progressTracker.Exact
  versions : ∀ msg ∈ model.buffer, msg.version = model.progressTracker.progresses msg.sender ∧
    msg.version = model.tooFast
  once : (model.buffer.map (fun msg => msg.sender)).Nodup
  received_eq : ∀ w, model.progressTracker.progresses w +
    (model.buffer.map (fun msg => msg.sender)).count w = received w

namespace BufferedInv

variable {received : Tid → Nat}

omit [AddCommMonoid Val] [MainRecorder Val Main] in
theorem start (modelId : UInt32) (storage : Storage Val) (recorder : SparseSSPRecorder Val Main)
    (staleness speculation : Nat) (tids : List Tid) :
    BufferedInv (ClockedState.start modelId storage recorder staleness speculation tids).model
      (fun _ => 0) where
  exact := ProgressTracker.exact_init tids
  versions := fun _ member => absurd member List.not_mem_nil
  once := List.nodup_nil
  received_eq := fun _ => rfl

omit [AddCommMonoid Val] [MainRecorder Val Main] in
/-- A `Clock` that comes next in the order of its worker either finds none of that worker
    in `buffer_` or is too fast by more than one. -/
theorem none_waits (inv : BufferedInv model received) (inOrder : msg.version = received msg.sender)
    (slow : msg.version ≤ model.tooFast) :
    (model.buffer.map (fun msg => msg.sender)).count msg.sender = 0 := by
  by_contra some
  have present := List.count_pos_iff.mp (Nat.pos_of_ne_zero some)
  obtain ⟨other, member, same⟩ := List.mem_map.mp present
  obtain ⟨progress, fast⟩ := inv.versions other member
  have counts := inv.received_eq msg.sender
  rw [← same] at counts some inOrder
  omega

/-- The `Clock` that has moved the minimum leaves the others to be replayed. -/
theorem replayInv (inv : BufferedInv model received) (inOrder : msg.version = received msg.sender)
    (clocked : model.clockOnce msg = .ok (model₁, events, .minClockChanged)) :
    ReplayInv model.tooFast model.buffer model₁.progressTracker ∧
      model.tooFast + 1 = model₁.tooFast ∧ model₁.buffer = model.buffer ∧
      model₁.progressTracker.minClock = model.progressTracker.minClock + 1 ∧
      model₁.progressTracker.progresses = Function.update model.progressTracker.progresses
        msg.sender (model.progressTracker.progresses msg.sender + 1) := by
  obtain ⟨cases_, staleness_eq, speculation_eq⟩ := SparseSSPModel.clockOnce_cases clocked
  cases cases_ with
  | changed slow valid advanced buffer =>
      have absent := List.count_eq_zero.mp (inv.none_waits inOrder (Nat.le_of_lt slow))
      have exact := advanced.exact valid inv.exact
      have progresses := advanced.progresses
      have threads := advanced.threads
      obtain ⟨-, moved, holds, -⟩ := advanced.minClock_of_some
      refine ⟨⟨exact, fun other member => ?_, inv.once, msg.sender, threads ▸ valid, ?_, absent⟩, ?_,
        buffer, moved, progresses⟩
      · have apart : other.sender ≠ msg.sender :=
          fun same => absent (List.mem_map.mpr ⟨other, member, same⟩)
        obtain ⟨progress, fast⟩ := inv.versions other member
        rw [progresses, Function.update_of_ne apart]
        exact ⟨fast, progress ▸ fast⟩
      · rw [progresses, Function.update_self, holds, moved]
      · simp only [SparseSSPModel.tooFast, staleness_eq, speculation_eq, moved]
        omega

/-- A `Clock` that comes next in the order of its worker. -/
theorem clock (inv : BufferedInv model received) (inOrder : msg.version = received msg.sender)
    (clocked : model.clock msg = .ok (model₂, events)) :
    BufferedInv model₂ (Function.update received msg.sender (received msg.sender + 1)) ∧
      ∀ model₁ events₁, model.clockOnce msg = .ok (model₁, events₁, .minClockChanged) →
        model₂.buffer = [] ∧
        ∃ events₂ model', model₁.Replays model.buffer events₂ model' ∧
          model₂ = { model' with buffer := [] } ∧ events = events₁ ++ events₂ := by
  obtain ⟨⟨model₁, events₁, outcome⟩, once, clocked⟩ := Except.bind_eq_ok.mp clocked
  have counts := inv.received_eq
  cases outcome with
  | buffered =>
      cases clocked
      refine ⟨?_, fun _ _ changed => by rw [once] at changed; cases changed⟩
      obtain ⟨cases_, staleness_eq, speculation_eq⟩ := SparseSSPModel.clockOnce_cases once
      cases cases_ with
      | buffered fast clocks buffer =>
          have absent := inv.none_waits inOrder (Nat.le_of_eq fast)
          have tooFast : model₂.tooFast = model.tooFast := by
            simp only [SparseSSPModel.tooFast, staleness_eq, speculation_eq, clocks]
          have progress := counts msg.sender
          refine ⟨clocks ▸ inv.exact, fun other member => ?_, ?_, fun w => ?_⟩
          · rw [clocks, tooFast]
            rw [buffer, List.mem_append, List.mem_singleton] at member
            obtain earlier | rfl := member
            · exact inv.versions other earlier
            · exact ⟨by omega, fast⟩
          · rw [buffer, List.map_append, List.nodup_append_comm, List.map_singleton,
              List.singleton_append, List.nodup_cons]
            exact ⟨List.count_eq_zero.mp absent, inv.once⟩
          · rw [clocks, buffer, List.map_append, List.count_append, List.map_singleton,
              List.count_singleton, ← Nat.add_assoc, counts]
            by_cases same : w = msg.sender
            · subst same
              simp
            · simp [Function.update_of_ne same, Ne.symm same]
  | minClockKept =>
      cases clocked
      refine ⟨?_, fun _ _ changed => by rw [once] at changed; cases changed⟩
      obtain ⟨cases_, staleness_eq, speculation_eq⟩ := SparseSSPModel.clockOnce_cases once
      cases cases_ with
      | kept slow valid advanced buffer =>
          have absent := inv.none_waits inOrder (Nat.le_of_lt slow)
          have exact := advanced.exact valid inv.exact
          have progresses := advanced.progresses
          have minClock := advanced.minClock_of_none
          have tooFast : model₂.tooFast = model.tooFast := by
            simp only [SparseSSPModel.tooFast, staleness_eq, speculation_eq, minClock]
          refine ⟨exact, fun other member => ?_, buffer ▸ inv.once, fun w => ?_⟩
          · rw [buffer] at member
            have apart : other.sender ≠ msg.sender :=
              fun same => List.count_eq_zero.mp absent (List.mem_map.mpr ⟨other, member, same⟩)
            rw [progresses, tooFast, Function.update_of_ne apart]
            exact inv.versions other member
          · rw [progresses, buffer]
            by_cases same : w = msg.sender
            · subst same
              have := counts msg.sender
              simp only [Function.update_self]
              omega
            · rw [Function.update_of_ne same, Function.update_of_ne same]
              exact counts w
  | minClockChanged =>
      obtain ⟨replaying, level_eq, buffer, -, progresses⟩ := inv.replayInv inOrder once
      obtain ⟨⟨model', all⟩, looped, clocked⟩ := Except.bind_eq_ok.mp clocked
      cases clocked
      simp only [buffer] at looped
      obtain ⟨events₂, rfl, replays⟩ := foldlM_replay_cases replaying level_eq looped
      rw [← List.append_nil model.buffer] at replaying
      obtain ⟨done, -, -, -, progresses'⟩ := replays.spec replaying level_eq
      refine ⟨⟨done.exact, fun _ member => absurd member List.not_mem_nil, List.nodup_nil, fun w => ?_⟩,
        fun model₁' events₁' changed => ?_⟩
      · rw [List.map_nil, List.count_nil, Nat.add_zero, progresses', progresses]
        by_cases same : w = msg.sender
        · subst same
          have := counts msg.sender
          simp only [Function.update_self]
          omega
        · rw [Function.update_of_ne same, Function.update_of_ne same]
          exact counts w
      · rw [once] at changed
        cases changed
        exact ⟨rfl, events₂, model', replays, rfl, rfl⟩

end BufferedInv

variable (model : SparseSSPModel Val Main) (msg : Message Val) in
/-- What a `Clock` that moves the minimum does with `buffer_`. -/
structure ReplaysOnce : Prop where
  /-- No replayed `Clock` is buffered or moves the minimum, wherever the replay stops. -/
  untouched : ∀ model₁ events₁, model.clockOnce msg = .ok (model₁, events₁, .minClockChanged) →
    ∀ before replayed after events₂ model₂, model.buffer = before ++ replayed :: after →
      model₁.Replays before events₂ model₂ →
      ∀ model₃ events₃ outcome, model₂.clockOnce replayed = .ok (model₃, events₃, outcome) →
        outcome = .minClockKept ∧ model₃.buffer = model.buffer
  drained : ∀ model₁ events₁, model.clockOnce msg = .ok (model₁, events₁, .minClockChanged) →
    ∀ model' events', model.clock msg = .ok (model', events') → model'.buffer = [] ∧
      ∃ events₂ model₂, model₁.Replays model.buffer events₂ model₂ ∧
        model' = { model₂ with buffer := [] } ∧ events' = events₁ ++ events₂

theorem BufferedInv.replaysOnce {received : Tid → Nat} (inv : BufferedInv model received)
    (inOrder : msg.version = received msg.sender) : ReplaysOnce model msg where
  untouched := by
    intro model₁ events₁ changed before replayed after events₂ model₂ split replays model₃ events₃
      outcome again
    obtain ⟨replaying, level_eq, buffer, -, -⟩ := inv.replayInv inOrder changed
    rw [split] at replaying
    obtain ⟨left, tooFast, buffer', -, -⟩ := replays.spec replaying level_eq
    obtain ⟨kept, same, -⟩ := left.clockOnce (by rw [tooFast, level_eq]) again
    exact ⟨kept, by rw [same, buffer', buffer]⟩
  drained := by
    intro model₁ events₁ changed model' events' clocked
    exact (inv.clock inOrder clocked).2 model₁ events₁ changed

/-- The number of `Clock`s of a worker. -/
def clocksOf (msgs : List (Message Val)) (w : Tid) : Nat :=
  (msgs.filter fun msg => msg.flag = .kClock ∧ msg.sender = w).length

omit [AddCommMonoid Val] in
theorem clocksOf_snoc (msgs : List (Message Val)) (msg : Message Val) (w : Tid) :
    clocksOf (msgs ++ [msg]) w =
      clocksOf msgs w + if msg.flag = .kClock ∧ msg.sender = w then 1 else 0 := by
  by_cases counts : msg.flag = .kClock ∧ msg.sender = w
  · simp [clocksOf, counts]
  · simp [clocksOf, counts]

variable (staleness speculation : Nat) (msgs : List (Message Val)) (state : ClockedState Val Main) in
structure ClockedInv : Prop where
  buffered : BufferedInv state.model state.received
  staleness_eq : state.model.staleness = staleness
  speculation_eq : state.model.speculation = speculation
  received_eq : state.received = clocksOf msgs

omit [AddCommMonoid Val] [MainRecorder Val Main] in
theorem ClockedInv.aside {staleness speculation : Nat} {msgs : List (Message Val)}
    {state : ClockedState Val Main} (inv : ClockedInv staleness speculation msgs state)
    (other : msg.flag ≠ .kClock)
    (kept : model.progressTracker = state.model.progressTracker ∧ model.buffer = state.model.buffer ∧
      model.staleness = state.model.staleness ∧ model.speculation = state.model.speculation) :
    ClockedInv staleness speculation (msgs ++ [msg]) { state with model := model } := by
  obtain ⟨clocks, buffer, staleness_eq, speculation_eq⟩ := kept
  have tooFast : model.tooFast = state.model.tooFast := by
    simp only [SparseSSPModel.tooFast, clocks, staleness_eq, speculation_eq]
  refine ⟨⟨clocks ▸ inv.buffered.exact, ?_, buffer ▸ inv.buffered.once, ?_⟩,
    staleness_eq.trans inv.staleness_eq, speculation_eq.trans inv.speculation_eq, ?_⟩
  · intro msg member
    rw [clocks, tooFast]
    exact inv.buffered.versions msg (buffer ▸ member)
  · intro w
    rw [clocks, buffer]
    exact inv.buffered.received_eq w
  · funext w
    rw [clocksOf_snoc, if_neg (fun both => other both.1), Nat.add_zero]
    exact congrFun inv.received_eq w

theorem ClockedInv.step {staleness speculation : Nat} {msgs : List (Message Val)}
    {state state' : ClockedState Val Main} {before : List (Event Val)}
    (inv : ClockedInv staleness speculation msgs state) (inOrder : state.InOrder before msg)
    (stepped : state.step msg = .ok (state', events)) :
    ClockedInv staleness speculation (msgs ++ [msg]) state' := by
  obtain ⟨⟨model', events'⟩, handled, stepped⟩ := Except.bind_eq_ok.mp stepped
  cases stepped
  rcases inOrder with ⟨isClock, version⟩ | isAdd | isGet
  · simp only [AbstractModel.handle, isClock] at handled
    obtain ⟨staleness_eq, speculation_eq⟩ := SparseSSPModel.clock_keeps handled
    refine ⟨?_, staleness_eq.trans inv.staleness_eq, speculation_eq.trans inv.speculation_eq, ?_⟩
    · simp only [if_pos isClock]
      exact (inv.buffered.clock version handled).1
    · funext w
      rw [if_pos isClock, clocksOf_snoc, inv.received_eq]
      by_cases same : w = msg.sender
      · subst same
        simp [isClock]
      · simp [same, Ne.symm same]
  · have other : msg.flag ≠ .kClock := by simp [isAdd]
    simp only [AbstractModel.handle, isAdd] at handled
    rw [if_neg other]
    exact inv.aside other (SparseSSPModel.add_cases handled)
  · have other : msg.flag ≠ .kClock := by simp [isGet]
    simp only [AbstractModel.handle, isGet] at handled
    rw [if_neg other]
    exact inv.aside other (SparseSSPModel.get_cases handled)

/-- In every state reached, `buffer_` has at most one `Clock` of a worker, the next one of
    that worker, which is too fast by one. Every `Clock` received has either been processed
    or waits there, and a `Clock` that moves the minimum replays each waiting one once. -/
theorem clocks_replayed_once {modelId : UInt32} {storage : Storage Val}
    {recorder : SparseSSPRecorder Val Main} {staleness speculation : Nat} {tids : List Tid}
    {msgs : List (Message Val)} {state : ClockedState Val Main}
    (run : Machine.Runs ClockedState.step ClockedState.InOrder
      (.start modelId storage recorder staleness speculation tids) msgs state events) :
    (∀ msg ∈ state.model.buffer,
        msg.version = state.model.progressTracker.progresses msg.sender ∧
        msg.version = staleness + speculation + state.model.progressTracker.minClock + 1) ∧
      (state.model.buffer.map (fun msg => msg.sender)).Nodup ∧
      (∀ w, state.model.progressTracker.progresses w +
        (state.model.buffer.map (fun msg => msg.sender)).count w = clocksOf msgs w) ∧
      ∀ msg, state.InOrder events msg → msg.flag = .kClock → ReplaysOnce state.model msg := by
  have inv : ClockedInv staleness speculation msgs state := by
    refine run.invariant (P := fun msgs state _ => ClockedInv staleness speculation msgs state) ?_ ?_
    · exact ⟨.start modelId storage recorder staleness speculation tids, rfl, rfl, rfl⟩
    · intro _ _ _ _ _ _ _ inv inOrder stepped
      exact inv.step inOrder stepped
  refine ⟨fun msg member => ?_, inv.buffered.once, fun w => ?_, fun msg inOrder isClock => ?_⟩
  · obtain ⟨progress, fast⟩ := inv.buffered.versions msg member
    rw [SparseSSPModel.tooFast, inv.staleness_eq, inv.speculation_eq] at fast
    exact ⟨progress, fast⟩
  · rw [inv.buffered.received_eq, inv.received_eq]
  · rcases inOrder with ⟨-, version⟩ | isAdd | isGet
    · exact inv.buffered.replaysOnce version
    · rw [isClock] at isAdd
      cases isAdd
    · rw [isClock] at isGet
      cases isGet

end Replay

/-- With staleness and speculation 0, the second `Clock` of worker 1 waits for worker 2. -/
theorem clocks_replayed_once_twoWorkers :
    ∃ state : ClockedState Int (MapRecorder Int),
      state.model.buffer = [createMessage .kClock 0 1 0 1] ∧
      ReplaysOnce state.model (createMessage .kClock 0 2 0 0) := by
  obtain ⟨state, events, run, buffer, received⟩ := Machine.runs_of_exec ClockedState.step
    ClockedState.InOrder
    (.start 0 (.map fun _ => 0) (UnorderedMapSparseSSPRecorder 0 0 true) 0 0 [1, 2])
    [createMessage .kClock 0 1 0 0, createMessage .kClock 0 1 0 1]
    (fun (state : ClockedState Int (MapRecorder Int)) _ =>
      state.model.buffer = [createMessage .kClock 0 1 0 1] ∧ state.received 2 = 0)
    (by decide +kernel)
  obtain ⟨-, -, -, replays⟩ := clocks_replayed_once run
  exact ⟨state, buffer, replays _ (.inl ⟨rfl, received.symm⟩) rfl⟩

end FlexPS
