import FlexPS.Server.SparseSSP.Lockstep

/-! # Runs with either recorder -/

namespace FlexPS

variable {Val : Type}

inductive SparseSSPRecorderType where
  | map
  | vector (range : Range)

namespace SparseSSPRecorderType

/-- `main_recorder_` of the recorder. -/
def Main (Val : Type) : SparseSSPRecorderType → Type
  | .map => MapRecorder Val
  | .vector _ => VectorRecorder Val

instance (type : SparseSSPRecorderType) : MainRecorder Val (type.Main Val) :=
  match type with
  | .map => inferInstanceAs (MainRecorder Val (MapRecorder Val))
  | .vector _ => inferInstanceAs (MainRecorder Val (VectorRecorder Val))

/-- `main_recorder_` of a recorder that has recorded nothing. -/
def mainRecorder (type : SparseSSPRecorderType) (staleness speculation : Nat) : type.Main Val :=
  match type with
  | .map => MapRecorder.mk fun _ _ => none
  | .vector range => VectorRecorder.mk (staleness + 2 * speculation + 3) range fun _ _ => (0, [])

/-- The recorder `Engine` constructs. -/
def recorder (type : SparseSSPRecorderType) (staleness speculation : Nat) (dcheckIsOn : Bool) :
    Except Fault (SparseSSPRecorder Val (type.Main Val)) :=
  match type with
  | .map => .ok (UnorderedMapSparseSSPRecorder staleness speculation dcheckIsOn)
  | .vector range => VectorSparseSSPRecorder staleness speculation range dcheckIsOn

/-- The constructor returns. -/
def Constructs (type : SparseSSPRecorderType) (dcheckIsOn : Bool) : Prop :=
  match type with
  | .map => True
  | .vector range => dcheckIsOn = true → range.begin_ < range.end_

theorem recorder_eq_ok (type : SparseSSPRecorderType) {staleness speculation : Nat} {dcheckIsOn : Bool}
    {recorder : SparseSSPRecorder Val (type.Main Val)} :
    type.recorder staleness speculation dcheckIsOn = .ok recorder ↔ type.Constructs dcheckIsOn ∧
      recorder = .new staleness speculation (type.mainRecorder staleness speculation) dcheckIsOn := by
  cases type with
  | map =>
      constructor
      · intro constructed
        cases constructed
        exact ⟨trivial, rfl⟩
      · rintro ⟨-, rfl⟩
        rfl
  | vector range =>
      cases dcheckIsOn with
      | false =>
          constructor
          · intro constructed
            cases constructed
            exact ⟨fun on => absurd on Bool.false_ne_true, rfl⟩
          · rintro ⟨-, rfl⟩
            rfl
      | true =>
          constructor
          · intro constructed
            obtain ⟨_, nonEmpty, constructed⟩ := Except.bind_eq_ok.mp constructed
            cases constructed
            exact ⟨fun _ => check_eq_ok.mp nonEmpty, rfl⟩
          · rintro ⟨nonEmpty, rfl⟩
            exact Except.bind_eq_ok.mpr ⟨_, check_pos (nonEmpty rfl), rfl⟩

theorem recorder_map (staleness speculation : Nat) (dcheckIsOn : Bool) :
    (SparseSSPRecorderType.map.recorder staleness speculation dcheckIsOn :
        Except Fault (SparseSSPRecorder Val _)) =
      .ok (UnorderedMapSparseSSPRecorder staleness speculation dcheckIsOn) := rfl

theorem map_recorder_eq (staleness speculation : Nat) (dcheckIsOn : Bool) :
    (UnorderedMapSparseSSPRecorder staleness speculation dcheckIsOn :
        SparseSSPRecorder Val (SparseSSPRecorderType.map.Main Val)) =
      .new staleness speculation (SparseSSPRecorderType.map.mainRecorder staleness speculation)
        dcheckIsOn := rfl

/-- The keys the recorder has slots for. -/
def Owns : SparseSSPRecorderType → Key → Prop
  | .map, _ => True
  | .vector range, key => range.Owns key

def Models (type : SparseSSPRecorderType) (size first : Nat) :
    type.Main Val → Slots Val → Prop :=
  match type with
  | .map => MapRecorder.Models
  | .vector range => VectorRecorder.Models first size range

/-- The keys the recorder can index when it forwards to them and when it removes them. -/
def limits : SparseSSPRecorderType → Limits
  | .map => .unlimited
  | .vector range => .ofRange range

/-- Keys that every index the recorder computes fits an `int` for. -/
def Indexes : SparseSSPRecorderType → Key → Prop
  | .map, _ => True
  | .vector _, key => key.toNat ≤ intMax

theorem not_exceeded (type : SparseSSPRecorderType) {keys : Key → Prop}
    (indexed : ∀ key, keys key → type.Indexes key) : ¬ type.limits.Exceeded keys := by
  rintro ⟨key, owned, past⟩
  cases type with
  | map => exact past ⟨trivial, trivial⟩
  | vector range =>
      have small : key.toNat ≤ intMax := indexed key owned
      exact past ⟨small, Nat.le_trans (Nat.sub_le _ _) small⟩

theorem faithful (type : SparseSSPRecorderType) {size : Nat} (positive : 0 < size)
    {keys : Key → Prop} (owns : ∀ key, keys key → type.Owns key) :
    Faithful size type.limits keys (type.Models size : Nat → type.Main Val → Slots Val → Prop) := by
  cases type with
  | map =>
      exact ⟨fun _ => MapRecorder.represents.restrict (fun _ _ => trivial) fun _ _ => trivial,
        fun models _ _ => models⟩
  | vector range =>
      exact ⟨fun first => (VectorRecorder.represents first size range).restrict (fun _ inside => inside) owns,
        fun models empty emptyNext => models.shift positive empty emptyNext⟩

end SparseSSPRecorderType

/-! ## One step of a stream on both sides -/

section Coupling

variable {Main : Type} {W : Workload Val} {staleness : Nat} {threads : List Tid}

variable (W staleness threads) in
/-- A server and its slots have received the same messages. -/
structure Coupled (R : Nat → Main → Slots Val → Prop) (state : StreamState Val Main)
    (slots : StreamState Val (Slots Val)) : Prop where
  position_eq : state.position = slots.position
  mirrors : ModelMirrors (R slots.minClock) state.model slots.model
  stored : StoredServer W staleness threads (slots.gets W) (slots.clocks W) slots.model

theorem StoredServer.clocks_le {gets clocks : Tid → Nat} {model : SparseSSPModel Val (Slots Val)}
    (stored : StoredServer W staleness threads gets clocks model) {v : Tid} (member : v ∈ threads) :
    clocks v ≤ model.progressTracker.minClock + staleness + W.speculation + 2 := by
  have := stored.clocks_eq v
  have := stored.base.clocks.count_waiting v
  have := stored.base.clocks.ahead v member
  omega

variable [AddCommMonoid Val] [MainRecorder Val Main] {limits : Limits} {keys : Key → Prop}
  {R : Nat → Main → Slots Val → Prop} {state : StreamState Val Main}
  {slots : StreamState Val (Slots Val)} {w : Tid}

theorem step_mirrors (faithful : Faithful (staleness + 2 * W.speculation + 3) limits keys R)
    (owned : ∀ w version, ∀ key ∈ W.keys w version, keys key)
    (coupled : Coupled W staleness threads R state slots) (registered : w ∈ threads) :
    limits.UpTo keys
      (fun z => limits.StepFits W (slots.gets W) slots.progress z.1.progress z.2)
      (fun x y => Coupled W staleness threads R x.1 y.1 ∧ List.Forall₂ (SameEvent keys) x.2 y.2)
      (state.step W w) (slots.step W w) := by
  obtain ⟨mirrored, position⟩ := state
  obtain ⟨model, position'⟩ := slots
  obtain ⟨position_eq, mirrors, stored⟩ := coupled
  cases position_eq
  have bounds := fun v => streamGets_bounds W.speculation (position v)
  have item := streamItem_next W.speculation (position w)
  simp only [StreamState.step, StreamState.next]
  generalize streamItem W.speculation (position w) = sent at item ⊢
  have gets_eq := StreamState.counter_update (streamGets W.speculation)
    (rfl : Function.update position w (position w + 1) = _)
  have clocks_eq := StreamState.counter_update (streamClocks W.speculation)
    (rfl : Function.update position w (position w + 1) = _)
  have clocksLe : ∀ v ∈ threads, streamClocks W.speculation (position v) ≤
      model.progressTracker.minClock + staleness + W.speculation + 2 :=
    fun v member => stored.clocks_le member
  have finish {gets clocks : Tid → Nat}
      (newGets : (fun v => streamGets W.speculation
        (Function.update position w (position w + 1) v)) = gets)
      (newClocks : (fun v => streamClocks W.speculation
        (Function.update position w (position w + 1) v)) = clocks)
      (x : SparseSSPModel Val Main × List (Event Val))
      (y : SparseSSPModel Val (Slots Val) × List (Event Val))
      (handled : HandledBoth keys staleness threads R W gets clocks x y) :
      Coupled W staleness threads R
          { model := x.1, position := Function.update position w (position w + 1) }
          { model := y.1, position := Function.update position w (position w + 1) } ∧
        List.Forall₂ (SameEvent keys) x.2 y.2 := by
    subst newGets newClocks
    exact ⟨⟨rfl, handled.1, handled.2.2⟩, handled.2.1⟩
  cases item with
  | get getsNext addsNext clocksNext _ early =>
      rw [getsNext] at gets_eq
      rw [clocksNext, Function.update_eq_self] at clocks_eq
      have behind : streamClocks W.speculation (position w) ≤
          streamGets W.speculation (position w) := by
        have := (bounds w).2.1
        omega
      have inWindow := clocksLe w registered
      by_cases absent : W.keys w (streamGets W.speculation (position w)) = []
      · simp only [Workload.message?, if_pos absent]
        exact .ok (.of_scans limits.fitScans_nil) (finish gets_eq clocks_eq (mirrored, []) (model, [])
          ⟨mirrors, .nil, stored.absent registered behind absent⟩)
      · simp only [Workload.message?, if_neg absent]
        refine .bind (.of_sim (get_mirrors faithful owned stored mirrors registered behind ?_ absent)
          fun _ _ => trivial) ?_ fun _ _ _ _ => trivial
        · simp only [StreamState.gets]
          omega
        · intro x y got _ handled
          exact .ok (stepFits_of_get got) (finish gets_eq clocks_eq x y handled)
  | add getsNext addsNext clocksNext _ _ =>
      rw [getsNext, Function.update_eq_self] at gets_eq
      rw [clocksNext, Function.update_eq_self] at clocks_eq
      by_cases absent : (W.adds w (streamClocks W.speculation (position w))).keys = []
      · simp only [Workload.message?, if_pos absent]
        exact .ok (.of_scans limits.fitScans_nil)
          (finish gets_eq clocks_eq (mirrored, []) (model, []) ⟨mirrors, .nil, stored⟩)
      · simp only [Workload.message?, if_neg absent]
        refine .bind (.of_sim (add_mirrors keys stored mirrors _) fun _ _ => trivial) ?_
          fun _ _ _ _ => trivial
        intro x y added _ handled
        exact .ok (stepFits_of_add added) (finish gets_eq clocks_eq x y handled)
  | clock getsNext addsNext clocksNext _ _ =>
      rw [getsNext, Function.update_eq_self] at gets_eq
      rw [clocksNext] at clocks_eq
      simp only [Workload.message?]
      refine .bind (clock_mirrors faithful owned stored mirrors ?_ registered) ?_ ?_
      · intro v member
        have := (bounds v).1
        have := clocksLe v member
        simp only [StreamState.gets]
        omega
      · intro x y _ fits handled
        exact .ok fits (finish gets_eq clocks_eq x y handled)
      · intro y z handled fits
        cases handled
        exact fits

namespace Coupled

omit [AddCommMonoid Val] [MainRecorder Val Main]

variable (coupled : Coupled W staleness threads R state slots)

include coupled

theorem gets_eq : state.gets W = slots.gets W := by
  funext v
  rw [StreamState.gets, StreamState.gets, coupled.position_eq]

theorem clocks_eq : state.clocks W = slots.clocks W := by
  funext v
  rw [StreamState.clocks, StreamState.clocks, coupled.position_eq]

theorem adds_eq : state.adds W = slots.adds W := by
  funext v
  rw [StreamState.adds, StreamState.adds, coupled.position_eq]

theorem next_eq : state.next W = slots.next W := by
  funext v
  rw [StreamState.next, StreamState.next, coupled.position_eq]

theorem tracker_eq : state.model.progressTracker = slots.model.progressTracker := by
  obtain ⟨main, -, eq⟩ := coupled.mirrors
  rw [eq]
  rfl

theorem storage_eq : state.model.storage = slots.model.storage := by
  obtain ⟨main, -, eq⟩ := coupled.mirrors
  rw [eq]
  rfl

theorem progress_eq : state.progress = slots.progress := by
  funext v
  rw [StreamState.progress, StreamState.progress, coupled.tracker_eq]

theorem minClock_eq : state.minClock = slots.minClock := by
  rw [StreamState.minClock, StreamState.minClock, coupled.tracker_eq]

theorem threads_eq : slots.threads = threads := coupled.stored.base.clocks.threads_eq

theorem registered (events : List (Event Val)) (member : w ∈ threads) : state.Registered events w := by
  have registered : w ∈ slots.threads := coupled.threads_eq.symm ▸ member
  rwa [StreamState.threads, ← coupled.tracker_eq] at registered

/-- No received `Get` is past the window of the ring. -/
theorem gets_le {v : Tid} (member : v ∈ threads) :
    slots.gets W v ≤ slots.minClock + (staleness + 2 * W.speculation + 3) := by
  have ahead := coupled.stored.clocks_le member
  have bounds := (streamGets_bounds W.speculation (slots.position v)).1
  simp only [StreamState.clocks, StreamState.gets, StreamState.minClock] at ahead ⊢
  omega

end Coupled

/-! ## Runs on both sides -/

omit [AddCommMonoid Val] in
private theorem filterMap_eq_of_same {β : Type} {f : Event Val → Option β}
    (respects : ∀ event event', SameEvent keys event event' → f event = f event')
    {events events' : List (Event Val)} (same : List.Forall₂ (SameEvent keys) events events') :
    events.filterMap f = events'.filterMap f := by
  induction same with
  | nil => rfl
  | cons head _ ih => rw [List.filterMap_cons, List.filterMap_cons, respects _ _ head, ih]

theorem exists_same_of_mem {α β : Type} {S : α → β → Prop} {as : List α} {bs : List β}
    (same : List.Forall₂ S as bs) {a : α} (member : a ∈ as) : ∃ b ∈ bs, S a b := by
  induction same with
  | nil => cases member
  | cons head _ ih =>
      cases member with
      | head => exact ⟨_, List.mem_cons_self, head⟩
      | tail _ later =>
          obtain ⟨b, inRest, related⟩ := ih later
          exact ⟨b, List.mem_cons_of_mem _ inRest, related⟩

omit [AddCommMonoid Val] in
theorem answered_eq_of_same {events events' : List (Event Val)}
    (same : List.Forall₂ (SameEvent keys) events events') :
    events.filterMap Event.answered = events'.filterMap Event.answered :=
  filterMap_eq_of_same (fun _ _ h => by cases h <;> rfl) same

omit [AddCommMonoid Val] in
theorem pushed_eq_of_same {events events' : List (Event Val)}
    (same : List.Forall₂ (SameEvent keys) events events') :
    events.filterMap Event.pushed = events'.filterMap Event.pushed :=
  filterMap_eq_of_same (fun _ _ h => by cases h <;> rfl) same

omit [AddCommMonoid Val] in
private theorem models_start (type : SparseSSPRecorderType) (staleness speculation size first : Nat)
    (size_eq : size = staleness + 2 * speculation + 3) :
    type.Models size first (type.mainRecorder staleness speculation)
      (⟨fun _ _ => 0, []⟩ : Slots Val) := by
  have live : (⟨fun _ _ => 0, []⟩ : Slots Val).Live := fun h member => absurd member List.not_mem_nil
  cases type with
  | map => exact ⟨live, fun _ _ => rfl⟩
  | vector range => exact ⟨live, size_eq.symm, rfl, fun _ _ _ _ => rfl⟩

omit [AddCommMonoid Val] in
theorem SparseSSPRecorderType.coupled_start {type : SparseSSPRecorderType} (storage : Storage Val)
    {dcheckIsOn : Bool} {recorder : SparseSSPRecorder Val (type.Main Val)}
    (recorder_eq : recorder =
      .new staleness W.speculation (type.mainRecorder staleness W.speculation) dcheckIsOn)
    (tids : List Tid) :
    Coupled W staleness tids.dedup (type.Models (staleness + 2 * W.speculation + 3))
      (.start W storage recorder tids)
      (.start W storage (slotsRecorder staleness W.speculation dcheckIsOn) tids) := by
  have gets_eq : ∀ recorder : SparseSSPRecorder Val (Slots Val), ∀ w,
      (StreamState.start W storage recorder tids).gets W w = 0 := by
    intro recorder w
    simp [StreamState.gets, StreamState.start, streamGets]
  subst recorder_eq
  refine ⟨rfl, ⟨_, models_start type staleness W.speculation _ _ rfl, rfl⟩, ⟨⟨?_, rfl, rfl, ?_⟩, ?_⟩⟩
  · exact ⟨rfl, ProgressTracker.exact_init tids, fun _ _ => Nat.zero_le _,
      by simp [StreamState.start, SparseSSPModel.new], List.nodup_nil⟩
  · refine ⟨rfl, rfl, ?_, ?_, ?_, ?_, ?_⟩
    · funext version key
      symm
      apply recordedCount_eq_zero
      intro v _ _ below
      rw [gets_eq] at below
      exact absurd below (Nat.not_lt_zero _)
    · intro w _
      rw [gets_eq]
      rfl
    · exact fun h member => absurd member List.not_mem_nil
    · exact fun w entry member => absurd member List.not_mem_nil
    · exact fun msg member => absurd member List.not_mem_nil
  · intro w
    simp [StreamState.clocks, StreamState.start, streamClocks, SparseSSPModel.new]

variable (W) in
/-- What the next message of `w` makes the server do keeps to the limits. -/
def StreamState.KeepsTo (limits : Limits) (state : StreamState Val Main) (w : Tid) : Prop :=
  ∀ state' out, state.step W w = .ok (state', out) →
    limits.StepFits W (state.gets W) state.progress state'.progress out

/-- A step of a server is a step over the slots, one that keeps to the limits. -/
theorem exists_slots_step (faithful : Faithful (staleness + 2 * W.speculation + 3) limits keys R)
    (owned : ∀ w version, ∀ key ∈ W.keys w version, keys key)
    (coupled : Coupled W staleness threads R state slots) (registered : w ∈ threads)
    {state' : StreamState Val Main} {out : List (Event Val)}
    (stepped : state.step W w = .ok (state', out)) :
    slots.KeepsTo W limits w ∧ ∃ slots' out', slots.step W w = .ok (slots', out') ∧
      Coupled W staleness threads R state' slots' ∧ List.Forall₂ (SameEvent keys) out out' := by
  obtain ⟨⟨slots', out'⟩, stepped', fits, related⟩ :=
    (step_mirrors faithful owned coupled registered).exists_ok stepped
  refine ⟨?_, slots', out', stepped', related⟩
  intro slots'' out'' stepped''
  cases stepped'.symm.trans stepped''
  exact fits

section Indexed

variable {type : SparseSSPRecorderType} {state : StreamState Val (type.Main Val)}
  (owned : ∀ w version, ∀ key ∈ W.keys w version, type.Owns key)
  (indexed : ∀ w version, ∀ key ∈ W.keys w version, type.Indexes key)
  (coupled : Coupled W staleness threads (type.Models (staleness + 2 * W.speculation + 3)) state slots)
  (registered : w ∈ threads)

include owned indexed coupled registered

/-- Where every index fits, the server and the slots do the same. -/
theorem step_sim : Except.Sim (fun x y =>
      Coupled W staleness threads (type.Models (staleness + 2 * W.speculation + 3)) x.1 y.1 ∧
        List.Forall₂ (SameEvent fun key => type.Owns key ∧ type.Indexes key) x.2 y.2)
      (state.step W w) (slots.step W w) := by
  have both : ∀ w version, ∀ key ∈ W.keys w version, type.Owns key ∧ type.Indexes key :=
    fun w version key member => ⟨owned w version key member, indexed w version key member⟩
  exact (step_mirrors (type.faithful (Nat.succ_pos _) fun _ h => h.1) both coupled registered).sim
    (type.not_exceeded fun _ h => h.2)

theorem keepsTo_of_indexed : slots.KeepsTo W type.limits w := by
  intro slots' out' stepped'
  obtain ⟨⟨state', out⟩, stepped, -⟩ :=
    (step_sim owned indexed coupled registered).symm.exists_ok stepped'
  exact (exists_slots_step (type.faithful (Nat.succ_pos _) fun _ owns => owns) owned coupled registered
    stepped).1 slots' out' stepped'

end Indexed

theorem coupled_run (faithful : Faithful (staleness + 2 * W.speculation + 3) limits keys R)
    (owned : ∀ w version, ∀ key ∈ W.keys w version, keys key)
    {guard : StreamState Val Main → List (Event Val) → Tid → Prop}
    {guard' : StreamState Val (Slots Val) → List (Event Val) → Tid → Prop}
    (registered : ∀ state events w, guard state events w → w ∈ state.threads)
    (admits : ∀ state events slots events' w, Coupled W staleness threads R state slots →
      List.Forall₂ (SameEvent keys) events events' → slots.KeepsTo W limits w →
      guard state events w → guard' slots events' w)
    {start state : StreamState Val Main} {start' : StreamState Val (Slots Val)} {ws : List Tid}
    {events : List (Event Val)} (init : Coupled W staleness threads R start start')
    (run : Machine.Runs (StreamState.step W) guard start ws state events) :
    ∃ slots events', Machine.Runs (StreamState.step W) guard' start' ws slots events' ∧
      Coupled W staleness threads R state slots ∧ List.Forall₂ (SameEvent keys) events events' := by
  apply run.lockstep (R := fun state events slots events' =>
    Coupled W staleness threads R state slots ∧ List.Forall₂ (SameEvent keys) events events')
  · exact ⟨init, .nil⟩
  · intro ws state events slots events' w state' out run run' related admitted stepped
    obtain ⟨coupled, same⟩ := related
    have member : w ∈ threads := by
      have := registered state events w admitted
      rw [StreamState.threads, coupled.tracker_eq] at this
      exact coupled.threads_eq ▸ this
    obtain ⟨keeps, slots', out', stepped', coupled', same'⟩ :=
      exists_slots_step faithful owned coupled member stepped
    exact ⟨admits state events slots events' w coupled same keeps admitted, slots', out', stepped',
      coupled', List.rel_append same same'⟩

end Coupling

end FlexPS
