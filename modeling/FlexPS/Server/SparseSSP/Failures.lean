import FlexPS.Server.SparseSSP.Guarantees
import FlexPS.Server.SparseSSP.Replay

/-! # When a sparse SSP server fails

A server takes every message of its streams, except from a worker that already has a `Clock` in
`buffer_`: the next `Clock` of that worker always fails its version check, an `Add` fails its
own, and a `Get` fails the size check of `AddRecord` when none of the `speculation_ + 1` before
it was absent.
-/

namespace FlexPS

open SparseSSPRecorder

variable {Val : Type} [AddCommMonoid Val]

/-- The storage has every key of the streams, and every `Add` has a value for each key. -/
structure Workload.ServedBy (W : Workload Val) (storage : Storage Val) : Prop where
  keys : ∀ w version, ∀ key ∈ W.keys w version, storage.Holds key
  adds : ∀ w version, ∀ key ∈ (W.adds w version).keys, storage.Holds key
  sized : ∀ w version, (W.adds w version).keys.length = (W.adds w version).vals.length

/-- A fault of streams that do not fit the storage or, with `bound`, the clocks. -/
def Workload.Unfit (W : Workload Val) (storage : Storage Val) (bound : Nat) (e : Fault) : Prop :=
  e = .overflow ∧ intMax < bound ∨ (∃ c, Storage.StorageCheck c ∧ e = .check c) ∧ ¬ W.ServedBy storage

omit [AddCommMonoid Val] in
theorem Workload.Unfit.mono {W : Workload Val} {storage : Storage Val} {bound bound' : Nat} {e : Fault}
    (unfit : W.Unfit storage bound e) (le : bound ≤ bound') : W.Unfit storage bound' e :=
  unfit.imp_left fun overflow => ⟨overflow.1, Nat.lt_of_lt_of_le overflow.2 le⟩

/-- The checks on the versions of the messages that a server receives. -/
def Check.OnVersions (c : Check) : Prop :=
  c = .clockVersion ∨ c = .addVersion ∨ c = .versionWindow ∨ c = .versionBranch ∨ c = .futureKeysSize

omit [AddCommMonoid Val] in
theorem Workload.Unfit.not_onVersions {W : Workload Val} {storage : Storage Val} {bound : Nat} {c : Check}
    (unfit : W.Unfit storage bound (.check c)) : ¬ c.OnVersions := by
  rcases unfit with ⟨overflow, -⟩ | ⟨⟨c', stored, same⟩, -⟩
  · cases overflow
  · cases same
    rcases stored with rfl | rfl | rfl | rfl | rfl <;> simp [Check.OnVersions]

section Handlers

variable {W : Workload Val} {staleness : Nat} {threads : List Tid} {gets clocks : Tid → Nat}
  {answered : Tid → Nat → Nat} {level : Nat} {waiting : List (Message Val)}
  {model : SparseSSPModel Val (Slots Val)} {w : Tid}

theorem pushReplies_ok {prog : Tid → Nat} {minClock : Nat} (model : SparseSSPModel Val (Slots Val))
    (served : W.ServedBy model.storage)
    {out : NonConflict Val}
    (answerable : ∀ msg ∈ out.msgs, Answerable W staleness threads prog gets minClock msg) :
    ∃ events, model.pushReplies out = .ok events := by
  have replied : out.msgs.mapM (pushReply model.storage model.progressTracker) = .ok _ :=
    mapM_pushReply_eq_ok.mpr ⟨fun msg member => ?_, rfl⟩
  · simp only [SparseSSPModel.pushReplies, replied, Except.ok_bind, Except.pure_eq_ok, Except.ok.injEq,
      exists_eq']
  · have due := (answerable msg member).admitted.due
    rw [due.keys_eq]
    refine ⟨?_, served.keys _ _⟩
    rw [due.genuine]
    rfl

theorem pushReplies_error {prog : Tid → Nat} {minClock : Nat} (bound : Nat)
    {out : NonConflict Val} {e : Fault}
    (answerable : ∀ msg ∈ out.msgs, Answerable W staleness threads prog gets minClock msg)
    (failed : model.pushReplies out = .error e) : W.Unfit model.storage bound e := by
  refine .inr ⟨?_, fun served => ?_⟩
  · obtain failed | ⟨_, -, failed⟩ := Except.bind_eq_error.mp failed
    · obtain ⟨request, -, failed⟩ := Except.mapM_eq_error failed
      exact pushReply_error failed
    · cases failed
  · obtain ⟨events, pushed⟩ := pushReplies_ok model served answerable
    cases failed.symm.trans pushed

/-- The `Clock` of a worker without one in `buffer_` is processed. -/
theorem clockOnce_error (inv : ModelInv W staleness threads gets level waiting answered model)
    (registered : w ∈ threads) (idle : ∀ msg ∈ waiting, msg.sender ≠ w)
    (slow : model.progressTracker.progresses w ≤
      model.progressTracker.minClock + staleness + W.speculation) {e : Fault}
    (failed : model.clockOnce (W.clockMsg w (model.progressTracker.progresses w)) = .error e) :
    W.Unfit model.storage (model.progressTracker.minClock + staleness + W.speculation + 1) e := by
  have early : ¬ (W.clockMsg w (model.progressTracker.progresses w)).version ≥
      model.staleness + model.speculation + model.progressTracker.minClock + 1 := by
    rw [inv.staleness_eq, inv.speculation_eq, Workload.version_clockMsg]
    omega
  simp only [SparseSSPModel.clockOnce, if_neg early, Workload.sender_clockMsg] at failed
  split at failed
  next past =>
    cases failed
    rw [inv.staleness_eq, inv.speculation_eq] at past
    exact .inl ⟨rfl, by omega⟩
  next bounded =>
    rw [inv.staleness_eq, inv.speculation_eq] at bounded
    obtain ⟨updated, tracker, advanced⟩ : ∃ updated tracker,
        model.progressTracker.Advanced w updated tracker := by
      by_cases unique : model.progressTracker.UniqueMin w
      · exact ⟨_, _, .moved unique⟩
      · exact ⟨_, _, .kept unique⟩
    have clocks := inv.clocks.advance registered idle slow advanced
    have exact := clocks.exact
    have threads_eq := clocks.threads_eq
    have progresses := advanced.progresses
    have entered : tracker.getProgress w = .ok (model.progressTracker.progresses w + 1) := by
      rw [ProgressTracker.getProgress_eq (threads_eq ▸ registered), progresses, Function.update_self]
    obtain ⟨recorder, out, handled, released⟩ := getNonConflictMsgs_spec inv.recorder registered
      advanced.minClock_le.1
      (fun v member => progresses ▸ exact.le v (threads_eq ▸ member))
      (by have := advanced.minClock_le; omega)
      (by have := advanced.minClock_le; omega)
    rw [← progresses] at released
    have valid : w ∈ model.progressTracker.threads := inv.clocks.threads_eq ▸ registered
    have moved := ProgressTracker.advance_eq_ok.mpr ⟨valid, by omega, advanced⟩
    simp only [moved, entered, handled, Except.ok_bind] at failed
    obtain failed | ⟨pushes, -, failed⟩ := Except.bind_eq_error.mp failed
    · have unfit := pushReplies_error
        (model.progressTracker.minClock + staleness + W.speculation + 1) released.answerable failed
      exact unfit
    cases advanced with
    | kept shared => cases failed
    | moved unique =>
        have recorderInv := released.inv
        have passed : ∀ v ∈ threads, model.progressTracker.minClock <
            Function.update model.progressTracker.progresses w
              (model.progressTracker.progresses w + 1) v :=
          fun v member => exact.le v (threads_eq ▸ member)
        obtain ⟨late, lateOut, flushed, lateReleased⟩ := handleTooFastBuffer_spec recorderInv
          (by simp only; omega) (fun v member => exact.le v (threads_eq ▸ member))
          (model.progressTracker.minClock + 1 + staleness + W.speculation + 1)
        have removed := removeRecord_spec recorderInv passed
        simp only [SparseSSPModel.minClockUpdated, Nat.add_sub_cancel, removed, flushed,
          Except.ok_bind] at failed
        obtain failed | ⟨_, -, failed⟩ := Except.bind_eq_error.mp failed
        · obtain failed | ⟨_, -, failed⟩ := Except.bind_eq_error.mp failed
          · have unfit := pushReplies_error
              (model.progressTracker.minClock + staleness + W.speculation + 1) lateReleased.answerable failed
            exact unfit
          · cases failed
        · cases failed

/-- The `Clock`s in `buffer_` can be processed once the minimum has moved. -/
theorem foldlM_replay_error (inv : ModelInv W staleness threads gets level waiting answered model)
    (level_eq : level = model.progressTracker.minClock + staleness + W.speculation)
    (speculative : 1 ≤ W.speculation) {before : List (Event Val)} {e : Fault}
    (failed : waiting.foldlM SparseSSPModel.replay (model, before) = .error e) :
    W.Unfit model.storage (model.progressTracker.minClock + staleness + W.speculation + 1) e := by
  induction waiting generalizing model answered before with
  | nil => cases failed
  | cons msg rest ih =>
      obtain ⟨registered, genuine, atLevel⟩ := inv.clocks.waits msg List.mem_cons_self
      have rest_inv : ModelInv W staleness threads gets level rest answered model :=
        { inv with clocks := inv.clocks.tail }
      rw [List.foldlM_cons] at failed
      cases once : model.clockOnce (W.clockMsg msg.sender
          (model.progressTracker.progresses msg.sender)) with
      | error e' =>
          have refused := clockOnce_error rest_inv registered inv.clocks.fresh_head (by omega) once
          rw [atLevel, ← genuine] at once
          simp only [SparseSSPModel.replay, once, Except.error_bind, Except.error.injEq] at failed
          exact failed ▸ refused
      | ok done =>
          obtain ⟨middle, events, outcome⟩ := done
          have clocked := clockOnce_spec rest_inv registered inv.clocks.fresh_head (by omega) once
          have kept : outcome = .minClockKept ∧
              middle.progressTracker.minClock = model.progressTracker.minClock := by
            rcases clocked.minClock with kept | changed
            · exact kept
            · omega
          rw [atLevel, ← genuine] at once
          have replayed : SparseSSPModel.replay (model, before) msg = .ok (middle, before ++ events) := by
            simp only [SparseSSPModel.replay, once, Except.ok_bind, kept.1, Except.pure_eq_ok]
          rw [replayed, Except.ok_bind] at failed
          have refused := ih clocked.inv (kept.2 ▸ level_eq) failed
          rwa [clocked.storage_eq, kept.2] at refused

omit [AddCommMonoid Val] in
/-- A worker with a `Clock` in `buffer_` is at the level of the `Clock`s there. -/
theorem ServerInv.buffered (inv : ServerInv W staleness threads gets clocks answered model)
    (buffered : ∃ msg ∈ model.buffer, msg.sender = w) :
    model.progressTracker.progresses w =
        model.progressTracker.minClock + staleness + W.speculation + 1 ∧
      clocks w = model.progressTracker.progresses w + 1 := by
  obtain ⟨msg, member, rfl⟩ := buffered
  have sum := inv.clocks_eq msg.sender
  rw [List.count_eq_one_of_mem inv.base.clocks.once (List.mem_map.mpr ⟨msg, member, rfl⟩)] at sum
  exact ⟨(inv.base.clocks.waits msg member).2.2, sum⟩

omit [AddCommMonoid Val] in
theorem ServerInv.idle (inv : ServerInv W staleness threads gets clocks answered model)
    (idle : ¬ ∃ msg ∈ model.buffer, msg.sender = w) :
    (∀ msg ∈ model.buffer, msg.sender ≠ w) ∧ clocks w = model.progressTracker.progresses w := by
  have none : ∀ msg ∈ model.buffer, msg.sender ≠ w := fun msg member same => idle ⟨msg, member, same⟩
  refine ⟨none, ?_⟩
  rw [inv.clocks_eq, List.count_eq_zero.mpr, Nat.add_zero]
  intro member
  obtain ⟨msg, inBuffer, same⟩ := List.mem_map.mp member
  exact none msg inBuffer same

/-- A `Clock` beyond the one that `buffer_` takes is refused. -/
theorem clock_refused {Main : Type} [MainRecorder Val Main]
    {model : SparseSSPModel Val Main} {msg : Message Val}
    (late : model.staleness + model.speculation + model.progressTracker.minClock + 1 < msg.version)
    (bounded : model.staleness + model.speculation + model.progressTracker.minClock + 1 ≤ intMax) :
    model.clock msg = .error (.check .clockVersion) := by
  simp only [SparseSSPModel.clock, SparseSSPModel.clockOnce, if_neg (Nat.not_lt.mpr bounded),
    if_pos (Nat.le_of_lt late), check_neg (Nat.ne_of_gt late), Except.error_bind]

theorem clock_overflow {Main : Type} [MainRecorder Val Main] {model : SparseSSPModel Val Main}
    {msg : Message Val}
    (past : intMax < model.staleness + model.speculation + model.progressTracker.minClock + 1) :
    model.clock msg = .error .overflow := by
  simp only [SparseSSPModel.clock, SparseSSPModel.clockOnce, if_pos past, Except.error_bind]

/-- A `Clock` only fails its own check when one of the worker is in `buffer_`. -/
theorem clock_error (inv : ServerInv W staleness threads gets clocks answered model)
    (registered : w ∈ threads) (speculative : 1 ≤ W.speculation) {e : Fault}
    (failed : model.clock (W.clockMsg w (clocks w)) = .error e) :
    ((∃ msg ∈ model.buffer, msg.sender = w) ∧ e = .check .clockVersion) ∨
      W.Unfit model.storage (model.progressTracker.minClock + staleness + W.speculation + 2) e := by
  by_cases bounded : model.staleness + model.speculation + model.progressTracker.minClock + 1 ≤ intMax
  case neg =>
    simp only [SparseSSPModel.clock, SparseSSPModel.clockOnce, if_pos (Nat.not_le.mp bounded),
      Except.error_bind, Except.error.injEq] at failed
    rw [inv.base.staleness_eq, inv.base.speculation_eq] at bounded
    exact .inr (.inl ⟨failed.symm, by omega⟩)
  by_cases buffered : ∃ msg ∈ model.buffer, msg.sender = w
  · obtain ⟨atLevel, next⟩ := inv.buffered buffered
    have late : model.staleness + model.speculation + model.progressTracker.minClock + 1 <
        (W.clockMsg w (clocks w)).version := by
      rw [inv.base.staleness_eq, inv.base.speculation_eq, Workload.version_clockMsg]
      omega
    rw [clock_refused late bounded] at failed
    cases failed
    exact .inl ⟨buffered, rfl⟩
  · obtain ⟨idle, current⟩ := inv.idle buffered
    right
    rw [current] at failed
    by_cases slow : model.progressTracker.progresses w ≤
        model.progressTracker.minClock + staleness + W.speculation
    · obtain failed | ⟨⟨middle, events, outcome⟩, once, failed⟩ := Except.bind_eq_error.mp failed
      · exact (clockOnce_error inv.base registered idle slow failed).mono (Nat.le_succ _)
      have clocked := clockOnce_spec inv.base registered idle slow once
      rcases clocked.minClock with ⟨rfl, -⟩ | ⟨rfl, changed, -⟩
      · cases failed
      · obtain failed | ⟨⟨replayed, all⟩, -, failed⟩ := Except.bind_eq_error.mp failed
        · rw [clocked.buffer_eq] at failed
          have unfit := foldlM_replay_error clocked.inv (by omega) speculative failed
          rw [clocked.storage_eq] at unfit
          exact unfit.mono (by omega)
        · cases failed
    · have ahead := inv.base.clocks.ahead w registered
      have late : (W.clockMsg w (model.progressTracker.progresses w)).version ≥
          model.staleness + model.speculation + model.progressTracker.minClock + 1 := by
        rw [inv.base.staleness_eq, inv.base.speculation_eq, Workload.version_clockMsg]
        omega
      have right : (W.clockMsg w (model.progressTracker.progresses w)).version =
          model.staleness + model.speculation + model.progressTracker.minClock + 1 := by
        rw [inv.base.staleness_eq, inv.base.speculation_eq, Workload.version_clockMsg]
        omega
      simp only [SparseSSPModel.clock, SparseSSPModel.clockOnce, if_neg (Nat.not_lt.mpr bounded),
        if_pos late, check_pos right, Except.ok_bind] at failed
      cases failed

theorem add_error (inv : ServerInv W staleness threads gets clocks answered model)
    (registered : w ∈ threads) (bound : Nat) {e : Fault}
    (failed : model.add (W.addMsg w (clocks w)) = .error e) :
    ((∃ msg ∈ model.buffer, msg.sender = w) ∧ e = .check .addVersion) ∨
      W.Unfit model.storage bound e := by
  have progress : model.progressTracker.getProgress w = .ok _ :=
    ProgressTracker.getProgress_eq (inv.base.clocks.threads_eq ▸ registered)
  simp only [SparseSSPModel.add, Workload.sender_addMsg, progress, Except.ok_bind] at failed
  obtain failed | ⟨_, -, failed⟩ := Except.bind_eq_error.mp failed
  · obtain ⟨wrong, rfl⟩ := check_eq_error.mp failed
    refine .inl ⟨?_, rfl⟩
    by_contra none
    exact wrong (inv.idle none).2
  · obtain failed | ⟨_, -, failed⟩ := Except.bind_eq_error.mp failed
    · refine .inr (.inr ⟨Storage.add_error failed, fun served => ?_⟩)
      obtain ⟨storage, added⟩ : ∃ storage, model.storage.add (W.addMsg w (clocks w)) = .ok storage :=
        Storage.subAdd_ok (served.sized w _) (served.adds w _)
      cases failed.symm.trans added
    · cases failed

theorem add_refused (inv : ServerInv W staleness threads gets clocks answered model)
    (registered : w ∈ threads) (buffered : ∃ msg ∈ model.buffer, msg.sender = w) :
    model.add (W.addMsg w (clocks w)) = .error (.check .addVersion) := by
  have progress : model.progressTracker.getProgress w = .ok _ :=
    ProgressTracker.getProgress_eq (inv.base.clocks.threads_eq ▸ registered)
  have wrong : ¬ (W.addMsg w (clocks w)).version = model.progressTracker.progresses w := by
    have next := (inv.buffered buffered).2
    rw [Workload.version_addMsg]
    omega
  simp only [SparseSSPModel.add, Workload.sender_addMsg, progress, Except.ok_bind, check_neg wrong,
    Except.error_bind]

omit [AddCommMonoid Val] in
theorem length_recorded {β : Type} {entry : Nat → β} (lo hi : Nat) :
    (W.recorded w entry lo hi).length ≤ hi - lo ∧
      ((W.recorded w entry lo hi).length = hi - lo ↔
        ∀ version, lo ≤ version → version < hi → W.keys w version ≠ []) := by
  simp only [Workload.recorded, List.length_map]
  constructor
  · exact Nat.le_trans (List.length_filter_le _ _) (by simp)
  · have whole : (List.range' lo (hi - lo)).length = hi - lo := by simp
    have kept := List.length_filter_eq_length_iff (l := List.range' lo (hi - lo))
      (p := fun version => W.keys w version ≠ [])
    rw [whole] at kept
    rw [kept]
    simp only [List.mem_range'_1, decide_eq_true_eq]
    constructor
    · intro all version above below
      exact all version ⟨above, by omega⟩
    · intro all version inside
      exact all version inside.1 (by omega)

omit [AddCommMonoid Val] in
theorem addRecord_eq_error {recorder : SparseSSPRecorder Val (Slots Val)} {msg : Message Val} {e : Fault} :
    recorder.addRecord msg = .error e ↔ recorder.dcheckIsOn = true ∧
      recorder.speculation + 1 ≤ (recorder.futureKeys msg.sender).length ∧
      e = .check .futureKeysSize := by
  simp only [addRecord, foldlM_increment, Except.ok_bind, Except.pure_eq_ok]
  cases recorder.dcheckIsOn with
  | false => simp
  | true =>
      simp only [if_true, Except.bind_eq_error, check_eq_error, reduceCtorEq, and_false, exists_false,
        or_false, Nat.not_lt, true_and]

omit [AddCommMonoid Val] in
/-- `AddRecord` refuses a `Get` of a worker whose `Clock` waits, when it would be the
    `speculation_ + 2`-nd that is not yet in the recorder. -/
theorem addRecord_error_iff (inv : ServerInv W staleness threads gets clocks answered model)
    (registered : w ∈ threads) (early : gets w ≤ clocks w + W.speculation)
    (started : 0 < clocks w → clocks w + W.speculation ≤ gets w) {e : Fault} :
    model.recorder.addRecord (W.getMsg w (gets w)) = .error e ↔
      (∃ msg ∈ model.buffer, msg.sender = w) ∧ model.recorder.dcheckIsOn = true ∧
        (∀ version, version < gets w → gets w ≤ version + W.speculation + 1 → W.keys w version ≠ []) ∧
        e = .check .futureKeysSize := by
  rw [addRecord_eq_error, Workload.sender_getMsg,
    inv.base.recorder.futureKeys w registered, inv.base.recorder.speculation_eq]
  obtain ⟨most, all⟩ : (W.recorded w (W.keys w) _ _).length ≤ _ ∧ _ :=
    length_recorded (model.progressTracker.progresses w) (gets w)
  by_cases buffered : ∃ msg ∈ model.buffer, msg.sender = w
  · obtain ⟨atLevel, next⟩ := inv.buffered buffered
    have started := started (by omega)
    have full : W.speculation + 1 ≤ (W.recorded w (W.keys w) (model.progressTracker.progresses w)
        (gets w)).length ↔ ∀ version, version < gets w → gets w ≤ version + W.speculation + 1 →
          W.keys w version ≠ [] := by
      rw [show gets w - model.progressTracker.progresses w = W.speculation + 1 by omega] at most all
      rw [Nat.le_antisymm_iff.trans (and_iff_right most)] at all
      rw [all]
      constructor
      · intro sent version below above
        exact sent version (by omega) below
      · intro sent version above below
        exact sent version below (by omega)
    rw [full]
    simp only [buffered, true_and]
  · have current := (inv.idle buffered).2
    simp only [buffered, false_and, iff_false, not_and]
    omega

theorem get_error (inv : ServerInv W staleness threads gets clocks answered model)
    (registered : w ∈ threads) (early : gets w ≤ clocks w + W.speculation)
    (started : 0 < clocks w → clocks w + W.speculation ≤ gets w) (bound : Nat) {e : Fault}
    (failed : model.get (W.getMsg w (gets w)) = .error e) :
    ((∃ msg ∈ model.buffer, msg.sender = w) ∧ model.recorder.dcheckIsOn = true ∧
        (∀ version, version < gets w → gets w ≤ version + W.speculation + 1 → W.keys w version ≠ []) ∧
        e = .check .futureKeysSize) ∨ W.Unfit model.storage bound e := by
  have valid : model.progressTracker.checkThreadValid (W.getMsg w (gets w)).sender = true :=
    decide_eq_true (inv.base.clocks.threads_eq ▸ registered)
  have one : (W.getMsg w (gets w)).data.length = 1 := rfl
  have recorded := fun failed => (addRecord_error_iff inv registered early started (e := e)).mp failed
  simp only [SparseSSPModel.get, check_pos valid, check_pos one, Except.ok_bind, Except.pure_eq_ok] at failed
  split at failed
  · obtain failed | ⟨_, -, failed⟩ := Except.bind_eq_error.mp failed
    · refine .inr (.inr ⟨pushReply_error failed, fun served => ?_⟩)
      have pushed : pushReply model.storage model.progressTracker (W.getMsg w (gets w)) = .ok _ :=
        pushReply_eq_ok.mpr ⟨one, served.keys w _, rfl⟩
      cases failed.symm.trans pushed
    · obtain failed | ⟨_, -, failed⟩ := Except.bind_eq_error.mp failed
      · exact .inl (recorded failed)
      · cases failed
  · obtain failed | ⟨_, -, failed⟩ := Except.bind_eq_error.mp failed
    · exact .inl (recorded failed)
    · cases failed

theorem get_refused (inv : ServerInv W staleness threads gets clocks answered model)
    (registered : w ∈ threads) (early : gets w ≤ clocks w + W.speculation)
    (started : 0 < clocks w → clocks w + W.speculation ≤ gets w)
    (buffered : ∃ msg ∈ model.buffer, msg.sender = w) (dcheck : model.recorder.dcheckIsOn = true)
    (full : ∀ version, version < gets w → gets w ≤ version + W.speculation + 1 → W.keys w version ≠ []) :
    model.get (W.getMsg w (gets w)) = .error (.check .futureKeysSize) := by
  have valid : model.progressTracker.checkThreadValid (W.getMsg w (gets w)).sender = true :=
    decide_eq_true (inv.base.clocks.threads_eq ▸ registered)
  have one : (W.getMsg w (gets w)).data.length = 1 := rfl
  have later : ¬ (W.getMsg w (gets w)).version = 0 := by
    have next := (inv.buffered buffered).2
    have ahead := started (by omega)
    rw [Workload.version_getMsg]
    omega
  have failed := (addRecord_error_iff inv registered early started).mpr ⟨buffered, dcheck, full, rfl⟩
  simp only [SparseSSPModel.get, check_pos valid, check_pos one, Except.ok_bind, if_neg later,
    Except.pure_eq_ok, failed, Except.error_bind]

end Handlers

/-! ## One step -/

namespace StreamState

variable {W : Workload Val} {Main : Type} {state : StreamState Val Main} {w : Tid}

/-- `buffer_` has a `Clock` of the worker. -/
def Buffered (state : StreamState Val Main) (w : Tid) : Prop :=
  ∃ msg ∈ state.model.buffer, msg.sender = w

instance (state : StreamState Val Main) (w : Tid) : Decidable (state.Buffered w) :=
  inferInstanceAs (Decidable (∃ msg ∈ _, _))

variable (W state w) in
/-- The check that the next message of a worker fails while `buffer_` has a `Clock` of it. -/
inductive Refused : Check → Prop where
  | clock {version : Nat} : state.next W w = .clock version → Refused .clockVersion
  | add {version : Nat} : state.next W w = .add version → (W.adds w version).keys ≠ [] →
      Refused .addVersion
  | get {version : Nat} : state.next W w = .get version → W.keys w version ≠ [] →
      state.model.recorder.dcheckIsOn = true →
      (∀ earlier < version, version ≤ earlier + W.speculation + 1 → W.keys w earlier ≠ []) →
      Refused .futureKeysSize

section Inversion

omit [AddCommMonoid Val]

variable {version : Nat} {c : Check}

theorem refused_get (next : state.next W w = .get version) : state.Refused W w c ↔
    W.keys w version ≠ [] ∧ state.model.recorder.dcheckIsOn = true ∧
      (∀ earlier < version, version ≤ earlier + W.speculation + 1 → W.keys w earlier ≠ []) ∧
      c = .futureKeysSize := by
  constructor
  · intro refused
    cases refused with
    | clock other => cases next.symm.trans other
    | add other => cases next.symm.trans other
    | get same sent dcheck full =>
        cases next.symm.trans same
        exact ⟨sent, dcheck, full, rfl⟩
  · rintro ⟨sent, dcheck, full, rfl⟩
    exact .get next sent dcheck full

theorem refused_add (next : state.next W w = .add version) : state.Refused W w c ↔
    (W.adds w version).keys ≠ [] ∧ c = .addVersion := by
  constructor
  · intro refused
    cases refused with
    | clock other => cases next.symm.trans other
    | add same sent =>
        cases next.symm.trans same
        exact ⟨sent, rfl⟩
    | get other => cases next.symm.trans other
  · rintro ⟨sent, rfl⟩
    exact .add next sent

theorem refused_clock (next : state.next W w = .clock version) :
    state.Refused W w c ↔ c = .clockVersion := by
  constructor
  · intro refused
    cases refused with
    | clock => rfl
    | add other => cases next.symm.trans other
    | get other => cases next.symm.trans other
  · rintro rfl
    exact .clock next

end Inversion

theorem step_eq_error [MainRecorder Val Main] {e : Fault} : state.step W w = .error e ↔
    ∃ msg, W.message? w (state.next W w) = some msg ∧
      AbstractModel.handle state.model msg = .error e := by
  simp only [step]
  cases W.message? w (state.next W w) with
  | none => simp
  | some msg => simp [Except.bind_eq_error]

end StreamState

section Steps

variable {W : Workload Val} {staleness : Nat} {threads : List Tid} {storage : Storage Val}
  {answered : Tid → Nat → Nat} {slots : StreamState Val (Slots Val)} {w : Tid}

/-- Over abstract slots, only a worker with a `Clock` in `buffer_` makes a server fail that the
    streams fit. -/
theorem slots_step_error (speculative : 1 ≤ W.speculation)
    (inv : StreamInv W staleness threads storage answered slots) (registered : w ∈ threads) {e : Fault}
    (failed : slots.step W w = .error e) :
    (slots.Buffered w ∧ ∃ c, slots.Refused W w c ∧ e = .check c) ∨
      W.Unfit slots.model.storage (slots.minClock + staleness + W.speculation + 2) e := by
  obtain ⟨msg, present, failed⟩ := StreamState.step_eq_error.mp failed
  have bounds := streamGets_bounds W.speculation (slots.position w)
  have item := streamItem_next W.speculation (slots.position w)
  generalize sent_eq : streamItem W.speculation (slots.position w) = sent at item
  have next_eq : slots.next W w = sent := sent_eq
  rw [next_eq] at present
  cases item with
  | get _ _ _ _ early =>
      simp only [Workload.message?] at present
      split at present
      · cases present
      next sent =>
        cases present
        rcases get_error inv.server registered early (fun some => bounds.2.1 some) _ failed with
          ⟨buffered, dcheck, full, same⟩ | unfit
        · exact .inl ⟨buffered, _, .get next_eq sent dcheck full, same⟩
        · exact .inr unfit
  | add _ _ _ _ _ =>
      simp only [Workload.message?] at present
      split at present
      · cases present
      next sent =>
        cases present
        rcases add_error inv.server registered _ failed with ⟨buffered, same⟩ | unfit
        · exact .inl ⟨buffered, _, .add next_eq sent, same⟩
        · exact .inr unfit
  | clock _ _ _ _ _ =>
      cases present
      rcases clock_error inv.server registered speculative failed with ⟨buffered, same⟩ | unfit
      · exact .inl ⟨buffered, _, .clock next_eq, same⟩
      · exact .inr unfit

/-- What a server refuses while a `Clock` of the worker is in `buffer_`. -/
theorem slots_step_refused (inv : StreamInv W staleness threads storage answered slots)
    (registered : w ∈ threads) (small : slots.minClock + staleness + W.speculation + 1 ≤ intMax)
    (buffered : slots.Buffered w) {c : Check} (refused : slots.Refused W w c) :
    slots.step W w = .error (.check c) := by
  rw [StreamState.step_eq_error]
  have bounds := streamGets_bounds W.speculation (slots.position w)
  have item := streamItem_next W.speculation (slots.position w)
  generalize sent_eq : streamItem W.speculation (slots.position w) = sent at item
  have next_eq : slots.next W w = sent := sent_eq
  rw [next_eq]
  cases item with
  | get _ _ _ _ early =>
      obtain ⟨sent, dcheck, full, rfl⟩ := (StreamState.refused_get next_eq).mp refused
      exact ⟨_, if_neg sent, get_refused inv.server registered early (fun some => bounds.2.1 some)
        buffered dcheck full⟩
  | add _ _ _ _ _ =>
      obtain ⟨sent, rfl⟩ := (StreamState.refused_add next_eq).mp refused
      exact ⟨_, if_neg sent, add_refused inv.server registered buffered⟩
  | clock _ _ _ _ _ =>
      obtain rfl := (StreamState.refused_clock next_eq).mp refused
      obtain ⟨atLevel, next⟩ := inv.server.buffered buffered
      refine ⟨_, rfl, clock_refused ?_ ?_⟩
      · rw [inv.server.base.staleness_eq, inv.server.base.speculation_eq, Workload.version_clockMsg]
        change _ < slots.clocks W w
        omega
      · rw [inv.server.base.staleness_eq, inv.server.base.speculation_eq]
        simp only [StreamState.minClock] at small
        omega

theorem slots_step_error_iff (speculative : 1 ≤ W.speculation)
    (inv : StreamInv W staleness threads storage answered slots)
    (served : W.ServedBy slots.model.storage) (registered : w ∈ threads)
    (small : slots.minClock + staleness + W.speculation + 2 ≤ intMax) {e : Fault} :
    slots.step W w = .error e ↔
      slots.Buffered w ∧ ∃ c, slots.Refused W w c ∧ e = .check c := by
  constructor
  · intro failed
    rcases slots_step_error speculative inv registered failed with refused | ⟨-, past⟩ | ⟨-, unserved⟩
    · exact refused
    · omega
    · exact absurd served unserved
  · rintro ⟨buffered, c, refused, rfl⟩
    exact slots_step_refused inv registered (by omega) buffered refused

theorem slots_holds_step (speculative : 1 ≤ W.speculation)
    (inv : StreamInv W staleness threads storage answered slots) (registered : w ∈ threads)
    {slots' : StreamState Val (Slots Val)} {out : List (Event Val)}
    (stepped : slots.step W w = .ok (slots', out)) (key : Key) :
    slots'.model.storage.Holds key ↔ slots.model.storage.Holds key := by
  obtain ⟨behind, ahead⟩ := slots.clocks_le_gets (w := w) (.inl speculative)
  suffices taken : ∀ gets clocks adds, slots.Takes W w slots'.model out gets clocks adds →
      (slots'.model.storage.Holds key ↔ slots.model.storage.Holds key) from
    taken _ _ _ (StreamState.step_takes stepped)
  intro gets clocks adds taken
  cases taken with
  | absentGet _ same _ => rw [same]
  | get sent got => rw [(get_spec inv.server registered behind ahead sent got).2]
  | absentAdd _ _ same _ => rw [same]
  | add _ _ added =>
      generalize slots'.model = model' at added ⊢
      obtain ⟨_, -, added⟩ := Except.bind_eq_ok.mp added
      obtain ⟨_, -, added⟩ := Except.bind_eq_ok.mp added
      obtain ⟨storage, stored, added⟩ := Except.bind_eq_ok.mp added
      cases added
      exact (Storage.add_spec stored).1 key
  | clock _ _ _ clocked => rw [(clock_spec speculative inv.server registered clocked).2]

end Steps

/-! ## The minimum clock -/

section MinClock

variable {Main : Type} [MainRecorder Val Main] {model model' : SparseSSPModel Val Main}
  {msg : Message Val} {events : List (Event Val)}

theorem clockOnce_raises {outcome : ClockOutcome}
    (clocked : model.clockOnce msg = .ok (model', events, outcome)) :
    model.progressTracker.minClock ≤ model'.progressTracker.minClock := by
  obtain ⟨once, -, -⟩ := SparseSSPModel.clockOnce_cases clocked
  cases once with
  | buffered fast clocks buffer => exact Nat.le_of_eq (congrArg _ clocks.symm)
  | kept slow valid advanced buffer => exact Nat.le_of_eq advanced.minClock_of_none.symm
  | changed slow valid advanced buffer =>
      rw [advanced.minClock_of_some.2.1]
      exact Nat.le_succ _

theorem foldlM_replay_raises {msgs : List (Message Val)} {before : List (Event Val)}
    (looped : msgs.foldlM SparseSSPModel.replay (model, before) = .ok (model', events)) :
    model.progressTracker.minClock ≤ model'.progressTracker.minClock := by
  induction msgs generalizing model before with
  | nil =>
      cases looped
      exact Nat.le_refl _
  | cons msg msgs ih =>
      obtain ⟨⟨middle, upToHere⟩, first, looped⟩ := Except.bind_eq_ok.mp looped
      obtain ⟨⟨clocked, events₁, outcome⟩, once, first⟩ := Except.bind_eq_ok.mp first
      have raised := clockOnce_raises once
      cases outcome <;> cases first
      exact Nat.le_trans raised (ih looped)

theorem clock_raises (clocked : model.clock msg = .ok (model', events)) :
    model.progressTracker.minClock ≤ model'.progressTracker.minClock := by
  obtain ⟨⟨model₁, events₁, outcome⟩, once, clocked⟩ := Except.bind_eq_ok.mp clocked
  have raised := clockOnce_raises once
  cases outcome with
  | buffered | minClockKept =>
      cases clocked
      exact raised
  | minClockChanged =>
      obtain ⟨⟨model₂, all⟩, looped, clocked⟩ := Except.bind_eq_ok.mp clocked
      have raised' := foldlM_replay_raises looped
      cases clocked
      exact Nat.le_trans raised raised'

theorem minClock_step {W : Workload Val} {state state' : StreamState Val Main} {w : Tid}
    (stepped : state.step W w = .ok (state', events)) : state.minClock ≤ state'.minClock := by
  suffices taken : ∀ gets clocks adds, state.Takes W w state'.model events gets clocks adds →
      state.minClock ≤ state'.minClock from taken _ _ _ (StreamState.step_takes stepped)
  intro gets clocks adds taken
  simp only [StreamState.minClock]
  cases taken with
  | absentGet _ same _ => rw [same]
  | get _ got => rw [(SparseSSPModel.get_cases got).1]
  | absentAdd _ _ same _ => rw [same]
  | add _ _ added => rw [(SparseSSPModel.add_cases added).1]
  | clock _ _ _ clocked => exact clock_raises clocked

end MinClock

/-! ## Runs -/

section Runs

variable {W : Workload Val} {staleness : Nat} {type : SparseSSPRecorderType} {storage : Storage Val}
  {dcheckIsOn : Bool} {tids ws : List Tid} {w : Tid} {events : List (Event Val)}
  {state : StreamState Val (type.Main Val)}

theorem slots_holds_run (speculative : 1 ≤ W.speculation)
    {slots : StreamState Val (Slots Val)}
    (run : Machine.Runs (StreamState.step W) StreamState.Registered
      (.start W storage (slotsRecorder staleness W.speculation dcheckIsOn) tids) ws slots events)
    (key : Key) : slots.model.storage.Holds key ↔ storage.Holds key := by
  refine run.invariant (P := fun _ slots _ => slots.model.storage.Holds key ↔ storage.Holds key)
    Iff.rfl ?_
  intro _ slots events w slots' out run holds admitted stepped
  have inv := streamInv_run (fun _ _ _ h => h) run (.inl speculative)
  exact (slots_holds_step speculative inv (inv.threads_eq ▸ admitted) stepped key).trans holds

/-- Every answered `Get` is at most `staleness_ + speculation_` ahead of the minimum clock. -/
theorem answered_slow (speculative : 1 ≤ W.speculation) {slots : StreamState Val (Slots Val)}
    (run : Machine.Runs (StreamState.step W) StreamState.Registered
      (.start W storage (slotsRecorder staleness W.speculation dcheckIsOn) tids) ws slots events) :
    ∀ request ∈ events.filterMap Event.answered,
      request.version ≤ slots.minClock + staleness + W.speculation := by
  refine run.invariant (P := fun _ slots events => ∀ request ∈ events.filterMap Event.answered,
    request.version ≤ slots.minClock + staleness + W.speculation)
    (fun _ member => absurd member List.not_mem_nil) ?_
  intro _ slots events w slots' out run slow admitted stepped request member
  rw [List.filterMap_append] at member
  rcases List.mem_append.mp member with earlier | now
  · have before := slow request earlier
    have raised := minClock_step stepped
    omega
  · have inv := streamInv_run (fun _ _ _ h => h) run (.inl speculative)
    obtain ⟨after, fair⟩ := step_spec (.inl speculative) inv (inv.threads_eq ▸ admitted) stepped
    obtain ⟨reply, clocks, inOut⟩ := Event.exists_reply now
    cases fair _ inOut with
    | reply taken answerable =>
        have due := answerable.admitted.due
        have within := answerable.admitted.slow
        have tracker := after.server.base.clocks
        obtain ⟨v, inThreads, slowest⟩ := tracker.exact.attained
          (tracker.threads_eq ▸ List.ne_nil_of_mem due.registered)
        have below := taken.exact.le v (taken.threads_eq ▸ tracker.threads_eq ▸ inThreads)
        have grown := taken.le v
        simp only [StreamState.minClock]
        omega

omit [AddCommMonoid Val] in
/-- The representation shows the same `buffer_` and the same streams. -/
theorem refused_of_coupled {size : Nat} {slots : StreamState Val (Slots Val)}
    (coupled : Coupled W staleness tids.dedup (type.Models size) state slots) :
    (state.Buffered w ↔ slots.Buffered w) ∧ ∀ c, state.Refused W w c ↔ slots.Refused W w c := by
  obtain ⟨main, -, mirrors⟩ := coupled.mirrors
  have next_eq := congrFun coupled.next_eq w
  constructor
  · rw [StreamState.Buffered, StreamState.Buffered, mirrors]
    exact Iff.rfl
  · intro c
    cases next : slots.next W w with
    | get version =>
        rw [StreamState.refused_get next, StreamState.refused_get (next_eq.trans next), mirrors]
        exact Iff.rfl
    | add version =>
        rw [StreamState.refused_add next, StreamState.refused_add (next_eq.trans next)]
    | clock version =>
        rw [StreamState.refused_clock next, StreamState.refused_clock (next_eq.trans next)]

theorem stream_error_iff {recorder : SparseSSPRecorder Val (type.Main Val)}
    (recorder_eq : recorder =
      .new staleness W.speculation (type.mainRecorder staleness W.speculation) dcheckIsOn)
    (owned : ∀ w version, ∀ key ∈ W.keys w version, type.Owns key)
    (indexed : ∀ w version, ∀ key ∈ W.keys w version, type.Indexes key)
    (speculative : 1 ≤ W.speculation) (served : W.ServedBy storage)
    (run : Machine.Runs (StreamState.step W) StreamState.Registered
      (.start W storage recorder tids) ws state events)
    (registered : w ∈ tids) (small : state.minClock + staleness + W.speculation + 2 ≤ intMax)
    {e : Fault} :
    state.step W w = .error e ↔ state.Buffered w ∧ ∃ c, state.Refused W w c ∧ e = .check c := by
  obtain ⟨slots, events', run', coupled, -⟩ :=
    slots_run type (fun slots _ w => w ∈ slots.threads) recorder_eq owned (fun _ _ _ h => h)
      (fun _ _ _ _ _ coupled _ _ h => registered_of_coupled coupled h) run
  have member := List.mem_dedup.mpr registered
  have inv := streamInv_run (fun _ _ _ h => h) run' (.inl speculative)
  have holds := slots_holds_run speculative run'
  have served' : W.ServedBy slots.model.storage :=
    ⟨fun w version key inKeys => (holds key).mpr (served.keys w version key inKeys),
      fun w version key inKeys => (holds key).mpr (served.adds w version key inKeys), served.sized⟩
  have minClock_eq := coupled.minClock_eq
  obtain ⟨buffered, refused⟩ := refused_of_coupled (w := w) coupled
  rw [(step_sim owned indexed coupled member).error_iff, buffered]
  simp only [refused]
  exact slots_step_error_iff speculative inv served' member (minClock_eq ▸ small)

/-- A check on versions only fails while a `Clock` of the worker is in `buffer_`, whatever the
    storage, the clocks and the keys are. -/
theorem stream_version_error {recorder : SparseSSPRecorder Val (type.Main Val)}
    (recorder_eq : recorder =
      .new staleness W.speculation (type.mainRecorder staleness W.speculation) dcheckIsOn)
    (owned : ∀ w version, ∀ key ∈ W.keys w version, type.Owns key)
    (speculative : 1 ≤ W.speculation)
    (run : Machine.Runs (StreamState.step W) StreamState.Registered
      (.start W storage recorder tids) ws state events)
    (registered : w ∈ tids) {c : Check} (onVersions : c.OnVersions)
    (failed : state.step W w = .error (.check c)) : state.Buffered w ∧ state.Refused W w c := by
  obtain ⟨slots, events', run', coupled, -⟩ :=
    slots_run type (fun slots _ w => w ∈ slots.threads) recorder_eq owned (fun _ _ _ h => h)
      (fun _ _ _ _ _ coupled _ _ h => registered_of_coupled coupled h) run
  have member := List.mem_dedup.mpr registered
  have inv := streamInv_run (fun _ _ _ h => h) run' (.inl speculative)
  have failed' := (step_mirrors (type.faithful (Nat.succ_pos _) fun _ owns => owns) owned coupled
    member).error_of_ne failed (by simp)
  obtain ⟨buffered, refused⟩ := refused_of_coupled (w := w) coupled
  rcases slots_step_error speculative inv member failed' with ⟨waits, c', refuses, same⟩ | unfit
  · cases same
    exact ⟨buffered.mpr waits, (refused c).mpr refuses⟩
  · exact absurd onVersions unfit.not_onVersions

/-- A server fails in exactly three cases, and in all of them the sender has a `Clock` in
    `buffer_`: on its next `Clock`, on an `Add`, and in a debug build on a `Get` all of whose
    `speculation_ + 1` predecessors had keys on this server. Every other message is handled,
    as long as the keys fit the indices of the recorder. -/
theorem step_fails_iff {recorder : SparseSSPRecorder Val (type.Main Val)}
    (constructed : type.recorder staleness W.speculation dcheckIsOn = .ok recorder)
    (owned : ∀ w version, ∀ key ∈ W.keys w version, type.Owns key)
    (indexed : ∀ w version, ∀ key ∈ W.keys w version, type.Indexes key)
    (speculative : 1 ≤ W.speculation) (served : W.ServedBy storage)
    (run : Machine.Runs (StreamState.step W) StreamState.Registered
      (.start W storage recorder tids) ws state events)
    (registered : w ∈ tids) (small : state.minClock + staleness + W.speculation + 2 ≤ intMax)
    {e : Fault} :
    state.step W w = .error e ↔ state.Buffered w ∧ ∃ c, state.Refused W w c ∧ e = .check c :=
  stream_error_iff (type.recorder_eq_ok.mp constructed).2 owned indexed speculative served run registered
    small

/-- Worker 1 runs ahead of worker 2 until `Clock_2` is in `buffer_`; its `Get_4` then fails. -/
theorem step_fails_iff_sharedKey : ∃ state : StreamState Int (MapRecorder Int), state.Buffered 1 ∧
      state.step (Workload.sharedKey 1) 1 = .error (.check .futureKeysSize) := by
  obtain ⟨state, events, run, buffered, next, small, dcheck⟩ := Machine.runs_of_exec
    (StreamState.step (Workload.sharedKey 1)) StreamState.Registered
    (.start (Workload.sharedKey 1) (.map fun _ => 0)
      (UnorderedMapSparseSSPRecorder 0 1 true) [1, 2]) (List.replicate 10 1)
    (fun state _ => state.Buffered 1 ∧ state.next (Workload.sharedKey 1) 1 = .get 4 ∧
      state.minClock + 0 + 1 + 2 ≤ intMax ∧ state.model.recorder.dcheckIsOn = true)
    (by decide +kernel)
  have owned : ∀ w version, ∀ key ∈ (Workload.sharedKey 1).keys w version,
      SparseSSPRecorderType.map.Owns key := fun _ _ _ _ => trivial
  have served : (Workload.sharedKey 1).ServedBy (.map fun _ => 0) :=
    ⟨fun _ _ _ _ => trivial, fun _ _ _ _ => trivial, fun _ _ => rfl⟩
  have indexed : ∀ w version, ∀ key ∈ (Workload.sharedKey 1).keys w version,
      SparseSSPRecorderType.map.Indexes key := fun _ _ _ _ => trivial
  refine ⟨state, buffered, (step_fails_iff (SparseSSPRecorderType.recorder_map 0 1 true) owned indexed
    (Nat.le_refl 1) served run (by decide) small).mpr
      ⟨buffered, _, .get next (List.cons_ne_nil 7 []) dcheck ?_, rfl⟩⟩
  intro _ _ _
  exact List.cons_ne_nil 7 []

end Runs

end FlexPS
