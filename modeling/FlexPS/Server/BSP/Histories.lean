import FlexPS.Lib.Marks
import FlexPS.Server.BSP.Model
import FlexPS.Server.Histories

/-! # A BSP server by the messages it has taken

The storage holds, of every worker, the `Add`s before its `minClock`-th `Clock`, in whatever order
the workers' messages have come and however they are spread over the iterations.
-/

namespace FlexPS

variable {Val : Type} [AddCommMonoid Val]

namespace BSPModel

omit [AddCommMonoid Val] in
/-- A new model after the `ResetWorker` that names `tids`. -/
def start (modelId : UInt32) (storage : Storage Val) (tids : List Tid) : BSPModel Val :=
  { new modelId storage with progressTracker := .init tids }

theorem handle_genuine {model model' : BSPModel Val} {tids : List Tid} {msg : Message Val}
    {events : List (Event Val)} (ofWorkers : msg.OfWorkers tids)
    (handled : AbstractModel.handle model msg = .ok (model', events)) : ∀ event ∈ events,
      ∃ request clocks, event = .reply request (model'.storage.replyTo request) clocks := by
  obtain ⟨-, isClock | isAdd | isGet⟩ := ofWorkers
  · simp only [AbstractModel.handle, isClock] at handled
    obtain ⟨-, clocked⟩ := clock_cases handled
    cases clocked with
    | kept _ _ => exact fun event member => by cases member
    | @changed minClock tracker storage _ _ =>
        intro event member
        obtain ⟨request, -, rfl⟩ := List.mem_map.mp member
        exact ⟨request, tracker, rfl⟩
  · simp only [AbstractModel.handle, isAdd] at handled
    obtain ⟨-, -, -, rfl⟩ := add_cases handled
    exact fun event member => by cases member
  · simp only [AbstractModel.handle, isGet] at handled
    obtain ⟨-, ⟨-, -, rfl⟩ | ⟨-, rfl, rfl⟩⟩ := get_cases handled
    · exact fun event member => by cases member
    · exact fun event member => ⟨msg, _, List.mem_singleton.mp member⟩

end BSPModel

/-! ## Runs -/

variable (initial : Storage Val) (tids : List Tid) in
/-- A server that has taken `taken`. -/
structure BSPTaken (taken : List (Message Val)) (model : BSPModel Val) (events : List (Event Val)) :
    Prop where
  threads_eq : model.progressTracker.threads = tids.dedup
  exact : model.progressTracker.Exact
  clocks : ∀ w, model.progressTracker.progresses w = clocksBy w taken
  near : ∀ w ∈ tids, model.progressTracker.progresses w ≤ model.progressTracker.minClock + 1
  /-- No `Add` is lost. -/
  kept : ∀ key, model.storage.value key + (model.addBuffer.map fun msg => msg.kvs.contribution key).sum =
    initial.value key + addedBy taken key
  settled : ∀ key, model.storage.value key = initial.value key + ∑ w ∈ tids.toFinset,
    addedBy (Marks.upTo Message.isClock model.progressTracker.minClock (sentBy w taken)) key
  /-- What waits in `add_buffer_` is of the iteration of the minimum. -/
  early : ∀ w ∈ tids, ofFlag .kAdd (sentBy w taken) = ofFlag .kAdd
    (Marks.upTo Message.isClock (model.progressTracker.minClock + 1) (sentBy w taken))
  gets : (events.filterMap Event.answered ++ model.getBuffer).Perm (ofFlag .kGet taken)
  ahead : ∀ msg ∈ model.getBuffer,
    model.progressTracker.progresses msg.sender = model.progressTracker.minClock + 1
  /-- A worker ahead of the minimum waits in its last `Get`. -/
  last : ∀ w msg, (sentBy w taken).getLast? = some msg → msg.flag = .kGet →
    model.progressTracker.progresses w = model.progressTracker.minClock + 1 → msg ∈ model.getBuffer

namespace BSPTaken

variable {modelId : UInt32} {initial : Storage Val} {tids : List Tid} {taken : List (Message Val)}
  {model model' : BSPModel Val} {events out : List (Event Val)} {msg : Message Val} {w : Tid}

theorem start : BSPTaken initial tids [] (.start modelId initial tids) [] where
  threads_eq := rfl
  exact := ProgressTracker.exact_init tids
  clocks _ := rfl
  near _ _ := Nat.zero_le _
  kept _ := rfl
  settled key := by simp [sentBy, addedBy, ofFlag, BSPModel.start, BSPModel.new]
  early _ _ := rfl
  gets := List.Perm.refl _
  ahead _ member := by cases member
  last _ _ ends := by cases ends

theorem le (before : BSPTaken initial tids taken model events) (member : w ∈ tids) :
    model.progressTracker.minClock ≤ (sentBy w taken).countP Message.isClock := by
  have above := before.exact.le w (before.threads_eq ▸ List.mem_dedup.mpr member)
  rwa [before.clocks] at above

/-- What the storage holds of a worker does not change while the minimum stays. -/
theorem upTo_snoc_minClock (before : BSPTaken initial tids taken model events) (member : w ∈ tids) :
    Marks.upTo Message.isClock model.progressTracker.minClock (sentBy w (taken ++ [msg])) =
      Marks.upTo Message.isClock model.progressTracker.minClock (sentBy w taken) := by
  rw [sentBy_append, Marks.upTo_append_of_le (before.le member)]

omit [AddCommMonoid Val] in
theorem ofFlag_upTo_snoc {n : Nat} {msgs : List (Message Val)} (notAdd : msg.flag ≠ .kAdd) :
    ofFlag .kAdd (Marks.upTo Message.isClock n (msgs ++ [msg])) =
      ofFlag .kAdd (Marks.upTo Message.isClock n msgs) := by
  rw [Marks.upTo_snoc, ofFlag_append]
  split
  · simp [ofFlag, notAdd]
  · exact List.append_nil _

omit [AddCommMonoid Val] in
theorem ofFlag_sentBy_snoc (notAdd : msg.flag ≠ .kAdd) :
    ofFlag .kAdd (sentBy w (taken ++ [msg])) = ofFlag .kAdd (sentBy w taken) := by
  rw [sentBy_snoc, ofFlag_append]
  split
  · simp [ofFlag, notAdd]
  · exact List.append_nil _

/-- The next `Add`s in the storage are all there are. -/
theorem early_snoc (before : BSPTaken initial tids taken model events) (notAdd : msg.flag ≠ .kAdd)
    (member : w ∈ tids) : ofFlag .kAdd (sentBy w (taken ++ [msg])) = ofFlag .kAdd
      (Marks.upTo Message.isClock (model.progressTracker.minClock + 1) (sentBy w (taken ++ [msg]))) := by
  rw [ofFlag_sentBy_snoc notAdd, before.early w member, sentBy_snoc]
  split
  · rw [ofFlag_upTo_snoc notAdd]
  · rw [List.append_nil]

theorem add (before : BSPTaken initial tids taken model events) (isAdd : msg.flag = .kAdd)
    (added : model.add msg = .ok (model', out)) :
    BSPTaken initial tids (taken ++ [msg]) model' (events ++ out) := by
  obtain ⟨registered, holds, rfl, rfl⟩ := BSPModel.add_cases added
  constructor
  case threads_eq => exact before.threads_eq
  case exact => exact before.exact
  case clocks =>
    intro w
    rw [clocksBy_snoc, if_neg (by simp [isAdd])]
    exact before.clocks w
  case near => exact before.near
  case kept =>
    intro key
    rw [addedBy_snoc, if_pos isAdd, ← add_assoc, ← before.kept key, List.map_append, List.sum_append,
      List.map_singleton, List.sum_singleton, ← add_assoc]
  case settled =>
    intro key
    refine (before.settled key).trans (congrArg (initial.value key + ·) ?_)
    refine Finset.sum_congr rfl fun w member => ?_
    rw [before.upTo_snoc_minClock (List.mem_toFinset.mp member)]
  case early =>
    intro w member
    rw [sentBy_snoc]
    by_cases same : msg.sender = w
    · subst same
      have count : (sentBy msg.sender taken).countP Message.isClock = model.progressTracker.minClock :=
        (before.clocks msg.sender).symm.trans holds
      rw [if_pos rfl, Marks.upTo_snoc, if_pos (by dsimp only; omega), ofFlag_append, ofFlag_append,
        before.early _ member]
    · rw [if_neg same, List.append_nil]
      exact before.early w member
  case gets =>
    rw [List.append_nil, ofFlag_snoc, if_neg (by simp [isAdd]), List.append_nil]
    exact before.gets
  case ahead => exact before.ahead
  case last =>
    intro w lastMsg ends isGet
    rw [sentBy_snoc] at ends
    split at ends
    · rw [List.getLast?_concat] at ends
      cases ends
      rw [isAdd] at isGet
      cases isGet
    · rw [List.append_nil] at ends
      exact before.last w lastMsg ends isGet

theorem get (before : BSPTaken initial tids taken model events) (isGet : msg.flag = .kGet)
    (got : model.get msg = .ok (model', out)) :
    BSPTaken initial tids (taken ++ [msg]) model' (events ++ out) := by
  obtain ⟨registered, outcome⟩ := BSPModel.get_cases got
  have notAdd : msg.flag ≠ .kAdd := by simp [isGet]
  have clocks : ∀ w, model.progressTracker.progresses w = clocksBy w (taken ++ [msg]) := by
    intro w
    rw [clocksBy_snoc, if_neg (by simp [isGet])]
    exact before.clocks w
  have added : ∀ key, addedBy (taken ++ [msg]) key = addedBy taken key := by
    intro key
    rw [addedBy_snoc, if_neg notAdd, add_zero]
  have settled : ∀ key, model.storage.value key = initial.value key + ∑ w ∈ tids.toFinset,
      addedBy (Marks.upTo Message.isClock model.progressTracker.minClock (sentBy w (taken ++ [msg]))) key := by
    intro key
    refine (before.settled key).trans (congrArg (initial.value key + ·) ?_)
    refine Finset.sum_congr rfl fun w member => ?_
    rw [before.upTo_snoc_minClock (List.mem_toFinset.mp member)]
  have gets_eq : ofFlag .kGet (taken ++ [msg]) = ofFlag .kGet taken ++ [msg] := by
    rw [ofFlag_snoc, if_pos isGet]
  obtain ⟨ahead, rfl, rfl⟩ | ⟨holds, rfl, rfl⟩ := outcome
  · refine ⟨before.threads_eq, before.exact, clocks, before.near, fun key => ?_, settled,
      fun w member => before.early_snoc notAdd member, ?_, ?_, ?_⟩
    · rw [added]
      exact before.kept key
    · rw [List.append_nil, gets_eq, ← List.append_assoc]
      exact before.gets.append_right [msg]
    · exact List.forall_mem_append.mpr ⟨before.ahead, List.forall_mem_singleton.mpr ahead⟩
    · intro w lastMsg ends isGet' ahead'
      rw [sentBy_snoc] at ends
      split at ends
      · rw [List.getLast?_concat] at ends
        cases ends
        exact List.mem_append_right _ (List.mem_singleton_self _)
      · rw [List.append_nil] at ends
        exact List.mem_append_left _ (before.last w lastMsg ends isGet' ahead')
  · refine ⟨before.threads_eq, before.exact, clocks, before.near, fun key => ?_, settled,
      fun w member => before.early_snoc notAdd member, ?_, before.ahead, ?_⟩
    · rw [added]
      exact before.kept key
    · rw [gets_eq, List.filterMap_append]
      change (_ ++ [msg] ++ _).Perm _
      rw [List.append_assoc]
      exact (List.perm_append_comm.append_left _).trans
        (by rw [← List.append_assoc]; exact before.gets.append_right [msg])
    · intro w lastMsg ends isGet' ahead
      rw [sentBy_snoc] at ends
      split at ends
      next same =>
        subst same
        omega
      next =>
        rw [List.append_nil] at ends
        exact before.last w lastMsg ends isGet' ahead

theorem clock (before : BSPTaken initial tids taken model events) (isClock : msg.flag = .kClock)
    (named : ∀ other ∈ taken ++ [msg], other.sender ∈ tids) (clocked : model.clock msg = .ok (model', out)) :
    BSPTaken initial tids (taken ++ [msg]) model' (events ++ out) := by
  obtain ⟨registered, clocked⟩ := BSPModel.clock_cases clocked
  have notAdd : msg.flag ≠ .kAdd := by simp [isClock]
  have clocks : ∀ {updated tracker}, model.progressTracker.Advanced msg.sender updated tracker →
      ∀ w, tracker.progresses w = clocksBy w (taken ++ [msg]) := by
    intro updated tracker advanced w
    rw [advanced.progresses, clocksBy_snoc]
    by_cases same : msg.sender = w
    · rw [if_pos ⟨same, isClock⟩, ← same, Function.update_self, before.clocks]
    · rw [if_neg fun both => same both.1, Function.update_of_ne (Ne.symm same)]
      exact before.clocks w
  have added : ∀ key, addedBy (taken ++ [msg]) key = addedBy taken key := by
    intro key
    rw [addedBy_snoc, if_neg notAdd, add_zero]
  have gets_eq : ofFlag .kGet (taken ++ [msg]) = ofFlag .kGet taken := by
    rw [ofFlag_snoc, if_neg (by simp [isClock]), List.append_nil]
  cases clocked with
  | @kept tracker advanced near =>
      have same_min := advanced.minClock_of_none
      constructor
      case threads_eq => exact advanced.threads.trans before.threads_eq
      case exact => exact advanced.exact registered before.exact
      case clocks => exact clocks advanced
      case near =>
        intro w member
        dsimp only
        by_cases same : w = msg.sender
        · rw [same]
          exact near
        · rw [advanced.progresses, Function.update_of_ne same, same_min]
          exact before.near w member
      case kept =>
        intro key
        rw [added]
        exact before.kept key
      case settled =>
        intro key
        dsimp only
        rw [same_min]
        refine (before.settled key).trans (congrArg (initial.value key + ·) ?_)
        refine Finset.sum_congr rfl fun w member => ?_
        rw [before.upTo_snoc_minClock (List.mem_toFinset.mp member)]
      case early =>
        dsimp only
        rw [same_min]
        exact fun w member => before.early_snoc notAdd member
      case gets =>
        rw [List.append_nil, gets_eq]
        exact before.gets
      case ahead =>
        intro other waits
        have due := before.ahead other waits
        dsimp only
        by_cases same : other.sender = msg.sender
        · rw [advanced.progresses, Function.update_self] at near
          rw [same] at due
          omega
        · rw [advanced.progresses, Function.update_of_ne same, same_min]
          exact due
      case last =>
        intro w lastMsg ends isGet ahead
        dsimp only at ahead ⊢
        rw [sentBy_snoc] at ends
        split at ends
        · rw [List.getLast?_concat] at ends
          cases ends
          rw [isClock] at isGet
          cases isGet
        · next other =>
          rw [List.append_nil] at ends
          rw [advanced.progresses, Function.update_of_ne (Ne.symm other), same_min] at ahead
          exact before.last w lastMsg ends isGet ahead
  | @changed minClock tracker storage advanced applied =>
      obtain ⟨-, raised, unique⟩ := advanced.minClock_of_some
      have within : ∀ w ∈ tids, tracker.progresses w ≤ tracker.minClock := by
        intro w member
        rw [raised, advanced.progresses]
        by_cases same : w = msg.sender
        · rw [same, Function.update_self, unique.1]
        · rw [Function.update_of_ne same]
          exact before.near w member
      have all : ∀ key, storage.value key = initial.value key + addedBy taken key := by
        intro key
        rw [Storage.foldlM_add_spec applied key]
        exact before.kept key
      constructor
      case threads_eq => exact advanced.threads.trans before.threads_eq
      case exact => exact advanced.exact registered before.exact
      case clocks => exact clocks advanced
      case near => exact fun w member => Nat.le_succ_of_le (within w member)
      case kept =>
        intro key
        rw [added, List.map_nil, List.sum_nil, add_zero]
        exact all key
      case settled =>
        intro key
        rw [all, addedBy_eq_sum fun other inTaken => named other (List.mem_append_left _ inTaken)]
        refine congrArg (initial.value key + ·) (Finset.sum_congr rfl fun w member => addedBy_congr ?_ key)
        dsimp only
        rw [raised, ← before.early_snoc notAdd (List.mem_toFinset.mp member), ofFlag_sentBy_snoc notAdd]
      case early =>
        intro w member
        rw [Marks.upTo_of_lt]
        have count := clocks advanced w
        rw [clocksBy] at count
        have := within w member
        dsimp only
        omega
      case gets =>
        have answered : (model.getBuffer.map fun request =>
            Event.reply request (storage.replyTo request) tracker).filterMap Event.answered =
              model.getBuffer := by
          rw [List.filterMap_map]
          exact List.filterMap_some
        rw [gets_eq, List.append_nil, List.filterMap_append, answered]
        exact before.gets
      case ahead => exact fun _ member => by cases member
      case last =>
        intro w lastMsg ends isGet ahead
        obtain ⟨inTaken, sender⟩ := List.mem_filter.mp (List.mem_of_getLast? ends)
        have member : w ∈ tids := of_decide_eq_true sender ▸ named lastMsg inTaken
        have := within w member
        dsimp only at ahead
        omega

/-- Every `Get` of a worker has been answered or waits. -/
theorem counts (known : BSPTaken initial tids taken model events) (w : Tid) :
    (sentBy w (events.filterMap Event.answered)).length + (sentBy w model.getBuffer).length =
      (ofFlag .kGet (sentBy w taken)).length := by
  have commute : (ofFlag .kGet taken).filter (fun msg => msg.sender = w) = ofFlag .kGet (sentBy w taken) :=
    List.filter_comm ..
  have lengths := (known.gets.filter fun msg => msg.sender = w).length_eq
  rw [List.filter_append, List.length_append, commute] at lengths
  exact lengths

/-- A worker that has sent a `Get` last, and has an answer to it, is not ahead of the minimum. -/
theorem fresh (known : BSPTaken initial tids taken model events) (member : w ∈ tids)
    (ends : (sentBy w taken).getLast? = some msg) (isGet : msg.flag = .kGet)
    (all : (ofFlag .kGet (sentBy w taken)).length ≤
      (sentBy w (events.filterMap Event.answered)).length) :
    model.progressTracker.minClock = clocksBy w taken := by
  have sender : msg.sender = w :=
    of_decide_eq_true (List.mem_filter.mp (List.mem_of_getLast? ends)).2
  have lengths := known.counts w
  have settled : model.progressTracker.progresses w ≠ model.progressTracker.minClock + 1 := by
    intro ahead
    have waits : msg ∈ sentBy w model.getBuffer :=
      List.mem_filter.mpr ⟨known.last w msg ends isGet ahead, decide_eq_true sender⟩
    have := List.length_pos_of_mem waits
    omega
  have near := known.near w member
  have le := known.le member
  rw [← clocksBy, ← known.clocks] at le
  rw [← known.clocks]
  omega

end BSPTaken

theorem bsp_taken {modelId : UInt32} {initial : Storage Val} {tids : List Tid} {taken : List (Message Val)}
    {model : BSPModel Val} {events : List (Event Val)}
    (run : ModelRun (.start modelId initial tids) tids taken model events) :
    BSPTaken initial tids taken model events := by
  refine run.invariant (P := fun taken model events => BSPTaken initial tids taken model events)
    BSPTaken.start ?_
  intro taken model events msg model' out run before admitted handled
  obtain ⟨member, isClock | isAdd | isGet⟩ := admitted
  · simp only [AbstractModel.handle, isClock] at handled
    refine before.clock isClock (List.forall_mem_append.mpr ⟨fun other inTaken => ?_, ?_⟩) handled
    · exact (ofWorkers_of_run run other inTaken).1
    · exact List.forall_mem_singleton.mpr member
  · simp only [AbstractModel.handle, isAdd] at handled
    exact before.add isAdd handled
  · simp only [AbstractModel.handle, isGet] at handled
    exact before.get isGet handled

/-- A BSP server lets a `Get` wait only for a worker in an earlier iteration. -/
theorem bsp_waitsOnlyFor (modelId : UInt32) (initial : Storage Val) (tids : List Tid) :
    WaitsOnlyFor (BSPModel.start modelId initial tids) tids 0 := by
  intro taken model events w run member unanswered
  have known := bsp_taken run
  obtain ⟨u, registered, slowest⟩ := known.exact.attained
    (List.ne_nil_of_mem (known.threads_eq ▸ List.mem_dedup.mpr member))
  refine ⟨u, List.mem_dedup.mp (known.threads_eq ▸ registered), ?_⟩
  have counts := known.counts w
  obtain ⟨msg, waits⟩ := List.exists_mem_of_length_pos
    (by omega : 0 < (sentBy w model.getBuffer).length)
  obtain ⟨inBuffer, sender⟩ := List.mem_filter.mp waits
  have ahead := known.ahead msg inBuffer
  rw [of_decide_eq_true sender] at ahead
  rw [← known.clocks, ← known.clocks]
  omega

/-- A BSP server answers from its storage. -/
theorem bsp_answersGets (modelId : UInt32) (initial : Storage Val) (tids : List Tid) :
    AnswersGets (BSPModel.start modelId initial tids) tids BSPModel.storage where
  genuine _ ofWorkers handled := BSPModel.handle_genuine ofWorkers handled
  once run := by
    refine List.Subperm.trans ?_ (bsp_taken run).gets.subperm
    exact (List.sublist_append_left _ _).subperm

end FlexPS
