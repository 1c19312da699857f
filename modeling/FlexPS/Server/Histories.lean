import FlexPS.Server.AbstractModel

/-! # The messages a server has taken

A run of one server alone is a list of messages: the `Clock`s, `Add`s and `Get`s of its workers,
in the order in which it has taken them.
-/

namespace FlexPS

variable {Val Model : Type}

/-- What a worker sends. -/
def Message.OfWorkers (tids : List Tid) (msg : Message Val) : Prop :=
  msg.sender ∈ tids ∧ (msg.flag = .kClock ∨ msg.flag = .kAdd ∨ msg.flag = .kGet)

instance (tids : List Tid) (msg : Message Val) : Decidable (msg.OfWorkers tids) :=
  inferInstanceAs (Decidable (_ ∧ _))

/-- The messages of one worker. -/
def sentBy (w : Tid) (msgs : List (Message Val)) : List (Message Val) :=
  msgs.filter fun msg => msg.sender = w

/-- The messages of one kind. -/
def ofFlag (flag : Flag) (msgs : List (Message Val)) : List (Message Val) :=
  msgs.filter fun msg => msg.flag = flag

section Lists

variable {w : Tid} {flag : Flag} {msgs : List (Message Val)} {msg : Message Val}

theorem sentBy_append (w : Tid) (msgs more : List (Message Val)) :
    sentBy w (msgs ++ more) = sentBy w msgs ++ sentBy w more := List.filter_append ..

theorem sentBy_snoc : sentBy w (msgs ++ [msg]) = sentBy w msgs ++ if msg.sender = w then [msg] else [] := by
  rw [sentBy_append]
  by_cases same : msg.sender = w
  · simp [sentBy, same]
  · simp [sentBy, same]

theorem ofFlag_append (flag : Flag) (msgs more : List (Message Val)) :
    ofFlag flag (msgs ++ more) = ofFlag flag msgs ++ ofFlag flag more := List.filter_append ..

theorem ofFlag_snoc : ofFlag flag (msgs ++ [msg]) =
    ofFlag flag msgs ++ if msg.flag = flag then [msg] else [] := by
  rw [ofFlag_append]
  by_cases same : msg.flag = flag
  · simp [ofFlag, same]
  · simp [ofFlag, same]

def Message.isClock (msg : Message Val) : Bool := msg.flag = .kClock

/-- How many `Clock`s of a worker are among the messages. -/
def clocksBy (w : Tid) (msgs : List (Message Val)) : Nat := (sentBy w msgs).countP Message.isClock

theorem clocksBy_snoc : clocksBy w (msgs ++ [msg]) =
    clocksBy w msgs + if msg.sender = w ∧ msg.flag = .kClock then 1 else 0 := by
  rw [clocksBy, sentBy_snoc, List.countP_append, ← clocksBy]
  by_cases same : msg.sender = w
  · by_cases clock : msg.flag = .kClock
    · simp [Message.isClock, same, clock]
    · simp [Message.isClock, same, clock]
  · simp [same]

variable [AddCommMonoid Val]

/-- What the `Add`s among the messages add to a key. -/
def addedBy (msgs : List (Message Val)) (key : Key) : Val :=
  ((ofFlag .kAdd msgs).map fun msg => msg.kvs.contribution key).sum

theorem addedBy_append (msgs more : List (Message Val)) (key : Key) :
    addedBy (msgs ++ more) key = addedBy msgs key + addedBy more key := by
  rw [addedBy, ofFlag_append, List.map_append, List.sum_append, ← addedBy, ← addedBy]

theorem addedBy_snoc {key : Key} : addedBy (msgs ++ [msg]) key =
    addedBy msgs key + if msg.flag = .kAdd then msg.kvs.contribution key else 0 := by
  rw [addedBy_append]
  unfold addedBy ofFlag
  by_cases isAdd : msg.flag = .kAdd
  · simp [isAdd]
  · simp [isAdd]

theorem addedBy_congr {msgs' : List (Message Val)} (same : ofFlag .kAdd msgs = ofFlag .kAdd msgs')
    (key : Key) : addedBy msgs key = addedBy msgs' key := by
  rw [addedBy, same, ← addedBy]

/-- The `Add`s of the workers, one worker after the other. -/
theorem addedBy_eq_sum {tids : List Tid} (named : ∀ msg ∈ msgs, msg.sender ∈ tids) (key : Key) :
    addedBy msgs key = ∑ w ∈ tids.toFinset, addedBy (sentBy w msgs) key := by
  induction msgs using List.reverseRecOn with
  | nil => simp [addedBy, sentBy, ofFlag]
  | append_singleton msgs msg ih =>
      have member : msg.sender ∈ tids.toFinset := List.mem_toFinset.mpr (named msg (by simp))
      have each : ∀ w ∈ tids.toFinset, addedBy (sentBy w (msgs ++ [msg])) key =
          addedBy (sentBy w msgs) key + if w = msg.sender then
            (if msg.flag = .kAdd then msg.kvs.contribution key else 0) else 0 := by
        intro w _
        rw [sentBy_snoc]
        by_cases same : msg.sender = w
        · rw [if_pos same, if_pos same.symm, addedBy_snoc]
        · rw [if_neg same, if_neg (Ne.symm same), List.append_nil, add_zero]
      rw [addedBy_snoc, ih fun msg' inMsgs => named msg' (List.mem_append_left _ inMsgs),
        Finset.sum_congr rfl each, Finset.sum_add_distrib, Finset.sum_ite_eq' , if_pos member]

end Lists

section Runs

variable [AbstractModel Val Model]

/-- The runs of one server alone. -/
abbrev ModelRun (start : Model) (tids : List Tid) (msgs : List (Message Val)) (model : Model)
    (events : List (Event Val)) : Prop :=
  Machine.Runs AbstractModel.handle (fun _ _ msg => msg.OfWorkers tids) start msgs model events

variable {start model : Model} {tids : List Tid} {msgs : List (Message Val)} {events : List (Event Val)}

theorem ofWorkers_of_run (run : ModelRun start tids msgs model events) :
    ∀ msg ∈ msgs, msg.OfWorkers tids := by
  refine run.invariant (P := fun msgs _ _ => ∀ msg ∈ msgs, msg.OfWorkers tids)
    (fun _ member => by cases member) ?_
  intro msgs _ _ msg _ _ _ before admitted _
  exact List.forall_mem_append.mpr ⟨before, List.forall_mem_singleton.mpr admitted⟩

variable (start tids) in
/-- A server with `storage model` in each state `model` answers `Get`s that it has taken, none of
    them twice, and it answers each from the storage it ends the step with. -/
structure AnswersGets (storage : Model → Storage Val) [AddCommMonoid Val] : Prop where
  genuine : ∀ {msgs model events msg model' out}, ModelRun start tids msgs model events →
    msg.OfWorkers tids → AbstractModel.handle model msg = .ok (model', out) → ∀ event ∈ out,
      ∃ request clocks, event = .reply request ((storage model').replyTo request) clocks
  once : ∀ {msgs model events}, ModelRun start tids msgs model events →
    (events.filterMap Event.answered).Subperm (ofFlag .kGet msgs)

variable (start tids) in
/-- A `Get` waits only while some worker is more than `slack` clocks behind its sender. -/
def WaitsOnlyFor (slack : Nat) : Prop :=
  ∀ {msgs model events w}, ModelRun start tids msgs model events → w ∈ tids →
    (sentBy w (events.filterMap Event.answered)).length < (ofFlag .kGet (sentBy w msgs)).length →
    ∃ u ∈ tids, clocksBy u msgs + slack < clocksBy w msgs

end Runs

end FlexPS
