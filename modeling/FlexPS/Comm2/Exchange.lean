import FlexPS.Comm2.Traffic

/-! # The all-to-all exchange

`SyncAndGet` number `r` takes exactly what was pushed in round `r`, and every call
of `SyncAndGet` that all local channels make returns.
-/

namespace FlexPS.Comm2

namespace ChannelState

variable {n c : Nat} {Bin : Type}

open Packets

/-- The barrier messages, as the counting argument sees them. -/
def CountedLinks (state : ChannelState n c Bin) : Prop :=
  BarrierState.Counted state.mailboxes state.entered state.returned
    (fun j i round => (state.links j i).inFlight.countP (isBarrierOf round))
    (fun j i round => (state.links j i).arrived.countP (isBarrierOf round))

theorem countP_inFlight_send (links : Fin n → Fin n → Link (ChannelPacket c Bin)) (i j : Fin n)
    (packet : ChannelPacket c Bin) (round : Nat) (k l : Fin n) :
    (Link.set links i j ((links i j).send packet) k l).inFlight.countP (isBarrierOf round) =
      (links k l).inFlight.countP (isBarrierOf round) +
        if k = i ∧ l = j ∧ isBarrierOf round packet = true then 1 else 0 := by
  rw [Link.set_apply]
  split
  · next here =>
      obtain ⟨rfl, rfl⟩ := here
      simp [Link.send, List.countP_append, List.countP_singleton]
  · next elsewhere => rw [if_neg fun here => elsewhere ⟨here.1, here.2.1⟩, Nat.add_zero]

theorem countP_arrived_send (links : Fin n → Fin n → Link (ChannelPacket c Bin)) (i j : Fin n)
    (packet : ChannelPacket c Bin) (round : Nat) (k l : Fin n) :
    (Link.set links i j ((links i j).send packet) k l).arrived.countP (isBarrierOf round) =
      (links k l).arrived.countP (isBarrierOf round) := by
  rw [Link.set_apply]
  split
  · next here =>
      obtain ⟨rfl, rfl⟩ := here
      rfl
  · rfl

theorem countP_receive (links : Fin n → Fin n → Link (ChannelPacket c Bin)) {i j : Fin n}
    {packet : ChannelPacket c Bin} {rest : List (ChannelPacket c Bin)}
    (next : (links i j).inFlight = packet :: rest) (round : Nat) (k l : Fin n) :
    (links k l).inFlight.countP (isBarrierOf round) =
        (Link.set links i j (links i j).receive k l).inFlight.countP (isBarrierOf round) +
          (if k = i ∧ l = j ∧ isBarrierOf round packet = true then 1 else 0) ∧
      (Link.set links i j (links i j).receive k l).arrived.countP (isBarrierOf round) =
        (links k l).arrived.countP (isBarrierOf round) +
          if k = i ∧ l = j ∧ isBarrierOf round packet = true then 1 else 0 := by
  rw [Link.set_apply, Link.receive_eq next]
  split
  · next here =>
      obtain ⟨rfl, rfl⟩ := here
      simp [next, List.countP_cons, List.countP_append]
  · next elsewhere =>
      rw [if_neg fun here => elsewhere ⟨here.1, here.2.1⟩]
      exact ⟨rfl, rfl⟩

structure Inv (nodeOf : Fin c → Fin n) (state : ChannelState n c Bin)
    (events : List (ChannelEvent c Bin)) : Prop where
  counted : state.CountedLinks
  positions : Positions nodeOf state
  traffic : Traffic nodeOf state.links state.channels state.entered events

theorem init_inv (nodeOf : Fin c → Fin n) : Inv nodeOf (init nodeOf : ChannelState n c Bin) [] where
  counted := .start
  positions := .start nodeOf
  traffic := .start

section Steps

variable {nodeOf : Fin c → Fin n} {state : ChannelState n c Bin}
  {events : List (ChannelEvent c Bin)}

theorem Inv.left_le_arrived (inv : Inv nodeOf state events) (x y : Fin c) :
    (state.channels x).left ≤ (state.channels y).arrived :=
  inv.positions.left_le_arrived inv.counted.inStep.agreement x y

/-- Nobody on the node is in the barrier. -/
theorem Inv.entered_eq (inv : Inv nodeOf state events) {i : Fin n}
    (outside : (state.mailboxes i).caller = .outside) : state.entered i = state.returned i :=
  (inv.counted.outside i).mp outside

theorem Inv.pushTo (inv : Inv nodeOf state events) {x target : Fin c} {bin : Bin}
    (built : state.Constructed (nodeOf x)) (outside : (state.channels x).pc = .outside) :
    ∃ state' out, state.step nodeOf (.pushTo x target bin) = .ok (state', out) ∧
      Inv nodeOf state' (events ++ out) := by
  have left : (state.channels x).left = 2 * (state.channels x).synced := by
    simp [LocalChannel.left, outside]
  have arrived : (state.channels x).arrived = 2 * (state.channels x).synced := by
    simp [LocalChannel.arrived, outside]
  refine ⟨_, _, rfl, ?_, ?_, ?_⟩
  · apply inv.counted.unchanged
    · intro k l round
      rw [countP_inFlight_send]
      simp [isBarrierOf]
    · intro k l round
      rw [countP_arrived_send]
  · exact inv.positions.barrier (fun _ => id) (fun _ => le_rfl)
  · apply inv.traffic.push left
    · intro version round member
      have counted : 0 < (state.links (nodeOf x) (nodeOf target)).arrived.countP (isBarrierOf round) +
          (state.links (nodeOf x) (nodeOf target)).inFlight.countP (isBarrierOf round) := by
        rw [← List.countP_append]
        exact List.countP_pos_iff.mpr ⟨_, member, by simp [isBarrierOf]⟩
      have entered := inv.counted.entered_of_counted (i := nodeOf target) counted
      have := inv.positions.arrived_ge x
      omega
    · have := (state.channels target).emptied_le
      have := inv.left_le_arrived target x
      omega
    · intro j
      exact (inv.positions.built _ built).trans (inv.counted.inStep.agreement _ j)

theorem Inv.wait (inv : Inv nodeOf state events) {x : Fin c} {second : Bool}
    (free : state.owner (nodeOf x) = .free) (arriving : (state.channels x).pc = .arriving second) :
    Inv nodeOf (state.wait nodeOf x second) events := by
  have outside := inv.positions.idle _ (.inr free)
  have same := inv.entered_eq outside
  have built := inv.positions.built (nodeOf x) (by simp [Constructed, free])
  have left : ∀ pc : Pc, pc = .inBarrier second ∨ (∃ gen, pc = .waiting second gen) →
      ({ state.channels x with pc } : LocalChannel c Bin).left = (state.channels x).left := by
    rintro pc (rfl | ⟨gen, rfl⟩) <;> cases second <;> simp [LocalChannel.left, arriving]
  have emptied : ∀ pc : Pc, pc = .inBarrier second ∨ (∃ gen, pc = .waiting second gen) →
      ({ state.channels x with pc } : LocalChannel c Bin).emptied = (state.channels x).emptied := by
    rintro pc (rfl | ⟨gen, rfl⟩) <;> cases second <;> simp [LocalChannel.emptied, arriving]
  cases Nat.decEq (state.count (nodeOf x) - 1) 0 with
  | isTrue last =>
      simp only [ChannelState.wait, last, if_true]
      constructor
      case counted => exact inv.counted.enter outside
      case positions => exact inv.positions.enter arriving free last same
      case traffic =>
        have traffic := inv.traffic.step_inside (left _ (.inl rfl)) (emptied _ (.inl rfl))
        exact traffic.entered_mono (Rounds.le_bump _ _)
  | isFalse more =>
      simp only [ChannelState.wait, more, if_false]
      constructor
      case counted => exact inv.counted
      case positions => exact inv.positions.block arriving (same ▸ built) same
      case traffic =>
        exact inv.traffic.step_inside (left _ (.inr ⟨_, rfl⟩)) (emptied _ (.inr ⟨_, rfl⟩))

/-- `gen != m_generation_` only when the barrier of this `Wait` is over. -/
theorem Inv.generation_passed (inv : Inv nodeOf state events) {x : Fin c} {second : Bool}
    {gen : UInt32} (free : state.owner (nodeOf x) = .free)
    (waiting : (state.channels x).pc = .waiting second gen)
    (passed : gen ≠ state.generation (nodeOf x)) :
    (state.channels x).arrived ≤ state.returned (nodeOf x) - 1 := by
  have same := inv.entered_eq (inv.positions.idle _ (.inr free))
  have le := inv.positions.arrived_le x
  rw [inv.positions.waiting x second gen waiting, inv.positions.generation] at passed
  cases Nat.lt_or_ge (state.entered (nodeOf x) - 1) (state.channels x).arrived with
  | inl current =>
      have : (state.channels x).arrived - 1 = state.entered (nodeOf x) - 1 := by omega
      exact absurd (congrArg UInt32.ofNat this) passed
  | inr past => omega

theorem Inv.drain (inv : Inv nodeOf state events) {x : Fin c}
    (draining : (state.channels x).pc = .draining) :
    Inv nodeOf (state.setChannel x (state.channels x).drain) events := by
  have left : (state.channels x).left = 2 * (state.channels x).synced + 1 := by
    simp [LocalChannel.left, draining]
  have before := inv.positions.left_le x
  cases queue : (state.channels x).queue with
  | nil =>
      constructor
      case counted => exact inv.counted
      case positions =>
        apply inv.positions.move <;> simp only [LocalChannel.drain, queue]
        · simp [LocalChannel.arrived, draining]
        · exact left.symm.trans_le before
        · exact fun _ _ waiting => by cases waiting
        · exact fun _ holding => by cases holding
      case traffic =>
        apply inv.traffic.finish draining queue
        intro i
        have full := inv.counted.past (nodeOf x) (2 * (state.channels x).synced + 1) (by omega)
        have one := inv.counted.counted_of_full full i
        obtain ⟨packet, member, barrier⟩ := List.countP_pos_iff.mp one.ge
        cases packet with
        | barrier version round =>
            simp only [isBarrierOf, decide_eq_true_eq] at barrier
            exact ⟨version, barrier ▸ member⟩
        | other item => cases barrier
  | cons item rest =>
      constructor
      case counted => exact inv.counted
      case positions =>
        apply inv.positions.move <;> simp only [LocalChannel.drain, queue]
        · rfl
        · exact before
        · exact fun _ _ => id
        · exact fun _ => id
      case traffic =>
        exact inv.traffic.take draining queue (inv.left_le_arrived item.source x)

theorem Inv.send (inv : Inv nodeOf state events) {i : Fin n}
    (enabled : ∃ j rest, (state.mailboxes i).caller = .sending (j :: rest)) :
    ∃ state' out, state.step nodeOf (.send i) = .ok (state', out) ∧
      Inv nodeOf state' (events ++ out) := by
  obtain ⟨j, rest, sending⟩ := enabled
  refine ⟨_, _, by simp only [step, sending]; rfl, ?_, ?_, ?_⟩
  · apply (inv.counted.send sending fun k l round => rfl).unchanged
    · intro k l round
      rw [countP_inFlight_send]
      simp [isBarrierOf, eq_comm]
    · intro k l round
      rw [countP_arrived_send]
  · apply inv.positions.barrier _ fun _ => le_rfl
    exact (Function.forall_update_iff _ fun k (mailbox : Mailbox n) =>
      (state.mailboxes k).caller = .outside → mailbox.caller = .outside).mpr
        ⟨by simp [sending], fun _ _ => id⟩
  · rw [List.append_nil, inv.counted.progress i]
    exact inv.traffic.sendBarrier

theorem Inv.test (inv : Inv nodeOf state events) {i : Fin n}
    (testing : (state.mailboxes i).caller = .testing) :
    ∃ state' out, state.step nodeOf (.test i) = .ok (state', out) ∧
      Inv nodeOf state' (events ++ out) := by
  cases decEq (state.mailboxes i).thisCount n with
  | isTrue full =>
      refine ⟨_, _, by simp only [step, Mailbox.test_pass full, if_true]; rfl, ?_, ?_, ?_⟩
      · exact inv.counted.pass testing full
      · apply inv.positions.barrier
        · exact (Function.forall_update_iff _ fun k (mailbox : Mailbox n) =>
            (state.mailboxes k).caller = .outside → mailbox.caller = .outside).mpr
              ⟨fun _ => rfl, fun _ _ => id⟩
        · exact Rounds.le_bump _ _
      · rw [List.append_nil]
        exact inv.traffic
  | isFalse short =>
      refine ⟨_, _, by simp only [step, Mailbox.test_block short, reduceCtorEq, if_false]; rfl,
        ?_, ?_, ?_⟩
      · exact inv.counted.change (by simp [testing]) (by simp [testing]) rfl fun _ => short
      · apply inv.positions.barrier _ fun _ => le_rfl
        exact (Function.forall_update_iff _ fun k (mailbox : Mailbox n) =>
          (state.mailboxes k).caller = .outside → mailbox.caller = .outside).mpr
            ⟨by simp [testing], fun _ _ => id⟩
      · rw [List.append_nil]
        exact inv.traffic

theorem Inv.wake (inv : Inv nodeOf state events) {i : Fin n}
    (asleep : (state.mailboxes i).caller = .asleep) :
    Inv nodeOf { state with
      mailboxes := Function.update state.mailboxes i (state.mailboxes i).wake } events := by
  constructor
  case counted =>
    exact inv.counted.change (by simp [Mailbox.wake]) (by simp [Mailbox.wake]) rfl
      (by simp [Mailbox.wake, asleep, Caller.notify])
  case positions =>
    apply inv.positions.barrier _ fun _ => le_rfl
    exact (Function.forall_update_iff _ fun k (mailbox : Mailbox n) =>
      (state.mailboxes k).caller = .outside → mailbox.caller = .outside).mpr
        ⟨by simp [asleep], fun _ _ => id⟩
  case traffic => exact inv.traffic

/-- The receiver thread neither fails an assertion nor loses a message. -/
theorem Inv.receive (inv : Inv nodeOf state events) {i j : Fin n}
    (some_packet : (state.links i j).inFlight ≠ []) :
    ∃ state' out, state.step nodeOf (.receive i j) = .ok (state', out) ∧
      Inv nodeOf state' (events ++ out) := by
  obtain ⟨packet, rest, next⟩ := List.exists_cons_of_ne_nil some_packet
  cases packet with
  | barrier version round =>
      obtain rfl := inv.traffic.versions i j version round (next ▸ List.mem_cons_self)
      have on_its_way : 0 < (state.links i j).inFlight.countP (isBarrierOf round) := by
        simp [next, isBarrierOf]
      have counts := countP_receive state.links next
      simp only [isBarrierOf, decide_eq_true_eq, eq_comm (a := round)] at counts
      obtain ⟨mailbox, handled, counted⟩ := inv.counted.deliver on_its_way
        (fun k l r => (counts r k l).1) (fun k l r => (counts r k l).2)
      refine ⟨_, _, by simp only [step, next, handled]; rfl, ?_, ?_, ?_⟩
      · exact counted
      · apply inv.positions.barrier _ fun _ => le_rfl
        exact fun k outside => (counted.outside k).mpr (inv.entered_eq outside)
      · rw [List.append_nil]
        exact inv.traffic.receiveBarrier next
  | other item =>
      have here : nodeOf item.target = j :=
        inv.traffic.routed i j item (next ▸ List.mem_cons_self)
      have pushed : item ∈ pushes events := by
        apply inv.traffic.pushed_of_inFlight (y := item.target) (i := i)
        rw [here, next]
        exact mem_itemsTo.mpr ⟨List.mem_cons_self, rfl⟩
      have built : state.owner j ≠ .fresh := by
        intro fresh
        have := (inv.positions.fresh j).mp fresh
        have := inv.traffic.pushed_built (List.ne_nil_of_mem pushed) j
        omega
      refine ⟨_, _, by simp only [step, next, built, if_false]; rfl, ?_, ?_, ?_⟩
      · have counts := countP_receive state.links next
        simp only [isBarrierOf, Bool.false_eq_true, and_false, if_false, Nat.add_zero] at counts
        apply inv.counted.unchanged
        · exact fun k l round => (counts round k l).1.symm
        · exact fun k l round => (counts round k l).2
      · apply Positions.move
        case arrived => rfl
        case left_le => exact inv.positions.left_le item.target
        case waiting => exact fun _ _ => id
        case holder => exact fun _ => id
        · exact inv.positions.barrier (fun _ => id) fun _ => le_rfl
      · rw [List.append_nil]
        exact inv.traffic.receiveOther next

/-- `Wait` returns after the barrier. -/
theorem Inv.leave (inv : Inv nodeOf state events) {x : Fin c} {second : Bool}
    (outside : (state.mailboxes (nodeOf x)).caller = .outside)
    (inside : (state.channels x).pc = .inBarrier second) :
    Inv nodeOf ((state.setChannel x ((state.channels x).after second)).setOwner (nodeOf x) .free)
      (events ++ (state.channels x).report x second) := by
  obtain ⟨owner, before⟩ := inv.positions.holder x second inside
  have same := inv.entered_eq outside
  constructor
  case counted => exact inv.counted
  case traffic => exact inv.traffic.after (.inr inside)
  case positions =>
    have returned : 1 ≤ state.returned (nodeOf x) := by omega
    apply (inv.positions.after (.inr inside) (by omega)).release
    case outside => exact outside
    case entered => exact same.trans_ge returned
    case returned => exact returned
    · intro y second' holding near
      change (Function.update state.channels x _ y).pc = _ at holding
      cases decEq y x with
      | isTrue same =>
          subst same
          rw [Function.update_self] at holding
          cases second <;> cases holding
      | isFalse other =>
          rw [Function.update_of_ne other] at holding
          have owner' := (inv.positions.holder y second' holding).1
          rw [near, owner] at owner'
          cases owner'
          exact other rfl

theorem Inv.syncAndGet (inv : Inv nodeOf state events) {x : Fin c}
    (outside : (state.channels x).pc = .outside) :
    Inv nodeOf (state.setChannel x { state.channels x with pc := .arriving false }) events := by
  constructor
  case counted => exact inv.counted
  case positions =>
    apply inv.positions.move
    case arrived => simp [LocalChannel.arrived, outside]
    case left_le => simpa [LocalChannel.left, outside] using inv.positions.left_le x
    case waiting => exact fun _ _ waiting => by cases waiting
    case holder => exact fun _ holding => by cases holding
  case traffic =>
    apply inv.traffic.step_inside
    · simp [LocalChannel.left, outside]
    · simp [LocalChannel.emptied, outside]

/-- No assertion fails in a step, and the step keeps the invariant. -/
theorem step_inv (inv : Inv nodeOf state events) {input : ChannelInput n c Bin}
    (enabled : state.Enabled nodeOf events input) :
    ∃ state' out, state.step nodeOf input = .ok (state', out) ∧
      Inv nodeOf state' (events ++ out) := by
  cases input with
  | construct i =>
      have fresh : state.owner i = .fresh := enabled
      refine ⟨_, _, rfl, ?_⟩
      rw [List.append_nil]
      exact ⟨inv.counted.enter (inv.positions.idle i (.inl fresh)), inv.positions.construct fresh,
        inv.traffic.entered_mono (Rounds.le_bump _ _)⟩
  | constructed i =>
      obtain ⟨owner, outside⟩ := enabled
      have same := inv.entered_eq outside
      have entered : state.entered i ≠ 0 := fun none => by
        rw [(inv.positions.fresh i).mpr none] at owner
        cases owner
      refine ⟨_, _, rfl, ?_⟩
      rw [List.append_nil]
      refine ⟨inv.counted, ?_, inv.traffic⟩
      apply inv.positions.release
      case outside => exact outside
      case entered => omega
      case returned => omega
      · rintro x second holding rfl
        rw [(inv.positions.holder x second holding).1] at owner
        cases owner
  | pushTo x target bin => exact inv.pushTo enabled.1 enabled.2
  | syncAndGet x =>
      refine ⟨_, _, rfl, ?_⟩
      rw [List.append_nil]
      exact inv.syncAndGet enabled.2
  | wait x =>
      obtain ⟨free, second, arriving⟩ := enabled
      refine ⟨_, _, by simp only [step, arriving]; rfl, ?_⟩
      rw [List.append_nil]
      exact inv.wait free arriving
  | recheck x =>
      obtain ⟨free, second, gen, waiting⟩ := enabled
      cases decEq gen (state.generation (nodeOf x)) with
      | isTrue same =>
          refine ⟨_, _, by simp only [step, waiting, same, if_true]; rfl, ?_⟩
          rw [List.append_nil]
          exact inv
      | isFalse passed =>
          refine ⟨_, _, by simp only [step, waiting, passed, if_false]; rfl, ?_⟩
          exact ⟨inv.counted, inv.positions.after (.inl ⟨gen, waiting⟩)
            (inv.generation_passed free waiting passed), inv.traffic.after (.inl ⟨gen, waiting⟩)⟩
  | leave x =>
      obtain ⟨outside, second, inside⟩ := enabled
      refine ⟨_, _, by simp only [step, inside]; rfl, ?_⟩
      exact inv.leave outside inside
  | drain x =>
      refine ⟨_, _, rfl, ?_⟩
      rw [List.append_nil]
      exact inv.drain enabled
  | send i => exact inv.send enabled
  | test i => exact inv.test enabled
  | wake i =>
      refine ⟨_, _, rfl, ?_⟩
      rw [List.append_nil]
      exact inv.wake enabled
  | receive sender recver => exact inv.receive enabled

theorem run_inv {inputs : List (ChannelInput n c Bin)}
    (run : Machine.Runs (step nodeOf) (Enabled nodeOf) (init nodeOf) inputs state events) :
    Inv nodeOf state events := by
  refine run.invariant (P := fun _ => Inv nodeOf) (init_inv nodeOf) ?_
  intro _ state events input state' out _ inv enabled stepped
  obtain ⟨state'', out', stepped', inv'⟩ := step_inv inv enabled
  cases stepped.symm.trans stepped'
  exact inv'

end Steps

/-! ## What is seen of the rounds -/

/-- A call of `SyncAndGet`. -/
def isCall (x : Fin c) : ChannelInput n c Bin → Bool
  | .syncAndGet y => y = x
  | _ => false

/-- A return from `SyncAndGet`. -/
def isReturn (x : Fin c) : ChannelEvent c Bin → Bool
  | .returned y _ _ => y = x
  | .pushed _ => false

/-- How many calls of `SyncAndGet` have begun. -/
def called (channel : LocalChannel c Bin) : Nat :=
  channel.synced + if channel.pc = .outside then 0 else 1

/-- An item is pushed between two calls of `SyncAndGet`; its round counts them. -/
def RoundsMatch (events : List (ChannelEvent c Bin)) : Prop :=
  Machine.AtEach (fun before event => ∀ item, event = .pushed item →
    item.round = before.countP (isReturn item.source)) events

/-- What the threads have called, and what is seen of them. -/
structure Seen (nodeOf : Fin c → Fin n) (inputs : List (ChannelInput n c Bin))
    (state : ChannelState n c Bin) (events : List (ChannelEvent c Bin)) : Prop where
  calls : ∀ x, inputs.countP (isCall x) = called (state.channels x)
  returns : ∀ x, events.countP (isReturn x) = (state.channels x).synced
  results : ∀ x round, round < (state.channels x).synced → ∃ rets, .returned x round rets ∈ events
  rounds : RoundsMatch events
  held : ∀ i x, state.owner i = .thread x →
    nodeOf x = i ∧ ∃ second, (state.channels x).pc = .inBarrier second
  awaited : ∀ i, (∃ x, nodeOf x = i) → 0 < state.count i
  sending : ∀ i, (state.mailboxes i).caller ≠ .sending []

namespace Seen

variable {nodeOf : Fin c → Fin n} {inputs : List (ChannelInput n c Bin)}
  {state : ChannelState n c Bin} {events : List (ChannelEvent c Bin)}

theorem threshold_pos (nodeOf : Fin c → Fin n) (i : Fin n) (someone : ∃ x, nodeOf x = i) :
    0 < threshold nodeOf i := by
  obtain ⟨x, here⟩ := someone
  exact List.countP_pos_iff.mpr ⟨x, List.mem_finRange x, by simp [here]⟩

theorem start (nodeOf : Fin c → Fin n) :
    Seen nodeOf [] (init nodeOf : ChannelState n c Bin) [] where
  calls _ := rfl
  returns _ := rfl
  results _ _ before := absurd before (Nat.not_lt_zero _)
  rounds := .nil _
  held _ _ := nofun
  awaited := threshold_pos nodeOf
  sending _ := nofun

/-- A step that is not seen. -/
theorem unseen (seen : Seen nodeOf inputs state events) {input : ChannelInput n c Bin}
    {state' : ChannelState n c Bin}
    (calls : ∀ x, called (state'.channels x) =
      called (state.channels x) + if isCall x input = true then 1 else 0)
    (synced : ∀ x, (state'.channels x).synced = (state.channels x).synced)
    (held : ∀ i x, state'.owner i = .thread x →
      nodeOf x = i ∧ ∃ second, (state'.channels x).pc = .inBarrier second)
    (awaited : ∀ i, (∃ x, nodeOf x = i) → 0 < state'.count i)
    (sending : ∀ i, (state'.mailboxes i).caller ≠ .sending []) :
    Seen nodeOf (inputs ++ [input]) state' events where
  calls x := by rw [List.countP_append, List.countP_singleton, seen.calls, calls]
  returns x := (seen.returns x).trans (synced x).symm
  results x round before := seen.results x round (synced x ▸ before)
  rounds := seen.rounds
  held := held
  awaited := awaited
  sending := sending

/-- A step of one thread that is not seen. -/
theorem move (seen : Seen nodeOf inputs state events) {input : ChannelInput n c Bin}
    (quiet : ∀ y, isCall y input = false) {x : Fin c} {channel : LocalChannel c Bin}
    (synced : channel.synced = (state.channels x).synced)
    (outside : channel.pc = .outside ↔ (state.channels x).pc = .outside)
    (holding : ∀ second, (state.channels x).pc = .inBarrier second →
      channel.pc = .inBarrier second) :
    Seen nodeOf (inputs ++ [input]) (state.setChannel x channel) events := by
  apply seen.unseen
  case calls =>
    apply (Function.forall_update_iff _ fun y (ch : LocalChannel c Bin) =>
      called ch = called (state.channels y) + if isCall y input = true then 1 else 0).mpr
    simp [quiet, called, synced, outside]
  case synced =>
    exact (Function.forall_update_iff _ fun y (ch : LocalChannel c Bin) =>
      ch.synced = (state.channels y).synced).mpr ⟨synced, fun _ _ => rfl⟩
  case held =>
    intro i y owner
    obtain ⟨here, second, pc⟩ := seen.held i y owner
    refine ⟨here, second, ?_⟩
    change (Function.update state.channels x channel y).pc = _
    cases decEq y x with
    | isTrue same => subst same; rw [Function.update_self]; exact holding second pc
    | isFalse other => rw [Function.update_of_ne other]; exact pc
  case awaited => exact seen.awaited
  case sending => exact seen.sending

theorem push (seen : Seen nodeOf inputs state events) {state' : ChannelState n c Bin}
    {x target : Fin c} {bin : Bin} (channels : state'.channels = state.channels)
    (owner : state'.owner = state.owner) (count : state'.count = state.count)
    (mailboxes : state'.mailboxes = state.mailboxes) :
    Seen nodeOf (inputs ++ [.pushTo x target bin]) state'
      (events ++ [.pushed ⟨x, target, (state.channels x).synced, bin⟩]) where
  calls y := by simp [List.countP_append, seen.calls y, isCall, channels]
  returns y := by simp [List.countP_append, seen.returns y, isReturn, channels]
  results y round before := by
    obtain ⟨rets, member⟩ := seen.results y round (channels ▸ before)
    exact ⟨rets, List.mem_append_left _ member⟩
  rounds := seen.rounds.append fun item same => by
    cases same
    exact (seen.returns x).symm
  held := by
    rw [channels, owner]
    exact seen.held
  awaited := by
    rw [count]
    exact seen.awaited
  sending := by
    rw [mailboxes]
    exact seen.sending

/-- `Wait` returns. -/
theorem after (seen : Seen nodeOf inputs state events) {input : ChannelInput n c Bin}
    (quiet : ∀ y, isCall y input = false) {x : Fin c} {second : Bool} {owner : Fin n → Owner c}
    (inside : (∃ gen, (state.channels x).pc = .waiting second gen) ∨
      (state.channels x).pc = .inBarrier second)
    (held : ∀ i y, owner i = .thread y → state.owner i = .thread y ∧ y ≠ x) :
    Seen nodeOf (inputs ++ [input])
      { state.setChannel x ((state.channels x).after second) with owner }
      (events ++ (state.channels x).report x second) := by
  have still : ∀ i y, owner i = .thread y → nodeOf y = i ∧ ∃ second',
      (Function.update state.channels x ((state.channels x).after second) y).pc =
        .inBarrier second' := by
    intro i y mine
    obtain ⟨before, other⟩ := held i y mine
    rw [Function.update_of_ne other]
    exact seen.held i y before
  cases second with
  | false =>
      rw [LocalChannel.report, if_neg Bool.false_ne_true, List.append_nil]
      apply seen.unseen
      case calls =>
        apply (Function.forall_update_iff _ fun y (ch : LocalChannel c Bin) =>
          called ch = called (state.channels y) + if isCall y input = true then 1 else 0).mpr
        refine ⟨?_, fun y _ => by simp [quiet]⟩
        rcases inside with ⟨gen, pc⟩ | pc <;> simp [quiet, called, LocalChannel.after, pc]
      case synced =>
        exact (Function.forall_update_iff _ fun y (ch : LocalChannel c Bin) =>
          ch.synced = (state.channels y).synced).mpr ⟨rfl, fun _ _ => rfl⟩
      case held => exact still
      case awaited => exact seen.awaited
      case sending => exact seen.sending
  | true =>
      rw [LocalChannel.report, if_pos rfl]
      constructor
      case calls =>
        apply (Function.forall_update_iff _ fun y (ch : LocalChannel c Bin) =>
          (inputs ++ [input]).countP (isCall y) = called ch).mpr
        refine ⟨?_, fun y _ => by simp [List.countP_append, quiet, seen.calls y]⟩
        rcases inside with ⟨gen, pc⟩ | pc <;>
          simp [List.countP_append, quiet, seen.calls x, called, LocalChannel.after, pc]
      case returns =>
        apply (Function.forall_update_iff _ fun y (ch : LocalChannel c Bin) =>
          (events ++ [ChannelEvent.returned x (state.channels x).synced
            (state.channels x).rets]).countP (isReturn y) = ch.synced).mpr
        constructor
        · simp [List.countP_append, seen.returns x, isReturn, LocalChannel.after]
        · intro y other
          simp [List.countP_append, seen.returns y, isReturn, Ne.symm other]
      case results =>
        apply (Function.forall_update_iff _ fun y (ch : LocalChannel c Bin) => ∀ round,
          round < ch.synced → ∃ rets, ChannelEvent.returned y round rets ∈ events ++
            [ChannelEvent.returned x (state.channels x).synced (state.channels x).rets]).mpr
        constructor
        · intro round before
          cases Nat.lt_or_ge round (state.channels x).synced with
          | inl old =>
              obtain ⟨rets, member⟩ := seen.results x round old
              exact ⟨rets, List.mem_append_left _ member⟩
          | inr new =>
              have before : round < (state.channels x).synced + 1 := before
              obtain rfl : round = (state.channels x).synced := by omega
              exact ⟨_, List.mem_append_right _ (List.mem_singleton_self _)⟩
        · intro y _ round before
          obtain ⟨rets, member⟩ := seen.results y round before
          exact ⟨rets, List.mem_append_left _ member⟩
      case rounds =>
        exact seen.rounds.append fun _ same => by cases same
      case held => exact still
      case awaited => exact seen.awaited
      case sending => exact seen.sending

theorem wait (seen : Seen nodeOf inputs state events) {x : Fin c} {second : Bool}
    (arriving : (state.channels x).pc = .arriving second) :
    Seen nodeOf (inputs ++ [.wait x]) (state.wait nodeOf x second) events := by
  have called_same : ∀ pc : Pc, pc ≠ .outside → ∀ y,
      called (Function.update state.channels x { state.channels x with pc } y) =
        called (state.channels y) + if isCall y (.wait x : ChannelInput n c Bin) then 1 else 0 := by
    intro pc inside
    apply (Function.forall_update_iff _ fun y (ch : LocalChannel c Bin) => called ch =
      called (state.channels y) + if isCall y (.wait x : ChannelInput n c Bin) then 1 else 0).mpr
    simp [isCall, called, arriving, inside]
  have synced_same : ∀ pc : Pc, ∀ y,
      (Function.update state.channels x { state.channels x with pc } y).synced =
        (state.channels y).synced := fun pc =>
    (Function.forall_update_iff _ fun y (ch : LocalChannel c Bin) =>
      ch.synced = (state.channels y).synced).mpr ⟨rfl, fun _ _ => rfl⟩
  have elsewhere : ∀ i y pc, state.owner i = .thread y → nodeOf y = i ∧ ∃ second',
      (Function.update state.channels x { state.channels x with pc } y).pc =
        .inBarrier second' := by
    intro i y pc owner
    obtain ⟨here, second', holding⟩ := seen.held i y owner
    have other : y ≠ x := fun same => by
      rw [same, arriving] at holding
      cases holding
    rw [Function.update_of_ne other]
    exact ⟨here, second', holding⟩
  cases Nat.decEq (state.count (nodeOf x) - 1) 0 with
  | isTrue last =>
      simp only [ChannelState.wait, last, if_true]
      apply seen.unseen
      case calls => exact called_same _ nofun
      case synced => exact synced_same _
      case held =>
        apply (Function.forall_update_iff _ fun i (owner : Owner c) => ∀ y, owner = .thread y →
          nodeOf y = i ∧ ∃ second', (Function.update state.channels x
            { state.channels x with pc := .inBarrier second } y).pc = .inBarrier second').mpr
        refine ⟨?_, fun i _ y => elsewhere i y _⟩
        rintro y ⟨⟩
        exact ⟨rfl, second, by rw [Function.update_self]⟩
      case awaited =>
        exact (Function.forall_update_iff _ fun i count => (∃ x, nodeOf x = i) → 0 < count).mpr
          ⟨threshold_pos nodeOf _, fun i _ => seen.awaited i⟩
      case sending =>
        exact (Function.forall_update_iff _ fun i (mailbox : Mailbox n) =>
          mailbox.caller ≠ .sending []).mpr
          ⟨Caller.start_ne_sending (nodeOf x), fun i _ => seen.sending i⟩
  | isFalse more =>
      simp only [ChannelState.wait, more, if_false]
      apply seen.unseen
      case calls => exact called_same _ nofun
      case synced => exact synced_same _
      case held => exact fun i y => elsewhere i y _
      case awaited =>
        exact (Function.forall_update_iff _ fun i count => (∃ x, nodeOf x = i) → 0 < count).mpr
          ⟨fun _ => Nat.pos_of_ne_zero more, fun i _ => seen.awaited i⟩
      case sending => exact seen.sending

/-- A node's mailbox or constructor takes a step. -/
theorem node (seen : Seen nodeOf inputs state events) {input : ChannelInput n c Bin}
    (quiet : ∀ y, isCall y input = false) {state' : ChannelState n c Bin}
    (channels : state'.channels = state.channels) (count : state'.count = state.count)
    (owner : ∀ i x, state'.owner i = .thread x → state.owner i = .thread x)
    (sending : ∀ i, (state'.mailboxes i).caller ≠ .sending []) :
    Seen nodeOf (inputs ++ [input]) state' events := by
  apply seen.unseen
  case calls => simp [channels, quiet]
  case synced => simp [channels]
  case held =>
    intro i x mine
    rw [channels]
    exact seen.held i x (owner i x mine)
  case awaited =>
    rw [count]
    exact seen.awaited
  case sending => exact sending

end Seen

theorem step_seen {nodeOf : Fin c → Fin n} {inputs : List (ChannelInput n c Bin)}
    {state state' : ChannelState n c Bin} {events out : List (ChannelEvent c Bin)}
    {input : ChannelInput n c Bin} (seen : Seen nodeOf inputs state events)
    (enabled : state.Enabled nodeOf events input)
    (stepped : state.step nodeOf input = .ok (state', out)) :
    Seen nodeOf (inputs ++ [input]) state' (events ++ out) := by
  cases input with
  | construct i =>
      cases stepped
      rw [List.append_nil]
      apply seen.node
      case quiet => exact fun _ => rfl
      case channels => rfl
      case count => rfl
      case owner =>
        apply (Function.forall_update_iff _ fun j (owner : Owner c) => ∀ x, owner = .thread x →
          state.owner j = .thread x).mpr
        exact ⟨fun _ same => (by cases same), fun _ _ _ => id⟩
      case sending =>
        exact (Function.forall_update_iff _ fun i (mailbox : Mailbox n) =>
          mailbox.caller ≠ .sending []).mpr
          ⟨Caller.start_ne_sending i, fun i _ => seen.sending i⟩
  | constructed i =>
      cases stepped
      rw [List.append_nil]
      apply seen.node
      case quiet => exact fun _ => rfl
      case channels => rfl
      case count => rfl
      case owner =>
        apply (Function.forall_update_iff _ fun j (owner : Owner c) => ∀ x, owner = .thread x →
          state.owner j = .thread x).mpr
        exact ⟨fun _ same => (by cases same), fun _ _ _ => id⟩
      case sending => exact seen.sending
  | pushTo x target bin =>
      cases stepped
      exact seen.push rfl rfl rfl rfl
  | syncAndGet x =>
      have outside : (state.channels x).pc = .outside := enabled.2
      cases stepped
      rw [List.append_nil]
      apply seen.unseen
      case calls =>
        apply (Function.forall_update_iff _ fun y (ch : LocalChannel c Bin) => called ch =
          called (state.channels y) + if isCall y (.syncAndGet x : ChannelInput n c Bin) = true
            then 1 else 0).mpr
        constructor
        · simp [called, isCall, outside]
        · intro y other
          simp [isCall, Ne.symm other]
      case synced =>
        exact (Function.forall_update_iff _ fun y (ch : LocalChannel c Bin) =>
          ch.synced = (state.channels y).synced).mpr ⟨rfl, fun _ _ => rfl⟩
      case held =>
        intro i y owner
        obtain ⟨here, second, holding⟩ := seen.held i y owner
        have other : y ≠ x := fun same => by
          rw [same, outside] at holding
          cases holding
        refine ⟨here, second, ?_⟩
        change (Function.update state.channels x _ y).pc = _
        rw [Function.update_of_ne other]
        exact holding
      case awaited => exact seen.awaited
      case sending => exact seen.sending
  | wait x =>
      obtain ⟨-, second, arriving⟩ := enabled
      simp only [step, arriving] at stepped
      cases stepped
      rw [List.append_nil]
      exact seen.wait arriving
  | recheck x =>
      obtain ⟨free, second, gen, waiting⟩ := enabled
      simp only [step, waiting] at stepped
      split at stepped
      · cases stepped
        rw [List.append_nil]
        exact seen.node (by exact fun _ => rfl) rfl rfl (fun _ _ => id) seen.sending
      · cases stepped
        apply seen.after (by exact fun _ => rfl) (.inl ⟨gen, waiting⟩)
        rintro i y owner
        refine ⟨owner, ?_⟩
        rintro rfl
        obtain ⟨-, second', holding⟩ := seen.held i y owner
        rw [waiting] at holding
        cases holding
  | leave x =>
      obtain ⟨outside, second, inside⟩ := enabled
      simp only [step, inside] at stepped
      cases stepped
      apply seen.after (by exact fun _ => rfl) (.inr inside)
      apply (Function.forall_update_iff _ fun i (owner : Owner c) => ∀ y, owner = .thread y →
        state.owner i = .thread y ∧ y ≠ x).mpr
      refine ⟨fun _ same => (by cases same), fun i far y owner => ⟨owner, ?_⟩⟩
      rintro rfl
      exact far (seen.held i y owner).1.symm
  | drain x =>
      have draining : (state.channels x).pc = .draining := enabled
      cases stepped
      rw [List.append_nil]
      apply seen.move (by exact fun _ => rfl)
      all_goals cases queue : (state.channels x).queue <;>
        simp [LocalChannel.drain, queue, draining]
  | send i =>
      obtain ⟨j, rest, sending⟩ := enabled
      simp only [step, sending] at stepped
      cases stepped
      rw [List.append_nil]
      refine seen.node (by exact fun _ => rfl) rfl rfl (fun _ _ => id) ?_
      exact (Function.forall_update_iff _ fun i (mailbox : Mailbox n) =>
        mailbox.caller ≠ .sending []).mpr ⟨Caller.loop_ne_sending rest, fun i _ => seen.sending i⟩
  | test i =>
      have tested : ∀ j, (Function.update state.mailboxes i (state.mailboxes i).test j).caller ≠
          .sending [] := by
        apply (Function.forall_update_iff _ fun i (mailbox : Mailbox n) =>
          mailbox.caller ≠ .sending []).mpr
        refine ⟨?_, fun i _ => seen.sending i⟩
        unfold Mailbox.test
        split <;> exact fun same => by cases same
      simp only [step] at stepped
      split at stepped <;> cases stepped <;> rw [List.append_nil] <;>
        exact seen.node (by exact fun _ => rfl) rfl rfl (fun _ _ => id) tested
  | wake i =>
      cases stepped
      rw [List.append_nil]
      refine seen.node (by exact fun _ => rfl) rfl rfl (fun _ _ => id) ?_
      apply (Function.forall_update_iff _ fun i (mailbox : Mailbox n) =>
        mailbox.caller ≠ .sending []).mpr
      refine ⟨?_, fun i _ => seen.sending i⟩
      simpa [Mailbox.wake] using seen.sending i
  | receive sender recver =>
      simp only [step] at stepped
      split at stepped
      · cases stepped
        rw [List.append_nil]
        exact seen.node (by exact fun _ => rfl) rfl rfl (fun _ _ => id) seen.sending
      · split at stepped
        · next mailbox handled =>
            cases stepped
            rw [List.append_nil]
            refine seen.node (by exact fun _ => rfl) rfl rfl (fun _ _ => id) ?_
            apply (Function.forall_update_iff _ fun i (mailbox : Mailbox n) =>
              mailbox.caller ≠ .sending []).mpr
            refine ⟨?_, fun i _ => seen.sending i⟩
            exact fun sent => seen.sending recver ((Mailbox.receiveBarrier_sending handled).mp sent)
        · cases stepped
      · split at stepped
        · cases stepped
        · cases stepped
          rw [List.append_nil]
          apply Seen.move
          case quiet => exact fun _ => rfl
          case synced => rfl
          case outside => exact Iff.rfl
          case holding => exact fun _ => id
          case seen =>
            exact ⟨seen.calls, seen.returns, seen.results, seen.rounds, seen.held, seen.awaited,
              seen.sending⟩

theorem run_seen {nodeOf : Fin c → Fin n} {inputs : List (ChannelInput n c Bin)}
    {state : ChannelState n c Bin} {events : List (ChannelEvent c Bin)}
    (run : Machine.Runs (step nodeOf) (Enabled nodeOf) (init nodeOf) inputs state events) :
    Seen nodeOf inputs state events := by
  refine run.invariant (P := Seen nodeOf) (Seen.start nodeOf) ?_
  intro _ state events input state' out _ seen enabled stepped
  exact step_seen seen enabled stepped

/-! ## Nobody waits for ever -/

/-- The steps that do more than look again; new calls are not among them. -/
def Moves (nodeOf : Fin c → Fin n) (state : ChannelState n c Bin) : ChannelInput n c Bin → Prop
  | .pushTo .. | .syncAndGet _ | .wake _ => False
  | .recheck x => ∃ second gen, (state.channels x).pc = .waiting second gen ∧
      gen ≠ state.generation (nodeOf x)
  | _ => True

/-- Nothing is left to do before somebody calls again. -/
def Quiescent (nodeOf : Fin c → Fin n) (state : ChannelState n c Bin)
    (events : List (ChannelEvent c Bin)) : Prop :=
  ∀ input, state.Enabled nodeOf events input → ¬ state.Moves nodeOf input

section Quiescence

variable {nodeOf : Fin c → Fin n} {inputs : List (ChannelInput n c Bin)}
  {state : ChannelState n c Bin} {events : List (ChannelEvent c Bin)}

/-- A node that is furthest behind is not in the barrier. -/
theorem Quiescent.outside (quiescent : Quiescent nodeOf state events)
    (inv : Inv nodeOf state events) (seen : Seen nodeOf inputs state events) {j : Fin n}
    (last : ∀ i, state.entered j ≤ state.entered i) :
    (state.mailboxes j).caller = .outside := by
  have none_in_flight : ∀ k l, (state.links k l).inFlight = [] := by
    intro k l
    cases Classical.em ((state.links k l).inFlight = []) with
    | inl none => exact none
    | inr some_packet => exact absurd trivial (quiescent (.receive k l) some_packet)
  have blocked : ∀ i, (state.mailboxes i).caller = .outside ∨
      (state.mailboxes i).caller = .asleep := by
    intro i
    cases caller : (state.mailboxes i).caller with
    | outside => exact .inl rfl
    | asleep => exact .inr rfl
    | testing => exact absurd trivial (quiescent (.test i) caller)
    | sending rest =>
        cases rest with
        | nil => exact absurd caller (seen.sending i)
        | cons k rest => exact absurd trivial (quiescent (.send i) ⟨k, rest, caller⟩)
  cases blocked j with
  | inl outside => exact outside
  | inr asleep =>
      have inside : state.entered j ≠ state.returned j := by
        intro same
        have := (inv.counted.outside j).mpr same
        rw [asleep] at this
        cases this
      have := inv.counted.inStep.inside j
      have full := inv.counted.count_full (i := j)
        (fun i => by have := last i; omega) (by simp [none_in_flight])
        (fun i => by rcases blocked i with caller | caller <;> simp [caller])
      exact absurd full (inv.counted.asleep j asleep)

/-- On a node furthest behind, `mu_` is free. -/
theorem Quiescent.free (quiescent : Quiescent nodeOf state events) (inv : Inv nodeOf state events)
    (seen : Seen nodeOf inputs state events) {j : Fin n}
    (last : ∀ i, state.entered j ≤ state.entered i) : state.owner j = .free := by
  have outside := quiescent.outside inv seen last
  cases owner : state.owner j with
  | free => rfl
  | fresh => exact absurd trivial (quiescent (.construct j) owner)
  | constructor => exact absurd trivial (quiescent (.constructed j) ⟨owner, outside⟩)
  | thread x =>
      obtain ⟨rfl, holding⟩ := seen.held j x owner
      exact absurd trivial (quiescent (.leave x) ⟨outside, holding⟩)

/-- On a node furthest behind, a thread that the next barrier waits for is in none of its calls. -/
theorem Quiescent.missing (quiescent : Quiescent nodeOf state events) (inv : Inv nodeOf state events)
    (seen : Seen nodeOf inputs state events) {x : Fin c}
    (last : ∀ i, state.entered (nodeOf x) ≤ state.entered i)
    (missing : (state.channels x).arrived = state.entered (nodeOf x) - 1) :
    (state.channels x).pc = .outside := by
  have free := quiescent.free inv seen last
  cases pc : (state.channels x).pc with
  | outside => rfl
  | arriving second => exact absurd trivial (quiescent (.wait x) ⟨free, second, pc⟩)
  | draining => exact absurd trivial (quiescent (.drain x) pc)
  | inBarrier second =>
      have owner := (inv.positions.holder x second pc).1
      rw [free] at owner
      cases owner
  | waiting second gen =>
      have passed : gen ≠ state.generation (nodeOf x) := by
        have some_wait : (state.channels x).arrived ≠ 0 := by
          cases second <;> simp [LocalChannel.arrived, pc]
        obtain ⟨rounds, arrived⟩ := Nat.exists_eq_succ_of_ne_zero some_wait
        rw [inv.positions.waiting x second gen pc, inv.positions.generation, ← missing, arrived,
          Nat.succ_sub_one, Nat.succ_eq_add_one, UInt32.ofNat_add]
        intro same
        simp at same
      exact absurd ⟨second, gen, pc, passed⟩ (quiescent (.recheck x) ⟨free, second, gen, pc⟩)

/-- When all local channels have called `SyncAndGet` equally often, all calls have returned. -/
theorem Quiescent.returned (quiescent : Quiescent nodeOf state events)
    (inv : Inv nodeOf state events) (seen : Seen nodeOf inputs state events)
    (threads : ∀ i, ∃ x, nodeOf x = i) {k : Nat} (calls : ∀ x, called (state.channels x) = k)
    (x : Fin c) : (state.channels x).pc = .outside := by
  have someone : Nonempty (Fin n) := ⟨nodeOf x⟩
  obtain ⟨j, last⟩ := Finite.exists_min state.entered
  have round : state.entered j - 1 = 2 * k := by
    have awaited := seen.awaited j (threads j)
    rw [inv.positions.count] at awaited
    obtain ⟨y, -, missing⟩ := List.countP_pos_iff.mp awaited
    obtain ⟨rfl, missing⟩ := of_decide_eq_true missing
    have outside := quiescent.missing inv seen last missing
    have calls := calls y
    rw [called, if_pos outside, Nat.add_zero] at calls
    rw [← missing, LocalChannel.arrived, outside]
    dsimp only
    rw [calls]
  have built : state.entered j ≠ 0 := by
    intro none
    have fresh := (inv.positions.fresh j).mpr none
    rw [quiescent.free inv seen last] at fresh
    cases fresh
  cases Classical.em ((state.channels x).pc = .outside) with
  | inl outside => exact outside
  | inr inside =>
      have calls := calls x
      rw [called, if_neg inside] at calls
      have bound : (state.channels x).arrived ≤ 2 * (state.channels x).synced + 2 := by
        unfold LocalChannel.arrived
        split <;> simp
      have := inv.positions.arrived_ge x
      have := last (nodeOf x)
      apply quiescent.missing inv seen
      · intro i
        have := last i
        omega
      · omega

end Quiescence

/-- What a finished round has returned. -/
theorem Inv.exchanged {nodeOf : Fin c → Fin n} {state : ChannelState n c Bin}
    {events : List (ChannelEvent c Bin)} (inv : Inv nodeOf state events) {y : Fin c} {round : Nat}
    {rets : List Bin} (returned : .returned y round rets ∈ events) :
    rets.Perm (((pushedTo events y).filter fun item => item.round = round).map Item.bin) := by
  obtain ⟨finished, rfl⟩ := inv.traffic.results y round rets returned
  apply List.Perm.map
  have later : ∀ item : Item c Bin, (state.channels y).emptied ≤ item.round →
      ¬ item.round = round := by
    intro item above
    have := (state.channels y).synced_le_emptied
    omega
  have queue : Multiset.filter (fun item => item.round = round)
      ((state.channels y).queue : Multiset (Item c Bin)) = 0 :=
    Multiset.filter_eq_nil.mpr fun item member => later item (inv.traffic.queued y item member)
  have inFlight : Multiset.filter (fun item => item.round = round)
      (∑ i, (itemsTo y (state.links i (nodeOf y)).inFlight : Multiset (Item c Bin))) = 0 := by
    apply Multiset.filter_eq_nil.mpr
    intro item member
    obtain ⟨i, -, member⟩ := Multiset.mem_sum.mp member
    exact later item (inv.traffic.pending y i item member)
  have conserve := congrArg (Multiset.filter fun item => item.round = round)
    (inv.traffic.conserve y)
  rw [Multiset.filter_add, Multiset.filter_add, queue, inFlight, zero_add, add_zero,
    Multiset.filter_coe, Multiset.filter_coe, Multiset.coe_eq_coe] at conserve
  exact conserve.symm

/-- The items pushed to `y` between its pushers' calls number `round - 1` and `round`. -/
def pushedIn (events : List (ChannelEvent c Bin)) (y : Fin c) (round : Nat) : List Bin :=
  ((pushedTo events y).filter fun item => item.round = round).map Item.bin

/-- `SyncAndGet` is an exact all-to-all exchange. -/
theorem exact_exchange {nodeOf : Fin c → Fin n} {inputs : List (ChannelInput n c Bin)}
    {state : ChannelState n c Bin} {events : List (ChannelEvent c Bin)}
    (run : Machine.Runs (step nodeOf) (Enabled nodeOf) (init nodeOf) inputs state events) :
    (∀ input, state.Enabled nodeOf events input → ∃ result, state.step nodeOf input = .ok result) ∧
      RoundsMatch events ∧
      (∀ y round rets, .returned y round rets ∈ events → rets.Perm (pushedIn events y round)) ∧
      ((∀ i, ∃ x, nodeOf x = i) → Quiescent nodeOf state events →
        ∀ k, (∀ x, inputs.countP (isCall x) = k) →
          ∀ x round, round < k → ∃ rets, .returned x round rets ∈ events) := by
  have inv := run_inv run
  have seen := run_seen run
  refine ⟨?_, seen.rounds, fun y round rets returned => inv.exchanged returned, ?_⟩
  · intro input enabled
    obtain ⟨state', out, stepped, -⟩ := step_inv inv enabled
    exact ⟨_, stepped⟩
  · intro threads quiescent k calls x round before
    have called_eq : ∀ y, called (state.channels y) = k := fun y =>
      (seen.calls y).symm.trans (calls y)
    have outside := quiescent.returned inv seen threads called_eq x
    have all := called_eq x
    rw [called, if_pos outside, Nat.add_zero] at all
    exact seen.results x round (all ▸ before)

/-- Nothing is left to do when everybody is back from all calls. -/
theorem quiescent_of_outside {nodeOf : Fin c → Fin n} {state : ChannelState n c Bin}
    {events : List (ChannelEvent c Bin)} (free : ∀ i, state.owner i = .free)
    (outside : ∀ i, (state.mailboxes i).caller = .outside)
    (arrived : ∀ i j, (state.links i j).inFlight = [])
    (idle : ∀ x, (state.channels x).pc = .outside) : Quiescent nodeOf state events := by
  intro input enabled moves
  cases input with
  | construct i => simp [Enabled, free] at enabled
  | constructed i => simp [Enabled, free] at enabled
  | pushTo x target bin => exact moves
  | syncAndGet x => exact moves
  | wait x => simp [Enabled, idle] at enabled
  | recheck x => simp [Enabled, idle] at enabled
  | leave x => simp [Enabled, idle] at enabled
  | drain x => simp [Enabled, idle] at enabled
  | send i => simp [Enabled, outside] at enabled
  | test i => simp [Enabled, outside] at enabled
  | wake i => exact moves
  | receive sender recver => exact enabled (arrived sender recver)

/-- Local channel 0 pushes to local channel 1 on another node. -/
theorem exact_exchange_twoNodes :
    ∃ events : List (ChannelEvent 2 Nat),
      .returned 1 0 [7] ∈ events ∧ [7].Perm (pushedIn events 1 0) ∧
        ∃ rets, .returned 0 0 rets ∈ events := by
  obtain ⟨state, events, run, returned, free, outside, arrived, idle⟩ := Machine.runs_of_exec
    (step id) (Enabled id) (init id : ChannelState 2 2 Nat)
    [.construct 0, .send 0, .send 0, .construct 1, .send 1, .send 1, .receive 0 0, .receive 0 1,
      .receive 1 0, .receive 1 1, .test 0, .test 1, .constructed 0, .constructed 1,
      .pushTo 0 1 7, .syncAndGet 0, .wait 0, .send 0, .send 0, .syncAndGet 1, .wait 1, .send 1,
      .send 1, .receive 0 0, .receive 0 1, .receive 0 1, .receive 1 0, .receive 1 1, .test 0,
      .test 1, .leave 0, .leave 1, .drain 0, .drain 1, .drain 1, .wait 0, .wait 1, .send 0,
      .send 0, .send 1, .send 1, .receive 0 0, .receive 0 1, .receive 1 0, .receive 1 1, .test 0,
      .test 1, .leave 0, .leave 1]
    (fun state events => .returned 1 0 [7] ∈ events ∧ (∀ i, state.owner i = .free) ∧
      (∀ i, (state.mailboxes i).caller = .outside) ∧ (∀ i j, (state.links i j).inFlight = []) ∧
      ∀ x, (state.channels x).pc = .outside) (by decide +kernel)
  obtain ⟨-, -, exchanged, all_return⟩ := exact_exchange run
  exact ⟨events, returned, exchanged 1 0 [7] returned,
    all_return (fun i => ⟨i, rfl⟩) (quiescent_of_outside free outside arrived idle) 1 (by decide) 0 0
      Nat.zero_lt_one⟩

end ChannelState

end FlexPS.Comm2
