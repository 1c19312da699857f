import FlexPS.Comm2.Threads

/-! # The items between the local channels

The barrier messages of the first `Wait` of a round push all items of the round
before them, so that a local channel that finds its queue empty has them all.
-/

namespace FlexPS.Comm2

namespace ChannelState

variable {n c : Nat} {Bin : Type}

namespace Packets

/-- Barrier messages of one round. -/
def isBarrierOf (round : Nat) : ChannelPacket c Bin → Bool
  | .barrier _ round' => round' = round
  | .other _ => false

/-- The items for one local channel. -/
def itemsTo (y : Fin c) (packets : List (ChannelPacket c Bin)) : List (Item c Bin) :=
  packets.filterMap fun
    | .other item => if item.target = y then some item else none
    | .barrier .. => none

@[simp] theorem itemsTo_append (y : Fin c) (xs ys : List (ChannelPacket c Bin)) :
    itemsTo y (xs ++ ys) = itemsTo y xs ++ itemsTo y ys := List.filterMap_append

theorem mem_itemsTo {y : Fin c} {packets : List (ChannelPacket c Bin)} {item : Item c Bin} :
    item ∈ itemsTo y packets ↔ .other item ∈ packets ∧ item.target = y := by
  unfold itemsTo
  rw [List.mem_filterMap]
  constructor
  · rintro ⟨packet, member, found⟩
    cases packet with
    | barrier version round => cases found
    | other item' =>
        simp only [Option.ite_none_right_eq_some, Option.some.injEq] at found
        obtain ⟨target, rfl⟩ := found
        exact ⟨member, target⟩
  · rintro ⟨member, target⟩
    exact ⟨_, member, by simp [target]⟩

/-- A barrier message sent before an item belongs to an earlier round than the item's
    first `Wait`. -/
def Before (p q : ChannelPacket c Bin) : Prop :=
  ∀ version round item, p = .barrier version round → q = .other item → round ≤ 2 * item.round

end Packets

/-- The items pushed in a run. -/
def pushes (events : List (ChannelEvent c Bin)) : List (Item c Bin) :=
  events.filterMap fun
    | .pushed item => some item
    | .returned .. => none

/-- The items pushed to a local channel. -/
def pushedTo (events : List (ChannelEvent c Bin)) (y : Fin c) : List (Item c Bin) :=
  (pushes events).filter fun item => item.target = y

open Packets

structure Traffic (nodeOf : Fin c → Fin n) (links : Fin n → Fin n → Link (ChannelPacket c Bin))
    (channels : Fin c → LocalChannel c Bin) (entered : Fin n → Nat)
    (events : List (ChannelEvent c Bin)) : Prop where
  versions : ∀ i j version round, .barrier version round ∈ (links i j).inFlight →
    version = UInt32.ofNat round
  order : ∀ i j, (links i j).sent.Pairwise Before
  routed : ∀ i j item, .other item ∈ (links i j).inFlight → nodeOf item.target = j
  pushed_round : ∀ item ∈ pushes events, 2 * item.round ≤ (channels item.source).left
  pushed_built : pushes events ≠ [] → ∀ j, 1 ≤ entered j
  conserve : ∀ y, (pushedTo events y : Multiset (Item c Bin)) =
    (channels y).queue + (channels y).drained +
      ∑ i, (itemsTo y (links i (nodeOf y)).inFlight : Multiset (Item c Bin))
  pending : ∀ y i, ∀ item ∈ itemsTo y (links i (nodeOf y)).inFlight,
    (channels y).emptied ≤ item.round
  queued : ∀ y, ∀ item ∈ (channels y).queue, (channels y).emptied ≤ item.round
  drained : ∀ y, ∀ item ∈ (channels y).drained, 2 * item.round < (channels y).left
  rets : ∀ y, (channels y).left = 2 * (channels y).synced + 1 →
    (channels y).rets = ((channels y).drained.filter fun item =>
      item.round = (channels y).synced).map Item.bin
  results : ∀ y round rets, .returned y round rets ∈ events → round < (channels y).synced ∧
    rets = ((channels y).drained.filter fun item => item.round = round).map Item.bin

namespace Traffic

variable {nodeOf : Fin c → Fin n} {links : Fin n → Fin n → Link (ChannelPacket c Bin)}
  {channels : Fin c → LocalChannel c Bin} {entered : Fin n → Nat}
  {events : List (ChannelEvent c Bin)}

theorem start : Traffic nodeOf (fun _ _ => .empty) (fun _ => (.init : LocalChannel c Bin))
    (fun _ => 0) [] where
  versions _ _ _ _ member := absurd member List.not_mem_nil
  order _ _ := List.Pairwise.nil
  routed _ _ _ member := absurd member List.not_mem_nil
  pushed_round _ member := absurd member List.not_mem_nil
  pushed_built some_push := absurd rfl some_push
  conserve _ := by simp [LocalChannel.init, Link.empty, pushedTo, pushes, itemsTo]
  pending _ _ _ member := absurd member List.not_mem_nil
  queued _ _ member := absurd member List.not_mem_nil
  drained _ _ member := absurd member List.not_mem_nil
  rets _ _ := rfl
  results _ _ _ member := absurd member List.not_mem_nil

theorem pushed_of_queued (traffic : Traffic nodeOf links channels entered events) {y : Fin c}
    {item : Item c Bin} (member : item ∈ (channels y).queue) : item ∈ pushes events := by
  have pushed : item ∈ (pushedTo events y : Multiset (Item c Bin)) := by
    rw [traffic.conserve y]
    simp [member]
  exact List.mem_of_mem_filter (Multiset.mem_coe.mp pushed)

theorem pushed_of_inFlight (traffic : Traffic nodeOf links channels entered events) {y : Fin c}
    {i : Fin n} {item : Item c Bin} (member : item ∈ itemsTo y (links i (nodeOf y)).inFlight) :
    item ∈ pushes events := by
  have pushed : item ∈ (pushedTo events y : Multiset (Item c Bin)) := by
    rw [traffic.conserve y]
    exact Multiset.mem_add.mpr (.inr (Multiset.mem_sum.mpr ⟨i, Finset.mem_univ i, member⟩))
  exact List.mem_of_mem_filter (Multiset.mem_coe.mp pushed)

theorem entered_mono (traffic : Traffic nodeOf links channels entered events)
    {entered' : Fin n → Nat} (more : ∀ i, entered i ≤ entered' i) :
    Traffic nodeOf links channels entered' events :=
  { traffic with
    pushed_built := fun some_push i => (traffic.pushed_built some_push i).trans (more i) }

/-- A thread moves and keeps its items. -/
theorem move (traffic : Traffic nodeOf links channels entered events) {x : Fin c}
    {channel : LocalChannel c Bin} (queue : channel.queue = (channels x).queue)
    (drained : channel.drained = (channels x).drained)
    (synced_le : (channels x).synced ≤ channel.synced) (left_le : (channels x).left ≤ channel.left)
    (pending : ∀ i, ∀ item ∈ itemsTo x (links i (nodeOf x)).inFlight, channel.emptied ≤ item.round)
    (queued : ∀ item ∈ channel.queue, channel.emptied ≤ item.round)
    (rets : channel.left = 2 * channel.synced + 1 → channel.rets =
      (channel.drained.filter fun item => item.round = channel.synced).map Item.bin) :
    Traffic nodeOf links (Function.update channels x channel) entered events where
  versions := traffic.versions
  order := traffic.order
  routed := traffic.routed
  pushed_round item member := by
    have mono : ∀ y, (channels y).left ≤ (Function.update channels x channel y).left :=
      (Function.forall_update_iff _ fun y ch => (channels y).left ≤ LocalChannel.left ch).mpr
        ⟨left_le, fun _ _ => le_rfl⟩
    exact (traffic.pushed_round item member).trans (mono _)
  pushed_built := traffic.pushed_built
  conserve := (Function.forall_update_iff _ fun y (ch : LocalChannel c Bin) =>
    (pushedTo events y : Multiset (Item c Bin)) = ch.queue + ch.drained +
      ∑ i, (itemsTo y (links i (nodeOf y)).inFlight : Multiset (Item c Bin))).mpr
      ⟨by rw [queue, drained]; exact traffic.conserve x, fun y _ => traffic.conserve y⟩
  pending := (Function.forall_update_iff _ fun y ch => ∀ i,
    ∀ item ∈ itemsTo y (links i (nodeOf y)).inFlight, LocalChannel.emptied ch ≤ item.round).mpr
      ⟨pending, fun y _ => traffic.pending y⟩
  queued := (Function.forall_update_iff _ fun _ ch =>
    ∀ item ∈ LocalChannel.queue ch, LocalChannel.emptied ch ≤ item.round).mpr
      ⟨queued, fun y _ => traffic.queued y⟩
  drained := (Function.forall_update_iff _ fun _ ch =>
    ∀ item ∈ LocalChannel.drained ch, 2 * item.round < LocalChannel.left ch).mpr
      ⟨fun item member => (traffic.drained x item (drained ▸ member)).trans_le left_le,
        fun y _ => traffic.drained y⟩
  rets := (Function.forall_update_iff _ fun _ ch =>
    LocalChannel.left ch = 2 * LocalChannel.synced ch + 1 → LocalChannel.rets ch =
      ((LocalChannel.drained ch).filter fun item => item.round = LocalChannel.synced ch).map
        Item.bin).mpr ⟨rets, fun y _ => traffic.rets y⟩
  results := (Function.forall_update_iff _ fun y ch => ∀ round rets, .returned y round rets ∈ events →
    round < LocalChannel.synced ch ∧
      rets = ((LocalChannel.drained ch).filter fun item => item.round = round).map Item.bin).mpr
      ⟨fun round rets member => by
        obtain ⟨before, result⟩ := traffic.results x round rets member
        exact ⟨before.trans_le synced_le, drained ▸ result⟩, fun y _ => traffic.results y⟩

/-- A thread moves inside `Wait` or to it. -/
theorem step_inside (traffic : Traffic nodeOf links channels entered events) {x : Fin c} {pc : Pc}
    (left : ({ channels x with pc } : LocalChannel c Bin).left = (channels x).left)
    (emptied : ({ channels x with pc } : LocalChannel c Bin).emptied = (channels x).emptied) :
    Traffic nodeOf links (Function.update channels x { channels x with pc }) entered events := by
  apply traffic.move
  case queue => rfl
  case drained => rfl
  case synced_le => exact le_rfl
  case left_le => exact left.ge
  case pending => exact fun i item member => emptied.trans_le (traffic.pending x i item member)
  case queued => exact fun item member => emptied.trans_le (traffic.queued x item member)
  case rets => exact fun middle => traffic.rets x (left ▸ middle)

/-- What is seen when `SyncAndGet` returns. -/
theorem report (traffic : Traffic nodeOf links channels entered events) {x : Fin c} {round : Nat}
    {rets : List Bin} (finished : round < (channels x).synced)
    (result : rets = ((channels x).drained.filter fun item => item.round = round).map Item.bin) :
    Traffic nodeOf links channels entered (events ++ [.returned x round rets]) := by
  have same : pushes (events ++ [.returned x round rets]) = pushes events := by
    simp [pushes]
  have sameTo : ∀ y, pushedTo (events ++ [.returned x round rets]) y = pushedTo events y := by
    intro y
    simp only [pushedTo, same]
  constructor
  case versions => exact traffic.versions
  case order => exact traffic.order
  case routed => exact traffic.routed
  case pushed_round => simpa only [same] using traffic.pushed_round
  case pushed_built => simpa only [same] using traffic.pushed_built
  case conserve => simpa only [sameTo] using traffic.conserve
  case pending => exact traffic.pending
  case queued => exact traffic.queued
  case drained => exact traffic.drained
  case rets => exact traffic.rets
  case results =>
    intro y round' rets' member
    cases List.mem_append.mp member with
    | inl old => exact traffic.results y round' rets' old
    | inr new =>
        cases List.mem_singleton.mp new
        exact ⟨finished, result⟩

/-- `Wait` returns. -/
theorem after (traffic : Traffic nodeOf links channels entered events) {x : Fin c} {second : Bool}
    (inside : (∃ gen, (channels x).pc = .waiting second gen) ∨
      (channels x).pc = .inBarrier second) :
    Traffic nodeOf links (Function.update channels x ((channels x).after second)) entered
      (events ++ (channels x).report x second) := by
  have emptied := LocalChannel.after_emptied inside
  have left := LocalChannel.after_left inside
  have grows := (channels x).left_le_arrived
  cases second with
  | false =>
      rw [LocalChannel.report, if_neg Bool.false_ne_true, List.append_nil]
      apply traffic.move
      case queue => rfl
      case drained => rfl
      case synced_le => exact le_rfl
      case left_le => exact left ▸ grows
      case pending => exact fun i item member => emptied.trans_le (traffic.pending x i item member)
      case queued => exact fun item member => emptied.trans_le (traffic.queued x item member)
      case rets =>
        -- the queue is emptied from the start in a new round
        intro _
        have none : ((channels x).drained.filter fun item => item.round = (channels x).synced) =
            [] := by
          apply List.filter_eq_nil_iff.mpr
          intro item member
          have before := traffic.drained x item member
          have unfinished : (channels x).left = 2 * (channels x).synced := by
            rcases inside with ⟨gen, pc⟩ | pc <;> simp [LocalChannel.left, pc]
          simp only [decide_eq_true_eq]
          omega
        exact (congrArg (List.map Item.bin) none).symm
  | true =>
      have middle : (channels x).left = 2 * (channels x).synced + 1 := by
        rcases inside with ⟨gen, pc⟩ | pc <;> simp [LocalChannel.left, pc]
      rw [LocalChannel.report, if_pos rfl]
      apply Traffic.report
      case finished =>
        rw [Function.update_self]
        exact Nat.lt_succ_self _
      case result =>
        rw [Function.update_self]
        exact traffic.rets x middle
      · apply traffic.move
        case queue => rfl
        case drained => rfl
        case synced_le => exact Nat.le_succ _
        case left_le => exact left ▸ grows
        case pending => exact fun i item member => emptied.trans_le (traffic.pending x i item member)
        case queued => exact fun item member => emptied.trans_le (traffic.queued x item member)
        case rets =>
          intro odd
          have even : ((channels x).after true).left = 2 * ((channels x).after true).synced := rfl
          omega

/-- One item is taken from the queue; it belongs to the round of its taker. -/
theorem take (traffic : Traffic nodeOf links channels entered events) {x : Fin c}
    {item : Item c Bin} {queue : List (Item c Bin)} (draining : (channels x).pc = .draining)
    (next : (channels x).queue = item :: queue)
    (arrived : (channels item.source).left ≤ (channels x).arrived) :
    Traffic nodeOf links (Function.update channels x (channels x).drain) entered events := by
  have drain : (channels x).drain = { channels x with
      queue := queue
      rets := (channels x).rets ++ [item.bin]
      drained := (channels x).drained ++ [item] } := by
    simp only [LocalChannel.drain, next]
  have left : (channels x).left = 2 * (channels x).synced + 1 := by
    simp [LocalChannel.left, draining]
  have emptied : (channels x).emptied = (channels x).synced := by
    simp [LocalChannel.emptied, draining]
  have round : item.round = (channels x).synced := by
    have member : item ∈ (channels x).queue := next ▸ List.mem_cons_self
    have early := traffic.pushed_round item (traffic.pushed_of_queued member)
    have late := traffic.queued x item member
    have : (channels x).arrived = 2 * (channels x).synced + 1 := by
      simp [LocalChannel.arrived, draining]
    omega
  rw [drain]
  constructor
  case versions => exact traffic.versions
  case order => exact traffic.order
  case routed => exact traffic.routed
  case pushed_round =>
    intro item' member
    have before := traffic.pushed_round item' member
    cases decEq item'.source x with
    | isTrue same =>
        rw [same] at before ⊢
        rw [Function.update_self]
        exact before
    | isFalse other =>
        rw [Function.update_of_ne other]
        exact before
  case pushed_built => exact traffic.pushed_built
  case conserve =>
    apply (Function.forall_update_iff _ fun y (ch : LocalChannel c Bin) =>
      (pushedTo events y : Multiset (Item c Bin)) = ch.queue + ch.drained +
        ∑ i, (itemsTo y (links i (nodeOf y)).inFlight : Multiset (Item c Bin))).mpr
    refine ⟨?_, fun y _ => traffic.conserve y⟩
    rw [traffic.conserve x, next]
    congr 1
    rw [Multiset.coe_add, Multiset.coe_add, Multiset.coe_eq_coe]
    simpa using (List.perm_append_singleton item (queue ++ (channels x).drained)).symm
  case pending => 
    exact (Function.forall_update_iff _ fun y ch => ∀ i,
      ∀ item ∈ itemsTo y (links i (nodeOf y)).inFlight, LocalChannel.emptied ch ≤ item.round).mpr
        ⟨traffic.pending x, fun y _ => traffic.pending y⟩
  case queued =>
    exact (Function.forall_update_iff _ fun _ ch =>
      ∀ item ∈ LocalChannel.queue ch, LocalChannel.emptied ch ≤ item.round).mpr
        ⟨fun item' member => traffic.queued x item' (next ▸ List.mem_cons_of_mem _ member),
          fun y _ => traffic.queued y⟩
  case drained =>
    apply (Function.forall_update_iff _ fun _ ch =>
      ∀ item ∈ LocalChannel.drained ch, 2 * item.round < LocalChannel.left ch).mpr
    refine ⟨fun item' member => ?_, fun y _ => traffic.drained y⟩
    change 2 * item'.round < (channels x).left
    cases List.mem_append.mp member with
    | inl old => exact traffic.drained x item' old
    | inr new =>
        cases List.mem_singleton.mp new
        omega
  case rets =>
    apply (Function.forall_update_iff _ fun _ ch =>
      LocalChannel.left ch = 2 * LocalChannel.synced ch + 1 → LocalChannel.rets ch =
        ((LocalChannel.drained ch).filter fun item => item.round = LocalChannel.synced ch).map
          Item.bin).mpr
    refine ⟨fun _ => ?_, fun y _ => traffic.rets y⟩
    simp [traffic.rets x left, round]
  case results =>
    apply (Function.forall_update_iff _ fun y ch => ∀ round rets,
      .returned y round rets ∈ events → round < LocalChannel.synced ch ∧
        rets = ((LocalChannel.drained ch).filter fun item => item.round = round).map Item.bin).mpr
    refine ⟨fun round' rets member => ?_, fun y _ => traffic.results y⟩
    obtain ⟨before, result⟩ := traffic.results x round' rets member
    have other : item.round ≠ round' := by omega
    refine ⟨before, ?_⟩
    simp [result, other]

/-- The loop over the queue ends: with the barrier messages of the first `Wait` here, so is
    everything that was pushed before. -/
theorem finish (traffic : Traffic nodeOf links channels entered events) {x : Fin c}
    (draining : (channels x).pc = .draining) (empty : (channels x).queue = [])
    (flushed : ∀ i, ∃ version, .barrier version (2 * (channels x).synced + 1) ∈
      (links i (nodeOf x)).arrived) :
    Traffic nodeOf links (Function.update channels x (channels x).drain) entered events := by
  have drain : (channels x).drain = { channels x with pc := .arriving true } := by
    simp only [LocalChannel.drain, empty]
  have left : (channels x).left = 2 * (channels x).synced + 1 := by
    simp [LocalChannel.left, draining]
  rw [drain]
  apply traffic.move
  case queue => rfl
  case drained => rfl
  case synced_le => exact le_rfl
  case left_le => exact left.le
  case queued => simp [empty]
  case rets => exact fun _ => traffic.rets x left
  case pending =>
    intro i item member
    obtain ⟨version, barrier⟩ := flushed i
    have order : (links i (nodeOf x)).sent.Pairwise Before := traffic.order i (nodeOf x)
    have later := (List.pairwise_append.mp order).2.2 _ barrier _ (mem_itemsTo.mp member).1
    have := later version _ item rfl rfl
    change (channels x).synced + 1 ≤ item.round
    omega

theorem inFlight_send (nodeOf : Fin c → Fin n) (links : Fin n → Fin n → Link (ChannelPacket c Bin))
    (i j : Fin n) (packet : ChannelPacket c Bin) (y : Fin c) :
    (∑ k, (itemsTo y (Link.set links i j ((links i j).send packet) k (nodeOf y)).inFlight :
        Multiset (Item c Bin))) =
      (∑ k, (itemsTo y (links k (nodeOf y)).inFlight : Multiset (Item c Bin))) +
        if nodeOf y = j then (itemsTo y [packet] : Multiset (Item c Bin)) else 0 := by
  have total := Link.sum_set (fun link => (itemsTo y link.inFlight : Multiset (Item c Bin))) links
    i j ((links i j).send packet) (nodeOf y)
  cases decEq (nodeOf y) j with
  | isTrue here =>
      simp only [here, if_true] at total ⊢
      simp only [Link.send, itemsTo_append, ← Multiset.coe_add] at total
      rw [← add_assoc, add_right_comm] at total
      exact add_right_cancel total
  | isFalse elsewhere => simpa only [elsewhere, if_false, add_zero] using total

theorem inFlight_receive (nodeOf : Fin c → Fin n)
    (links : Fin n → Fin n → Link (ChannelPacket c Bin)) {i j : Fin n}
    {packet : ChannelPacket c Bin} {rest : List (ChannelPacket c Bin)}
    (next : (links i j).inFlight = packet :: rest) (y : Fin c) :
    (∑ k, (itemsTo y (links k (nodeOf y)).inFlight : Multiset (Item c Bin))) =
      (∑ k, (itemsTo y (Link.set links i j (links i j).receive k (nodeOf y)).inFlight :
        Multiset (Item c Bin))) +
        if nodeOf y = j then (itemsTo y [packet] : Multiset (Item c Bin)) else 0 := by
  have total := Link.sum_set (fun link => (itemsTo y link.inFlight : Multiset (Item c Bin))) links
    i j (links i j).receive (nodeOf y)
  have front : packet :: rest = [packet] ++ rest := rfl
  cases decEq (nodeOf y) j with
  | isTrue here =>
      simp only [here, if_true] at total ⊢
      rw [Link.receive_eq next, next, front, itemsTo_append, ← Multiset.coe_add, ← add_assoc] at total
      rw [Link.receive_eq next]
      exact (add_right_cancel total).symm
  | isFalse elsewhere => simpa only [elsewhere, if_false, add_zero] using total.symm

/-- A link carries one more packet. -/
theorem order_send (traffic : Traffic nodeOf links channels entered events) {i j : Fin n}
    {packet : ChannelPacket c Bin} (before : ∀ p ∈ (links i j).sent, Before p packet) (k l : Fin n) :
    (Link.set links i j ((links i j).send packet) k l).sent.Pairwise Before := by
  rw [Link.set_apply]
  split
  · rw [Link.sent_send]
    apply List.pairwise_append.mpr
    refine ⟨traffic.order i j, List.pairwise_singleton _ _, ?_⟩
    intro p member q last
    cases List.mem_singleton.mp last
    exact before p member
  · exact traffic.order k l

theorem mem_inFlight_send {i j k l : Fin n} {packet packet' : ChannelPacket c Bin}
    (member : packet' ∈ (Link.set links i j ((links i j).send packet) k l).inFlight) :
    packet' ∈ (links k l).inFlight ∨ k = i ∧ l = j ∧ packet' = packet := by
  rw [Link.set_apply] at member
  split at member
  · next here =>
      obtain ⟨rfl, rfl⟩ := here
      cases List.mem_append.mp member with
      | inl old => exact .inl old
      | inr new => exact .inr ⟨rfl, rfl, List.mem_singleton.mp new⟩
  · exact .inl member

theorem push (traffic : Traffic nodeOf links channels entered events) {x target : Fin c} {bin : Bin}
    (outside : (channels x).left = 2 * (channels x).synced)
    (early : ∀ version round, .barrier version round ∈ (links (nodeOf x) (nodeOf target)).sent →
      round ≤ 2 * (channels x).synced)
    (open_round : (channels target).emptied ≤ (channels x).synced) (built : ∀ j, 1 ≤ entered j) :
    Traffic nodeOf (Link.set links (nodeOf x) (nodeOf target)
        ((links (nodeOf x) (nodeOf target)).send (.other ⟨x, target, (channels x).synced, bin⟩)))
      channels entered (events ++ [.pushed ⟨x, target, (channels x).synced, bin⟩]) := by
  have pushes_append : pushes (events ++ [.pushed ⟨x, target, (channels x).synced, bin⟩]) =
      pushes events ++ [⟨x, target, (channels x).synced, bin⟩] := by simp [pushes]
  constructor
  case versions =>
    intro k l version round member
    cases mem_inFlight_send member with
    | inl old => exact traffic.versions k l version round old
    | inr new => cases new.2.2
  case order =>
    apply traffic.order_send
    rintro p member version round item rfl ⟨⟩
    exact early version round member
  case routed =>
    intro k l item member
    cases mem_inFlight_send member with
    | inl old => exact traffic.routed k l item old
    | inr new =>
        obtain ⟨rfl, rfl, same⟩ := new
        cases same
        rfl
  case pushed_round =>
    intro item member
    rw [pushes_append] at member
    cases List.mem_append.mp member with
    | inl old => exact traffic.pushed_round item old
    | inr new =>
        cases List.mem_singleton.mp new
        exact outside.ge
  case pushed_built => exact fun _ => built
  case conserve =>
    intro y
    rw [inFlight_send, ← add_assoc, ← traffic.conserve y, pushedTo, pushedTo, pushes_append,
      List.filter_append, ← Multiset.coe_add]
    congr 1
    cases decEq target y with
    | isTrue same => subst same; simp [itemsTo]
    | isFalse other => simp [itemsTo, other]
  case pending =>
    intro y i item member
    obtain ⟨member, rfl⟩ := mem_itemsTo.mp member
    cases mem_inFlight_send member with
    | inl old => exact traffic.pending _ i item (mem_itemsTo.mpr ⟨old, rfl⟩)
    | inr new =>
        cases new.2.2
        exact open_round
  case queued => exact traffic.queued
  case drained => exact traffic.drained
  case rets => exact traffic.rets
  case results =>
    intro y round rets member
    cases List.mem_append.mp member with
    | inl old => exact traffic.results y round rets old
    | inr new => cases List.mem_singleton.mp new

theorem sendBarrier (traffic : Traffic nodeOf links channels entered events) {i j : Fin n}
    {round : Nat} : Traffic nodeOf (Link.set links i j
        ((links i j).send (.barrier (UInt32.ofNat round) round))) channels entered events where
  versions k l version round' member := by
    cases mem_inFlight_send member with
    | inl old => exact traffic.versions k l version round' old
    | inr new =>
        cases new.2.2
        rfl
  order := traffic.order_send fun _ _ => nofun
  routed k l item member := by
    cases mem_inFlight_send member with
    | inl old => exact traffic.routed k l item old
    | inr new => cases new.2.2
  pushed_round := traffic.pushed_round
  pushed_built := traffic.pushed_built
  conserve y := by
    rw [inFlight_send, ← add_assoc, ← traffic.conserve y]
    simp [itemsTo]
  pending y k item member := by
    obtain ⟨member, rfl⟩ := mem_itemsTo.mp member
    cases mem_inFlight_send member with
    | inl old => exact traffic.pending _ k item (mem_itemsTo.mpr ⟨old, rfl⟩)
    | inr new => cases new.2.2
  queued := traffic.queued
  drained := traffic.drained
  rets := traffic.rets
  results := traffic.results

theorem order_receive (traffic : Traffic nodeOf links channels entered events) (i j k l : Fin n) :
    (Link.set links i j (links i j).receive k l).sent.Pairwise Before := by
  rw [Link.set_apply]
  split
  · rw [Link.sent_receive]
    exact traffic.order i j
  · exact traffic.order k l

theorem mem_inFlight_receive {i j k l : Fin n} {packet : ChannelPacket c Bin}
    (member : packet ∈ (Link.set links i j (links i j).receive k l).inFlight) :
    packet ∈ (links k l).inFlight := by
  rw [Link.set_apply] at member
  split at member
  · next here =>
      obtain ⟨rfl, rfl⟩ := here
      exact List.mem_of_mem_drop member
  · exact member

theorem receiveBarrier (traffic : Traffic nodeOf links channels entered events) {i j : Fin n}
    {version : UInt32} {round : Nat} {rest : List (ChannelPacket c Bin)}
    (next : (links i j).inFlight = .barrier version round :: rest) :
    Traffic nodeOf (Link.set links i j (links i j).receive) channels entered events where
  versions k l version round member :=
    traffic.versions k l version round (mem_inFlight_receive member)
  order := traffic.order_receive i j
  routed k l item member := traffic.routed k l item (mem_inFlight_receive member)
  pushed_round := traffic.pushed_round
  pushed_built := traffic.pushed_built
  conserve y := by
    rw [traffic.conserve y, inFlight_receive nodeOf links next y]
    simp [itemsTo]
  pending y k item member := by
    obtain ⟨member, rfl⟩ := mem_itemsTo.mp member
    exact traffic.pending _ k item (mem_itemsTo.mpr ⟨mem_inFlight_receive member, rfl⟩)
  queued := traffic.queued
  drained := traffic.drained
  rets := traffic.rets
  results := traffic.results

theorem receiveOther (traffic : Traffic nodeOf links channels entered events) {i j : Fin n}
    {item : Item c Bin} {rest : List (ChannelPacket c Bin)}
    (next : (links i j).inFlight = .other item :: rest) :
    Traffic nodeOf (Link.set links i j (links i j).receive)
      (Function.update channels item.target { channels item.target with
        queue := (channels item.target).queue ++ [item] }) entered events := by
  have here : nodeOf item.target = j := traffic.routed i j item (next ▸ List.mem_cons_self)
  constructor
  case versions =>
    exact fun k l version round member =>
      traffic.versions k l version round (mem_inFlight_receive member)
  case order => exact traffic.order_receive i j
  case routed => exact fun k l item member => traffic.routed k l item (mem_inFlight_receive member)
  case pushed_round =>
    intro item' member
    have before := traffic.pushed_round item' member
    cases decEq item'.source item.target with
    | isTrue same =>
        rw [same] at before ⊢
        rw [Function.update_self]
        exact before
    | isFalse other =>
        rw [Function.update_of_ne other]
        exact before
  case pushed_built => exact traffic.pushed_built
  case conserve =>
    intro y
    rw [traffic.conserve y, inFlight_receive nodeOf links next y]
    cases decEq item.target y with
    | isTrue same =>
        subst same
        simp only [Function.update_self, here, if_true, itemsTo, List.filterMap_cons,
          List.filterMap_nil, ← Multiset.coe_add]
        abel
    | isFalse other => simp [itemsTo, other, Function.update_of_ne (Ne.symm other)]
  case pending =>
    intro y k item' member
    obtain ⟨member, rfl⟩ := mem_itemsTo.mp member
    have before := traffic.pending _ k item' (mem_itemsTo.mpr ⟨mem_inFlight_receive member, rfl⟩)
    cases decEq item'.target item.target with
    | isTrue same =>
        rw [same] at before ⊢
        rw [Function.update_self]
        exact before
    | isFalse other =>
        rw [Function.update_of_ne other]
        exact before
  case queued =>
    apply (Function.forall_update_iff _ fun _ (ch : LocalChannel c Bin) =>
      ∀ item ∈ ch.queue, ch.emptied ≤ item.round).mpr
    refine ⟨fun item' member => ?_, fun y _ => traffic.queued y⟩
    cases List.mem_append.mp member with
    | inl old => exact traffic.queued _ item' old
    | inr new =>
        cases List.mem_singleton.mp new
        apply traffic.pending item.target i item
        rw [here, next]
        exact mem_itemsTo.mpr ⟨List.mem_cons_self, rfl⟩
  case drained =>
    exact (Function.forall_update_iff _ fun _ (ch : LocalChannel c Bin) =>
      ∀ item ∈ ch.drained, 2 * item.round < ch.left).mpr
        ⟨traffic.drained _, fun y _ => traffic.drained y⟩
  case rets =>
    exact (Function.forall_update_iff _ fun _ (ch : LocalChannel c Bin) =>
      ch.left = 2 * ch.synced + 1 → ch.rets =
        (ch.drained.filter fun item => item.round = ch.synced).map Item.bin).mpr
        ⟨traffic.rets _, fun y _ => traffic.rets y⟩
  case results =>
    apply (Function.forall_update_iff _ fun y (ch : LocalChannel c Bin) => ∀ round rets,
      .returned y round rets ∈ events → round < ch.synced ∧
        rets = (ch.drained.filter fun item => item.round = round).map Item.bin).mpr
    exact ⟨traffic.results item.target, fun y _ => traffic.results y⟩

end Traffic

end ChannelState

end FlexPS.Comm2
