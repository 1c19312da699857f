import FlexPS.Comm2.Channel

/-! # Threads and the two barriers of `Wait`

Calls of `Wait` are numbered over all rounds: `SyncAndGet` number `r` uses numbers
`2 r` and `2 r + 1`, and the barrier of number `w` is round `w + 1` of the
mailbox's barrier, since the constructor of `Channel` used one. A thread leaves a
`Wait` only after all threads of all nodes have reached it.
-/

namespace FlexPS.Comm2

namespace LocalChannel

variable {c : Nat} {Bin : Type}

/-- How many calls of `Wait` have locked `mu_`. -/
def arrived (channel : LocalChannel c Bin) : Nat :=
  match channel.pc with
  | .outside | .arriving false => 2 * channel.synced
  | .waiting false _ | .inBarrier false | .draining | .arriving true => 2 * channel.synced + 1
  | .waiting true _ | .inBarrier true => 2 * channel.synced + 2

/-- How many calls of `Wait` have returned. -/
def left (channel : LocalChannel c Bin) : Nat :=
  match channel.pc with
  | .outside | .arriving false | .waiting false _ | .inBarrier false => 2 * channel.synced
  | .draining | .arriving true | .waiting true _ | .inBarrier true => 2 * channel.synced + 1

/-- For how many rounds the queue has been emptied. -/
def emptied (channel : LocalChannel c Bin) : Nat :=
  match channel.pc with
  | .arriving true | .waiting true _ | .inBarrier true => channel.synced + 1
  | _ => channel.synced

theorem left_le_arrived (channel : LocalChannel c Bin) : channel.left ≤ channel.arrived := by
  unfold left arrived
  rcases channel.pc with _ | (_ | _) | ⟨_ | _, _⟩ | (_ | _) | _ <;> simp

theorem synced_le_emptied (channel : LocalChannel c Bin) : channel.synced ≤ channel.emptied := by
  unfold emptied
  rcases channel.pc with _ | (_ | _) | ⟨_ | _, _⟩ | (_ | _) | _ <;> simp

theorem emptied_le (channel : LocalChannel c Bin) : 2 * channel.emptied ≤ channel.left + 1 := by
  unfold left emptied
  rcases channel.pc with _ | (_ | _) | ⟨_ | _, _⟩ | (_ | _) | _
  all_goals dsimp only
  all_goals omega

/-- `Wait` returns: what had arrived has left. -/
theorem after_left {channel : LocalChannel c Bin} {second : Bool}
    (inside : (∃ gen, channel.pc = .waiting second gen) ∨ channel.pc = .inBarrier second) :
    (channel.after second).left = channel.arrived := by
  unfold after arrived left
  rcases inside with ⟨gen, pc⟩ | pc <;> cases second <;> simp [pc, Nat.mul_add]

theorem after_arrived {channel : LocalChannel c Bin} {second : Bool}
    (inside : (∃ gen, channel.pc = .waiting second gen) ∨ channel.pc = .inBarrier second) :
    (channel.after second).arrived = channel.arrived := by
  unfold after arrived
  rcases inside with ⟨gen, pc⟩ | pc <;> cases second <;> simp [pc, Nat.mul_add]

theorem after_emptied {channel : LocalChannel c Bin} {second : Bool}
    (inside : (∃ gen, channel.pc = .waiting second gen) ∨ channel.pc = .inBarrier second) :
    (channel.after second).emptied = channel.emptied := by
  unfold after emptied
  rcases inside with ⟨gen, pc⟩ | pc <;> cases second <;> simp [pc]

end LocalChannel

namespace ChannelState

variable {n c : Nat} {Bin : Type}

/-- Where the threads stand relative to the barrier of their node. -/
structure Positions (nodeOf : Fin c → Fin n) (state : ChannelState n c Bin) : Prop where
  left_le : ∀ x, (state.channels x).left ≤ state.returned (nodeOf x) - 1
  arrived_ge : ∀ x, state.entered (nodeOf x) - 1 ≤ (state.channels x).arrived
  arrived_le : ∀ x, (state.channels x).arrived ≤ state.entered (nodeOf x) - 1 + 1
  count : ∀ i, state.count i = (List.finRange c).countP fun x =>
    nodeOf x = i ∧ (state.channels x).arrived = state.entered i - 1
  generation : ∀ i, state.generation i = UInt32.ofNat (state.entered i - 1)
  waiting : ∀ x second gen, (state.channels x).pc = .waiting second gen →
    gen = UInt32.ofNat ((state.channels x).arrived - 1)
  fresh : ∀ i, state.owner i = .fresh ↔ state.entered i = 0
  idle : ∀ i, state.owner i = .fresh ∨ state.owner i = .free → (state.mailboxes i).caller = .outside
  holder : ∀ x second, (state.channels x).pc = .inBarrier second →
    state.owner (nodeOf x) = .thread x ∧ (state.channels x).arrived + 1 ≤ state.entered (nodeOf x)
  built : ∀ i, state.Constructed i → 1 ≤ state.returned i

theorem Positions.start (nodeOf : Fin c → Fin n) :
    Positions nodeOf (init nodeOf : ChannelState n c Bin) where
  left_le _ := le_rfl
  arrived_ge _ := le_rfl
  arrived_le _ := Nat.zero_le _
  count i := by
    simp only [init, threshold]
    congr 1
    funext x
    exact decide_eq_decide.mpr (and_iff_left rfl).symm
  generation _ := rfl
  waiting _ _ _ := nofun
  fresh _ := ⟨fun _ => rfl, fun _ => rfl⟩
  idle _ _ := rfl
  holder _ _ := nofun
  built _ constructed := absurd rfl constructed.1

/-- Nobody returns from a `Wait` that somebody has not reached. -/
theorem Positions.left_le_arrived {nodeOf : Fin c → Fin n} {state : ChannelState n c Bin}
    (positions : Positions nodeOf state)
    (agreement : ∀ i j, state.returned i ≤ state.entered j) (x y : Fin c) :
    (state.channels x).left ≤ (state.channels y).arrived := by
  have := positions.left_le x
  have := positions.arrived_ge y
  have := agreement (nodeOf x) (nodeOf y)
  omega

/-- One thread moves inside or outside `Wait`; `channel` is what it has then. -/
theorem Positions.move {nodeOf : Fin c → Fin n} {state : ChannelState n c Bin}
    (positions : Positions nodeOf state) {x : Fin c} {channel : LocalChannel c Bin}
    (arrived : channel.arrived = (state.channels x).arrived)
    (left_le : channel.left ≤ state.returned (nodeOf x) - 1)
    (waiting : ∀ second gen, channel.pc = .waiting second gen →
      (state.channels x).pc = .waiting second gen)
    (holder : ∀ second, channel.pc = .inBarrier second →
      (state.channels x).pc = .inBarrier second) :
    Positions nodeOf (state.setChannel x channel) where
  left_le := (Function.forall_update_iff _ fun y ch =>
    LocalChannel.left ch ≤ state.returned (nodeOf y) - 1).mpr
      ⟨left_le, fun y _ => positions.left_le y⟩
  arrived_ge := (Function.forall_update_iff _ fun y ch =>
    state.entered (nodeOf y) - 1 ≤ LocalChannel.arrived ch).mpr
      ⟨arrived ▸ positions.arrived_ge x, fun y _ => positions.arrived_ge y⟩
  arrived_le := (Function.forall_update_iff _ fun y ch =>
    LocalChannel.arrived ch ≤ state.entered (nodeOf y) - 1 + 1).mpr
      ⟨arrived ▸ positions.arrived_le x, fun y _ => positions.arrived_le y⟩
  count i := by
    have same : ∀ y, ((state.setChannel x channel).channels y).arrived =
        (state.channels y).arrived :=
      (Function.forall_update_iff _ fun y ch =>
        LocalChannel.arrived ch = (state.channels y).arrived).mpr ⟨arrived, fun _ _ => rfl⟩
    simp only [same]
    exact positions.count i
  generation := positions.generation
  waiting := (Function.forall_update_iff _ fun _ ch => ∀ second gen,
    LocalChannel.pc ch = .waiting second gen →
      gen = UInt32.ofNat (LocalChannel.arrived ch - 1)).mpr
      ⟨fun second gen pc => arrived ▸ positions.waiting x second gen (waiting second gen pc),
        fun y _ => positions.waiting y⟩
  fresh := positions.fresh
  idle := positions.idle
  holder := (Function.forall_update_iff _ fun y ch => ∀ second,
    LocalChannel.pc ch = .inBarrier second → state.owner (nodeOf y) = .thread y ∧
      LocalChannel.arrived ch + 1 ≤ state.entered (nodeOf y)).mpr
      ⟨fun second pc => arrived ▸ positions.holder x second (holder second pc),
        fun y _ => positions.holder y⟩
  built := positions.built

/-- A thread returns from `Wait` after its node left the barrier. -/
theorem Positions.after {nodeOf : Fin c → Fin n} {state : ChannelState n c Bin}
    (positions : Positions nodeOf state) {x : Fin c} {second : Bool}
    (inside : (∃ gen, (state.channels x).pc = .waiting second gen) ∨
      (state.channels x).pc = .inBarrier second)
    (finished : (state.channels x).arrived ≤ state.returned (nodeOf x) - 1) :
    Positions nodeOf (state.setChannel x ((state.channels x).after second)) := by
  apply positions.move
  case arrived => exact LocalChannel.after_arrived inside
  case left_le => exact (LocalChannel.after_left inside).trans_le finished
  case waiting => cases second <;> nofun
  case holder => cases second <;> nofun

/-- `mu_` is released after the barrier. -/
theorem Positions.release {nodeOf : Fin c → Fin n} {state : ChannelState n c Bin}
    (positions : Positions nodeOf state) {i : Fin n}
    (nobody : ∀ x second, (state.channels x).pc = .inBarrier second → nodeOf x ≠ i)
    (outside : (state.mailboxes i).caller = .outside) (entered : 1 ≤ state.entered i)
    (returned : 1 ≤ state.returned i) : Positions nodeOf (state.setOwner i .free) where
  left_le := positions.left_le
  arrived_ge := positions.arrived_ge
  arrived_le := positions.arrived_le
  count := positions.count
  generation := positions.generation
  waiting := positions.waiting
  fresh := (Function.forall_update_iff _ fun j owner =>
    owner = Owner.fresh ↔ state.entered j = 0).mpr
      ⟨by simp only [reduceCtorEq, false_iff]; omega, fun j _ => positions.fresh j⟩
  idle := (Function.forall_update_iff _ fun j owner =>
    owner = Owner.fresh ∨ owner = Owner.free → (state.mailboxes j).caller = .outside).mpr
      ⟨fun _ => outside, fun j _ => positions.idle j⟩
  holder x second pc := by
    change Function.update state.owner i .free (nodeOf x) = _ ∧ _
    rw [Function.update_of_ne (nobody x second pc)]
    exact positions.holder x second pc
  built := (Function.forall_update_iff _ fun j (owner : Owner c) =>
    owner ≠ .fresh ∧ owner ≠ .constructor → 1 ≤ state.returned j).mpr
      ⟨fun _ => returned, fun j _ => positions.built j⟩

/-- The mailboxes work on the barrier. -/
theorem Positions.barrier {nodeOf : Fin c → Fin n} {state : ChannelState n c Bin}
    (positions : Positions nodeOf state) {mailboxes : Fin n → Mailbox n}
    {links : Fin n → Fin n → Link (ChannelPacket c Bin)} {returned : Fin n → Nat}
    (idle : ∀ i, (state.mailboxes i).caller = .outside → (mailboxes i).caller = .outside)
    (returned_le : ∀ i, state.returned i ≤ returned i) :
    Positions nodeOf { state with mailboxes, links, returned } where
  left_le x := (positions.left_le x).trans (Nat.sub_le_sub_right (returned_le _) 1)
  arrived_ge := positions.arrived_ge
  arrived_le := positions.arrived_le
  count := positions.count
  generation := positions.generation
  waiting := positions.waiting
  fresh := positions.fresh
  idle i free := idle i (positions.idle i free)
  holder := positions.holder
  built i constructed := (positions.built i constructed).trans (returned_le i)

/-- The constructor calls `Barrier`. -/
theorem Positions.construct {nodeOf : Fin c → Fin n} {state : ChannelState n c Bin}
    (positions : Positions nodeOf state) {i : Fin n} (fresh : state.owner i = .fresh) :
    Positions nodeOf ((state.setOwner i .constructor).enterBarrier i) := by
  have entered : state.entered i = 0 := (positions.fresh i).mp fresh
  have same : ∀ j, Rounds.bump state.entered i j - 1 = state.entered j - 1 := by
    intro j
    rw [Rounds.bump_apply]
    split
    · next here => subst here; omega
    · rfl
  constructor
  case left_le => exact positions.left_le
  case arrived_ge => exact fun x => (same _).trans_le (positions.arrived_ge x)
  case arrived_le => exact fun x => (positions.arrived_le x).trans_eq (by rw [← same]; rfl)
  case count => exact fun j => (positions.count j).trans (by rw [← same]; rfl)
  case generation => exact fun j => (positions.generation j).trans (by rw [← same]; rfl)
  case waiting => exact positions.waiting
  case fresh =>
    apply (Function.forall_update_iff _ fun j owner =>
      owner = Owner.fresh ↔ Rounds.bump state.entered i j = 0).mpr
    refine ⟨by simp, fun j other => ?_⟩
    rw [Rounds.bump_of_ne other]
    exact positions.fresh j
  case idle =>
    intro j free
    change Function.update state.owner i .constructor j = _ ∨
      Function.update state.owner i .constructor j = _ at free
    change (Function.update state.mailboxes i _ j).caller = _
    cases decEq j i with
    | isTrue same => subst same; simp at free
    | isFalse other =>
        rw [Function.update_of_ne other] at free ⊢
        exact positions.idle j free
  case holder =>
    intro x second pc
    obtain ⟨owner, before⟩ := positions.holder x second pc
    have elsewhere : nodeOf x ≠ i := fun here => by
      rw [here, fresh] at owner
      cases owner
    change Function.update state.owner i .constructor (nodeOf x) = _ ∧ _
    rw [Function.update_of_ne elsewhere]
    exact ⟨owner, before.trans (Rounds.le_bump ..)⟩
  case built =>
    apply (Function.forall_update_iff _ fun j (owner : Owner c) =>
      owner ≠ .fresh ∧ owner ≠ .constructor → 1 ≤ state.returned j).mpr
    exact ⟨fun constructed => absurd rfl constructed.2, fun j _ => positions.built j⟩

theorem countP_finRange_ne {p : Fin c → Prop} [DecidablePred p] {x : Fin c} (here : p x) :
    (List.finRange c).countP (fun y => p y) =
      (List.finRange c).countP (fun y => p y ∧ y ≠ x) + 1 := by
  have split := List.perm_cons_erase (List.mem_finRange x)
  rw [split.countP_eq, List.countP_cons_of_pos (by simpa using here),
    (List.nodup_finRange c).erase_eq_filter, List.countP_filter]
  simp only [Bool.decide_and, decide_not]
  congr 2

section Wait

variable {nodeOf : Fin c → Fin n} {state : ChannelState n c Bin} {x : Fin c} {second : Bool}

/-- A thread about to lock `mu_` has returned from all its calls of `Wait`, which all the
    other threads of the node have reached. -/
theorem Positions.arriving (positions : Positions nodeOf state)
    (arriving : (state.channels x).pc = .arriving second)
    (same : state.entered (nodeOf x) = state.returned (nodeOf x)) :
    (state.channels x).arrived = state.entered (nodeOf x) - 1 := by
  have all_left : (state.channels x).arrived = (state.channels x).left := by
    cases second <;> simp [LocalChannel.arrived, LocalChannel.left, arriving]
  have := positions.left_le x
  have := positions.arrived_ge x
  omega

theorem arrived_waiting (arriving : (state.channels x).pc = .arriving second) (gen : UInt32) :
    ({ state.channels x with pc := .waiting second gen } : LocalChannel c Bin).arrived =
      (state.channels x).arrived + 1 := by
  cases second <;> simp [LocalChannel.arrived, arriving]

theorem arrived_inBarrier (arriving : (state.channels x).pc = .arriving second) :
    ({ state.channels x with pc := .inBarrier second } : LocalChannel c Bin).arrived =
      (state.channels x).arrived + 1 := by
  cases second <;> simp [LocalChannel.arrived, arriving]

/-- A thread that is not the last of its node. -/
theorem Positions.block (positions : Positions nodeOf state)
    (arriving : (state.channels x).pc = .arriving second)
    (built : 1 ≤ state.entered (nodeOf x))
    (same : state.entered (nodeOf x) = state.returned (nodeOf x)) :
    Positions nodeOf { state.setChannel x { state.channels x with
        pc := .waiting second (state.generation (nodeOf x)) } with
      count := Function.update state.count (nodeOf x) (state.count (nodeOf x) - 1) } := by
  have here := positions.arriving arriving same
  have arrived := arrived_waiting arriving (state.generation (nodeOf x))
  constructor
  case left_le =>
    apply (Function.forall_update_iff _ fun y ch =>
      LocalChannel.left ch ≤ state.returned (nodeOf y) - 1).mpr
    refine ⟨?_, fun y _ => positions.left_le y⟩
    have left := positions.left_le x
    cases second <;> simpa [LocalChannel.left, arriving] using left
  case arrived_ge =>
    apply (Function.forall_update_iff _ fun y ch =>
      state.entered (nodeOf y) - 1 ≤ LocalChannel.arrived ch).mpr
    exact ⟨by omega, fun y _ => positions.arrived_ge y⟩
  case arrived_le =>
    apply (Function.forall_update_iff _ fun y ch =>
      LocalChannel.arrived ch ≤ state.entered (nodeOf y) - 1 + 1).mpr
    exact ⟨by omega, fun y _ => positions.arrived_le y⟩
  case count =>
    apply (Function.forall_update_iff _ fun i count => count = (List.finRange c).countP fun y =>
      nodeOf y = i ∧ LocalChannel.arrived (Function.update state.channels x _ y) =
        state.entered i - 1).mpr
    constructor
    · rw [positions.count, countP_finRange_ne ⟨rfl, here⟩, Nat.add_sub_cancel]
      congr 1
      funext y
      cases decEq y x with
      | isTrue same => subst same; simp [arrived]; omega
      | isFalse other => simp [other]
    · intro i elsewhere
      rw [positions.count]
      congr 1
      funext y
      cases decEq y x with
      | isTrue same => subst same; simp [Ne.symm elsewhere]
      | isFalse other => simp [other]
  case generation => exact positions.generation
  case waiting =>
    apply (Function.forall_update_iff _ fun _ ch => ∀ second gen,
      LocalChannel.pc ch = .waiting second gen →
        gen = UInt32.ofNat (LocalChannel.arrived ch - 1)).mpr
    refine ⟨?_, fun y _ => positions.waiting y⟩
    rintro second' gen ⟨⟩
    rw [arrived, here, positions.generation, Nat.add_sub_cancel]
  case fresh => exact positions.fresh
  case idle => exact positions.idle
  case holder =>
    exact (Function.forall_update_iff _ fun y ch => ∀ second,
      LocalChannel.pc ch = .inBarrier second → state.owner (nodeOf y) = .thread y ∧
        LocalChannel.arrived ch + 1 ≤ state.entered (nodeOf y)).mpr
        ⟨nofun, fun y _ => positions.holder y⟩
  case built => exact positions.built

/-- The last thread of a node calls `Barrier`. -/
theorem Positions.enter (positions : Positions nodeOf state)
    (arriving : (state.channels x).pc = .arriving second)
    (free : state.owner (nodeOf x) = .free) (last : state.count (nodeOf x) - 1 = 0)
    (same : state.entered (nodeOf x) = state.returned (nodeOf x)) :
    Positions nodeOf { (((state.setChannel x { state.channels x with
        pc := .inBarrier second }).setOwner (nodeOf x) (.thread x)).enterBarrier (nodeOf x)) with
      generation := Function.update state.generation (nodeOf x) (state.generation (nodeOf x) + 1)
      count := Function.update state.count (nodeOf x) (threshold nodeOf (nodeOf x)) } := by
  have here := positions.arriving arriving same
  have arrived := arrived_inBarrier arriving
  have built := positions.built (nodeOf x) (by simp [Constructed, free])
  -- the others of this node have all been counted
  have others : ∀ y, nodeOf y = nodeOf x → y ≠ x →
      (state.channels y).arrived = state.entered (nodeOf x) := by
    intro y near other
    have none : (List.finRange c).countP (fun y => (nodeOf y = nodeOf x ∧
        (state.channels y).arrived = state.entered (nodeOf x) - 1) ∧ y ≠ x) = 0 := by
      have count := positions.count (nodeOf x)
      rw [countP_finRange_ne ⟨rfl, here⟩] at count
      omega
    have uncounted := List.countP_eq_zero.mp none y (List.mem_finRange y)
    simp only [near, other, ne_eq, not_false_eq_true, true_and, and_true,
      decide_eq_true_eq] at uncounted
    have ge := positions.arrived_ge y
    have le := positions.arrived_le y
    rw [near] at ge le
    omega
  have all : ∀ y, nodeOf y = nodeOf x → (Function.update state.channels x
      { state.channels x with pc := .inBarrier second } y).arrived = state.entered (nodeOf x) := by
    intro y near
    cases decEq y x with
    | isTrue same => subst same; rw [Function.update_self, arrived]; omega
    | isFalse other => rw [Function.update_of_ne other]; exact others y near other
  have elsewhere : ∀ y, nodeOf y ≠ nodeOf x → y ≠ x := fun y far same => far (same ▸ rfl)
  constructor
  case left_le =>
    apply (Function.forall_update_iff _ fun y ch =>
      LocalChannel.left ch ≤ state.returned (nodeOf y) - 1).mpr
    refine ⟨?_, fun y _ => positions.left_le y⟩
    have left := positions.left_le x
    cases second <;> simpa [LocalChannel.left, arriving] using left
  case arrived_ge =>
    intro y
    change Rounds.bump state.entered (nodeOf x) (nodeOf y) - 1 ≤ _
    cases decEq (nodeOf y) (nodeOf x) with
    | isTrue near => rw [near, Rounds.bump_same]; exact (all y near).ge
    | isFalse far =>
        rw [Rounds.bump_of_ne far]
        refine (positions.arrived_ge y).trans_eq (congrArg _ ?_)
        exact (Function.update_of_ne (elsewhere y far) ..).symm
  case arrived_le =>
    intro y
    change _ ≤ Rounds.bump state.entered (nodeOf x) (nodeOf y) - 1 + 1
    cases decEq (nodeOf y) (nodeOf x) with
    | isTrue near => rw [near, Rounds.bump_same]; exact (all y near).trans_le (Nat.le_succ _)
    | isFalse far =>
        rw [Rounds.bump_of_ne far]
        refine Eq.trans_le (congrArg _ ?_) (positions.arrived_le y)
        exact Function.update_of_ne (elsewhere y far) ..
  case count =>
    intro i
    change Function.update state.count (nodeOf x) _ i = (List.finRange c).countP fun y =>
      nodeOf y = i ∧ LocalChannel.arrived (Function.update state.channels x _ y) =
        Rounds.bump state.entered (nodeOf x) i - 1
    cases decEq i (nodeOf x) with
    | isTrue near =>
        subst near
        rw [Function.update_self, Rounds.bump_same, Nat.add_sub_cancel]
        unfold threshold
        congr 1
        funext y
        exact decide_eq_decide.mpr ⟨fun near => ⟨near, all y near⟩, fun h => h.1⟩
    | isFalse far =>
        rw [Function.update_of_ne far, Rounds.bump_of_ne far, positions.count]
        congr 1
        funext y
        apply decide_eq_decide.mpr
        apply and_congr_right
        rintro rfl
        rw [Function.update_of_ne (elsewhere y far)]
  case generation =>
    intro i
    change Function.update state.generation (nodeOf x) _ i =
      UInt32.ofNat (Rounds.bump state.entered (nodeOf x) i - 1)
    cases decEq i (nodeOf x) with
    | isTrue near =>
        subst near
        rw [Function.update_self, Rounds.bump_same, positions.generation, Nat.add_sub_cancel]
        obtain ⟨rounds, entered⟩ := Nat.exists_eq_add_of_le' (same ▸ built)
        rw [entered, Nat.add_sub_cancel, UInt32.ofNat_add]
        rfl
    | isFalse far =>
        rw [Function.update_of_ne far, Rounds.bump_of_ne far]
        exact positions.generation i
  case waiting =>
    exact (Function.forall_update_iff _ fun _ ch => ∀ second gen,
      LocalChannel.pc ch = .waiting second gen →
        gen = UInt32.ofNat (LocalChannel.arrived ch - 1)).mpr
        ⟨nofun, fun y _ => positions.waiting y⟩
  case fresh =>
    apply (Function.forall_update_iff _ fun i (owner : Owner c) =>
      owner = .fresh ↔ Rounds.bump state.entered (nodeOf x) i = 0).mpr
    refine ⟨by simp, fun i far => ?_⟩
    rw [Rounds.bump_of_ne far]
    exact positions.fresh i
  case idle =>
    intro i free
    change Function.update state.owner (nodeOf x) (.thread x) i = _ ∨
      Function.update state.owner (nodeOf x) (.thread x) i = _ at free
    change (Function.update state.mailboxes (nodeOf x) _ i).caller = _
    cases decEq i (nodeOf x) with
    | isTrue near => subst near; simp at free
    | isFalse far =>
        rw [Function.update_of_ne far] at free ⊢
        exact positions.idle i free
  case holder =>
    intro y second' pc
    change (Function.update state.channels x _ y).pc = _ at pc
    change Function.update state.owner (nodeOf x) (.thread x) (nodeOf y) = _ ∧
      LocalChannel.arrived (Function.update state.channels x _ y) + 1 ≤
        Rounds.bump state.entered (nodeOf x) (nodeOf y)
    cases decEq (nodeOf y) (nodeOf x) with
    | isTrue near =>
        cases decEq y x with
        | isTrue same =>
            subst same
            exact ⟨Function.update_self .., by rw [all y rfl, Rounds.bump_same]⟩
        | isFalse other =>
            rw [Function.update_of_ne other] at pc
            have owner := (positions.holder y second' pc).1
            rw [near, free] at owner
            cases owner
    | isFalse far =>
        rw [Function.update_of_ne (elsewhere y far)] at pc ⊢
        rw [Function.update_of_ne far, Rounds.bump_of_ne far]
        exact positions.holder y second' pc
  case built =>
    exact (Function.forall_update_iff _ fun i (owner : Owner c) =>
      owner ≠ .fresh ∧ owner ≠ .constructor → 1 ≤ state.returned i).mpr
        ⟨fun _ => built, fun i _ => positions.built i⟩

end Wait

end ChannelState

end FlexPS.Comm2
