import FlexPS.Comm.Barrier

/-! # The versioned barrier of the mailbox

In `comm2` a barrier message carries the sender's `progress_`, and the receiver
thread counts messages of the current and of the next round apart. A message
keeps its round next to the 32 bits of its version, for the proofs only.
-/

namespace FlexPS.Comm2

/-- The assertions of `Mailbox::Receiving`. -/
inductive BarrierCheck where
  /-- `CHECK_LT(next_count_, nodes_.size())`. -/
  | nextCount
  /-- `CHECK(false) << "Barrier error."`. -/
  | barrierError
  deriving DecidableEq, Repr

structure BarrierMessage (n : Nat) where
  sender : Fin n
  recver : Fin n
  version : UInt32
  round : Nat
  deriving DecidableEq, Repr

/-- The barrier of one `Mailbox`. -/
structure Mailbox (n : Nat) where
  thisCount : Nat
  nextCount : Nat
  progress : UInt32
  caller : Caller n
  deriving DecidableEq, Repr

namespace Mailbox

variable {n : Nat}

def init : Mailbox n := ⟨0, 0, 0, .outside⟩

/-- The call of `Barrier`. -/
def enter (mailbox : Mailbox n) : Mailbox n := { mailbox with caller := .start }

/-- One turn of the loop, with `rest` left after it. -/
def sent (mailbox : Mailbox n) (rest : List (Fin n)) : Mailbox n :=
  { mailbox with caller := .loop rest }

/-- One evaluation of `this_count_ == nodes_.size()` in `wait`, and what follows. -/
def test (mailbox : Mailbox n) : Mailbox n :=
  if mailbox.thisCount = n then ⟨mailbox.nextCount, 0, mailbox.progress + 1, .outside⟩
  else { mailbox with caller := .asleep }

/-- A wakeup of `wait` without a notification. -/
def wake (mailbox : Mailbox n) : Mailbox n := { mailbox with caller := mailbox.caller.notify }

/-- The branch of `Receiving` for `Flag::kBarrier`. -/
def receiveBarrier (mailbox : Mailbox n) (version : UInt32) : Except BarrierCheck (Mailbox n) :=
  if version = mailbox.progress then
    let thisCount := mailbox.thisCount + 1
    if thisCount = n then .ok { mailbox with thisCount, caller := mailbox.caller.notify }
    else .ok { mailbox with thisCount }
  else if version = mailbox.progress + 1 then
    let nextCount := mailbox.nextCount + 1
    if nextCount < n then .ok { mailbox with nextCount } else .error .nextCount
  else .error .barrierError

theorem test_pass {mailbox : Mailbox n} (full : mailbox.thisCount = n) :
    mailbox.test = ⟨mailbox.nextCount, 0, mailbox.progress + 1, .outside⟩ := if_pos full

theorem test_block {mailbox : Mailbox n} (short : mailbox.thisCount ≠ n) :
    mailbox.test = { mailbox with caller := .asleep } := if_neg short

/-- A message of the current round. -/
theorem receiveBarrier_this (mailbox : Mailbox n) :
    mailbox.receiveBarrier mailbox.progress = .ok { mailbox with
      thisCount := mailbox.thisCount + 1
      caller := if mailbox.thisCount + 1 = n then mailbox.caller.notify else mailbox.caller } := by
  unfold receiveBarrier
  simp only [if_true]
  split <;> rfl

/-- A message of the next round. -/
theorem receiveBarrier_next {mailbox : Mailbox n} (room : mailbox.nextCount + 1 < n) :
    mailbox.receiveBarrier (mailbox.progress + 1) =
      .ok { mailbox with nextCount := mailbox.nextCount + 1 } := by
  have later : mailbox.progress + 1 ≠ mailbox.progress := by
    intro same
    simp at same
  unfold receiveBarrier
  simp only [later, if_false, if_true, room]

/-- The receiver thread does not touch the loop of `Barrier`. -/
theorem receiveBarrier_sending {mailbox mailbox' : Mailbox n} {version : UInt32}
    (handled : mailbox.receiveBarrier version = .ok mailbox') {rest : List (Fin n)} :
    mailbox'.caller = .sending rest ↔ mailbox.caller = .sending rest := by
  unfold receiveBarrier at handled
  dsimp only at handled
  split at handled
  · split at handled <;> cases handled <;> simp
  · split at handled
    · split at handled
      · cases handled
        rfl
      · cases handled
    · cases handled

end Mailbox

/-- The mailboxes of all nodes with the barrier messages between them. -/
structure BarrierState (n : Nat) where
  mailboxes : Fin n → Mailbox n
  inFlight : List (BarrierMessage n)
  /-- How many calls of `Barrier` the node has begun. -/
  entered : Fin n → Nat
  /-- How many calls of `Barrier` have returned. -/
  returned : Fin n → Nat

inductive BarrierInput (n : Nat) where
  | enter (i : Fin n)
  | send (i : Fin n)
  | test (i : Fin n)
  | wake (i : Fin n)
  | deliver (msg : BarrierMessage n)
  deriving DecidableEq, Repr

/-- The receiver thread of a node has counted a message. -/
structure Received (n : Nat) where
  recver : Fin n
  sender : Fin n
  round : Nat
  deriving DecidableEq, Repr

namespace BarrierState

variable {n : Nat}

def init : BarrierState n := ⟨fun _ => .init, [], fun _ => 0, fun _ => 0⟩

/-- When a step can be taken. -/
def Enabled (state : BarrierState n) (_ : List (Received n)) : BarrierInput n → Prop
  | .enter i => (state.mailboxes i).caller = .outside
  | .send i => ∃ j rest, (state.mailboxes i).caller = .sending (j :: rest)
  | .test i => (state.mailboxes i).caller = .testing
  | .wake i => (state.mailboxes i).caller = .asleep
  | .deliver msg => msg ∈ state.inFlight

def step (state : BarrierState n) :
    BarrierInput n → Except BarrierCheck (BarrierState n × List (Received n))
  | .enter i => .ok ({ state with
      mailboxes := Function.update state.mailboxes i (state.mailboxes i).enter
      entered := Rounds.bump state.entered i }, [])
  | .send i =>
      match (state.mailboxes i).caller with
      | .sending (j :: rest) => .ok ({ state with
          mailboxes := Function.update state.mailboxes i ((state.mailboxes i).sent rest)
          inFlight := ⟨i, j, (state.mailboxes i).progress, state.returned i⟩ :: state.inFlight }, [])
      | _ => .ok (state, [])
  | .test i =>
      let mailbox := (state.mailboxes i).test
      let state := { state with mailboxes := Function.update state.mailboxes i mailbox }
      if mailbox.caller = .outside then
        .ok ({ state with returned := Rounds.bump state.returned i }, [])
      else .ok (state, [])
  | .wake i => .ok ({ state with
      mailboxes := Function.update state.mailboxes i (state.mailboxes i).wake }, [])
  | .deliver msg => do
      let mailbox ← (state.mailboxes msg.recver).receiveBarrier msg.version
      return ({ state with
          mailboxes := Function.update state.mailboxes msg.recver mailbox
          inFlight := state.inFlight.erase msg }, [⟨msg.recver, msg.sender, msg.round⟩])

/-! ## Every message of every round is counted once -/

/-- What holds of mailboxes that have counted correctly. `inFlight` and `counted` say how
    many messages from one node to another of one round are on their way and counted. -/
structure Counted (mailboxes : Fin n → Mailbox n) (entered returned : Fin n → Nat)
    (inFlight counted : Fin n → Fin n → Nat → Nat) : Prop where
  inStep : Rounds.InStep entered returned
  outside : ∀ i, (mailboxes i).caller = .outside ↔ entered i = returned i
  progress : ∀ i, (mailboxes i).progress = UInt32.ofNat (returned i)
  unsent_le : ∀ j i, (mailboxes j).caller.unsent i ≤ 1
  /-- A message is counted or on its way exactly from the moment it was sent. -/
  once : ∀ j i round, counted j i round + inFlight j i round =
    if round + (mailboxes j).caller.unsent i < entered j then 1 else 0
  past : ∀ i round, round < returned i → ∑ j, counted j i round = n
  current : ∀ i, ∑ j, counted j i (returned i) = (mailboxes i).thisCount
  next : ∀ i, ∑ j, counted j i (returned i + 1) = (mailboxes i).nextCount
  asleep : ∀ i, (mailboxes i).caller = .asleep → (mailboxes i).thisCount ≠ n

namespace Counted

variable {mailboxes : Fin n → Mailbox n} {entered returned : Fin n → Nat}
  {inFlight counted : Fin n → Fin n → Nat → Nat}

theorem start : Counted (fun _ : Fin n => .init) (fun _ => 0) (fun _ => 0) (fun _ _ _ => 0)
    (fun _ _ _ => 0) where
  inStep := .start
  outside _ := by simp [Mailbox.init]
  progress _ := rfl
  unsent_le _ _ := by simp [Mailbox.init]
  once _ _ _ := by simp
  past _ _ h := absurd h (Nat.not_lt_zero _)
  current _ := by simp [Mailbox.init]
  next _ := by simp [Mailbox.init]
  asleep _ h := by cases h

theorem counted_le_one (h : Counted mailboxes entered returned inFlight counted) (j i : Fin n)
    (round : Nat) : counted j i round ≤ 1 := by
  have := h.once j i round
  split at this <;> omega

/-- A node whose count is full has counted one message from everyone. -/
theorem counted_of_full (h : Counted mailboxes entered returned inFlight counted) {i : Fin n}
    {round : Nat} (full : ∑ j, counted j i round = n) (j : Fin n) : counted j i round = 1 := by
  have total : ∑ j, counted j i round = ∑ _j : Fin n, 1 := by simpa using full
  exact (Finset.sum_eq_sum_iff_of_le fun j _ => h.counted_le_one j i round).mp total j
    (Finset.mem_univ j)

theorem entered_of_counted (h : Counted mailboxes entered returned inFlight counted) {j i : Fin n}
    {round : Nat} (some_message : 0 < counted j i round + inFlight j i round) :
    round < entered j := by
  have := h.once j i round
  split at this <;> omega

/-- The messages on their way to a node belong to its current or its next round. -/
theorem window (h : Counted mailboxes entered returned inFlight counted) {j i : Fin n} {round : Nat}
    (on_its_way : 0 < inFlight j i round) :
    round = returned i ∨ round = returned i + 1 := by
  have sent : round < entered j := h.entered_of_counted (i := i) (by omega)
  have ahead := h.inStep.entered_le i j
  have one := h.inStep.one i
  have not_past : ¬ round < returned i := by
    intro past
    have once := h.once j i round
    have counted_before := h.counted_of_full (h.past i round past) j
    split at once <;> omega
  omega

/-- Other messages do not matter. -/
theorem unchanged (h : Counted mailboxes entered returned inFlight counted)
    {inFlight' counted' : Fin n → Fin n → Nat → Nat}
    (same_inFlight : ∀ j i round, inFlight' j i round = inFlight j i round)
    (same_counted : ∀ j i round, counted' j i round = counted j i round) :
    Counted mailboxes entered returned inFlight' counted' := by
  obtain rfl : inFlight' = inFlight := by funext j i round; exact same_inFlight j i round
  obtain rfl : counted' = counted := by funext j i round; exact same_counted j i round
  exact h

/-- A change of one mailbox that leaves its counters alone. -/
theorem change (h : Counted mailboxes entered returned inFlight counted) {i : Fin n}
    {mailbox : Mailbox n} (outside : mailbox.caller = .outside ↔ (mailboxes i).caller = .outside)
    (unsent : ∀ j, mailbox.caller.unsent j = (mailboxes i).caller.unsent j)
    (counts : { mailbox with caller := (mailboxes i).caller } = mailboxes i)
    (asleep : mailbox.caller = .asleep → mailbox.thisCount ≠ n) :
    Counted (Function.update mailboxes i mailbox) entered returned inFlight counted where
  inStep := h.inStep
  outside := (Function.forall_update_iff _ fun j m =>
    Mailbox.caller m = .outside ↔ entered j = returned j).mpr
      ⟨outside.trans (h.outside i), fun j _ => h.outside j⟩
  progress := (Function.forall_update_iff _ fun j m =>
    Mailbox.progress m = UInt32.ofNat (returned j)).mpr
      ⟨(congrArg Mailbox.progress counts).trans (h.progress i), fun j _ => h.progress j⟩
  unsent_le := (Function.forall_update_iff _ fun _ m => ∀ k, (Mailbox.caller m).unsent k ≤ 1).mpr
    ⟨fun k => (unsent k).trans_le (h.unsent_le i k), fun j _ => h.unsent_le j⟩
  once := (Function.forall_update_iff _ fun j m => ∀ k round,
    counted j k round + inFlight j k round =
      if round + (Mailbox.caller m).unsent k < entered j then 1 else 0).mpr
      ⟨fun k round => by rw [unsent]; exact h.once i k round, fun j _ => h.once j⟩
  past := h.past
  current := (Function.forall_update_iff _ fun j m =>
    ∑ k, counted k j (returned j) = Mailbox.thisCount m).mpr
      ⟨(h.current i).trans (congrArg Mailbox.thisCount counts).symm, fun j _ => h.current j⟩
  next := (Function.forall_update_iff _ fun j m =>
    ∑ k, counted k j (returned j + 1) = Mailbox.nextCount m).mpr
      ⟨(h.next i).trans (congrArg Mailbox.nextCount counts).symm, fun j _ => h.next j⟩
  asleep := (Function.forall_update_iff _ fun _ m =>
    Mailbox.caller m = .asleep → Mailbox.thisCount m ≠ n).mpr ⟨asleep, fun j _ => h.asleep j⟩

theorem enter (h : Counted mailboxes entered returned inFlight counted) {i : Fin n}
    (outside : (mailboxes i).caller = .outside) :
    Counted (Function.update mailboxes i (mailboxes i).enter) (Rounds.bump entered i) returned
      inFlight counted where
  inStep := h.inStep.enter ((h.outside i).mp outside)
  outside := by
    apply (Function.forall_update_iff _ fun j m =>
      Mailbox.caller m = .outside ↔ Rounds.bump entered i j = returned j).mpr
    have here := (h.outside i).mp outside
    refine ⟨by simp [Mailbox.enter, Caller.start]; omega, fun j other => ?_⟩
    rw [Rounds.bump_of_ne other]
    exact h.outside j
  progress := (Function.forall_update_iff _ fun j m =>
    Mailbox.progress m = UInt32.ofNat (returned j)).mpr ⟨h.progress i, fun j _ => h.progress j⟩
  unsent_le := (Function.forall_update_iff _ fun _ m => ∀ k, (Mailbox.caller m).unsent k ≤ 1).mpr
    ⟨fun k => by simp [Mailbox.enter], fun j _ => h.unsent_le j⟩
  once := by
    apply (Function.forall_update_iff _ fun j m => ∀ k round,
      counted j k round + inFlight j k round =
        if round + (Mailbox.caller m).unsent k < Rounds.bump entered i j then 1 else 0).mpr
    refine ⟨fun k round => ?_, fun j other => ?_⟩
    · rw [h.once i k round, outside]
      simp [Mailbox.enter]
    · rw [Rounds.bump_of_ne other]
      exact h.once j
  past := h.past
  current := (Function.forall_update_iff _ fun j m =>
    ∑ k, counted k j (returned j) = Mailbox.thisCount m).mpr ⟨h.current i, fun j _ => h.current j⟩
  next := (Function.forall_update_iff _ fun j m =>
    ∑ k, counted k j (returned j + 1) = Mailbox.nextCount m).mpr ⟨h.next i, fun j _ => h.next j⟩
  asleep := (Function.forall_update_iff _ fun _ m =>
    Mailbox.caller m = .asleep → Mailbox.thisCount m ≠ n).mpr ⟨nofun, fun j _ => h.asleep j⟩

theorem send (h : Counted mailboxes entered returned inFlight counted) {i j : Fin n}
    {rest : List (Fin n)} (sending : (mailboxes i).caller = .sending (j :: rest))
    {inFlight' : Fin n → Fin n → Nat → Nat}
    (sent : ∀ k l round, inFlight' k l round =
      inFlight k l round + if k = i ∧ l = j ∧ round = returned i then 1 else 0) :
    Counted (Function.update mailboxes i ((mailboxes i).sent rest)) entered returned
      inFlight' counted where
  inStep := h.inStep
  outside := by
    apply (Function.forall_update_iff _ fun j m =>
      Mailbox.caller m = .outside ↔ entered j = returned j).mpr
    have inside := h.outside i
    simp only [sending, reduceCtorEq, false_iff] at inside
    refine ⟨?_, fun j _ => h.outside j⟩
    simp only [inside, iff_false]
    exact Caller.loop_ne_outside rest
  progress := (Function.forall_update_iff _ fun j m =>
    Mailbox.progress m = UInt32.ofNat (returned j)).mpr ⟨h.progress i, fun j _ => h.progress j⟩
  unsent_le := by
    apply (Function.forall_update_iff _ fun _ m => ∀ k, (Mailbox.caller m).unsent k ≤ 1).mpr
    refine ⟨fun k => ?_, fun j _ => h.unsent_le j⟩
    have before := h.unsent_le i k
    simp only [sending, Caller.unsent_sending, List.count_cons] at before
    simp only [Mailbox.sent, Caller.unsent_loop]
    omega
  once := by
    apply (Function.forall_update_iff _ fun k m => ∀ l round,
      counted k l round + inFlight' k l round =
        if round + (Mailbox.caller m).unsent l < entered k then 1 else 0).mpr
    refine ⟨fun l round => ?_, fun k other l round => ?_⟩
    · have once := h.once i l round
      have inside := h.outside i
      have one := h.inStep.one i
      have entered' := h.inStep.inside i
      have unsent := h.unsent_le i l
      simp only [sending, reduceCtorEq, false_iff, Caller.unsent_sending, List.count_cons,
        beq_iff_eq] at inside once unsent
      simp only [sent, Mailbox.sent, Caller.unsent_loop, true_and, eq_comm (a := l)]
      cases decEq j l with
      | isTrue same =>
          simp only [same, if_true, true_and] at once unsent ⊢
          split at once <;> split <;> split <;> omega
      | isFalse other =>
          simp only [other, if_false, false_and, Nat.add_zero] at once ⊢
          exact once
    · rw [sent, if_neg (fun same => other same.1)]
      exact h.once k l round
  past := h.past
  current := (Function.forall_update_iff _ fun j m =>
    ∑ k, counted k j (returned j) = Mailbox.thisCount m).mpr ⟨h.current i, fun j _ => h.current j⟩
  next := (Function.forall_update_iff _ fun j m =>
    ∑ k, counted k j (returned j + 1) = Mailbox.nextCount m).mpr ⟨h.next i, fun j _ => h.next j⟩
  asleep := (Function.forall_update_iff _ fun _ m =>
    Mailbox.caller m = .asleep → Mailbox.thisCount m ≠ n).mpr
      ⟨fun asleep => absurd asleep (Caller.loop_ne_asleep rest), fun j _ => h.asleep j⟩

theorem all_entered (h : Counted mailboxes entered returned inFlight counted) {i : Fin n}
    (full : (mailboxes i).thisCount = n) (j : Fin n) : returned i + 1 ≤ entered j := by
  have one := h.counted_of_full ((h.current i).trans full) j
  exact h.entered_of_counted (i := i) (by omega)

theorem pass (h : Counted mailboxes entered returned inFlight counted) {i : Fin n}
    (testing : (mailboxes i).caller = .testing) (full : (mailboxes i).thisCount = n) :
    Counted (Function.update mailboxes i
        ⟨(mailboxes i).nextCount, 0, (mailboxes i).progress + 1, .outside⟩)
      entered (Rounds.bump returned i) inFlight counted where
  inStep := h.inStep.leave (h.all_entered full)
  outside := by
    apply (Function.forall_update_iff _ fun j m =>
      Mailbox.caller m = .outside ↔ entered j = Rounds.bump returned i j).mpr
    have one := h.inStep.one i
    have inside := h.outside i
    have entered' := h.inStep.inside i
    simp only [testing, reduceCtorEq, false_iff] at inside
    refine ⟨by simp; omega, fun j other => ?_⟩
    rw [Rounds.bump_of_ne other]
    exact h.outside j
  progress := by
    apply (Function.forall_update_iff _ fun j m =>
      Mailbox.progress m = UInt32.ofNat (Rounds.bump returned i j)).mpr
    refine ⟨?_, fun j other => ?_⟩
    · simp [h.progress i, UInt32.ofNat_add]
    · rw [Rounds.bump_of_ne other]
      exact h.progress j
  unsent_le := (Function.forall_update_iff _ fun _ m => ∀ k, (Mailbox.caller m).unsent k ≤ 1).mpr
    ⟨fun k => by simp, fun j _ => h.unsent_le j⟩
  once := by
    apply (Function.forall_update_iff _ fun j m => ∀ k round,
      counted j k round + inFlight j k round =
        if round + (Mailbox.caller m).unsent k < entered j then 1 else 0).mpr
    refine ⟨fun k round => ?_, fun j _ => h.once j⟩
    rw [h.once i k round, testing]
    simp
  past j round before := by
    cases decEq j i with
    | isFalse other =>
        rw [Rounds.bump_of_ne other] at before
        exact h.past j round before
    | isTrue same =>
        subst same
        rw [Rounds.bump_same] at before
        cases Nat.lt_or_ge round (returned j) with
        | inl past => exact h.past j round past
        | inr now =>
            obtain rfl : round = returned j := by omega
            exact (h.current j).trans full
  current := by
    apply (Function.forall_update_iff _ fun j m =>
      ∑ k, counted k j (Rounds.bump returned i j) = Mailbox.thisCount m).mpr
    refine ⟨?_, fun j other => ?_⟩
    · rw [Rounds.bump_same]
      exact h.next i
    · rw [Rounds.bump_of_ne other]
      exact h.current j
  next := by
    apply (Function.forall_update_iff _ fun j m =>
      ∑ k, counted k j (Rounds.bump returned i j + 1) = Mailbox.nextCount m).mpr
    refine ⟨?_, fun j other => ?_⟩
    · rw [Rounds.bump_same]
      apply Finset.sum_eq_zero
      intro k _
      have once := h.once k i (returned i + 1 + 1)
      have ahead := h.inStep.entered_le i k
      have one := h.inStep.one i
      rw [if_neg (by omega)] at once
      omega
    · rw [Rounds.bump_of_ne other]
      exact h.next j
  asleep := (Function.forall_update_iff _ fun _ m =>
    Mailbox.caller m = .asleep → Mailbox.thisCount m ≠ n).mpr ⟨nofun, fun j _ => h.asleep j⟩

/-- One message less on its way and one more counted, by a mailbox that counts it right. -/
theorem receive (h : Counted mailboxes entered returned inFlight counted) {i : Fin n}
    {round : Nat} {mailbox : Mailbox n}
    (outside : mailbox.caller = .outside ↔ (mailboxes i).caller = .outside)
    (unsent : ∀ k, mailbox.caller.unsent k = (mailboxes i).caller.unsent k)
    (progress : mailbox.progress = (mailboxes i).progress)
    (thisCount : mailbox.thisCount =
      (mailboxes i).thisCount + if round = returned i then 1 else 0)
    (nextCount : mailbox.nextCount =
      (mailboxes i).nextCount + if round = returned i + 1 then 1 else 0)
    (asleep : mailbox.caller = .asleep → mailbox.thisCount ≠ n) (not_past : returned i ≤ round)
    {inFlight' counted' : Fin n → Fin n → Nat → Nat}
    (once : ∀ k l r, counted' k l r + inFlight' k l r = counted k l r + inFlight k l r)
    (sums : ∀ l r, ∑ k, counted' k l r =
      (∑ k, counted k l r) + if l = i ∧ r = round then 1 else 0) :
    Counted (Function.update mailboxes i mailbox) entered returned inFlight' counted' where
  inStep := h.inStep
  outside := (Function.forall_update_iff _ fun j m =>
    Mailbox.caller m = .outside ↔ entered j = returned j).mpr
      ⟨outside.trans (h.outside i), fun j _ => h.outside j⟩
  progress := (Function.forall_update_iff _ fun j m =>
    Mailbox.progress m = UInt32.ofNat (returned j)).mpr
      ⟨progress.trans (h.progress i), fun j _ => h.progress j⟩
  unsent_le := (Function.forall_update_iff _ fun _ m => ∀ k, (Mailbox.caller m).unsent k ≤ 1).mpr
    ⟨fun k => (unsent k).trans_le (h.unsent_le i k), fun j _ => h.unsent_le j⟩
  once := (Function.forall_update_iff _ fun j m => ∀ k round,
    counted' j k round + inFlight' j k round =
      if round + (Mailbox.caller m).unsent k < entered j then 1 else 0).mpr
      ⟨fun k round => by rw [unsent, once]; exact h.once i k round,
        fun j _ k round => (once j k round).trans (h.once j k round)⟩
  past l r before := by
    rw [sums, h.past l r before]
    split
    · next here => obtain ⟨rfl, rfl⟩ := here; omega
    · rfl
  current := by
    apply (Function.forall_update_iff _ fun j m =>
      ∑ k, counted' k j (returned j) = Mailbox.thisCount m).mpr
    refine ⟨?_, fun j other => ?_⟩
    · rw [sums, h.current i, thisCount]
      simp only [true_and, eq_comm]
    · rw [sums, if_neg fun here => other here.1]
      exact h.current j
  next := by
    apply (Function.forall_update_iff _ fun j m =>
      ∑ k, counted' k j (returned j + 1) = Mailbox.nextCount m).mpr
    refine ⟨?_, fun j other => ?_⟩
    · rw [sums, h.next i, nextCount]
      simp only [true_and, eq_comm]
    · rw [sums, if_neg fun here => other here.1]
      exact h.next j
  asleep := (Function.forall_update_iff _ fun _ m =>
    Mailbox.caller m = .asleep → Mailbox.thisCount m ≠ n).mpr ⟨asleep, fun j _ => h.asleep j⟩

/-- A node counts a message of one of its two rounds, and no assertion fails. -/
theorem deliver (h : Counted mailboxes entered returned inFlight counted) {j i : Fin n}
    {round : Nat} (on_its_way : 0 < inFlight j i round)
    {inFlight' counted' : Fin n → Fin n → Nat → Nat}
    (taken : ∀ k l r, inFlight k l r =
      inFlight' k l r + if k = j ∧ l = i ∧ r = round then 1 else 0)
    (received : ∀ k l r, counted' k l r =
      counted k l r + if k = j ∧ l = i ∧ r = round then 1 else 0) :
    ∃ mailbox, (mailboxes i).receiveBarrier (UInt32.ofNat round) = .ok mailbox ∧
      Counted (Function.update mailboxes i mailbox) entered returned inFlight' counted' := by
  have once : ∀ k l r, counted' k l r + inFlight' k l r = counted k l r + inFlight k l r := by
    intro k l r
    rw [received, taken]
    omega
  have counted'_le : ∀ k l r, counted' k l r ≤ 1 := by
    intro k l r
    have before := h.once k l r
    rw [← once] at before
    split at before <;> omega
  have sums : ∀ l r, ∑ k, counted' k l r =
      (∑ k, counted k l r) + if l = i ∧ r = round then 1 else 0 := by
    intro l r
    simp only [received, Finset.sum_add_distrib]
    congr 1
    cases Classical.em (l = i ∧ r = round) with
    | inl here => simp [here.1, here.2]
    | inr elsewhere =>
        rw [if_neg elsewhere]
        apply Finset.sum_eq_zero
        intro k _
        exact if_neg fun here => elsewhere here.2
  cases h.window on_its_way with
  | inl now =>
      subst now
      rw [← h.progress i, Mailbox.receiveBarrier_this]
      refine ⟨_, rfl, ?_⟩
      apply h.receive
      case once => exact once
      case sums => exact sums
      case progress => rfl
      case thisCount => simp
      case nextCount => simp
      case not_past => exact le_rfl
      · dsimp only
        split
        · exact Caller.notify_eq_outside
        · exact Iff.rfl
      · intro k
        dsimp only
        split
        · exact Caller.unsent_notify _ k
        · rfl
      · dsimp only
        split
        · intro asleep
          cases caller : (mailboxes i).caller <;> rw [caller] at asleep <;> cases asleep
        · next short => exact fun _ => short
  | inr later =>
      subst later
      have room : (mailboxes i).nextCount + 1 < n := by
        rw [← h.next i]
        have own := h.once i i (returned i + 1)
        have one := h.inStep.one i
        rw [if_neg (by omega), ← once] at own
        have bounded := Rounds.sum_lt_card (f := fun k => counted' k i (returned i + 1))
          (fun k => counted'_le k i _) (i := i) (by omega)
        rw [sums, Fintype.card_fin] at bounded
        simpa using bounded
      have version : UInt32.ofNat (returned i + 1) = (mailboxes i).progress + 1 := by
        simp [h.progress i, UInt32.ofNat_add]
      rw [version, Mailbox.receiveBarrier_next room]
      refine ⟨_, rfl, ?_⟩
      apply h.receive
      case once => exact once
      case sums => exact sums
      case outside => exact Iff.rfl
      case unsent => exact fun _ => rfl
      case progress => rfl
      case thisCount => simp
      case nextCount => simp
      case asleep => exact h.asleep i
      case not_past => exact Nat.le_succ _

/-- When nothing is on its way any more, a round everyone entered is over. -/
theorem count_full (h : Counted mailboxes entered returned inFlight counted) {i : Fin n}
    (all_entered : ∀ j, returned i + 1 ≤ entered j) (none_in_flight : ∀ j r, inFlight j i r = 0)
    (none_unsent : ∀ j, (mailboxes j).caller.unsent i = 0) : (mailboxes i).thisCount = n := by
  rw [← h.current i]
  have all_counted : ∀ j, counted j i (returned i) = 1 := by
    intro j
    have once := h.once j i (returned i)
    have := all_entered j
    rw [none_in_flight, none_unsent, if_pos (by omega)] at once
    exact once
  simp [all_counted]

end Counted

/-- The message of a round between two nodes, while it is on its way. -/
def message (sender recver : Fin n) (round : Nat) : BarrierMessage n :=
  ⟨sender, recver, UInt32.ofNat round, round⟩

theorem message_inj {j i l k : Fin n} {round round' : Nat} :
    message j i round = message l k round' ↔ l = j ∧ k = i ∧ round' = round := by
  simp only [message, BarrierMessage.mk.injEq]
  constructor
  · rintro ⟨rfl, rfl, -, rfl⟩
    exact ⟨rfl, rfl, rfl⟩
  · rintro ⟨rfl, rfl, rfl⟩
    exact ⟨rfl, rfl, rfl, rfl⟩

structure Inv (state : BarrierState n) (events : List (Received n)) : Prop where
  counted : Counted state.mailboxes state.entered state.returned
    (fun j i round => state.inFlight.count (message j i round))
    (fun j i round => events.count ⟨i, j, round⟩)
  versions : ∀ msg ∈ state.inFlight, ∃ j i round, msg = message j i round

theorem init_inv : Inv (init : BarrierState n) [] where
  counted := .start
  versions _ member := absurd member List.not_mem_nil

/-- No assertion fails in a step, and the step keeps the invariant. -/
theorem step_inv {state : BarrierState n} {events : List (Received n)} {input : BarrierInput n}
    (inv : Inv state events) (enabled : state.Enabled events input) :
    ∃ state' out, state.step input = .ok (state', out) ∧ Inv state' (events ++ out) := by
  obtain ⟨counted, versions⟩ := inv
  cases input with
  | enter i =>
      refine ⟨_, _, rfl, ?_, versions⟩
      rw [List.append_nil]
      exact counted.enter enabled
  | send i =>
      obtain ⟨j, rest, sending⟩ := enabled
      have sent : (⟨i, j, (state.mailboxes i).progress, state.returned i⟩ : BarrierMessage n) =
          message i j (state.returned i) := by
        rw [counted.progress i]
        rfl
      refine ⟨_, _, by simp only [step, sending]; rfl, ?_, ?_⟩
      · rw [List.append_nil]
        apply counted.send sending
        intro k l round
        simp only [sent, List.count_cons, beq_iff_eq, message_inj]
      · intro msg member
        cases List.mem_cons.mp member with
        | inl new => exact ⟨i, j, _, new.trans sent⟩
        | inr old => exact versions msg old
  | test i =>
      cases decEq (state.mailboxes i).thisCount n with
      | isTrue full =>
          refine ⟨_, _, by simp only [step, Mailbox.test_pass full, if_true]; rfl, ?_, ?_⟩
          · rw [List.append_nil]
            exact counted.pass enabled full
          · exact versions
      | isFalse short =>
          have testing : (state.mailboxes i).caller = .testing := enabled
          refine ⟨_, _, by simp only [step, Mailbox.test_block short, reduceCtorEq, if_false]; rfl,
            ?_, ?_⟩
          · rw [List.append_nil]
            exact counted.change (by simp [testing]) (by simp [testing]) rfl fun _ => short
          · exact versions
  | wake i =>
      refine ⟨_, _, rfl, ?_, versions⟩
      rw [List.append_nil]
      have asleep : (state.mailboxes i).caller = .asleep := enabled
      exact counted.change (by simp [Mailbox.wake]) (by simp [Mailbox.wake]) rfl
        (by simp [Mailbox.wake, asleep, Caller.notify])
  | deliver msg =>
      obtain ⟨j, i, round, rfl⟩ := versions msg enabled
      have on_its_way : 0 < state.inFlight.count (message j i round) := List.count_pos_iff.mpr enabled
      have taken : ∀ k l r, state.inFlight.count (message k l r) =
          (state.inFlight.erase (message j i round)).count (message k l r) +
            if k = j ∧ l = i ∧ r = round then 1 else 0 := by
        intro k l r
        rw [List.count_erase]
        simp only [beq_iff_eq, message_inj]
        split
        · next here => obtain ⟨rfl, rfl, rfl⟩ := here; omega
        · rfl
      have received : ∀ k l r,
          (events ++ [(⟨i, j, round⟩ : Received n)]).count ⟨l, k, r⟩ =
            events.count ⟨l, k, r⟩ + if k = j ∧ l = i ∧ r = round then 1 else 0 := by
        intro k l r
        rw [List.count_append, List.count_singleton]
        simp only [beq_iff_eq, Received.mk.injEq, eq_comm (a := i), eq_comm (a := j),
          eq_comm (a := round), and_left_comm]
      obtain ⟨mailbox, handled, counted⟩ := counted.deliver on_its_way taken received
      refine ⟨_, _, by simp only [step, message, handled]; rfl, counted, ?_⟩
      intro other member
      exact versions other (List.mem_of_mem_erase member)

theorem run_inv {inputs : List (BarrierInput n)} {state : BarrierState n}
    {events : List (Received n)}
    (run : Machine.Runs step Enabled init inputs state events) : Inv state events := by
  refine run.invariant (P := fun _ => Inv) init_inv ?_
  intro _ state events input state' out _ inv enabled stepped
  obtain ⟨state'', out', stepped', inv'⟩ := step_inv inv enabled
  cases stepped.symm.trans stepped'
  exact inv'

/-- The nodes agree on their rounds, and no assertion of the barrier fails. -/
theorem barrier_agrees {inputs : List (BarrierInput n)} {state : BarrierState n}
    {events : List (Received n)}
    (run : Machine.Runs step Enabled init inputs state events) :
    (∀ msg ∈ state.inFlight, msg.version = (state.mailboxes msg.recver).progress ∨
      msg.version = (state.mailboxes msg.recver).progress + 1) ∧
      (∀ input, state.Enabled events input → ∃ result, state.step input = .ok result) ∧
      (∀ i round, round ≤ state.returned i → ∀ j, round ≤ state.entered j) ∧
      (∀ i round, round < state.returned i → ∀ j, events.count ⟨i, j, round⟩ = 1) ∧
      ∀ round, (∀ j, round ≤ state.entered j) → state.inFlight = [] →
        (∀ j i, (state.mailboxes j).caller.unsent i = 0) → ∀ i, state.returned i + 1 = round →
          (state.mailboxes i).caller.Waiting →
          (state.mailboxes i).thisCount = n ∧ (state.mailboxes i).caller = .testing := by
  have inv := run_inv run
  obtain ⟨counted, versions⟩ := run_inv run
  refine ⟨?_, ?_, fun i round left j => left.trans (counted.inStep.agreement i j), ?_, ?_⟩
  · intro msg member
    obtain ⟨j, i, round, rfl⟩ := versions msg member
    have on_its_way : 0 < state.inFlight.count (message j i round) := List.count_pos_iff.mpr member
    change UInt32.ofNat round = (state.mailboxes i).progress ∨
      UInt32.ofNat round = (state.mailboxes i).progress + 1
    cases counted.window on_its_way with
    | inl now => exact .inl (by rw [now, counted.progress])
    | inr later => exact .inr (by simp [later, counted.progress, UInt32.ofNat_add])
  · intro input enabled
    obtain ⟨state', out, stepped, -⟩ := step_inv inv enabled
    exact ⟨_, stepped⟩
  · intro i round left j
    exact counted.counted_of_full (counted.past i round left) j
  · intro round all_entered none_in_flight none_unsent i current waiting
    subst current
    have full := counted.count_full all_entered (by simp [none_in_flight])
      (fun j => none_unsent j i)
    refine ⟨full, ?_⟩
    cases waiting with
    | inl testing => exact testing
    | inr asleep => exact absurd full (counted.asleep i asleep)

instance (state : BarrierState n) (events : List (Received n)) (input : BarrierInput n) :
    Decidable (state.Enabled events input) :=
  match input with
  | .enter i => inferInstanceAs (Decidable ((state.mailboxes i).caller = .outside))
  | .send i => decidable_of_iff ((state.mailboxes i).caller.next.isSome) Caller.next_isSome
  | .test i => inferInstanceAs (Decidable ((state.mailboxes i).caller = .testing))
  | .wake i => inferInstanceAs (Decidable ((state.mailboxes i).caller = .asleep))
  | .deliver msg => inferInstanceAs (Decidable (msg ∈ state.inFlight))

/-- The message of node 0 for its second round overtakes the end of the first at node 1. -/
theorem barrier_agrees_twoNodes : ∃ (state : BarrierState 2) (events : List (Received 2)),
    (state.mailboxes 1).nextCount = 1 ∧ state.returned 0 = 1 ∧ 1 ≤ state.entered 1 ∧
      ∀ j, events.count ⟨0, j, 0⟩ = 1 := by
  obtain ⟨state, events, run, overtaken, left⟩ := Machine.runs_of_exec step
    Enabled (init : BarrierState 2)
    [.enter 1, .send 1, .send 1, .test 1, .enter 0, .send 0, .send 0, .deliver ⟨1, 0, 0, 0⟩,
      .deliver ⟨0, 0, 0, 0⟩, .test 0, .enter 0, .send 0, .send 0, .deliver ⟨0, 1, 1, 1⟩]
    (fun state _ => (state.mailboxes 1).nextCount = 1 ∧ state.returned 0 = 1) (by decide +kernel)
  obtain ⟨-, -, agreement, all_received, -⟩ := barrier_agrees run
  exact ⟨state, events, overtaken, left, agreement 0 1 (by omega) 1,
    all_received 0 0 (by omega)⟩

end BarrierState

end FlexPS.Comm2
