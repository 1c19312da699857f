import FlexPS.Lib.Machine
import FlexPS.Lib.Rounds

/-! # The counting barrier of the mailbox

`Mailbox::Barrier` sends one message to every node and waits until the receiver
thread has counted as many messages as there are nodes. Messages carry no round
number. There are `n` nodes, numbered by their place in `nodes_`; `n` is at most
the 65536 sockets of the context, so that no counter overflows.
-/

namespace FlexPS

/-- Where the thread that calls `Barrier` stands. -/
inductive Caller (n : Nat) where
  | outside
  /-- In the loop over `nodes_`, with these nodes left to send to. -/
  | sending (rest : List (Fin n))
  /-- About to evaluate the predicate of `barrier_cond_.wait`. -/
  | testing
  /-- Blocked on `barrier_cond_`. -/
  | asleep
  deriving DecidableEq, Repr

namespace Caller

variable {n : Nat}

/-- The loop of `Barrier` before its first `Send`. -/
def start : Caller n := .sending (List.finRange n)

/-- The rest of the loop, and what follows it. -/
def loop : List (Fin n) → Caller n
  | [] => .testing
  | rest => .sending rest

/-- `barrier_cond_.notify_one()`. -/
def notify : Caller n → Caller n
  | .asleep => .testing
  | caller => caller

/-- Waiting for the count, awake or not. -/
def Waiting (caller : Caller n) : Prop := caller = .testing ∨ caller = .asleep

/-- Where the next message of the loop goes. -/
def next : Caller n → Option (Fin n)
  | .sending (j :: _) => some j
  | _ => none

theorem next_isSome {caller : Caller n} :
    caller.next.isSome ↔ ∃ j rest, caller = .sending (j :: rest) := by
  rcases caller with _ | ⟨_ | ⟨j, rest⟩⟩ | _ | _ <;> simp [next]

/-- How many messages of its round the caller still has to send to `i`. -/
def unsent (caller : Caller n) (i : Fin n) : Nat :=
  match caller with
  | .sending rest => rest.count i
  | _ => 0

@[simp] theorem unsent_outside (i : Fin n) : (outside : Caller n).unsent i = 0 := rfl
@[simp] theorem unsent_testing (i : Fin n) : (testing : Caller n).unsent i = 0 := rfl
@[simp] theorem unsent_asleep (i : Fin n) : (asleep : Caller n).unsent i = 0 := rfl

@[simp] theorem unsent_start (i : Fin n) : (start : Caller n).unsent i = 1 :=
  List.count_eq_one_of_mem (List.nodup_finRange n) (List.mem_finRange i)

@[simp] theorem unsent_sending (rest : List (Fin n)) (i : Fin n) :
    (sending rest).unsent i = rest.count i := rfl

@[simp] theorem unsent_loop (rest : List (Fin n)) (i : Fin n) :
    (loop rest).unsent i = rest.count i := by
  cases rest <;> rfl

@[simp] theorem unsent_notify (caller : Caller n) (i : Fin n) :
    caller.notify.unsent i = caller.unsent i := by
  cases caller <;> rfl

theorem loop_ne_outside (rest : List (Fin n)) : loop rest ≠ .outside := by
  cases rest <;> nofun

theorem loop_ne_asleep (rest : List (Fin n)) : loop rest ≠ .asleep := by
  cases rest <;> nofun

theorem start_ne_sending (i : Fin n) : (start : Caller n) ≠ .sending [] := by
  intro none
  have member := List.mem_finRange i
  rw [Caller.sending.inj none] at member
  cases member

theorem loop_ne_sending (rest : List (Fin n)) : loop rest ≠ .sending [] := by
  cases rest <;> simp [loop]

@[simp] theorem notify_eq_sending {caller : Caller n} {rest : List (Fin n)} :
    caller.notify = .sending rest ↔ caller = .sending rest := by
  cases caller <;> simp [notify]

@[simp] theorem notify_eq_outside {caller : Caller n} :
    caller.notify = .outside ↔ caller = .outside := by
  cases caller <;> simp [notify]

end Caller

/-- The barrier of one `Mailbox`. -/
structure Mailbox (n : Nat) where
  barrierCount : Int
  caller : Caller n
  deriving DecidableEq, Repr

namespace Mailbox

variable {n : Nat}

def init : Mailbox n := ⟨0, .outside⟩

/-- The call of `Barrier`. -/
def enter (mailbox : Mailbox n) : Mailbox n := { mailbox with caller := .start }

/-- One turn of the loop, with `rest` left after it. -/
def sent (mailbox : Mailbox n) (rest : List (Fin n)) : Mailbox n :=
  { mailbox with caller := .loop rest }

/-- One evaluation of `barrier_count_ >= nodes_.size()` in `wait`, and what follows. -/
def test (mailbox : Mailbox n) : Mailbox n :=
  if n ≤ mailbox.barrierCount then ⟨mailbox.barrierCount - n, .outside⟩
  else { mailbox with caller := .asleep }

/-- A wakeup of `wait` without a notification. -/
def wake (mailbox : Mailbox n) : Mailbox n := { mailbox with caller := mailbox.caller.notify }

/-- The branch of `Receiving` for `Flag::kBarrier`. -/
def receiveBarrier (mailbox : Mailbox n) : Mailbox n :=
  let barrierCount := mailbox.barrierCount + 1
  if barrierCount = n then ⟨barrierCount, mailbox.caller.notify⟩
  else { mailbox with barrierCount }

theorem receiveBarrier_count (mailbox : Mailbox n) :
    mailbox.receiveBarrier.barrierCount = mailbox.barrierCount + 1 := by
  dsimp only [receiveBarrier]
  split <;> rfl

theorem receiveBarrier_caller (mailbox : Mailbox n) : mailbox.receiveBarrier.caller =
    if mailbox.barrierCount + 1 = n then mailbox.caller.notify else mailbox.caller := by
  dsimp only [receiveBarrier]
  split <;> rfl

@[simp] theorem receiveBarrier_unsent (mailbox : Mailbox n) (i : Fin n) :
    mailbox.receiveBarrier.caller.unsent i = mailbox.caller.unsent i := by
  rw [receiveBarrier_caller]
  split <;> simp

theorem test_pass {mailbox : Mailbox n} (enough : n ≤ mailbox.barrierCount) :
    mailbox.test = ⟨mailbox.barrierCount - n, .outside⟩ := if_pos enough

theorem test_block {mailbox : Mailbox n} (below : mailbox.barrierCount < n) :
    mailbox.test = { mailbox with caller := .asleep } := if_neg (not_le.mpr below)

end Mailbox

/-- The mailboxes of all nodes with the barrier messages between them. -/
structure BarrierState (n : Nat) where
  mailboxes : Fin n → Mailbox n
  /-- `inFlight sender recver`: messages sent and not delivered. -/
  inFlight : Fin n → Fin n → Nat
  /-- How many calls of `Barrier` the node has begun. -/
  entered : Fin n → Nat
  /-- How many calls of `Barrier` have returned. -/
  returned : Fin n → Nat

inductive BarrierInput (n : Nat) where
  | enter (i : Fin n)
  | send (i : Fin n)
  | test (i : Fin n)
  | wake (i : Fin n)
  | deliver (sender recver : Fin n)
  deriving DecidableEq, Repr

/-- What can be seen of a run; rounds count from one. -/
inductive BarrierEvent (n : Nat) where
  /-- The node found the predicate false and went to sleep. -/
  | slept (i : Fin n) (round : Nat)
  /-- `barrier_count_` reached `nodes_.size()`. -/
  | notified (i : Fin n) (round : Nat)
  | returned (i : Fin n) (round : Nat)
  deriving DecidableEq, Repr

namespace BarrierState

variable {n : Nat}

def init : BarrierState n :=
  ⟨fun _ => .init, fun _ _ => 0, fun _ => 0, fun _ => 0⟩

/-- When a step can be taken. -/
def Enabled (state : BarrierState n) (_ : List (BarrierEvent n)) : BarrierInput n → Prop
  | .enter i => (state.mailboxes i).caller = .outside
  | .send i => ∃ j rest, (state.mailboxes i).caller = .sending (j :: rest)
  | .test i => (state.mailboxes i).caller = .testing
  | .wake i => (state.mailboxes i).caller = .asleep
  | .deliver sender recver => 0 < state.inFlight sender recver

/-- One step of one node. None of them can fail. -/
def step (state : BarrierState n) : BarrierInput n → Except Empty (BarrierState n × List (BarrierEvent n))
  | .enter i => .ok ({ state with
      mailboxes := Function.update state.mailboxes i (state.mailboxes i).enter
      entered := Rounds.bump state.entered i }, [])
  | .send i =>
      match (state.mailboxes i).caller with
      | .sending (j :: rest) => .ok ({ state with
          mailboxes := Function.update state.mailboxes i ((state.mailboxes i).sent rest)
          inFlight := Function.update state.inFlight i (Rounds.bump (state.inFlight i) j) }, [])
      | _ => .ok (state, [])
  | .test i =>
      let mailbox := (state.mailboxes i).test
      let state := { state with mailboxes := Function.update state.mailboxes i mailbox }
      if mailbox.caller = .outside then
        .ok ({ state with returned := Rounds.bump state.returned i },
          [.returned i (state.returned i + 1)])
      else .ok (state, [.slept i (state.returned i + 1)])
  | .wake i => .ok ({ state with
      mailboxes := Function.update state.mailboxes i (state.mailboxes i).wake }, [])
  | .deliver sender recver =>
      let mailbox := (state.mailboxes recver).receiveBarrier
      .ok ({ state with
          mailboxes := Function.update state.mailboxes recver mailbox
          inFlight := Function.update state.inFlight sender
            (Function.update (state.inFlight sender) recver (state.inFlight sender recver - 1)) },
        if mailbox.barrierCount = n then [.notified recver (state.returned recver + 1)] else [])

/-! ## The counting argument -/

theorem count_update (mailboxes : Fin n → Mailbox n) (i : Fin n) (mailbox : Mailbox n)
    (same : mailbox.barrierCount = (mailboxes i).barrierCount) (j : Fin n) :
    (Function.update mailboxes i mailbox j).barrierCount = (mailboxes j).barrierCount := by
  rw [Function.update_apply]
  split
  · next here => subst here; exact same
  · rfl

/-- What holds of mailboxes that have counted correctly. -/
structure Counted (mailboxes : Fin n → Mailbox n) (inFlight : Fin n → Fin n → Nat)
    (entered returned : Fin n → Nat) : Prop where
  inStep : Rounds.InStep entered returned
  outside : ∀ i, (mailboxes i).caller = .outside ↔ entered i = returned i
  /-- Every message a node owes is counted, used up by a return, in flight or unsent. -/
  account : ∀ i, (mailboxes i).barrierCount + (n * returned i + ∑ j, inFlight j i +
    ∑ j, (mailboxes j).caller.unsent i : Nat) = (∑ j, entered j : Nat)
  nonneg : ∀ i, 0 ≤ (mailboxes i).barrierCount
  asleep : ∀ i, (mailboxes i).caller = .asleep → (mailboxes i).barrierCount < n

namespace Counted

variable {mailboxes : Fin n → Mailbox n} {inFlight : Fin n → Fin n → Nat}
  {entered returned : Fin n → Nat}

theorem start : Counted (fun _ : Fin n => .init) (fun _ _ => 0) (fun _ => 0) (fun _ => 0) where
  inStep := .start
  outside _ := by simp [Mailbox.init]
  account _ := by simp [Mailbox.init]
  nonneg _ := le_rfl
  asleep _ h := by cases h

/-- A change of one mailbox, the messages in flight kept. -/
theorem change (h : Counted mailboxes inFlight entered returned) {i : Fin n} {mailbox : Mailbox n}
    (outside : mailbox.caller = .outside ↔ (mailboxes i).caller = .outside)
    (unsent : ∀ j, mailbox.caller.unsent j = (mailboxes i).caller.unsent j)
    (count : mailbox.barrierCount = (mailboxes i).barrierCount)
    (asleep : mailbox.caller = .asleep → mailbox.barrierCount < n) :
    Counted (Function.update mailboxes i mailbox) inFlight entered returned where
  inStep := h.inStep
  outside j := by
    rw [Function.update_apply]
    split
    · next same => subst same; exact outside.trans (h.outside j)
    · exact h.outside j
  account j := by
    have total := Rounds.sum_update (fun m : Mailbox n => m.caller.unsent j) mailboxes i mailbox
    have old := h.account j
    have same := unsent j
    rw [Function.update_apply]
    split
    · next same => subst same; rw [count]; omega
    · omega
  nonneg j := by
    rw [Function.update_apply]
    split
    · next same => subst same; rw [count]; exact h.nonneg j
    · exact h.nonneg j
  asleep j := by
    rw [Function.update_apply]
    split
    · exact asleep
    · exact h.asleep j

theorem enter (h : Counted mailboxes inFlight entered returned) {i : Fin n}
    (outside : (mailboxes i).caller = .outside) :
    Counted (Function.update mailboxes i (mailboxes i).enter) inFlight (Rounds.bump entered i)
      returned where
  inStep := h.inStep.enter ((h.outside i).mp outside)
  outside j := by
    have here := (h.outside i).mp outside
    rw [Function.update_apply, Rounds.bump_apply]
    split
    · next same => subst same; simp [Mailbox.enter, Caller.start]; omega
    · exact h.outside j
  account j := by
    have total := Rounds.sum_update (fun m : Mailbox n => m.caller.unsent j) mailboxes i
      (mailboxes i).enter
    have old := h.account j
    simp only [outside, Caller.unsent_outside, Mailbox.enter, Caller.unsent_start] at total
    rw [Rounds.sum_bump]
    rw [count_update mailboxes i (mailboxes i).enter rfl]
    simp only [Mailbox.enter]
    omega
  nonneg j := by
    rw [Function.update_apply]
    split
    · next same => subst same; exact h.nonneg j
    · exact h.nonneg j
  asleep j := by
    rw [Function.update_apply]
    split
    · intro asleep; cases asleep
    · exact h.asleep j

theorem send (h : Counted mailboxes inFlight entered returned) {i j : Fin n} {rest : List (Fin n)}
    (sending : (mailboxes i).caller = .sending (j :: rest)) :
    Counted (Function.update mailboxes i ((mailboxes i).sent rest))
      (Function.update inFlight i (Rounds.bump (inFlight i) j)) entered returned where
  inStep := h.inStep
  outside k := by
    rw [Function.update_apply]
    split
    · next same =>
        subst same
        have inside := h.outside k
        simp only [sending, reduceCtorEq, false_iff] at inside
        simp only [inside, iff_false]
        exact Caller.loop_ne_outside rest
    · exact h.outside k
  account k := by
    have callers := Rounds.sum_update (fun m : Mailbox n => m.caller.unsent k) mailboxes i
      ((mailboxes i).sent rest)
    have messages := Rounds.sum_update (fun row : Fin n → Nat => row k) inFlight i
      (Rounds.bump (inFlight i) j)
    have old := h.account k
    simp only [sending, Mailbox.sent, Caller.unsent_loop, Caller.unsent_sending, List.count_cons,
      Rounds.bump_apply, beq_iff_eq, eq_comm (a := j)] at callers messages
    rw [count_update mailboxes i ((mailboxes i).sent rest) rfl]
    simp only [Mailbox.sent]
    omega
  nonneg := (Function.forall_update_iff _ fun _ m => 0 ≤ Mailbox.barrierCount m).mpr
    ⟨h.nonneg i, fun k _ => h.nonneg k⟩
  asleep := (Function.forall_update_iff _ fun _ m =>
      Mailbox.caller m = .asleep → Mailbox.barrierCount m < n).mpr
    ⟨fun asleep => absurd asleep (Caller.loop_ne_asleep rest), fun k _ => h.asleep k⟩

/-- The count of a node that is inside is what all nodes sent in the rounds it has not left. -/
theorem count_le (h : Counted mailboxes inFlight entered returned) (i : Fin n) :
    (mailboxes i).barrierCount + (n * returned i : Nat) ≤ (∑ j, entered j : Nat) := by
  have := h.account i
  omega

/-- A node leaves the barrier only when every node has entered. -/
theorem all_entered (h : Counted mailboxes inFlight entered returned) {i : Fin n}
    (enough : n ≤ (mailboxes i).barrierCount) (j : Fin n) : returned i + 1 ≤ entered j := by
  apply h.inStep.all_entered_of_sum
  have := h.count_le i
  rw [Fintype.card_fin, Nat.mul_succ]
  omega

theorem pass (h : Counted mailboxes inFlight entered returned) {i : Fin n}
    (testing : (mailboxes i).caller = .testing) (enough : n ≤ (mailboxes i).barrierCount) :
    Counted (Function.update mailboxes i ⟨(mailboxes i).barrierCount - n, .outside⟩) inFlight
      entered (Rounds.bump returned i) where
  inStep := h.inStep.leave (h.all_entered enough)
  outside j := by
    have one := h.inStep.one i
    have inside := h.outside i
    have entered' := h.inStep.inside i
    simp only [testing, reduceCtorEq, false_iff] at inside
    rw [Function.update_apply, Rounds.bump_apply]
    split
    · next same => subst same; simp only [true_iff]; omega
    · exact h.outside j
  account j := by
    have callers := Rounds.sum_update (fun m : Mailbox n => m.caller.unsent j) mailboxes i
      ⟨(mailboxes i).barrierCount - n, .outside⟩
    have old := h.account j
    simp only [testing, Caller.unsent_outside, Caller.unsent_testing] at callers
    rw [Function.update_apply, Rounds.bump_apply]
    split
    · next same => subst same; simp only [Nat.mul_succ]; omega
    · simp only [Nat.add_zero]; omega
  nonneg := (Function.forall_update_iff _ fun _ m => 0 ≤ Mailbox.barrierCount m).mpr
    ⟨by simpa using enough, fun k _ => h.nonneg k⟩
  asleep := (Function.forall_update_iff _ fun _ m =>
      Mailbox.caller m = .asleep → Mailbox.barrierCount m < n).mpr
    ⟨nofun, fun k _ => h.asleep k⟩

theorem deliver (h : Counted mailboxes inFlight entered returned) {sender recver : Fin n}
    (some_message : 0 < inFlight sender recver) :
    Counted (Function.update mailboxes recver (mailboxes recver).receiveBarrier)
      (Function.update inFlight sender
        (Function.update (inFlight sender) recver (inFlight sender recver - 1)))
      entered returned where
  inStep := h.inStep
  outside := (Function.forall_update_iff _ fun j m =>
      Mailbox.caller m = .outside ↔ entered j = returned j).mpr
    ⟨by
      rw [Mailbox.receiveBarrier_caller]
      split
      · exact Caller.notify_eq_outside.trans (h.outside recver)
      · exact h.outside recver, fun k _ => h.outside k⟩
  account j := by
    have callers := Rounds.sum_update (fun m : Mailbox n => m.caller.unsent j) mailboxes recver
      (mailboxes recver).receiveBarrier
    have messages := Rounds.sum_update (fun row : Fin n → Nat => row j) inFlight sender
      (Function.update (inFlight sender) recver (inFlight sender recver - 1))
    have old := h.account j
    simp only [Mailbox.receiveBarrier_unsent] at callers
    simp only [Function.update_apply (inFlight sender)] at messages
    rw [Function.update_apply]
    split
    · next same =>
        subst same
        rw [Mailbox.receiveBarrier_count]
        simp only [if_true] at messages
        omega
    · next other =>
        simp only [other, if_false] at messages
        omega
  nonneg := (Function.forall_update_iff _ fun _ m => 0 ≤ Mailbox.barrierCount m).mpr
    ⟨by
      rw [Mailbox.receiveBarrier_count]
      exact Int.le_add_one (h.nonneg recver), fun k _ => h.nonneg k⟩
  asleep := (Function.forall_update_iff _ fun _ m =>
      Mailbox.caller m = .asleep → Mailbox.barrierCount m < n).mpr
    ⟨by
      rw [Mailbox.receiveBarrier_caller, Mailbox.receiveBarrier_count]
      split
      · intro asleep
        cases h : (mailboxes recver).caller <;> rw [h] at asleep <;> cases asleep
      · intro asleep
        have := h.asleep recver asleep
        omega, fun k _ => h.asleep k⟩

/-- The bounds on `barrier_count_`. -/
theorem count_bounds (h : Counted mailboxes inFlight entered returned) (i : Fin n) :
    0 ≤ (mailboxes i).barrierCount ∧ (mailboxes i).barrierCount ≤ 2 * n - 1 := by
  refine ⟨h.nonneg i, ?_⟩
  have total := h.count_le i
  have self : entered i ≤ returned i + 1 := h.inStep.one i
  have others : ∑ j ∈ Finset.univ.erase i, entered j ≤ (n - 1) * (returned i + 2) := by
    calc ∑ j ∈ Finset.univ.erase i, entered j
        ≤ ∑ _j ∈ Finset.univ.erase i, (returned i + 2) := by
          apply Finset.sum_le_sum
          intro j _
          have := h.inStep.entered_le i j
          omega
      _ = (n - 1) * (returned i + 2) := by simp [Finset.card_erase_of_mem]
  have sum := Finset.add_sum_erase Finset.univ entered (Finset.mem_univ i)
  obtain ⟨m, rfl⟩ : ∃ m, n = m + 1 := ⟨n - 1, by have := i.pos; omega⟩
  have expand : m * (returned i + 2) = m * returned i + 2 * m := by ring
  have expand' : (m + 1) * returned i = m * returned i + returned i := by ring
  simp only [Nat.add_sub_cancel] at others
  rw [expand'] at total
  omega

/-- A node that has left the last round anyone entered has counted everything. -/
theorem flushed (h : Counted mailboxes inFlight entered returned) {i : Fin n}
    (last : ∀ j, entered j ≤ returned i) (j : Fin n) :
    inFlight j i = 0 ∧ (mailboxes j).caller.unsent i = 0 := by
  have account := h.account i
  have nonneg := h.nonneg i
  have total : ∑ j, entered j ≤ n * returned i := by
    calc ∑ j, entered j ≤ ∑ _j : Fin n, returned i := Finset.sum_le_sum fun j _ => last j
      _ = n * returned i := by simp
  have flights : ∑ j, inFlight j i = 0 := by omega
  have unsent : ∑ j, (mailboxes j).caller.unsent i = 0 := by omega
  exact ⟨Finset.sum_eq_zero_iff.mp flights j (Finset.mem_univ j),
    Finset.sum_eq_zero_iff.mp unsent j (Finset.mem_univ j)⟩

/-- When nothing is on its way any more, a round everyone entered is over. -/
theorem count_full (h : Counted mailboxes inFlight entered returned) {i : Fin n}
    (all_entered : ∀ j, returned i + 1 ≤ entered j) (none_in_flight : ∀ j, inFlight j i = 0)
    (none_unsent : ∀ j, (mailboxes j).caller.unsent i = 0) : n ≤ (mailboxes i).barrierCount := by
  have account := h.account i
  simp only [none_in_flight, none_unsent, Finset.sum_const_zero] at account
  have total : n * (returned i + 1) ≤ ∑ j, entered j := by
    calc n * (returned i + 1) = ∑ _j : Fin n, (returned i + 1) := by simp
      _ ≤ ∑ j, entered j := Finset.sum_le_sum fun j _ => all_entered j
  rw [Nat.mul_succ] at total
  omega

end Counted

/-- The mailboxes have counted correctly, and a node that slept in a round was notified
    unless the count is still short. -/
structure Inv (state : BarrierState n) (events : List (BarrierEvent n)) : Prop where
  counted : Counted state.mailboxes state.inFlight state.entered state.returned
  notified : ∀ i round, .slept i round ∈ events → .notified i round ∈ events ∨
    (round = state.returned i + 1 ∧ (state.mailboxes i).barrierCount < n)

theorem init_inv : Inv (init : BarrierState n) [] where
  counted := .start
  notified _ _ slept := absurd slept List.not_mem_nil

theorem step_inv {state state' : BarrierState n} {events out : List (BarrierEvent n)}
    {input : BarrierInput n} (inv : Inv state events) (enabled : state.Enabled events input)
    (stepped : state.step input = .ok (state', out)) : Inv state' (events ++ out) := by
  obtain ⟨counted, notified⟩ := inv
  cases input with
  | enter i =>
      cases stepped
      refine ⟨counted.enter enabled, ?_⟩
      intro j round slept
      rw [List.append_nil] at slept ⊢
      exact (notified j round slept).imp_right fun short =>
        ⟨short.1, (count_update state.mailboxes i (state.mailboxes i).enter rfl j).trans_lt short.2⟩
  | send i =>
      obtain ⟨j, rest, sending⟩ := enabled
      simp only [step, sending] at stepped
      cases stepped
      refine ⟨counted.send sending, ?_⟩
      intro k round slept
      rw [List.append_nil] at slept ⊢
      exact (notified k round slept).imp_right fun short =>
        ⟨short.1, (count_update state.mailboxes i ((state.mailboxes i).sent rest) rfl k).trans_lt short.2⟩
  | test i =>
      cases lt_or_ge (state.mailboxes i).barrierCount n with
      | inl below =>
          simp only [step, Mailbox.test_block below, reduceCtorEq, if_false] at stepped
          cases stepped
          refine ⟨counted.change (by simp [show _ = _ from enabled]) (by simp [show _ = _ from enabled])
            rfl fun _ => below, ?_⟩
          intro j round slept
          have kept := count_update state.mailboxes i
            { state.mailboxes i with caller := .asleep } rfl j
          cases List.mem_append.mp slept with
          | inl before =>
              exact (notified j round before).imp (List.mem_append_left _)
                fun short => ⟨short.1, kept.trans_lt short.2⟩
          | inr now =>
              cases List.mem_singleton.mp now
              exact .inr ⟨rfl, kept.trans_lt below⟩
      | inr enough =>
          simp only [step, Mailbox.test_pass enough, if_true] at stepped
          cases stepped
          refine ⟨counted.pass enabled enough, ?_⟩
          intro j round slept
          have before : BarrierEvent.slept j round ∈ events := by simpa using slept
          cases notified j round before with
          | inl told => exact .inl (List.mem_append_left _ told)
          | inr short =>
              have other : j ≠ i := by
                intro same
                subst same
                omega
              simpa only [Rounds.bump_of_ne other, Function.update_of_ne other] using .inr short
  | wake i =>
      cases stepped
      refine ⟨counted.change (by simp [Mailbox.wake]) (by simp [Mailbox.wake]) rfl ?_, ?_⟩
      · intro asleep
        simp [Mailbox.wake, show _ = _ from enabled, Caller.notify] at asleep
      intro j round slept
      rw [List.append_nil] at slept ⊢
      exact (notified j round slept).imp_right fun short =>
        ⟨short.1, (count_update state.mailboxes i (state.mailboxes i).wake rfl j).trans_lt short.2⟩
  | deliver sender recver =>
      cases stepped
      refine ⟨counted.deliver enabled, ?_⟩
      intro j round slept
      have before : BarrierEvent.slept j round ∈ events := by
        cases List.mem_append.mp slept with
        | inl before => exact before
        | inr now =>
            split at now
            · cases List.mem_singleton.mp now
            · cases now
      cases notified j round before with
      | inl told => exact .inl (List.mem_append_left _ told)
      | inr short =>
          obtain ⟨current, below⟩ := short
          cases decEq j recver with
          | isFalse other =>
              simpa only [Function.update_of_ne other] using .inr ⟨current, below⟩
          | isTrue same =>
              subst same
              simp only [Function.update_self, Mailbox.receiveBarrier_count, current]
              split
              · exact .inl (List.mem_append_right _ (List.mem_singleton_self _))
              · next not_full => exact .inr ⟨trivial, by omega⟩

theorem run_inv {inputs : List (BarrierInput n)} {state : BarrierState n}
    {events : List (BarrierEvent n)}
    (run : Machine.Runs step Enabled init inputs state events) : Inv state events := by
  refine run.invariant (P := fun _ => Inv) init_inv ?_
  intro _ state events input state' out _ inv enabled stepped
  exact step_inv inv enabled stepped

/-- The counting barrier never releases a node early, and never too late. -/
theorem barrier_counts {inputs : List (BarrierInput n)} {state : BarrierState n}
    {events : List (BarrierEvent n)}
    (run : Machine.Runs step Enabled init inputs state events) :
    (∀ i j round, round ≤ state.returned i → round ≤ state.entered j) ∧
      (∀ i, 0 ≤ (state.mailboxes i).barrierCount ∧ (state.mailboxes i).barrierCount ≤ 2 * n - 1) ∧
      (∀ i round, .slept i round ∈ events → .notified i round ∈ events ∨
        (round = state.returned i + 1 ∧ (state.mailboxes i).barrierCount < n)) ∧
      ∀ round, (∀ j, round ≤ state.entered j) → (∀ j i, state.inFlight j i = 0) →
        (∀ j i, (state.mailboxes j).caller.unsent i = 0) → ∀ i, state.returned i + 1 = round →
          (state.mailboxes i).caller.Waiting →
          n ≤ (state.mailboxes i).barrierCount ∧ (state.mailboxes i).caller = .testing := by
  obtain ⟨counted, notified⟩ := run_inv run
  refine ⟨fun i j _ left => left.trans (counted.inStep.agreement i j), counted.count_bounds,
    notified, ?_⟩
  intro round all_entered none_in_flight none_unsent i current waiting
  subst current
  have full := counted.count_full all_entered (fun j => none_in_flight j i)
    (fun j => none_unsent j i)
  refine ⟨full, ?_⟩
  cases waiting with
  | inl testing => exact testing
  | inr asleep =>
      have := counted.asleep i asleep
      omega

instance (state : BarrierState n) (events : List (BarrierEvent n)) (input : BarrierInput n) :
    Decidable (state.Enabled events input) :=
  match input with
  | .enter i => inferInstanceAs (Decidable ((state.mailboxes i).caller = .outside))
  | .send i => decidable_of_iff ((state.mailboxes i).caller.next.isSome) Caller.next_isSome
  | .test i => inferInstanceAs (Decidable ((state.mailboxes i).caller = .testing))
  | .wake i => inferInstanceAs (Decidable ((state.mailboxes i).caller = .asleep))
  | .deliver sender recver => inferInstanceAs (Decidable (0 < state.inFlight sender recver))

/-- Node 0 is in its second round while node 1 still sleeps in the first one, and the
    message of the second round is counted in the first. -/
theorem barrier_counts_twoNodes : ∃ (state : BarrierState 2) (events : List (BarrierEvent 2)),
    state.entered 0 = 2 ∧ .slept 1 1 ∈ events ∧ .notified 1 1 ∈ events ∧
      (state.mailboxes 1).barrierCount = 3 ∧ ∀ j, 1 ≤ state.entered j := by
  obtain ⟨state, events, run, second, slept, notified, early, left⟩ := Machine.runs_of_exec step
    Enabled (init : BarrierState 2)
    [.enter 1, .send 1, .send 1, .test 1, .enter 0, .send 0, .send 0, .deliver 1 0, .deliver 0 0,
      .test 0, .enter 0, .send 0, .send 0, .deliver 0 1, .deliver 1 1, .deliver 0 1]
    (fun state events => state.entered 0 = 2 ∧ .slept 1 1 ∈ events ∧ .notified 1 1 ∈ events ∧
      (state.mailboxes 1).barrierCount = 3 ∧ 1 ≤ state.returned 0) (by decide +kernel)
  obtain ⟨agreement, -⟩ := barrier_counts run
  exact ⟨state, events, second, slept, notified, early, fun j => agreement 0 j 1 left⟩

end BarrierState

end FlexPS
