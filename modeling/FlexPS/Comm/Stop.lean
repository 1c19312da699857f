import FlexPS.Base.Message
import FlexPS.Comm.Barrier
import FlexPS.Lib.Link

/-! # Stopping the mailbox

`Mailbox::Stop` runs one more barrier, sends `kExit` to the node itself and joins
the receiver thread. Every node calls `Barrier` the same number of times before.
ZeroMQ delivers reliably and in order between two nodes.
-/

namespace FlexPS

/-- What the mailboxes send to each other. `Mailbox` itself sends the control messages. -/
inductive Packet (Val : Type) where
  /-- `Flag::kBarrier`. -/
  | barrier
  /-- `Flag::kExit`. -/
  | exit
  | data (msg : Message Val)
  deriving DecidableEq, Repr

namespace Packet

variable {Val : Type}

def isBarrier : Packet Val → Bool
  | .barrier => true
  | _ => false

/-- The messages among packets that are not control messages. -/
def dataOf (packets : List (Packet Val)) : List (Message Val) :=
  packets.filterMap fun
    | .data msg => some msg
    | _ => none

@[simp] theorem dataOf_append (xs ys : List (Packet Val)) :
    dataOf (xs ++ ys) = dataOf xs ++ dataOf ys := List.filterMap_append

end Packet

/-- The assertions of `Mailbox::RegisterQueue`, `DeregisterQueue` and `Receiving`. -/
inductive MailboxCheck where
  /-- `CHECK(queue_map_.find(queue_id) == queue_map_.end())`. -/
  | notRegistered
  /-- `CHECK(queue_map_.find(..) != queue_map_.end())`. -/
  | registered
  deriving DecidableEq, Repr

/-- How far the main thread of a node is. -/
inductive MainThread where
  | running
  /-- `Stop` was called. -/
  | stopping
  /-- `Stop` has sent `kExit` and joins the receiver thread. -/
  | exiting
  deriving DecidableEq, Repr

structure StopState (Val : Type) (n : Nat) where
  mailboxes : Fin n → Mailbox n
  main : Fin n → MainThread
  links : Fin n → Fin n → Link (Packet Val)
  /-- The keys of `queue_map_`. -/
  queueMap : Fin n → List Tid
  /-- The receiver thread has not left its loop. -/
  receiving : Fin n → Bool
  /-- How many calls of `Barrier` the node has begun, the one of `Stop` included. -/
  entered : Fin n → Nat
  /-- How many calls of `Barrier` have returned. -/
  returned : Fin n → Nat

inductive StopInput (Val : Type) (n : Nat) where
  | registerQueue (i : Fin n) (tid : Tid)
  | deregisterQueue (i : Fin n) (tid : Tid)
  /-- Any thread of node `i` calls `Mailbox::Send`. -/
  | send (i : Fin n) (msg : Message Val)
  /-- The main thread calls `Barrier`. -/
  | enter (i : Fin n)
  /-- One turn of the loop in `Barrier`. -/
  | sendBarrier (i : Fin n)
  | test (i : Fin n)
  | wake (i : Fin n)
  /-- The main thread calls `Stop`. -/
  | stop (i : Fin n)
  /-- `Stop` sends `kExit`. -/
  | sendExit (i : Fin n)
  /-- The receiver thread of `recver` takes the next message of a link. -/
  | receive (sender recver : Fin n)
  deriving DecidableEq, Repr

inductive StopEvent (Val : Type) (n : Nat) where
  /-- Node `sender` passed a message for `recver` to `Send`, and had not called `Stop`. -/
  | passed (sender recver : Fin n) (msg : Message Val)
  /-- The receiver thread of `recver` pushed a message from `sender` to its queue. -/
  | pushed (sender recver : Fin n) (msg : Message Val)
  deriving DecidableEq, Repr

namespace StopState

variable {Val : Type} {n : Nat}

def init : StopState Val n :=
  ⟨fun _ => .init, fun _ => .running, fun _ _ => .empty, fun _ => [], fun _ => true,
    fun _ => 0, fun _ => 0⟩

/-- When a step can be taken, every node calling `Barrier` `barriers` times before `Stop`. -/
def Enabled (barriers : Nat) (state : StopState Val n) (_ : List (StopEvent Val n)) :
    StopInput Val n → Prop
  | .registerQueue _ _ | .deregisterQueue _ _ | .send _ _ => True
  | .enter i => state.main i = .running ∧ (state.mailboxes i).caller = .outside ∧
      state.entered i < barriers
  | .sendBarrier i => ∃ j rest, (state.mailboxes i).caller = .sending (j :: rest)
  | .test i => (state.mailboxes i).caller = .testing
  | .wake i => (state.mailboxes i).caller = .asleep
  | .stop i => state.main i = .running ∧ (state.mailboxes i).caller = .outside ∧
      state.entered i = barriers
  | .sendExit i => state.main i = .stopping ∧ (state.mailboxes i).caller = .outside
  | .receive sender recver => state.receiving recver = true ∧
      (state.links sender recver).inFlight ≠ []

/-- `Barrier` begins. -/
def enterBarrier (state : StopState Val n) (i : Fin n) : StopState Val n :=
  { state with
    mailboxes := Function.update state.mailboxes i (state.mailboxes i).enter
    entered := Rounds.bump state.entered i }

/-- `GetNodeIdForThread`; `none` where there is no socket and `Send` drops the message. -/
abbrev IdMapper (n : Nat) := Tid → Option (Fin n)

def step (nodeOf : IdMapper n) (state : StopState Val n) :
    StopInput Val n → Except MailboxCheck (StopState Val n × List (StopEvent Val n))
  | .registerQueue i tid =>
      if tid ∈ state.queueMap i then .error .notRegistered
      else .ok ({ state with
        queueMap := Function.update state.queueMap i (tid :: state.queueMap i) }, [])
  | .deregisterQueue i tid =>
      if tid ∈ state.queueMap i then .ok ({ state with
        queueMap := Function.update state.queueMap i ((state.queueMap i).erase tid) }, [])
      else .error .registered
  | .send i msg =>
      match nodeOf msg.recver with
      | some j => .ok ({ state with
            links := Link.set state.links i j ((state.links i j).send (.data msg)) },
          if state.main i = .running then [.passed i j msg] else [])
      | none => .ok (state, [])
  | .enter i => .ok (state.enterBarrier i, [])
  | .sendBarrier i =>
      match (state.mailboxes i).caller with
      | .sending (j :: rest) => .ok ({ state with
          mailboxes := Function.update state.mailboxes i ((state.mailboxes i).sent rest)
          links := Link.set state.links i j ((state.links i j).send .barrier) }, [])
      | _ => .ok (state, [])
  | .test i =>
      let mailbox := (state.mailboxes i).test
      let state := { state with mailboxes := Function.update state.mailboxes i mailbox }
      if mailbox.caller = .outside then
        .ok ({ state with returned := Rounds.bump state.returned i }, [])
      else .ok (state, [])
  | .wake i => .ok ({ state with
      mailboxes := Function.update state.mailboxes i (state.mailboxes i).wake }, [])
  | .stop i => .ok ({ state.enterBarrier i with main := Function.update state.main i .stopping }, [])
  | .sendExit i => .ok ({ state with
      main := Function.update state.main i .exiting
      links := Link.set state.links i i ((state.links i i).send .exit) }, [])
  | .receive sender recver =>
      let link := state.links sender recver
      let state := { state with links := Link.set state.links sender recver link.receive }
      match link.inFlight with
      | [] => .ok (state, [])
      | .exit :: _ => .ok ({ state with receiving := Function.update state.receiving recver false }, [])
      | .barrier :: _ => .ok ({ state with
          mailboxes := Function.update state.mailboxes recver
            (state.mailboxes recver).receiveBarrier }, [])
      | .data msg :: _ =>
          if msg.recver ∈ state.queueMap recver then .ok (state, [.pushed sender recver msg])
          else .error .registered

/-! ## The last barrier flushes the links -/

/-- The messages one node passed to `Send` for another before its `Stop`. -/
def passedOf (events : List (StopEvent Val n)) (i j : Fin n) : List (Message Val) :=
  events.filterMap fun
    | .passed sender recver msg => if sender = i ∧ recver = j then some msg else none
    | .pushed .. => none

/-- The messages from one node the receiver thread of another pushed to its queues. -/
def pushedOf (events : List (StopEvent Val n)) (i j : Fin n) : List (Message Val) :=
  events.filterMap fun
    | .pushed sender recver msg => if sender = i ∧ recver = j then some msg else none
    | .passed .. => none

/-- One link from a node whose main thread stands at `main` and has begun `entered` barriers,
    with `unsent` messages of the last one to go. -/
structure LinkInv (barriers : Nat) (main : MainThread) (unsent entered : Nat)
    (link : Link (Packet Val)) (passed pushed : List (Message Val)) : Prop where
  barriers_sent : link.sent.countP Packet.isBarrier + unsent = entered
  /-- What was sent up to the call of `Stop`, before the last barrier message. -/
  early : ∃ early late, link.sent = early ++ late ∧ passed = Packet.dataOf early ∧
    (main = .running → late = []) ∧ (main ≠ .running → early.countP Packet.isBarrier = barriers)
  pushed : pushed = Packet.dataOf link.arrived

namespace LinkInv

variable {barriers unsent entered : Nat} {main : MainThread} {link : Link (Packet Val)}
  {passed pushed : List (Message Val)}

theorem start : LinkInv barriers .running 0 0 (.empty : Link (Packet Val)) [] [] where
  barriers_sent := rfl
  early := ⟨[], [], rfl, rfl, fun _ => rfl, fun h => absurd rfl h⟩
  pushed := rfl

theorem enter (h : LinkInv barriers main 0 entered link passed pushed) :
    LinkInv barriers main 1 (entered + 1) link passed pushed where
  barriers_sent := by rw [← h.barriers_sent]
  early := h.early
  pushed := h.pushed

theorem stop (h : LinkInv barriers .running 0 barriers link passed pushed) :
    LinkInv barriers .stopping 1 (barriers + 1) link passed pushed where
  barriers_sent := by have := h.barriers_sent; omega
  early := by
    obtain ⟨early, late, sent, passed, nothing, -⟩ := h.early
    refine ⟨early, late, sent, passed, nofun, fun _ => ?_⟩
    have total := h.barriers_sent
    rw [sent, nothing rfl, List.append_nil] at total
    exact total
  pushed := h.pushed

theorem exit (h : LinkInv barriers .stopping unsent entered link passed pushed) :
    LinkInv barriers .exiting unsent entered link passed pushed where
  barriers_sent := h.barriers_sent
  early := by
    obtain ⟨early, late, sent, passed, -, before⟩ := h.early
    exact ⟨early, late, sent, passed, nofun, fun _ => before nofun⟩
  pushed := h.pushed

/-- Something is sent; `told` says what of it counts as passed before `Stop`. -/
theorem send (h : LinkInv barriers main unsent entered link passed pushed) (packet : Packet Val)
    {unsent' : Nat} (owed : unsent' + (if packet.isBarrier then 1 else 0) = unsent)
    {told : List (Message Val)}
    (counts : told = if main = .running then Packet.dataOf [packet] else []) :
    LinkInv barriers main unsent' entered (link.send packet) (passed ++ told) pushed where
  barriers_sent := by
    have := h.barriers_sent
    rw [Link.sent_send, List.countP_append, List.countP_singleton]
    omega
  early := by
    obtain ⟨early, late, sent, rfl, nothing, before⟩ := h.early
    cases main with
    | running =>
        refine ⟨early ++ [packet], [], ?_, by simp [counts], fun _ => rfl, fun h => absurd rfl h⟩
        rw [Link.sent_send, sent, nothing rfl, List.append_nil, List.append_nil]
    | stopping | exiting =>
        refine ⟨early, late ++ [packet], ?_, by simp [counts], nofun, before⟩
        rw [Link.sent_send, sent, List.append_assoc]
  pushed := h.pushed

theorem receive (h : LinkInv barriers main unsent entered link passed pushed)
    {packet : Packet Val} {rest : List (Packet Val)} (next : link.inFlight = packet :: rest) :
    LinkInv barriers main unsent entered link.receive passed
      (pushed ++ Packet.dataOf [packet]) where
  barriers_sent := by rw [Link.sent_receive]; exact h.barriers_sent
  early := by rw [Link.sent_receive]; exact h.early
  pushed := by rw [Link.receive_eq next, Packet.dataOf_append, h.pushed]

/-- Once the last barrier message has arrived, everything passed before `Stop` was pushed. -/
theorem passed_prefix (h : LinkInv barriers main 0 (barriers + 1) link passed pushed)
    (stopping : main ≠ .running) (flushed : link.inFlight.countP Packet.isBarrier = 0) :
    passed <+: pushed := by
  obtain ⟨early, late, sent, rfl, -, before⟩ := h.early
  rw [h.pushed]
  have total := h.barriers_sent
  unfold Link.sent at total
  rw [List.countP_append, flushed] at total
  obtain ⟨rest, arrived⟩ := Link.early_arrived sent Packet.isBarrier
    (by have := before stopping; omega)
  rw [← arrived, Packet.dataOf_append]
  exact List.prefix_append _ _

end LinkInv

/-- The barrier messages in flight, as the counting argument sees them. -/
def barriersInFlight (links : Fin n → Fin n → Link (Packet Val)) (i j : Fin n) : Nat :=
  (links i j).inFlight.countP Packet.isBarrier

theorem barriersInFlight_set (links : Fin n → Fin n → Link (Packet Val)) (i j : Fin n)
    (link : Link (Packet Val)) : barriersInFlight (Link.set links i j link) =
      Function.update (barriersInFlight links) i (Function.update (barriersInFlight links i) j
        (link.inFlight.countP Packet.isBarrier)) :=
  Link.countP_set Packet.isBarrier links i j link

structure Inv (barriers : Nat) (state : StopState Val n) (events : List (StopEvent Val n)) :
    Prop where
  counted : BarrierState.Counted state.mailboxes (barriersInFlight state.links) state.entered
    state.returned
  links : ∀ i j, LinkInv barriers (state.main i) ((state.mailboxes i).caller.unsent j)
    (state.entered i) (state.links i j) (passedOf events i j) (pushedOf events i j)
  running : ∀ i, state.main i = .running → state.entered i ≤ barriers
  stopping : ∀ i, state.main i ≠ .running → state.entered i = barriers + 1
  exiting : ∀ i, state.main i = .exiting → state.returned i = barriers + 1
  exit_sent : ∀ i j, .exit ∈ (state.links i j).inFlight → state.main j = .exiting
  stopped : ∀ i, state.receiving i = false → state.main i = .exiting

/-- A receiver thread that has left its loop has pushed everything passed in time. -/
theorem Inv.flushed {barriers : Nat} {state : StopState Val n} {events : List (StopEvent Val n)}
    (inv : Inv barriers state events) {j : Fin n} (left : state.receiving j = false) (i : Fin n) :
    passedOf events i j <+: pushedOf events i j := by
  have last : state.returned j = barriers + 1 := inv.exiting j (inv.stopped j left)
  have entered : ∀ k, state.main k ≠ .running ∧ state.entered k = barriers + 1 := by
    intro k
    have reached := inv.counted.inStep.agreement j k
    have not_running : state.main k ≠ .running := by
      intro running
      have := inv.running k running
      omega
    exact ⟨not_running, inv.stopping k not_running⟩
  obtain ⟨arrived, all_sent⟩ := inv.counted.flushed
    (fun k => ((entered k).2.trans last.symm).le) i
  have link := inv.links i j
  rw [all_sent, (entered i).2] at link
  exact link.passed_prefix (entered i).1 arrived

theorem init_inv (barriers : Nat) : Inv barriers (init : StopState Val n) [] where
  counted := .start
  links _ _ := .start
  running _ _ := Nat.zero_le _
  stopping _ h := absurd rfl h
  exiting _ h := by cases h
  exit_sent _ _ h := absurd h List.not_mem_nil
  stopped _ h := by cases h

@[simp] theorem passedOf_append (xs ys : List (StopEvent Val n)) (i j : Fin n) :
    passedOf (xs ++ ys) i j = passedOf xs i j ++ passedOf ys i j := List.filterMap_append

@[simp] theorem pushedOf_append (xs ys : List (StopEvent Val n)) (i j : Fin n) :
    pushedOf (xs ++ ys) i j = pushedOf xs i j ++ pushedOf ys i j := List.filterMap_append

@[simp] theorem passedOf_nil (i j : Fin n) : passedOf ([] : List (StopEvent Val n)) i j = [] := rfl

@[simp] theorem pushedOf_nil (i j : Fin n) : pushedOf ([] : List (StopEvent Val n)) i j = [] := rfl

/-- A step that changes one link, and what it reports of it. -/
theorem links_set {barriers : Nat} {main : Fin n → MainThread} {unsent unsent' : Fin n → Fin n → Nat}
    {entered : Fin n → Nat} {links : Fin n → Fin n → Link (Packet Val)}
    {events out : List (StopEvent Val n)}
    (old : ∀ k l, LinkInv barriers (main k) (unsent k l) (entered k) (links k l)
      (passedOf events k l) (pushedOf events k l)) {i j : Fin n} {link : Link (Packet Val)}
    (changed : LinkInv barriers (main i) (unsent' i j) (entered i) link
      (passedOf events i j ++ passedOf out i j) (pushedOf events i j ++ pushedOf out i j))
    (kept : ∀ k l, ¬ (k = i ∧ l = j) →
      unsent' k l = unsent k l ∧ passedOf out k l = [] ∧ pushedOf out k l = []) (k l : Fin n) :
    LinkInv barriers (main k) (unsent' k l) (entered k) (Link.set links i j link k l)
      (passedOf (events ++ out) k l) (pushedOf (events ++ out) k l) := by
  rw [Link.set_apply, passedOf_append, pushedOf_append]
  split
  · next here =>
      obtain ⟨rfl, rfl⟩ := here
      exact changed
  · next other =>
      obtain ⟨unsent, passed, pushed⟩ := kept k l other
      rw [passed, pushed, unsent, List.append_nil, List.append_nil]
      exact old k l

theorem passedOf_single (i j k l : Fin n) (msg : Message Val) :
    passedOf [.passed i j msg] k l = if k = i ∧ l = j then [msg] else [] := by
  simp only [passedOf, List.filterMap_cons, List.filterMap_nil, eq_comm (a := k), eq_comm (a := l)]
  split <;> simp_all

@[simp] theorem pushedOf_passed (i j k l : Fin n) (msg : Message Val) :
    pushedOf [.passed i j msg] k l = [] := rfl

@[simp] theorem passedOf_pushed (i j k l : Fin n) (msg : Message Val) :
    passedOf [.pushed i j msg] k l = [] := rfl

theorem pushedOf_single (i j k l : Fin n) (msg : Message Val) :
    pushedOf [.pushed i j msg] k l = if k = i ∧ l = j then [msg] else [] := by
  simp only [pushedOf, List.filterMap_cons, List.filterMap_nil, eq_comm (a := k), eq_comm (a := l)]
  split <;> simp_all

/-- Packets that are not barrier messages do not matter to the counting. -/
theorem counted_link {mailboxes : Fin n → Mailbox n} {links : Fin n → Fin n → Link (Packet Val)}
    {entered returned : Fin n → Nat}
    (counted : BarrierState.Counted mailboxes (barriersInFlight links) entered returned)
    {i j : Fin n} {link : Link (Packet Val)}
    (same : link.inFlight.countP Packet.isBarrier = barriersInFlight links i j) :
    BarrierState.Counted mailboxes (barriersInFlight (Link.set links i j link)) entered returned := by
  rw [barriersInFlight_set, same, Function.update_eq_self, Function.update_eq_self]
  exact counted

theorem mem_set_inFlight {links : Fin n → Fin n → Link (Packet Val)} {i j k l : Fin n}
    {link : Link (Packet Val)} {packet : Packet Val}
    (member : packet ∈ (Link.set links i j link k l).inFlight) :
    (k = i ∧ l = j ∧ packet ∈ link.inFlight) ∨ packet ∈ (links k l).inFlight := by
  rw [Link.set_apply] at member
  split at member
  · next here => exact .inl ⟨here.1, here.2, member⟩
  · exact .inr member

/-- A change of one mailbox that leaves its loop alone. -/
theorem links_mailbox {barriers : Nat} {state : StopState Val n} {events : List (StopEvent Val n)}
    (links : ∀ k l, LinkInv barriers (state.main k) ((state.mailboxes k).caller.unsent l)
      (state.entered k) (state.links k l) (passedOf events k l) (pushedOf events k l))
    {i : Fin n} {mailbox : Mailbox n}
    (same : ∀ l, mailbox.caller.unsent l = (state.mailboxes i).caller.unsent l) (k l : Fin n) :
    LinkInv barriers (state.main k) ((Function.update state.mailboxes i mailbox k).caller.unsent l)
      (state.entered k) (state.links k l) (passedOf events k l) (pushedOf events k l) := by
  rw [Function.update_apply]
  split
  · next here =>
      subst here
      rw [same]
      exact links k l
  · exact links k l

theorem step_inv {nodeOf : IdMapper n} {barriers : Nat} {state state' : StopState Val n}
    {events out : List (StopEvent Val n)} {input : StopInput Val n} (inv : Inv barriers state events)
    (enabled : state.Enabled barriers events input)
    (stepped : state.step nodeOf input = .ok (state', out)) :
    Inv barriers state' (events ++ out) := by
  obtain ⟨counted, links, running, stopping, exiting, exit_sent, stopped⟩ := inv
  cases input with
  | registerQueue i tid | deregisterQueue i tid =>
      simp only [step] at stepped
      split at stepped <;> cases stepped
      rw [List.append_nil]
      exact ⟨counted, links, running, stopping, exiting, exit_sent, stopped⟩
  | send i msg =>
      simp only [step] at stepped
      cases target : nodeOf msg.recver with
      | none =>
          rw [target] at stepped
          cases stepped
          rw [List.append_nil]
          exact ⟨counted, links, running, stopping, exiting, exit_sent, stopped⟩
      | some j =>
          rw [target] at stepped
          cases stepped
          refine ⟨counted_link counted ?_, ?_, running, stopping, exiting, ?_, stopped⟩
          · simp [Link.send, barriersInFlight, Packet.isBarrier]
          · apply links_set links
            · have owed : (state.mailboxes i).caller.unsent j +
                  (if (.data msg : Packet Val).isBarrier then 1 else 0) =
                    (state.mailboxes i).caller.unsent j := by simp [Packet.isBarrier]
              have sent := (links i j).send (.data msg) owed rfl
              split
              · next main => simpa [passedOf_single, Packet.dataOf, main] using sent
              · next main => simpa [main] using sent
            · intro k l other
              split <;> simp [passedOf_single, other]
          · intro k l member
            cases mem_set_inFlight member with
            | inr old => exact exit_sent k l old
            | inl new =>
                obtain ⟨rfl, rfl, member⟩ := new
                simp only [Link.send, List.mem_append, List.mem_singleton, reduceCtorEq,
                  or_false] at member
                exact exit_sent k l member
  | enter i =>
      obtain ⟨main, outside, more⟩ := enabled
      cases stepped
      rw [List.append_nil]
      refine ⟨counted.enter outside, ?_, ?_, ?_, exiting, exit_sent, stopped⟩
      · intro k l
        have link := links k l
        cases decEq k i with
        | isTrue same =>
            subst same
            rw [outside, Caller.unsent_outside] at link
            simpa [enterBarrier, Mailbox.enter] using link.enter
        | isFalse other => simpa [enterBarrier, other, Rounds.bump_of_ne other] using link
      · intro k running'
        have bound := running k running'
        change Rounds.bump state.entered i k ≤ barriers
        rw [Rounds.bump_apply]
        split
        · next same => subst same; omega
        · exact bound
      · intro k stopping'
        have other : k ≠ i := fun same => stopping' (same ▸ main)
        exact (Rounds.bump_of_ne other).trans (stopping k stopping')
  | sendBarrier i =>
      obtain ⟨j, rest, sending⟩ := enabled
      simp only [step, sending] at stepped
      cases stepped
      refine ⟨?_, ?_, running, stopping, exiting, ?_, stopped⟩
      · rw [barriersInFlight_set]
        have one_more : ((state.links i j).send (.barrier)).inFlight.countP Packet.isBarrier =
            barriersInFlight state.links i j + 1 := by
          simp [Link.send, barriersInFlight, Packet.isBarrier]
        rw [one_more]
        exact counted.send sending
      · apply links_set links
        · have owed : rest.count j + (if (.barrier : Packet Val).isBarrier then 1 else 0) =
              (state.mailboxes i).caller.unsent j := by
            simp [sending, Packet.isBarrier]
          have sent := (links i j).send .barrier owed rfl
          simpa [Mailbox.sent, Packet.dataOf] using sent
        · intro k l other
          refine ⟨?_, rfl, rfl⟩
          change (Function.update state.mailboxes i _ k).caller.unsent l = _
          rw [Function.update_apply]
          split
          · next same =>
              subst same
              have : j ≠ l := fun here => other ⟨rfl, here.symm⟩
              simp [sending, Mailbox.sent, List.count_cons_of_ne this]
          · rfl
      · intro k l member
        cases mem_set_inFlight member with
        | inr old => exact exit_sent k l old
        | inl new =>
            obtain ⟨rfl, rfl, member⟩ := new
            simp only [Link.send, List.mem_append, List.mem_singleton, reduceCtorEq,
              or_false] at member
            exact exit_sent k l member
  | test i =>
      have testing : (state.mailboxes i).caller = .testing := enabled
      cases lt_or_ge (state.mailboxes i).barrierCount n with
      | inl below =>
          simp only [step, Mailbox.test_block below, reduceCtorEq, if_false] at stepped
          cases stepped
          rw [List.append_nil]
          refine ⟨counted.change (by simp [testing]) (by simp [testing]) rfl fun _ => below, ?_,
            running, stopping, exiting, exit_sent, stopped⟩
          exact links_mailbox links (by simp [testing])
      | inr enough =>
          simp only [step, Mailbox.test_pass enough, if_true] at stepped
          cases stepped
          rw [List.append_nil]
          refine ⟨counted.pass testing enough, ?_, running, stopping, ?_, exit_sent, stopped⟩
          · exact links_mailbox links (by simp [testing])
          · intro k exiting'
            have left := exiting k exiting'
            have entered := stopping k fun same => by rw [exiting'] at same; cases same
            have other : k ≠ i := by
              intro same
              subst same
              have := (counted.outside k).mpr (by omega)
              rw [testing] at this
              cases this
            exact (Rounds.bump_of_ne other).trans left
  | wake i =>
      have asleep : (state.mailboxes i).caller = .asleep := enabled
      cases stepped
      rw [List.append_nil]
      refine ⟨counted.change (by simp [Mailbox.wake]) (by simp [Mailbox.wake]) rfl
        (by simp [Mailbox.wake, asleep, Caller.notify]), ?_, running, stopping, exiting, exit_sent,
        stopped⟩
      exact links_mailbox links (by simp [Mailbox.wake])
  | stop i =>
      obtain ⟨main, outside, all⟩ := enabled
      cases stepped
      rw [List.append_nil]
      refine ⟨counted.enter outside, ?_, ?_, ?_, ?_, ?_, ?_⟩
      · intro k l
        have link := links k l
        cases decEq k i with
        | isTrue same =>
            subst same
            rw [outside, Caller.unsent_outside, main, all] at link
            simpa [enterBarrier, Mailbox.enter, all] using link.stop
        | isFalse other => simpa [enterBarrier, other, Rounds.bump_of_ne other] using link
      · intro k running'
        have other : k ≠ i := by
          intro same
          subst same
          simp at running'
        simp only [Function.update_of_ne other] at running'
        exact (Rounds.bump_of_ne other).trans_le (running k running')
      · intro k stopping'
        change Rounds.bump state.entered i k = barriers + 1
        cases decEq k i with
        | isTrue same => subst same; rw [Rounds.bump_same, all]
        | isFalse other =>
            simp only [Function.update_of_ne other] at stopping'
            exact (Rounds.bump_of_ne other).trans (stopping k stopping')
      · intro k exiting'
        have other : k ≠ i := by
          intro same
          subst same
          simp at exiting'
        simp only [Function.update_of_ne other] at exiting'
        exact exiting k exiting'
      · intro k l member
        have exiting' := exit_sent k l member
        have other : l ≠ i := by
          intro same
          subst same
          rw [main] at exiting'
          cases exiting'
        exact (Function.update_of_ne other ..).trans exiting'
      · intro k left
        have exiting' := stopped k left
        have other : k ≠ i := by
          intro same
          subst same
          rw [main] at exiting'
          cases exiting'
        exact (Function.update_of_ne other ..).trans exiting'
  | sendExit i =>
      obtain ⟨main, outside⟩ := enabled
      cases stepped
      have entered := stopping i fun same => by rw [main] at same; cases same
      have all_sent : ∀ l, (state.mailboxes i).caller.unsent l = 0 := by simp [outside]
      refine ⟨counted_link counted ?_, ?_, ?_, ?_, ?_, ?_, ?_⟩
      · simp [Link.send, barriersInFlight, Packet.isBarrier]
      · have exited : ∀ k l, LinkInv barriers (Function.update state.main i .exiting k)
            ((state.mailboxes k).caller.unsent l) (state.entered k) (state.links k l)
            (passedOf events k l) (pushedOf events k l) := by
          intro k l
          have link := links k l
          cases decEq k i with
          | isTrue same =>
              subst same
              rw [main] at link
              simpa using link.exit
          | isFalse other => simpa [other] using link
        apply links_set exited
        · have owed : (state.mailboxes i).caller.unsent i +
              (if (.exit : Packet Val).isBarrier then 1 else 0) =
                (state.mailboxes i).caller.unsent i := by simp [Packet.isBarrier]
          have sent := (exited i i).send .exit owed rfl
          simpa using sent
        · intro k l _
          exact ⟨rfl, rfl, rfl⟩
      · intro k running'
        have other : k ≠ i := by
          intro same
          subst same
          simp at running'
        simp only [Function.update_of_ne other] at running'
        exact running k running'
      · intro k stopping'
        cases decEq k i with
        | isTrue same => subst same; exact entered
        | isFalse other =>
            simp only [Function.update_of_ne other] at stopping'
            exact stopping k stopping'
      · intro k exiting'
        cases decEq k i with
        | isTrue same => subst same; exact ((counted.outside k).mp outside).symm.trans entered
        | isFalse other =>
            simp only [Function.update_of_ne other] at exiting'
            exact exiting k exiting'
      · intro k l member
        change Function.update state.main i .exiting l = .exiting
        rw [Function.update_apply]
        split
        · rfl
        · next other =>
            cases mem_set_inFlight member with
            | inl new => exact absurd new.2.1 other
            | inr old => exact exit_sent k l old
      · intro k left
        change Function.update state.main i .exiting k = .exiting
        rw [Function.update_apply]
        split
        · rfl
        · exact stopped k left
  | receive sender recver =>
      obtain ⟨receiving, some_packet⟩ := enabled
      cases next : (state.links sender recver).inFlight with
      | nil => exact absurd next some_packet
      | cons packet rest =>
          have received := (links sender recver).receive next
          have rest_exit : ∀ k l, .exit ∈ (Link.set state.links sender recver
              (state.links sender recver).receive k l).inFlight → state.main l = .exiting := by
            intro k l member
            cases mem_set_inFlight member with
            | inr old => exact exit_sent k l old
            | inl new =>
                obtain ⟨rfl, rfl, member⟩ := new
                rw [Link.receive_eq next] at member
                exact exit_sent k l (next ▸ List.mem_cons_of_mem _ member)
          cases packet with
          | exit =>
              simp only [step, next] at stepped
              cases stepped
              refine ⟨counted_link counted ?_, ?_, running, stopping, exiting, rest_exit, ?_⟩
              · simp [Link.receive_eq next, barriersInFlight, next, Packet.isBarrier]
              · apply links_set links
                · simpa [Packet.dataOf] using received
                · exact fun _ _ _ => ⟨rfl, rfl, rfl⟩
              · intro k left
                cases decEq k recver with
                | isTrue same =>
                    subst same
                    exact exit_sent sender k (next ▸ List.mem_cons_self)
                | isFalse other =>
                    simp only [Function.update_of_ne other] at left
                    exact stopped k left
          | barrier =>
              simp only [step, next] at stepped
              cases stepped
              refine ⟨?_, ?_, running, stopping, exiting, rest_exit, stopped⟩
              · rw [barriersInFlight_set]
                have one_less : (state.links sender recver).receive.inFlight.countP
                    Packet.isBarrier = barriersInFlight state.links sender recver - 1 := by
                  simp [Link.receive_eq next, barriersInFlight, next, List.countP_cons,
                    Packet.isBarrier]
                rw [one_less]
                apply counted.deliver
                simp [barriersInFlight, next, List.countP_cons, Packet.isBarrier]
              · have links' := links_mailbox links (Mailbox.receiveBarrier_unsent (state.mailboxes recver))
                have received' := (links' sender recver).receive next
                apply links_set links'
                · simpa [Packet.dataOf] using received'
                · exact fun _ _ _ => ⟨rfl, rfl, rfl⟩
          | data msg =>
              simp only [step, next] at stepped
              split at stepped
              · cases stepped
                refine ⟨counted_link counted ?_, ?_, running, stopping, exiting, rest_exit, stopped⟩
                · simp [Link.receive_eq next, barriersInFlight, next, Packet.isBarrier]
                · apply links_set links
                  · simpa [Packet.dataOf, pushedOf_single] using received
                  · intro k l other
                    simp [pushedOf_single, other]
              · cases stepped

theorem run_inv {nodeOf : IdMapper n} {barriers : Nat} {inputs : List (StopInput Val n)}
    {state : StopState Val n} {events : List (StopEvent Val n)}
    (run : Machine.Runs (step nodeOf) (Enabled barriers) init inputs state events) :
    Inv barriers state events := by
  refine run.invariant (P := fun _ => Inv barriers) (init_inv barriers) ?_
  intro _ state events input state' out _ inv enabled stepped
  exact step_inv inv enabled stepped

/-- `Stop` drops no message: when the receiver thread of a node has left its loop, it has
    pushed, in their order, the messages every node passed to `Send` before its `Stop`. -/
theorem stop_drops_nothing (nodeOf : IdMapper n) (barriers : Nat) {inputs : List (StopInput Val n)}
    {state : StopState Val n} {events : List (StopEvent Val n)}
    (run : Machine.Runs (step nodeOf) (Enabled barriers) init inputs state events)
    (i j : Fin n) (left : state.receiving j = false) :
    passedOf events i j <+: pushedOf events i j :=
  (run_inv run).flushed left i

instance (barriers : Nat) (state : StopState Val n) (events : List (StopEvent Val n))
    (input : StopInput Val n) : Decidable (state.Enabled barriers events input) :=
  match input with
  | .registerQueue .. | .deregisterQueue .. | .send .. => inferInstanceAs (Decidable True)
  | .enter i => inferInstanceAs (Decidable (_ ∧ _ ∧ state.entered i < barriers))
  | .sendBarrier i => decidable_of_iff ((state.mailboxes i).caller.next.isSome) Caller.next_isSome
  | .test i => inferInstanceAs (Decidable ((state.mailboxes i).caller = .testing))
  | .wake i => inferInstanceAs (Decidable ((state.mailboxes i).caller = .asleep))
  | .stop i => inferInstanceAs (Decidable (_ ∧ _ ∧ state.entered i = barriers))
  | .sendExit i => inferInstanceAs (Decidable (_ ∧ (state.mailboxes i).caller = .outside))
  | .receive sender recver => decidable_of_iff (state.receiving recver = true ∧
      (state.links sender recver).inFlight.isEmpty = false) (by simp [Enabled])

/-- Node 1 stops while it still has a message of node 0 to receive. -/
theorem stop_drops_nothing_twoNodes : ∃ (state : StopState Nat 2) (events : List (StopEvent Nat 2)),
    state.receiving 1 = false ∧
      createMessage .kAdd 0 200 1000 0 [1] [5] ∈ pushedOf events 0 1 := by
  let add : Message Nat := createMessage .kAdd 0 200 1000 0 [1] [5]
  obtain ⟨state, events, run, left, passed⟩ := Machine.runs_of_exec
    (step fun tid => if tid = 1000 then some (1 : Fin 2) else some 0) (Enabled 0)
    (init : StopState Nat 2)
    [.registerQueue 1 1000, .stop 1, .sendBarrier 1, .sendBarrier 1, .send 0 add, .stop 0,
      .sendBarrier 0, .sendBarrier 0, .receive 1 1, .test 1, .receive 0 1, .receive 0 1, .test 1,
      .sendExit 1, .receive 1 1]
    (fun state events => state.receiving 1 = false ∧ add ∈ passedOf events 0 1)
    (by decide +kernel)
  have pushed := stop_drops_nothing _ 0 run 0 1 left
  exact ⟨state, events, left, pushed.subset passed⟩

end StopState

end FlexPS
