import FlexPS.Comm2.Barrier
import FlexPS.Lib.Link

/-! # Channels

`Channel` gives each of a node's threads a `LocalChannel`; `SyncAndGet` takes what
was pushed to a local channel between two calls of `Channel::Wait`. `Wait` is a
barrier among the threads of a node whose last thread runs the barrier of the
mailbox, holding `mu_` all the while. There are `n` nodes and `c` local channels,
numbered by their global id.
-/

namespace FlexPS.Comm2

/-- What a local channel pushes to another; the pusher and its round are kept for the proofs. -/
structure Item (c : Nat) (Bin : Type) where
  source : Fin c
  target : Fin c
  round : Nat
  bin : Bin
  deriving DecidableEq, Repr

/-- What the mailboxes send to each other during the exchange. -/
inductive ChannelPacket (c : Nat) (Bin : Type) where
  /-- `Flag::kBarrier`; the round is kept for the proofs. -/
  | barrier (version : UInt32) (round : Nat)
  /-- `Flag::kOther`. -/
  | other (item : Item c Bin)
  deriving DecidableEq, Repr

/-- Where the thread of a local channel stands. `SyncAndGet` calls `Wait` twice. -/
inductive Pc where
  | outside
  /-- About to lock `mu_` in `Wait`. -/
  | arriving (second : Bool)
  /-- In the loop around `cv_.wait`, with its copy of `m_generation_`. -/
  | waiting (second : Bool) (gen : UInt32)
  /-- The last thread of its node, in `mailbox_->Barrier()`. -/
  | inBarrier (second : Bool)
  /-- In the loop that empties `queue_`. -/
  | draining
  deriving DecidableEq, Repr

namespace Pc

def isArriving : Pc → Bool
  | .arriving _ => true
  | _ => false

theorem isArriving_iff {pc : Pc} : pc.isArriving ↔ ∃ second, pc = .arriving second := by
  cases pc <;> simp [isArriving]

def isWaiting : Pc → Bool
  | .waiting .. => true
  | _ => false

theorem isWaiting_iff {pc : Pc} : pc.isWaiting ↔ ∃ second gen, pc = .waiting second gen := by
  cases pc <;> simp [isWaiting]

def isInBarrier : Pc → Bool
  | .inBarrier _ => true
  | _ => false

theorem isInBarrier_iff {pc : Pc} : pc.isInBarrier ↔ ∃ second, pc = .inBarrier second := by
  cases pc <;> simp [isInBarrier]

end Pc

/-- A thread with its local channel. -/
structure LocalChannel (c : Nat) (Bin : Type) where
  pc : Pc
  /-- How many calls of `SyncAndGet` have returned. -/
  synced : Nat
  queue : List (Item c Bin)
  rets : List Bin
  /-- All that was ever taken from `queue_`. -/
  drained : List (Item c Bin)
  deriving DecidableEq, Repr

/-- Who is in the way of `mu_`. -/
inductive Owner (c : Nat) where
  /-- The `Channel` is not constructed yet. -/
  | fresh
  /-- The constructor is in `mailbox_->Barrier()`. -/
  | constructor
  | free
  | thread (x : Fin c)
  deriving DecidableEq, Repr

structure ChannelState (n c : Nat) (Bin : Type) where
  mailboxes : Fin n → Mailbox n
  links : Fin n → Fin n → Link (ChannelPacket c Bin)
  owner : Fin n → Owner c
  /-- `m_generation_`. -/
  generation : Fin n → UInt32
  /-- `m_count_`. -/
  count : Fin n → Nat
  channels : Fin c → LocalChannel c Bin
  /-- How many calls of `Barrier` the node has begun. -/
  entered : Fin n → Nat
  /-- How many calls of `Barrier` have returned. -/
  returned : Fin n → Nat

inductive ChannelInput (n c : Nat) (Bin : Type) where
  /-- The constructor registers the queues and calls `Barrier`. -/
  | construct (i : Fin n)
  /-- The constructor returns. -/
  | constructed (i : Fin n)
  | pushTo (x target : Fin c) (bin : Bin)
  | syncAndGet (x : Fin c)
  /-- The thread locks `mu_` in `Wait`. -/
  | wait (x : Fin c)
  /-- The thread tests `gen == m_generation_`. -/
  | recheck (x : Fin c)
  /-- The last thread leaves `Barrier` and `Wait`. -/
  | leave (x : Fin c)
  /-- One turn of the loop over the queue. -/
  | drain (x : Fin c)
  /-- One turn of the loop in `Barrier`. -/
  | send (i : Fin n)
  | test (i : Fin n)
  | wake (i : Fin n)
  /-- The receiver thread of `recver` takes the next message of a link. -/
  | receive (sender recver : Fin n)
  deriving DecidableEq, Repr

inductive ChannelEvent (c : Nat) (Bin : Type) where
  | pushed (item : Item c Bin)
  /-- `SyncAndGet` number `round` of the local channel, from zero, returns `rets`. -/
  | returned (x : Fin c) (round : Nat) (rets : List Bin)
  deriving DecidableEq, Repr

inductive ChannelCheck where
  | barrier (failed : BarrierCheck)
  /-- `CHECK(queue_map_.find(msg.meta.recver) != queue_map_.end())`. -/
  | registered
  deriving DecidableEq, Repr

namespace LocalChannel

variable {c : Nat} {Bin : Type}

def init : LocalChannel c Bin := ⟨.outside, 0, [], [], []⟩

/-- `Wait` returns. -/
def after (channel : LocalChannel c Bin) (second : Bool) : LocalChannel c Bin :=
  if second then { channel with pc := .outside, synced := channel.synced + 1 }
  else { channel with pc := .draining, rets := [] }

/-- What is seen when `Wait` returns in the local channel `x`. -/
def report (channel : LocalChannel c Bin) (x : Fin c) (second : Bool) : List (ChannelEvent c Bin) :=
  if second then [.returned x channel.synced channel.rets] else []

/-- One turn of the loop over the queue. -/
def drain (channel : LocalChannel c Bin) : LocalChannel c Bin :=
  match channel.queue with
  | [] => { channel with pc := .arriving true }
  | item :: queue => { channel with
      queue := queue
      rets := channel.rets ++ [item.bin]
      drained := channel.drained ++ [item] }

end LocalChannel

namespace ChannelState

variable {n c : Nat} {Bin : Type}

section Steps

variable (nodeOf : Fin c → Fin n)

/-- `m_threshold_`. -/
def threshold (i : Fin n) : Nat := (List.finRange c).countP fun x => nodeOf x = i

def init : ChannelState n c Bin :=
  ⟨fun _ => .init, fun _ _ => .empty, fun _ => .fresh, fun _ => 0, threshold nodeOf,
    fun _ => .init, fun _ => 0, fun _ => 0⟩

/-- The constructor of the node's `Channel` has returned. -/
def Constructed (state : ChannelState n c Bin) (i : Fin n) : Prop :=
  state.owner i ≠ .fresh ∧ state.owner i ≠ .constructor

/-- When a step can be taken. -/
def Enabled (state : ChannelState n c Bin) (_ : List (ChannelEvent c Bin)) :
    ChannelInput n c Bin → Prop
  | .construct i => state.owner i = .fresh
  | .constructed i => state.owner i = .constructor ∧ (state.mailboxes i).caller = .outside
  | .pushTo x _ _ | .syncAndGet x =>
      state.Constructed (nodeOf x) ∧ (state.channels x).pc = .outside
  | .wait x => state.owner (nodeOf x) = .free ∧ ∃ second, (state.channels x).pc = .arriving second
  | .recheck x =>
      state.owner (nodeOf x) = .free ∧ ∃ second gen, (state.channels x).pc = .waiting second gen
  | .leave x => (state.mailboxes (nodeOf x)).caller = .outside ∧
      ∃ second, (state.channels x).pc = .inBarrier second
  | .drain x => (state.channels x).pc = .draining
  | .send i => ∃ j rest, (state.mailboxes i).caller = .sending (j :: rest)
  | .test i => (state.mailboxes i).caller = .testing
  | .wake i => (state.mailboxes i).caller = .asleep
  | .receive sender recver => (state.links sender recver).inFlight ≠ []

instance (state : ChannelState n c Bin) (i : Fin n) : Decidable (state.Constructed i) :=
  inferInstanceAs (Decidable (_ ∧ _))

instance (state : ChannelState n c Bin) (events : List (ChannelEvent c Bin))
    (input : ChannelInput n c Bin) : Decidable (state.Enabled nodeOf events input) :=
  match input with
  | .construct i => inferInstanceAs (Decidable (state.owner i = .fresh))
  | .constructed i =>
      inferInstanceAs (Decidable (state.owner i = .constructor ∧ (state.mailboxes i).caller = .outside))
  | .pushTo x _ _ | .syncAndGet x => inferInstanceAs (Decidable (
      state.Constructed (nodeOf x) ∧ (state.channels x).pc = .outside))
  | .wait x => decidable_of_iff (state.owner (nodeOf x) = .free ∧
      (state.channels x).pc.isArriving) (and_congr_right' Pc.isArriving_iff)
  | .recheck x => decidable_of_iff (state.owner (nodeOf x) = .free ∧
      (state.channels x).pc.isWaiting) (and_congr_right' Pc.isWaiting_iff)
  | .leave x => decidable_of_iff ((state.mailboxes (nodeOf x)).caller = .outside ∧
      (state.channels x).pc.isInBarrier) (and_congr_right' Pc.isInBarrier_iff)
  | .drain x => inferInstanceAs (Decidable ((state.channels x).pc = .draining))
  | .send i => decidable_of_iff ((state.mailboxes i).caller.next.isSome) Caller.next_isSome
  | .test i => inferInstanceAs (Decidable ((state.mailboxes i).caller = .testing))
  | .wake i => inferInstanceAs (Decidable ((state.mailboxes i).caller = .asleep))
  | .receive sender recver => decidable_of_iff ((state.links sender recver).inFlight.isEmpty = false)
      (by simp [Enabled])

/-- `mailbox_->Barrier()` begins. -/
def enterBarrier (state : ChannelState n c Bin) (i : Fin n) : ChannelState n c Bin :=
  { state with
    mailboxes := Function.update state.mailboxes i (state.mailboxes i).enter
    entered := Rounds.bump state.entered i }

def setChannel (state : ChannelState n c Bin) (x : Fin c) (channel : LocalChannel c Bin) :
    ChannelState n c Bin :=
  { state with channels := Function.update state.channels x channel }

def setOwner (state : ChannelState n c Bin) (i : Fin n) (owner : Owner c) : ChannelState n c Bin :=
  { state with owner := Function.update state.owner i owner }

/-- `Channel::Wait`, up to where it blocks or calls `Barrier`. -/
def wait (state : ChannelState n c Bin) (x : Fin c) (second : Bool) : ChannelState n c Bin :=
  let i := nodeOf x
  let channel := state.channels x
  let gen := state.generation i
  let count := state.count i - 1
  if count = 0 then
    { (((state.setChannel x { channel with pc := .inBarrier second }).setOwner i (.thread x)).enterBarrier
        i) with
      generation := Function.update state.generation i (gen + 1)
      count := Function.update state.count i (threshold nodeOf i) }
  else
    { state.setChannel x { channel with pc := .waiting second gen } with
      count := Function.update state.count i count }

def step (state : ChannelState n c Bin) :
    ChannelInput n c Bin → Except ChannelCheck (ChannelState n c Bin × List (ChannelEvent c Bin))
  | .construct i => .ok ((state.setOwner i .constructor).enterBarrier i, [])
  | .constructed i => .ok (state.setOwner i .free, [])
  | .pushTo x target bin =>
      let i := nodeOf x
      let j := nodeOf target
      let item := ⟨x, target, (state.channels x).synced, bin⟩
      .ok ({ state with links := Link.set state.links i j ((state.links i j).send (.other item)) },
        [.pushed item])
  | .syncAndGet x => .ok (state.setChannel x { state.channels x with pc := .arriving false }, [])
  | .wait x =>
      match (state.channels x).pc with
      | .arriving second => .ok (state.wait nodeOf x second, [])
      | _ => .ok (state, [])
  | .recheck x =>
      let channel := state.channels x
      match channel.pc with
      | .waiting second gen =>
          if gen = state.generation (nodeOf x) then .ok (state, [])
          else .ok (state.setChannel x (channel.after second), channel.report x second)
      | _ => .ok (state, [])
  | .leave x =>
      let channel := state.channels x
      match channel.pc with
      | .inBarrier second => .ok ((state.setChannel x (channel.after second)).setOwner (nodeOf x) .free,
          channel.report x second)
      | _ => .ok (state, [])
  | .drain x => .ok (state.setChannel x (state.channels x).drain, [])
  | .send i =>
      match (state.mailboxes i).caller with
      | .sending (j :: rest) => .ok ({ state with
          mailboxes := Function.update state.mailboxes i ((state.mailboxes i).sent rest)
          links := Link.set state.links i j ((state.links i j).send
            (.barrier (state.mailboxes i).progress (state.returned i))) }, [])
      | _ => .ok (state, [])
  | .test i =>
      let mailbox := (state.mailboxes i).test
      let state := { state with mailboxes := Function.update state.mailboxes i mailbox }
      if mailbox.caller = .outside then
        .ok ({ state with returned := Rounds.bump state.returned i }, [])
      else .ok (state, [])
  | .wake i => .ok ({ state with
      mailboxes := Function.update state.mailboxes i (state.mailboxes i).wake }, [])
  | .receive sender recver =>
      let link := state.links sender recver
      let state := { state with links := Link.set state.links sender recver link.receive }
      match link.inFlight with
      | [] => .ok (state, [])
      | .barrier version _ :: _ =>
          match (state.mailboxes recver).receiveBarrier version with
          | .ok mailbox => .ok ({ state with
              mailboxes := Function.update state.mailboxes recver mailbox }, [])
          | .error failed => .error (.barrier failed)
      | .other item :: _ =>
          if state.owner recver = .fresh then .error .registered
          else
            let channel := state.channels item.target
            .ok (state.setChannel item.target { channel with queue := channel.queue ++ [item] }, [])

end Steps

end ChannelState

end FlexPS.Comm2
