import FlexPS.Server.SparseSSP.Model

/-! # The message streams of the sparse clients

What the `SparseKVClientTable` of one worker sends to one server is a fixed
sequence: `Get_0 .. Get_p`, then for every `v` an optional `Add_v`, `Clock_v` and
`Get_{v+1+p}`. A `Get` or an `Add` without a key on this server is absent. A run
of the server takes the streams of the registered workers in any interleaving.
-/

namespace FlexPS

/-- The streams one server receives, for speculation `speculation`. -/
structure Workload (Val : Type) where
  speculation : Nat
  server : Tid
  modelId : UInt32
  /-- The keys of `Get_v` of a worker on this server. -/
  keys : Tid → Nat → List Key
  /-- The pairs of `Add_v` of a worker on this server. -/
  adds : Tid → Nat → KVPairs Val

inductive StreamItem where
  | get (version : Nat)
  | add (version : Nat)
  | clock (version : Nat)
  deriving DecidableEq, Repr

/-- The `n`-th item of a stream. -/
def streamItem (p n : Nat) : StreamItem :=
  if n ≤ p then .get n
  else
    let round := (n - (p + 1)) / 3
    match (n - (p + 1)) % 3 with
    | 0 => .add round
    | 1 => .clock round
    | _ => .get (round + 1 + p)

/-- How many `Get`s are among the first `n` items; `adds` and `clocks` likewise. -/
def streamGets (p n : Nat) : Nat := min n (p + 1) + (n - (p + 1)) / 3
def streamAdds (p n : Nat) : Nat := (n - (p + 1) + 2) / 3
def streamClocks (p n : Nat) : Nat := (n - (p + 1) + 1) / 3

/-- What the next item says about the items before it. -/
inductive StreamItem.Next (p n : Nat) : StreamItem → Prop where
  | get : streamGets p (n + 1) = streamGets p n + 1 → streamAdds p (n + 1) = streamAdds p n →
      streamClocks p (n + 1) = streamClocks p n → streamAdds p n = streamClocks p n →
      streamGets p n ≤ streamClocks p n + p →
      Next p n (.get (streamGets p n))
  | add : streamGets p (n + 1) = streamGets p n → streamAdds p (n + 1) = streamAdds p n + 1 →
      streamClocks p (n + 1) = streamClocks p n → streamAdds p n = streamClocks p n →
      streamGets p n = streamClocks p n + p + 1 →
      Next p n (.add (streamClocks p n))
  | clock : streamGets p (n + 1) = streamGets p n → streamAdds p (n + 1) = streamAdds p n →
      streamClocks p (n + 1) = streamClocks p n + 1 → streamAdds p n = streamClocks p n + 1 →
      streamGets p n = streamClocks p n + p + 1 →
      Next p n (.clock (streamClocks p n))

theorem streamItem_next (p n : Nat) : (streamItem p n).Next p n := by
  unfold streamItem
  split
  · next early =>
      have eq : n = streamGets p n := by simp only [streamGets]; omega
      rw [show StreamItem.get n = .get (streamGets p n) by rw [← eq]]
      apply StreamItem.Next.get <;> simp only [streamGets, streamAdds, streamClocks] <;> omega
  · next late =>
      rcases (by omega : (n - (p + 1)) % 3 = 0 ∨ (n - (p + 1)) % 3 = 1 ∨ (n - (p + 1)) % 3 = 2)
        with phase | phase | phase
      · simp only [phase]
        rw [show (n - (p + 1)) / 3 = streamClocks p n by simp only [streamClocks]; omega]
        apply StreamItem.Next.add <;> simp only [streamGets, streamAdds, streamClocks] <;> omega
      · simp only [phase]
        rw [show (n - (p + 1)) / 3 = streamClocks p n by simp only [streamClocks]; omega]
        apply StreamItem.Next.clock <;> simp only [streamGets, streamAdds, streamClocks] <;> omega
      · simp only [phase]
        rw [show (n - (p + 1)) / 3 + 1 + p = streamGets p n by simp only [streamGets]; omega]
        apply StreamItem.Next.get <;> simp only [streamGets, streamAdds, streamClocks] <;> omega

/-- Before the first `Clock` at most `p + 1` `Get`s are sent; afterwards the
    `Get`s stay at least `p` ahead of the `Clock`s. -/
theorem streamGets_bounds (p n : Nat) : streamGets p n ≤ streamClocks p n + p + 1 ∧
    (0 < streamClocks p n → streamClocks p n + p ≤ streamGets p n) ∧
    streamClocks p n ≤ streamAdds p n ∧ streamAdds p n ≤ streamClocks p n + 1 := by
  simp only [streamGets, streamAdds, streamClocks]
  omega

/-- Every worker reads key 7 and adds 1 to it in every iteration. -/
def Workload.sharedKey (speculation : Nat) : Workload Int :=
  { speculation, server := 0, modelId := 0, keys := fun _ _ => [7], adds := fun _ _ => ⟨[7], [1]⟩ }

namespace Workload

variable {Val : Type} (W : Workload Val)

/-- `Get_v` of a worker, as the server receives it. -/
def getMsg (w : Tid) (version : Nat) : Message Val :=
  { sender := w, recver := W.server, modelId := W.modelId, flag := .kGet, version,
    data := [.u32 (W.keys w version)] }

def addMsg (w : Tid) (version : Nat) : Message Val :=
  { sender := w, recver := W.server, modelId := W.modelId, flag := .kAdd, version,
    data := [.u32 (W.adds w version).keys, .val (W.adds w version).vals] }

def clockMsg (w : Tid) (version : Nat) : Message Val :=
  { sender := w, recver := W.server, modelId := W.modelId, flag := .kClock, version, data := [] }

/-- The message of an item, unless it is absent. -/
def message? (w : Tid) : StreamItem → Option (Message Val)
  | .get version => if W.keys w version = [] then none else some (W.getMsg w version)
  | .add version => if (W.adds w version).keys = [] then none else some (W.addMsg w version)
  | .clock version => some (W.clockMsg w version)

@[simp] theorem keys_getMsg (w : Tid) (version : Nat) :
    (W.getMsg w version).keys = W.keys w version := rfl

@[simp] theorem sender_getMsg (w : Tid) (version : Nat) : (W.getMsg w version).sender = w := rfl

@[simp] theorem version_getMsg (w : Tid) (version : Nat) :
    (W.getMsg w version).version = version := rfl

@[simp] theorem sender_addMsg (w : Tid) (version : Nat) : (W.addMsg w version).sender = w := rfl

@[simp] theorem version_addMsg (w : Tid) (version : Nat) :
    (W.addMsg w version).version = version := rfl

@[simp] theorem sender_clockMsg (w : Tid) (version : Nat) : (W.clockMsg w version).sender = w := rfl

@[simp] theorem version_clockMsg (w : Tid) (version : Nat) :
    (W.clockMsg w version).version = version := rfl

end Workload

/-- A server together with how much of each worker's stream it has received. -/
structure StreamState (Val Main : Type) where
  model : SparseSSPModel Val Main
  position : Tid → Nat

namespace StreamState

variable {Val Main : Type}

def gets (W : Workload Val) (state : StreamState Val Main) (w : Tid) : Nat :=
  streamGets W.speculation (state.position w)

def clocks (W : Workload Val) (state : StreamState Val Main) (w : Tid) : Nat :=
  streamClocks W.speculation (state.position w)

def adds (W : Workload Val) (state : StreamState Val Main) (w : Tid) : Nat :=
  streamAdds W.speculation (state.position w)

/-- The next item of a worker's stream. -/
def next (W : Workload Val) (state : StreamState Val Main) (w : Tid) : StreamItem :=
  streamItem W.speculation (state.position w)

/-- The clock of a worker, as the server knows it. -/
def progress (state : StreamState Val Main) (w : Tid) : Nat :=
  state.model.progressTracker.progresses w

def minClock (state : StreamState Val Main) : Nat := state.model.progressTracker.minClock

def threads (state : StreamState Val Main) : List Tid := state.model.progressTracker.threads

/-- The state after a `ResetWorker` that names `tids`, on a new model. -/
def start (W : Workload Val) (storage : Storage Val) (recorder : SparseSSPRecorder Val Main)
    (tids : List Tid) : StreamState Val Main :=
  { model := { SparseSSPModel.new W.modelId storage recorder recorder.staleness
      recorder.speculation with progressTracker := .init tids }
    position := fun _ => 0 }

/-- The server takes the next item of `w`'s stream. -/
def step [AddCommMonoid Val] [MainRecorder Val Main] (W : Workload Val)
    (state : StreamState Val Main) (w : Tid) :
    Except Fault (StreamState Val Main × List (Event Val)) := do
  let position := Function.update state.position w (state.position w + 1)
  match W.message? w (state.next W w) with
  | none => return ({ state with position }, [])
  | some msg =>
      let (model, events) ← AbstractModel.handle state.model msg
      return ({ model, position }, events)

/-- Only registered workers send to the server. -/
def Registered (state : StreamState Val Main) (_ : List (Event Val)) (w : Tid) : Prop :=
  w ∈ state.threads

/-- `Clock_v` is sent only after the reply to `Get_v`, when `Get_v` was sent. -/
def Replied (W : Workload Val) (state : StreamState Val Main) (events : List (Event Val)) (w : Tid) :
    Prop :=
  ∀ version, state.next W w = .clock version → W.keys w version ≠ [] →
    W.getMsg w version ∈ events.filterMap Event.answered

/-- No `Clock` is processed before the first `p + 1` `Get`s of every worker. -/
def StartedUp (W : Workload Val) (state : StreamState Val Main) (w : Tid) : Prop :=
  ∀ version, state.next W w = .clock version →
    ∀ v ∈ state.threads, W.speculation + 1 ≤ state.gets W v

section Decidable

variable [DecidableEq Val] (W : Workload Val) (state : StreamState Val Main)
  (events : List (Event Val)) (w : Tid)

instance : Decidable (state.Registered events w) :=
  inferInstanceAs (Decidable (w ∈ state.threads))

instance : Decidable (state.Replied W events w) :=
  match h : state.next W w with
  | .clock version =>
      decidable_of_iff (W.keys w version ≠ [] →
          W.getMsg w version ∈ events.filterMap Event.answered) (by simp [Replied, h])
  | .get _ | .add _ => isTrue (by simp [Replied, h])

instance : Decidable (state.StartedUp W w) :=
  match h : state.next W w with
  | .clock _ =>
      decidable_of_iff (∀ v ∈ state.threads, W.speculation + 1 ≤ state.gets W v)
        (by simp [StartedUp, h])
  | .get _ | .add _ => isTrue (by simp [StartedUp, h])

end Decidable

end StreamState

section Start

variable {Val Main : Type}

/-- A `ResetWorker` message naming the workers `tids`. -/
def resetMsg (sender server : Tid) (modelId : UInt32) (tids : List Tid) : Message Val :=
  { sender, recver := server, modelId, flag := .kResetWorkerInModel, version := 0,
    data := [.u32 tids] }

theorem StreamState.start_eq (W : Workload Val) (storage : Storage Val)
    (recorder : SparseSSPRecorder Val Main) (sender : Tid) (tids : List Tid) :
    ∃ events, (SparseSSPModel.new W.modelId storage recorder recorder.staleness
        recorder.speculation).resetWorker (resetMsg sender W.server W.modelId tids) =
      .ok ((start W storage recorder tids).model, events) :=
  ⟨_, rfl⟩

end Start

end FlexPS
