import FlexPS.Worker.AppBlocker

/-! # When `WaitRequest` returns

One (thread, model) pair is a small machine of its own. Every run of the whole system,
seen from a pair, is a run of that machine, so the pairs do not disturb each other; and
in every run of that machine the handlers of a request run while it waits.
-/

namespace FlexPS

open Machine (AtEach)

variable {Handle Msg : Type}

/-! ## What a pair is promised -/

namespace BlockerEvent

def registeredRecv? : BlockerEvent Handle Msg → Option Handle
  | .registeredRecv handle => some handle
  | _ => none

def registeredFinish? : BlockerEvent Handle Msg → Option Handle
  | .registeredFinish handle => some handle
  | _ => none

def handed? : BlockerEvent Handle Msg → Option Msg
  | .handed msg => some msg
  | _ => none

def received? : BlockerEvent Handle Msg → Option Msg
  | .received _ msg => some msg
  | _ => none

def finished? : BlockerEvent Handle Msg → Option Handle
  | .finished handle => some handle
  | _ => none

variable {handle : Handle} {msg : Msg} {event : BlockerEvent Handle Msg}

@[simp] theorem registeredRecv?_some :
    (registeredRecv handle : BlockerEvent Handle Msg).registeredRecv? = some handle := rfl

@[simp] theorem registeredRecv?_none (other : ∀ handle, event ≠ .registeredRecv handle) :
    event.registeredRecv? = none := by
  cases event <;> first | rfl | exact absurd rfl (other _)

@[simp] theorem registeredFinish?_some :
    (registeredFinish handle : BlockerEvent Handle Msg).registeredFinish? = some handle := rfl

@[simp] theorem registeredFinish?_none (other : ∀ handle, event ≠ .registeredFinish handle) :
    event.registeredFinish? = none := by
  cases event <;> first | rfl | exact absurd rfl (other _)

@[simp] theorem handed?_some : (handed msg : BlockerEvent Handle Msg).handed? = some msg := rfl

@[simp] theorem handed?_none (other : ∀ msg, event ≠ .handed msg) : event.handed? = none := by
  cases event <;> first | rfl | exact absurd rfl (other _)

@[simp] theorem received?_some :
    (received handle msg : BlockerEvent Handle Msg).received? = some msg := rfl

@[simp] theorem received?_none (other : ∀ handle msg, event ≠ .received handle msg) :
    event.received? = none := by
  cases event <;> first | rfl | exact absurd rfl (other _ _)

@[simp] theorem finished?_some :
    (finished handle : BlockerEvent Handle Msg).finished? = some handle := rfl

@[simp] theorem finished?_none (other : ∀ handle, event ≠ .finished handle) :
    event.finished? = none := by
  cases event <;> first | rfl | exact absurd rfl (other _)

end BlockerEvent

/-- The entries of a pair. -/
def ofPair {α : Type} (id : PairId) (entries : List (PairId × α)) : List α :=
  entries.filterMap fun entry => if entry.1 = id then some entry.2 else none

/-- A request that has not returned: how many responses it expects, and what happened since. -/
def follow (request : Option (Nat × List (BlockerEvent Handle Msg))) (event : BlockerEvent Handle Msg) :
    Option (Nat × List (BlockerEvent Handle Msg)) :=
  match event with
  | .requested expected => some (expected, [])
  | .returned => none
  | _ => request.map fun (expected, since) => (expected, since ++ [event])

def openRequest (before : List (BlockerEvent Handle Msg)) :
    Option (Nat × List (BlockerEvent Handle Msg)) := before.foldl follow none

/-- Handlers run only while a request is open. The receive handle runs for each response
that was handed over, in their order; the finish handle runs once, after the last of them;
and the request returns when all of this is done. -/
def Proper (before : List (BlockerEvent Handle Msg)) : BlockerEvent Handle Msg → Prop
  | .received handle msg => ∃ expected since, openRequest before = some (expected, since) ∧
      (before.filterMap (·.registeredRecv?)).getLast? = some handle ∧
      since.filterMap (·.received?) ++ [msg] <+: since.filterMap (·.handed?) ∧
      since.filterMap (·.finished?) = []
  | .finished handle => ∃ expected since, openRequest before = some (expected, since) ∧
      (before.filterMap (·.registeredFinish?)).getLast? = some handle ∧
      since.filterMap (·.received?) = since.filterMap (·.handed?) ∧
      (since.filterMap (·.received?)).length = expected ∧
      since.filterMap (·.finished?) = []
  | .returned => ∃ expected since, openRequest before = some (expected, since) ∧
      since.filterMap (·.received?) = since.filterMap (·.handed?) ∧
      (since.filterMap (·.received?)).length = expected ∧
      (since.filterMap (·.finished?)).length = 1
  | _ => True

/-! ## One pair alone -/

inductive Stage where
  | elsewhere
  | registered
  /-- Between `NewRequest` and the return of `WaitRequest`. -/
  | waiting
  deriving DecidableEq, Repr

/-- The background thread, as far as it works for the pair. -/
inductive Working (Msg : Type) where
  | none
  | decided (msg : Msg) (recvFinish : Bool)
  | handled (recvFinish : Bool)

/-- A blocker that one pair uses, with the pair's thread and responses. -/
structure OnePair (Handle Msg : Type) where
  tracker : UInt32 × UInt32
  recvHandle : Option Handle
  recvFinishHandle : Option Handle
  stage : Stage
  owed : Nat
  queued : List Msg
  working : Working Msg

namespace OnePair

def init : OnePair Handle Msg := ⟨(0, 0), none, none, .elsewhere, 0, [], .none⟩

/-- The steps of a pair that has the blocker for itself. -/
inductive Step : OnePair Handle Msg → List (BlockerEvent Handle Msg) → OnePair Handle Msg → Prop where
  | registerRecv {pair handle} : pair.stage = .elsewhere →
      Step pair [.registeredRecv handle] { pair with recvHandle := some handle }
  | registerFinish {pair handle} : pair.stage = .elsewhere → pair.recvHandle.isSome →
      Step pair [.registeredFinish handle]
        { pair with recvFinishHandle := some handle, stage := .registered }
  | request {pair} {expected : UInt32} : pair.stage = .registered → expected ≠ 0 →
      Step pair [.requested expected.toNat]
        { pair with tracker := (expected, 0), stage := .waiting, owed := expected.toNat }
  | hand {pair msg} : 0 < pair.owed → Step pair [.handed msg]
      { pair with owed := pair.owed - 1, queued := pair.queued ++ [msg] }
  | decide {pair msg rest} : pair.queued = msg :: rest → pair.working = .none →
      Step pair [] { pair with
        queued := rest, working := .decided msg (pair.tracker.1 = pair.tracker.2 + 1) }
  | handleOne {pair msg handle} : pair.working = .decided msg false →
      pair.recvHandle = some handle →
      Step pair [.received handle msg] { pair with working := .handled false }
  | handleLast {pair msg handle finish} : pair.working = .decided msg true →
      pair.recvHandle = some handle → pair.recvFinishHandle = some finish →
      Step pair [.received handle msg, .finished finish] { pair with working := .handled true }
  | addCurrent {pair recvFinish} : pair.working = .handled recvFinish →
      Step pair [] { pair with
        tracker := (pair.tracker.1, pair.tracker.2 + 1), working := .none }
  | return {pair} : pair.stage = .waiting → pair.tracker.1 = pair.tracker.2 →
      Step pair [.returned] { pair with stage := .elsewhere }

/-- The runs of a pair alone, with their events. -/
inductive Runs : List (BlockerEvent Handle Msg) → OnePair Handle Msg → Prop where
  | nil : Runs [] init
  | snoc {events pair out pair'} : Runs events pair → Step pair out pair' → Runs (events ++ out) pair'

end OnePair

/-! ## The invariant of a pair -/

/-- The response whose handlers have not run yet. -/
def Working.inHand : Working Msg → List Msg
  | .decided msg _ => [msg]
  | _ => []

/-- Whether the background thread still has to count a response whose handlers ran. -/
def Working.uncounted : Working Msg → Nat
  | .handled _ => 1
  | _ => 0

/-- Whether `recv_finish` says that the response is the last of `expected`, `received`
responses having passed their handlers. -/
def Working.Right (working : Working Msg) (expected received : Nat) : Prop :=
  match working with
  | .none => True
  | .decided _ recvFinish => recvFinish = decide (received + 1 = expected)
  | .handled recvFinish => recvFinish = decide (received = expected)

/-- The counters of a request against what happened since `NewRequest`. -/
structure Serving (pair : OnePair Handle Msg) (expected : Nat)
    (since : List (BlockerEvent Handle Msg)) : Prop where
  expected_eq : pair.tracker.1.toNat = expected
  positive : 0 < expected
  owed : (since.filterMap (·.handed?)).length + pair.owed = expected
  order : since.filterMap (·.handed?) =
    since.filterMap (·.received?) ++ (pair.working.inHand ++ pair.queued)
  current : pair.tracker.2.toNat + pair.working.uncounted = (since.filterMap (·.received?)).length
  right : pair.working.Right expected (since.filterMap (·.received?)).length
  finished : (since.filterMap (·.finished?)).length =
    if (since.filterMap (·.received?)).length = expected then 1 else 0

/-- The request of a pair: none that is open, or one that it waits for. -/
inductive Requesting (pair : OnePair Handle Msg) (before : List (BlockerEvent Handle Msg)) : Prop where
  | quiet : pair.stage ≠ .waiting → openRequest before = none → pair.owed = 0 →
      pair.queued = [] → pair.working = .none → Requesting pair before
  | serving {expected since} : pair.stage = .waiting →
      openRequest before = some (expected, since) → Serving pair expected since →
      Requesting pair before

structure Agrees (pair : OnePair Handle Msg) (before : List (BlockerEvent Handle Msg)) : Prop where
  recvHandle : pair.recvHandle = (before.filterMap (·.registeredRecv?)).getLast?
  recvFinishHandle : pair.recvFinishHandle = (before.filterMap (·.registeredFinish?)).getLast?
  handles : pair.stage ≠ .elsewhere → pair.recvHandle.isSome ∧ pair.recvFinishHandle.isSome
  requesting : Requesting pair before
  proper : AtEach Proper before

section Steps

variable {pair pair' : OnePair Handle Msg} {before out : List (BlockerEvent Handle Msg)}
  {event : BlockerEvent Handle Msg} {expected : Nat} {since : List (BlockerEvent Handle Msg)}

theorem openRequest_append : openRequest (before ++ [event]) = follow (openRequest before) event := by
  rw [openRequest, List.foldl_append]
  rfl

theorem Serving.received_add (serving : Serving pair expected since) :
    (since.filterMap (·.received?)).length + pair.working.inHand.length + pair.queued.length +
      pair.owed = expected := by
  have handed := congrArg List.length serving.order
  rw [List.length_append, List.length_append] at handed
  rw [← serving.owed, handed, Nat.add_assoc _ pair.working.inHand.length]

theorem Serving.finished_of_open (serving : Serving pair expected since)
    (more : (since.filterMap (·.received?)).length < expected) :
    since.filterMap (·.finished?) = [] := by
  rw [← List.length_eq_zero_iff, serving.finished, if_neg more.ne]

/-- `recv_finish` is computed without overflow while responses are missing. -/
theorem eq_add_one_iff {x y : UInt32} (less : y.toNat < x.toNat) :
    x = y + 1 ↔ y.toNat + 1 = x.toNat := by
  have top := x.toNat_lt
  rw [← UInt32.toNat_inj, UInt32.toNat_add, UInt32.toNat_one, Nat.mod_eq_of_lt (by omega), eq_comm]

namespace Agrees

theorem serving_of (agrees : Agrees pair before) (busy : pair.stage = .waiting ∨
    pair.owed ≠ 0 ∨ pair.queued ≠ [] ∨ pair.working ≠ .none) :
    pair.stage = .waiting ∧
      ∃ expected since, openRequest before = some (expected, since) ∧ Serving pair expected since := by
  cases agrees.requesting with
  | quiet notWaiting _ owed queued working => simp_all
  | serving waiting request serving => exact ⟨waiting, _, _, request, serving⟩

theorem quiet_of (agrees : Agrees pair before) (stage : pair.stage ≠ .waiting) :
    openRequest before = none ∧ pair.owed = 0 ∧ pair.queued = [] ∧ pair.working = .none := by
  cases agrees.requesting with
  | quiet _ request owed queued working => exact ⟨request, owed, queued, working⟩
  | serving waiting _ _ => exact absurd waiting stage

theorem registerRecv (agrees : Agrees pair before) {handle : Handle}
    (stage : pair.stage = .elsewhere) :
    Agrees { pair with recvHandle := some handle } (before ++ [.registeredRecv handle]) where
  recvHandle := by simp
  recvFinishHandle := by simpa using agrees.recvFinishHandle
  handles registered := absurd stage registered
  requesting := by
    have notWaiting : pair.stage ≠ .waiting := by rw [stage]; nofun
    obtain ⟨request, owed, queued, working⟩ := agrees.quiet_of notWaiting
    exact .quiet notWaiting (by rw [openRequest_append, request]; rfl) owed queued working
  proper := agrees.proper.append trivial

theorem registerFinish (agrees : Agrees pair before) {handle : Handle}
    (stage : pair.stage = .elsewhere) (registered : pair.recvHandle.isSome) :
    Agrees { pair with recvFinishHandle := some handle, stage := .registered }
      (before ++ [.registeredFinish handle]) where
  recvHandle := by simpa using agrees.recvHandle
  recvFinishHandle := by simp
  handles _ := ⟨registered, rfl⟩
  requesting := by
    obtain ⟨request, owed, queued, working⟩ := agrees.quiet_of (by rw [stage]; nofun)
    exact .quiet nofun (by rw [openRequest_append, request]; rfl) owed queued working
  proper := agrees.proper.append trivial

theorem request (agrees : Agrees pair before) {n : UInt32} (stage : pair.stage = .registered)
    (positive : n ≠ 0) :
    Agrees { pair with tracker := (n, 0), stage := .waiting, owed := n.toNat }
      (before ++ [.requested n.toNat]) where
  recvHandle := by simpa using agrees.recvHandle
  recvFinishHandle := by simpa using agrees.recvFinishHandle
  handles _ := agrees.handles (by rw [stage]; nofun)
  requesting := by
    obtain ⟨-, -, queued, working⟩ := agrees.quiet_of (by rw [stage]; nofun)
    have pos : 0 < n.toNat := Nat.pos_of_ne_zero fun zero => positive (UInt32.toNat_inj.mp zero)
    refine .serving rfl openRequest_append ⟨rfl, pos, Nat.zero_add _, ?_, ?_, ?_, (if_neg pos.ne).symm⟩
    · rw [working, queued]; rfl
    · rw [working]; rfl
    · rw [working]; trivial
  proper := agrees.proper.append trivial

theorem hand (agrees : Agrees pair before) {msg : Msg} (more : 0 < pair.owed) :
    Agrees { pair with owed := pair.owed - 1, queued := pair.queued ++ [msg] }
      (before ++ [.handed msg]) where
  recvHandle := by simpa using agrees.recvHandle
  recvFinishHandle := by simpa using agrees.recvFinishHandle
  handles := agrees.handles
  requesting := by
    obtain ⟨waiting, expected, since, request, serving⟩ := agrees.serving_of (.inr (.inl more.ne'))
    refine .serving waiting (by rw [openRequest_append, request]; rfl)
      ⟨serving.expected_eq, serving.positive, ?_, ?_, ?_, ?_, ?_⟩
    · have owed := serving.owed
      simp only [List.filterMap_append, List.length_append]
      change _ + 1 + (pair.owed - 1) = expected
      omega
    · simp [serving.order]
    · simpa using serving.current
    · simpa using serving.right
    · simpa using serving.finished
  proper := agrees.proper.append trivial

theorem decide (agrees : Agrees pair before) {msg : Msg} {rest : List Msg}
    (queued : pair.queued = msg :: rest) (working : pair.working = .none) :
    Agrees { pair with
      queued := rest
      working := .decided msg (Decidable.decide (pair.tracker.1 = pair.tracker.2 + 1)) } before where
  recvHandle := agrees.recvHandle
  recvFinishHandle := agrees.recvFinishHandle
  handles := agrees.handles
  requesting := by
    obtain ⟨waiting, expected, since, request, serving⟩ :=
      agrees.serving_of (.inr (.inr (.inl (by rw [queued]; nofun))))
    have total := serving.received_add
    have current := serving.current
    rw [working, queued] at total
    rw [working] at current
    simp only [Working.inHand, List.length_nil, List.length_cons, Working.uncounted] at total current
    refine .serving waiting request
      ⟨serving.expected_eq, serving.positive, serving.owed, ?_, current, ?_, serving.finished⟩
    · rw [serving.order, working, queued]; rfl
    · have expected_eq := serving.expected_eq
      change Decidable.decide _ = Decidable.decide _
      rw [decide_eq_decide, eq_add_one_iff (by omega), expected_eq, ← current]
  proper := agrees.proper

/-- The receive handle runs for a response in its turn. -/
theorem proper_received (agrees : Agrees pair before) (serving : Serving pair expected since)
    (request : openRequest before = some (expected, since)) {msg : Msg} {recvFinish : Bool}
    (working : pair.working = .decided msg recvFinish) {handle : Handle}
    (recv : pair.recvHandle = some handle) : AtEach Proper (before ++ [.received handle msg]) := by
  have total := serving.received_add
  have order := serving.order
  rw [working] at total order
  simp only [Working.inHand, List.length_cons, List.length_nil] at total
  refine agrees.proper.append ⟨expected, since, request, ?_, ?_, serving.finished_of_open (by omega)⟩
  · rw [← agrees.recvHandle, recv]
  · rw [order]
    exact ⟨pair.queued, List.append_assoc _ _ _⟩

theorem handleOne (agrees : Agrees pair before) {msg : Msg} {handle : Handle}
    (working : pair.working = .decided msg false) (recv : pair.recvHandle = some handle) :
    Agrees { pair with working := .handled false } (before ++ [.received handle msg]) := by
  obtain ⟨waiting, expected, since, request, serving⟩ :=
    agrees.serving_of (.inr (.inr (.inr (by rw [working]; nofun))))
  have right : false = Decidable.decide ((since.filterMap (·.received?)).length + 1 = expected) := by
    simpa [working, Working.Right] using serving.right
  have finished := serving.finished
  have total := serving.received_add
  have order := serving.order
  have current := serving.current
  rw [working] at total order current
  simp only [Working.inHand, List.length_cons, List.length_nil, Working.uncounted] at total order current
  have notLast := of_decide_eq_false right.symm
  exact {
    recvHandle := by simpa using agrees.recvHandle
    recvFinishHandle := by simpa using agrees.recvFinishHandle
    handles := agrees.handles
    proper := agrees.proper_received serving request working recv
    requesting := .serving waiting (by rw [openRequest_append, request]; rfl)
      { expected_eq := serving.expected_eq
        positive := serving.positive
        owed := by simpa using serving.owed
        order := by simpa [Working.inHand] using order
        current := by simpa [Working.uncounted] using current
        right := by simpa [Working.Right] using notLast
        finished := by
          rw [if_neg (by omega)] at finished
          simp [notLast, finished] } }

theorem handleLast (agrees : Agrees pair before) {msg : Msg} {handle finish : Handle}
    (working : pair.working = .decided msg true) (recv : pair.recvHandle = some handle)
    (recvFinish : pair.recvFinishHandle = some finish) :
    Agrees { pair with working := .handled true }
      (before ++ [.received handle msg, .finished finish]) := by
  obtain ⟨waiting, expected, since, request, serving⟩ :=
    agrees.serving_of (.inr (.inr (.inr (by rw [working]; nofun))))
  have right : true = Decidable.decide ((since.filterMap (·.received?)).length + 1 = expected) := by
    simpa [working, Working.Right] using serving.right
  have last := of_decide_eq_true right.symm
  have total := serving.received_add
  have order := serving.order
  have current := serving.current
  rw [working] at total order current
  simp only [Working.inHand, List.length_cons, List.length_nil, Working.uncounted] at total order current
  have queued : pair.queued = [] := List.length_eq_zero_iff.mp (by omega)
  have request' : openRequest (before ++ [.received handle msg]) =
      some (expected, since ++ [.received handle msg]) := by rw [openRequest_append, request]; rfl
  have none := serving.finished_of_open (by omega)
  have split : before ++ [.received handle msg, .finished finish] =
      before ++ [.received handle msg] ++ [.finished finish] := by rw [List.append_assoc]; rfl
  rw [split]
  exact {
    recvHandle := by simpa using agrees.recvHandle
    recvFinishHandle := by simpa using agrees.recvFinishHandle
    handles := agrees.handles
    proper := by
      refine (agrees.proper_received serving request working recv).append
        ⟨expected, _, request', ?_, ?_, ?_, ?_⟩
      · simpa [recvFinish] using agrees.recvFinishHandle.symm
      · simp [order, queued]
      · simpa using last
      · simpa using none
    requesting := .serving waiting (by rw [openRequest_append, request']; rfl)
      { expected_eq := serving.expected_eq
        positive := serving.positive
        owed := by simpa using serving.owed
        order := by simpa [Working.inHand] using order
        current := by simpa [Working.uncounted] using current
        right := by simpa [Working.Right] using last
        finished := by simp [last, none] } }

theorem addCurrent (agrees : Agrees pair before) {recvFinish : Bool}
    (working : pair.working = .handled recvFinish) :
    Agrees { pair with tracker := (pair.tracker.1, pair.tracker.2 + 1), working := .none } before where
  recvHandle := agrees.recvHandle
  recvFinishHandle := agrees.recvFinishHandle
  handles := agrees.handles
  requesting := by
    obtain ⟨waiting, expected, since, request, serving⟩ :=
      agrees.serving_of (.inr (.inr (.inr (by rw [working]; nofun))))
    have total := serving.received_add
    have current := serving.current
    have expected_eq := serving.expected_eq
    have top := pair.tracker.1.toNat_lt
    rw [working] at total current
    simp only [Working.uncounted] at current
    refine .serving waiting request
      ⟨expected_eq, serving.positive, serving.owed, ?_, ?_, trivial, serving.finished⟩
    · rw [serving.order, working]; rfl
    · change (pair.tracker.2 + 1).toNat = _
      rw [UInt32.toNat_add, UInt32.toNat_one, current, Nat.mod_eq_of_lt (by omega)]
  proper := agrees.proper

theorem complete_iff (serving : Serving pair expected since) :
    pair.tracker.1 = pair.tracker.2 ↔
      pair.working = .none ∧ (since.filterMap (·.received?)).length = expected := by
  have total := serving.received_add
  have current := serving.current
  have expected_eq := serving.expected_eq
  rw [← UInt32.toNat_inj]
  constructor
  · intro complete
    cases working : pair.working with
    | none =>
        rw [working] at current
        simp only [Working.uncounted] at current
        exact ⟨rfl, by omega⟩
    | decided msg recvFinish =>
        rw [working] at current total
        simp only [Working.uncounted, Working.inHand, List.length_cons, List.length_nil] at current total
        omega
    | handled recvFinish =>
        rw [working] at current
        simp only [Working.uncounted] at current
        omega
  · rintro ⟨working, all⟩
    rw [working] at current
    simp only [Working.uncounted] at current
    omega

theorem return_ (agrees : Agrees pair before) (waiting : pair.stage = .waiting)
    (complete : pair.tracker.1 = pair.tracker.2) :
    Agrees { pair with stage := .elsewhere } (before ++ [.returned]) := by
  obtain ⟨-, expected, since, request, serving⟩ := agrees.serving_of (.inl waiting)
  obtain ⟨working, all⟩ := (complete_iff serving).mp complete
  have total := serving.received_add
  have order := serving.order
  rw [working] at total order
  simp only [Working.inHand, List.length_nil] at total order
  have queued : pair.queued = [] := List.length_eq_zero_iff.mp (by omega)
  have finished := serving.finished
  rw [if_pos all] at finished
  exact {
    recvHandle := by simpa using agrees.recvHandle
    recvFinishHandle := by simpa using agrees.recvFinishHandle
    handles := fun stage => absurd rfl stage
    requesting := .quiet nofun (by rw [openRequest_append, request]; rfl)
      (show pair.owed = 0 by omega) queued working
    proper := agrees.proper.append
      ⟨expected, since, request, by rw [order, queued]; simp, all, finished⟩ }

theorem step (agrees : Agrees pair before) (stepped : OnePair.Step pair out pair') :
    Agrees pair' (before ++ out) := by
  cases stepped with
  | registerRecv stage => exact agrees.registerRecv stage
  | registerFinish stage registered => exact agrees.registerFinish stage registered
  | request stage positive => exact agrees.request stage positive
  | hand more => exact agrees.hand more
  | decide queued working =>
      rw [List.append_nil]
      exact agrees.decide queued working
  | handleOne working recv => exact agrees.handleOne working recv
  | handleLast working recv finish => exact agrees.handleLast working recv finish
  | addCurrent working =>
      rw [List.append_nil]
      exact agrees.addCurrent working
  | «return» waiting complete => exact agrees.return_ waiting complete

theorem of_runs (runs : OnePair.Runs before pair) : Agrees pair before := by
  induction runs with
  | nil => exact ⟨rfl, rfl, fun stage => absurd rfl stage, .quiet nofun rfl rfl rfl rfl, .nil _⟩
  | snoc _ stepped ih => exact ih.step stepped

end Agrees

end Steps

/-! ## The system seen from a pair -/

section OfPair

variable {α : Type} {id id' : PairId}

@[simp] theorem ofPair_nil : ofPair id ([] : List (PairId × α)) = [] := rfl

@[simp] theorem ofPair_append (xs ys : List (PairId × α)) :
    ofPair id (xs ++ ys) = ofPair id xs ++ ofPair id ys := List.filterMap_append

@[simp] theorem ofPair_cons_self (x : α) (xs : List (PairId × α)) :
    ofPair id ((id, x) :: xs) = x :: ofPair id xs := by simp [ofPair]

theorem ofPair_cons_of_ne (other : id ≠ id') (x : α) (xs : List (PairId × α)) :
    ofPair id ((id', x) :: xs) = ofPair id xs := by simp [ofPair, other.symm]

@[simp] theorem ofPair_map_self (xs : List α) : ofPair id (xs.map (id, ·)) = xs := by
  induction xs with
  | nil => rfl
  | cons x xs ih => rw [List.map_cons, ofPair_cons_self, ih]

theorem ofPair_map_of_ne (other : id ≠ id') (xs : List α) : ofPair id (xs.map (id', ·)) = [] := by
  induction xs with
  | nil => rfl
  | cons x xs ih => rw [List.map_cons, ofPair_cons_of_ne other, ih]

end OfPair

namespace AppThread

def stage (thread : AppThread) (model : UInt32) : Stage :=
  match thread with
  | .outside => .elsewhere
  | .registered m => if m = model then .registered else .elsewhere
  | .requested m | .asleep m | .woken m => if m = model then .waiting else .elsewhere

@[simp] theorem stage_notify (thread : AppThread) (model : UInt32) :
    thread.notify.stage model = thread.stage model := by
  cases thread <;> rfl

/-- The thread is not busy with another model. -/
def For (thread : AppThread) (model : UInt32) : Prop :=
  ∀ m, m ≠ model → thread.stage m = .elsewhere

theorem outside_for (model : UInt32) : outside.For model := fun _ _ => rfl
theorem registered_for (model : UInt32) : (registered model).For model := fun _ other => if_neg other.symm
theorem requested_for (model : UInt32) : (requested model).For model := fun _ other => if_neg other.symm
theorem asleep_for (model : UInt32) : (asleep model).For model := fun _ other => if_neg other.symm
theorem woken_for (model : UInt32) : (woken model).For model := fun _ other => if_neg other.symm

/-- A step of a thread for one model changes nothing for the other pairs. -/
theorem stage_update {threads : Tid → AppThread} {id id' : PairId} {thread : AppThread}
    (old : (threads id'.1).For id'.2) (new : thread.For id'.2) (other : id ≠ id') :
    (Function.update threads id'.1 thread id.1).stage id.2 = (threads id.1).stage id.2 := by
  by_cases same : id.1 = id'.1
  · have model : id.2 ≠ id'.2 := fun model => other (Prod.ext same model)
    rw [same, Function.update_self, new _ model, old _ model]
  · rw [Function.update_of_ne same]

end AppThread

def Background.working (background : Background Msg) (id : PairId) : Working Msg :=
  match background with
  | .idle => .none
  | .decided id' msg recvFinish => if id' = id then .decided msg recvFinish else .none
  | .handled id' recvFinish => if id' = id then .handled recvFinish else .none

namespace BlockerSystem

variable {state state' : BlockerSystem Handle Msg} {out : List (PairId × BlockerEvent Handle Msg)}
  {id id' : PairId}

/-- What a state holds of one pair. -/
def pair (state : BlockerSystem Handle Msg) (id : PairId) : OnePair Handle Msg where
  tracker := state.blocker.tracker id
  recvHandle := state.blocker.recvHandle id
  recvFinishHandle := state.blocker.recvFinishHandle id
  stage := (state.threads id.1).stage id.2
  owed := state.owed id
  queued := ofPair id state.workQueue
  working := state.background.working id

/-- A step is a step of the pair on its own, or the pair does not see it. -/
def Seen (state : BlockerSystem Handle Msg) (out : List (PairId × BlockerEvent Handle Msg))
    (state' : BlockerSystem Handle Msg) (id : PairId) : Prop :=
  OnePair.Step (state.pair id) (ofPair id out) (state'.pair id) ∨
    ofPair id out = [] ∧ state'.pair id = state.pair id

theorem Seen.own {events : List (BlockerEvent Handle Msg)} {after : OnePair Handle Msg}
    (stepped : OnePair.Step (state.pair id) events after) (events_eq : ofPair id out = events)
    (after_eq : state'.pair id = after) : Seen state out state' id :=
  .inl (events_eq ▸ after_eq ▸ stepped)

theorem seen_evaluate (thread : state.threads id'.1 = .requested id'.2 ∨
    state.threads id'.1 = .woken id'.2) (id : PairId) :
    Seen state (state.evaluate id').2 (state.evaluate id').1 id := by
  have busy : (state.threads id'.1).For id'.2 ∧ (state.threads id'.1).stage id'.2 = .waiting := by
    obtain thread | thread := thread
    · rw [thread]
      exact ⟨AppThread.requested_for _, if_pos rfl⟩
    · rw [thread]
      exact ⟨AppThread.woken_for _, if_pos rfl⟩
  unfold evaluate
  split
  · next complete =>
      by_cases same : id = id'
      · subst same
        exact .own (.return busy.2 complete) (ofPair_cons_self _ _)
          (by simp [pair, setThread, AppThread.stage])
      · exact .inr ⟨ofPair_cons_of_ne same _ _, by
          simp only [pair, setThread, AppThread.stage_update busy.1 (AppThread.outside_for _) same]⟩
  · refine .inr ⟨rfl, ?_⟩
    by_cases same : id = id'
    · subst same
      have stage := busy.2
      simp only [pair, setThread, Function.update_self, stage]
      simp [AppThread.stage]
    · simp only [pair, setThread, AppThread.stage_update busy.1 (AppThread.asleep_for _) same]

theorem sanityCheck_eq_ok {blocker : AppBlocker Handle} :
    blocker.sanityCheck id = .ok () ↔
      (blocker.recvHandle id).isSome ∧ (blocker.recvFinishHandle id).isSome := by
  unfold AppBlocker.sanityCheck
  cases blocker.recvHandle id <;> cases blocker.recvFinishHandle id <;> simp

theorem seen_registerRecv (id : PairId) {handle : Handle} (outside : state.threads id'.1 = .outside) :
    Seen state [(id', .registeredRecv handle)]
      { state with blocker := state.blocker.registerRecvHandle id' handle } id := by
  by_cases same : id = id'
  · subst same
    exact .own (.registerRecv (by simp only [pair, outside]; rfl)) (ofPair_cons_self _ _)
      (by simp [pair, AppBlocker.registerRecvHandle])
  · exact .inr ⟨ofPair_cons_of_ne same _ _, by simp [pair, AppBlocker.registerRecvHandle, same]⟩

theorem seen_registerFinish (id : PairId) {handle : Handle}
    (outside : state.threads id'.1 = .outside) (registered : (state.blocker.recvHandle id').isSome) :
    Seen state [(id', .registeredFinish handle)]
      { state.setThread id'.1 (.registered id'.2) with
        blocker := state.blocker.registerRecvFinishHandle id' handle } id := by
  by_cases same : id = id'
  · subst same
    exact .own (.registerFinish (by simp only [pair, outside]; rfl) registered) (ofPair_cons_self _ _)
      (by simp [pair, setThread, AppBlocker.registerRecvFinishHandle, AppThread.stage])
  · have stage := AppThread.stage_update (outside ▸ AppThread.outside_for _)
      (AppThread.registered_for id'.2) same
    exact .inr ⟨ofPair_cons_of_ne same _ _, by
      simp [pair, setThread, AppBlocker.registerRecvFinishHandle, stage, same]⟩

theorem seen_newRequest (id : PairId) {n : UInt32} {blocker : AppBlocker Handle}
    (registered : state.threads id'.1 = .registered id'.2) (positive : n ≠ 0)
    (requested : state.blocker.newRequest id' n = .ok blocker) :
    Seen state [(id', .requested n.toNat)]
      { state.setThread id'.1 (.requested id'.2) with
        blocker, owed := Function.update state.owed id' n.toNat } id := by
  obtain ⟨_, -, requested⟩ := Except.bind_eq_ok.mp requested
  cases requested
  by_cases same : id = id'
  · subst same
    exact .own (.request (by simp [pair, registered, AppThread.stage]) positive) (ofPair_cons_self _ _)
      (by simp [pair, setThread, AppThread.stage])
  · have stage := AppThread.stage_update (registered ▸ AppThread.registered_for _)
      (AppThread.requested_for id'.2) same
    exact .inr ⟨ofPair_cons_of_ne same _ _, by simp [pair, setThread, stage, same]⟩

theorem seen_hand (id : PairId) {msg : Msg} (more : 0 < state.owed id') :
    Seen state [(id', .handed msg)]
      { state with
        owed := Function.update state.owed id' (state.owed id' - 1)
        workQueue := state.workQueue ++ [(id', msg)] } id := by
  by_cases same : id = id'
  · subst same
    exact .own (.hand more) (ofPair_cons_self _ _) (by simp [pair])
  · exact .inr ⟨ofPair_cons_of_ne same _ _, by simp [pair, same, ofPair_cons_of_ne same]⟩

theorem seen_popAndDecide (id : PairId) {msg : Msg} {rest : List (PairId × Msg)}
    (idle : state.background = .idle) (queue : state.workQueue = (id', msg) :: rest) :
    Seen state []
      { state with
        workQueue := rest
        background := .decided id' msg (state.blocker.recvFinish id') } id := by
  by_cases same : id = id'
  · subst same
    exact .own (.decide (by simp only [pair, queue, ofPair_cons_self]; rfl) (by simp only [pair, idle]; rfl))
      rfl (by
        simp only [pair, Background.working, AppBlocker.recvFinish, queue, ofPair_cons_self, if_true])
  · exact .inr ⟨rfl, by
      simp [pair, queue, idle, ofPair_cons_of_ne same, Background.working, Ne.symm same]⟩

theorem seen_runHandlers (id : PairId) {msg : Msg} {recvFinish : Bool}
    {ran : List (BlockerEvent Handle Msg)} (decided : state.background = .decided id' msg recvFinish)
    (ran_eq : state.blocker.runHandlers id' msg recvFinish = .ok ran) :
    Seen state (ran.map (id', ·)) { state with background := .handled id' recvFinish } id := by
  by_cases same : id = id'
  · subst same
    have after : pair { state with background := .handled id recvFinish } id =
        { state.pair id with working := .handled recvFinish } := by simp [pair, Background.working]
    have working : (state.pair id).working = .decided msg recvFinish := by
      simp only [pair, decided, Background.working, if_true]
    unfold AppBlocker.runHandlers at ran_eq
    split at ran_eq
    · cases ran_eq
    · next handle recv =>
        split at ran_eq
        · next last =>
            subst last
            split at ran_eq
            · cases ran_eq
            · next finish recvFinish =>
                cases ran_eq
                exact .own (.handleLast working recv recvFinish) (ofPair_map_self _) after
        · next more =>
            cases ran_eq
            rw [Bool.not_eq_true] at more
            subst more
            exact .own (.handleOne working recv) (ofPair_map_self _) after
  · exact .inr ⟨ofPair_map_of_ne same _, by simp [pair, decided, Background.working, Ne.symm same]⟩

theorem seen_addCurrent (id : PairId) {recvFinish : Bool}
    (handled : state.background = .handled id' recvFinish) :
    Seen state []
      { state with
        blocker := state.blocker.addCurrent id'
        threads := fun tid => if recvFinish then (state.threads tid).notify else state.threads tid
        background := .idle } id := by
  have stage : (if recvFinish then (state.threads id.1).notify else state.threads id.1).stage id.2 =
      (state.threads id.1).stage id.2 := by
    split
    · exact AppThread.stage_notify _ _
    · rfl
  by_cases same : id = id'
  · subst same
    exact .own (.addCurrent (by simp only [pair, handled, Background.working, if_true]; rfl)) rfl
      (by simp [pair, stage, AppBlocker.addCurrent, Background.working])
  · exact .inr ⟨rfl, by
      simp [pair, handled, stage, AppBlocker.addCurrent, Background.working, same, Ne.symm same]⟩

theorem seen_of_step {events : List (PairId × BlockerEvent Handle Msg)}
    {input : BlockerInput Handle Msg} (enabled : Enabled state events input)
    (stepped : state.step input = .ok (state', out)) (id : PairId) : Seen state out state' id := by
  cases input with
  | registerRecvHandle id' handle =>
      cases stepped
      exact seen_registerRecv id enabled
  | registerRecvFinishHandle id' handle =>
      cases stepped
      exact seen_registerFinish id enabled.1 enabled.2
  | newRequest id' n =>
      obtain ⟨blocker, requested, stepped⟩ := Except.bind_eq_ok.mp stepped
      cases stepped
      exact seen_newRequest id enabled.1 enabled.2 requested
  | waitRequest id' =>
      obtain ⟨_, -, stepped⟩ := Except.bind_eq_ok.mp stepped
      have result : state.evaluate id' = (state', out) := Except.ok.inj stepped
      have seen := seen_evaluate (.inl enabled) id
      rwa [result] at seen
  | wake id' =>
      cases stepped
      refine .inr ⟨rfl, ?_⟩
      have asleep : state.threads id'.1 = .asleep id'.2 := enabled
      by_cases same : id = id'
      · subst same
        simp [pair, setThread, asleep, AppThread.stage]
      · have stage := AppThread.stage_update (asleep ▸ AppThread.asleep_for _)
          (AppThread.woken_for id'.2) same
        simp [pair, setThread, stage]
  | test id' =>
      have result : state.evaluate id' = (state', out) := Except.ok.inj stepped
      have seen := seen_evaluate (.inr enabled) id
      rwa [result] at seen
  | hand id' msg =>
      cases stepped
      exact seen_hand id enabled
  | popAndDecide =>
      cases queue : state.workQueue with
      | nil => exact absurd queue enabled.2
      | cons entry rest =>
          simp only [step, queue] at stepped
          cases stepped
          exact seen_popAndDecide id enabled.1 queue
  | runHandlers =>
      obtain ⟨id', msg, recvFinish, decided⟩ := enabled
      simp only [step, decided] at stepped
      obtain ⟨ran, ran_eq, stepped⟩ := Except.bind_eq_ok.mp stepped
      cases stepped
      exact seen_runHandlers id decided ran_eq
  | addCurrent =>
      obtain ⟨id', recvFinish, handled⟩ := enabled
      simp only [step, handled] at stepped
      cases stepped
      exact seen_addCurrent id handled

/-- Every run of the system is, for each pair, a run of that pair alone. -/
theorem pair_runs {inputs : List (BlockerInput Handle Msg)}
    {events : List (PairId × BlockerEvent Handle Msg)}
    (run : Machine.Runs step Enabled init inputs state events) (id : PairId) :
    OnePair.Runs (ofPair id events) (state.pair id) := by
  refine run.invariant (P := fun _ state events => OnePair.Runs (ofPair id events) (state.pair id)) ?_ ?_
  · exact .nil
  · intro _ state events input state' out _ runs enabled stepped
    rw [ofPair_append]
    cases seen_of_step enabled stepped id with
    | inl own => exact .snoc runs own
    | inr unseen =>
        rw [unseen.1, unseen.2, List.append_nil]
        exact runs

/-! ## Runs of the system -/

variable {inputs : List (BlockerInput Handle Msg)} {events : List (PairId × BlockerEvent Handle Msg)}

/-- No wakeup is lost: a thread sleeps only while responses are missing. -/
def Awake (state : BlockerSystem Handle Msg) : Prop :=
  ∀ id : PairId, state.threads id.1 = .asleep id.2 → ¬ state.blocker.Complete id

theorem Awake.setThread (awake : Awake state) {tid : Tid} {thread : AppThread}
    (new : ∀ model, thread ≠ .asleep model) : Awake (state.setThread tid thread) := by
  intro id asleep
  simp only [BlockerSystem.setThread, Function.update_apply] at asleep
  split at asleep
  · exact absurd asleep (new _)
  · exact awake id asleep

theorem Awake.evaluate (awake : Awake state) : Awake (state.evaluate id').1 := by
  unfold BlockerSystem.evaluate
  split
  · exact awake.setThread nofun
  · next incomplete =>
      intro id asleep
      simp only [BlockerSystem.setThread, Function.update_apply] at asleep
      split at asleep
      · next same =>
          have model := AppThread.asleep.inj asleep
          rwa [show id = id' from Prod.ext same model.symm]
      · exact awake id asleep

theorem Awake.addCurrent (awake : Awake state) {before : List (BlockerEvent Handle Msg)}
    (agrees : Agrees (state.pair id') before) {recvFinish : Bool}
    (handled : state.background = .handled id' recvFinish) :
    Awake { state with
      blocker := state.blocker.addCurrent id'
      threads := fun tid => if recvFinish then (state.threads tid).notify else state.threads tid
      background := .idle } := by
  intro id asleep complete
  cases recvFinish with
  | true =>
      simp only [if_true] at asleep
      cases thread : state.threads id.1 <;> rw [thread] at asleep <;> cases asleep
  | false =>
      by_cases same : id = id'
      · subst same
        have working : (state.pair id).working = .handled false := by
          simp only [pair, handled, Background.working, if_true]
        obtain ⟨waiting, expected, since, request, serving⟩ :=
          agrees.serving_of (.inr (.inr (.inr (by rw [working]; nofun))))
        obtain ⟨-, _, _, request', serving'⟩ := (agrees.addCurrent working).serving_of (.inl waiting)
        rw [request] at request'
        cases request'
        have complete' : (state.blocker.tracker id).1 = (state.blocker.tracker id).2 + 1 := by
          simpa [AppBlocker.Complete, AppBlocker.addCurrent] using complete
        have all := ((Agrees.complete_iff serving').mp complete').2
        have right := serving.right
        rw [working] at right
        simp only [Working.Right, all, decide_true] at right
        cases right
      · refine awake id asleep ?_
        simpa [AppBlocker.Complete, AppBlocker.addCurrent, Function.update_of_ne same] using complete

theorem awake_of_runs (run : Machine.Runs step Enabled init inputs state events) : Awake state := by
  refine run.invariant (P := fun _ state _ => Awake state) ?_ ?_
  · exact fun id asleep => by cases asleep
  · intro _ state events input state' out run awake enabled stepped
    cases input with
    | registerRecvHandle id' handle =>
        cases stepped
        exact awake
    | registerRecvFinishHandle id' handle =>
        cases stepped
        exact awake.setThread nofun
    | newRequest id' n =>
        obtain ⟨blocker, requested, stepped⟩ := Except.bind_eq_ok.mp stepped
        obtain ⟨_, -, requested⟩ := Except.bind_eq_ok.mp requested
        cases requested
        cases stepped
        intro id asleep complete
        by_cases thread : id.1 = id'.1
        · simp [BlockerSystem.setThread, thread] at asleep
        · have same : id ≠ id' := fun same => thread (congrArg Prod.fst same)
          refine awake id ?_ ?_
          · simpa [BlockerSystem.setThread, Function.update_of_ne thread] using asleep
          · simpa [AppBlocker.Complete, Function.update_of_ne same] using complete
    | waitRequest id' =>
        obtain ⟨_, -, stepped⟩ := Except.bind_eq_ok.mp stepped
        have result : state.evaluate id' = (state', out) := Except.ok.inj stepped
        have after : Awake (state.evaluate id').1 := awake.evaluate
        rwa [result] at after
    | wake id' =>
        cases stepped
        exact awake.setThread nofun
    | test id' =>
        have result : state.evaluate id' = (state', out) := Except.ok.inj stepped
        have after : Awake (state.evaluate id').1 := awake.evaluate
        rwa [result] at after
    | hand id' msg =>
        cases stepped
        exact awake
    | popAndDecide =>
        cases queue : state.workQueue with
        | nil => exact absurd queue enabled.2
        | cons entry rest =>
            simp only [step, queue] at stepped
            cases stepped
            exact awake
    | runHandlers =>
        obtain ⟨id', msg, recvFinish, decided⟩ := enabled
        simp only [step, decided] at stepped
        obtain ⟨ran, -, stepped⟩ := Except.bind_eq_ok.mp stepped
        cases stepped
        exact awake
    | addCurrent =>
        obtain ⟨id', recvFinish, handled⟩ := enabled
        simp only [step, handled] at stepped
        cases stepped
        exact awake.addCurrent (.of_runs (pair_runs run id')) handled

/-- No `CHECK` fails and every handler is there when it is called. -/
theorem step_returns (agrees : ∀ id, ∃ before, Agrees (state.pair id) before)
    {input : BlockerInput Handle Msg} (enabled : Enabled state events input) :
    ∃ next, state.step input = .ok next := by
  have checked : ∀ id, (state.threads id.1).stage id.2 ≠ .elsewhere →
      (state.blocker.recvHandle id).isSome ∧ (state.blocker.recvFinishHandle id).isSome :=
    fun id => (agrees id).choose_spec.handles
  cases input with
  | registerRecvHandle id handle => exact ⟨_, rfl⟩
  | registerRecvFinishHandle id handle => exact ⟨_, rfl⟩
  | newRequest id n =>
      have ok := sanityCheck_eq_ok.mpr (checked id (by simp [enabled.1, AppThread.stage]))
      exact ⟨_, by simp only [step, AppBlocker.newRequest, ok, Except.ok_bind]; rfl⟩
  | waitRequest id =>
      have requested : state.threads id.1 = .requested id.2 := enabled
      have ok := sanityCheck_eq_ok.mpr (checked id (by simp [requested, AppThread.stage]))
      exact ⟨_, by simp only [step, ok, Except.ok_bind]; rfl⟩
  | wake id => exact ⟨_, rfl⟩
  | test id => exact ⟨_, rfl⟩
  | hand id msg => exact ⟨_, rfl⟩
  | popAndDecide =>
      cases queue : state.workQueue with
      | nil => exact absurd queue enabled.2
      | cons entry rest => exact ⟨_, by simp only [step, queue]; rfl⟩
  | runHandlers =>
      obtain ⟨id, msg, recvFinish, decided⟩ := enabled
      have working : (state.pair id).working = .decided msg recvFinish := by
        simp only [pair, decided, Background.working, if_true]
      obtain ⟨before, holds⟩ := agrees id
      have waiting := (holds.serving_of (.inr (.inr (.inr (by rw [working]; nofun))))).1
      obtain ⟨recv, finish⟩ := holds.handles (by rw [waiting]; nofun)
      obtain ⟨handle, recv⟩ := Option.isSome_iff_exists.mp recv
      obtain ⟨finish, found⟩ := Option.isSome_iff_exists.mp finish
      have recv : state.blocker.recvHandle id = some handle := recv
      have found : state.blocker.recvFinishHandle id = some finish := found
      cases recvFinish with
      | true => exact ⟨_, by simp only [step, decided, AppBlocker.runHandlers, recv, found]; rfl⟩
      | false => exact ⟨_, by simp only [step, decided, AppBlocker.runHandlers, recv]; rfl⟩
  | addCurrent =>
      obtain ⟨id, recvFinish, handled⟩ := enabled
      exact ⟨_, by simp only [step, handled]; rfl⟩

/-- Whatever the interleaving, every pair sees its own requests served as if it were alone:
the handlers run at the right moments, a waiting thread may return exactly when all the
handlers of its request have run and are counted, no thread sleeps past that moment, and no
call fails. -/
theorem released_when_complete
    (run : Machine.Runs step Enabled init inputs state events) :
    (∀ id, AtEach Proper (ofPair id events) ∧ OnePair.Runs (ofPair id events) (state.pair id)) ∧
    (∀ id : PairId, (state.threads id.1).stage id.2 = .waiting →
      ∃ expected since, openRequest (ofPair id events) = some (expected, since) ∧
        (state.blocker.Complete id ↔ (since.filterMap (·.received?)).length = expected ∧
          (since.filterMap (·.finished?)).length = 1 ∧ (state.pair id).working = .none)) ∧
    (∀ id : PairId, state.threads id.1 = .asleep id.2 → ¬ state.blocker.Complete id) ∧
    ∀ input, Enabled state events input → ∃ next, state.step input = .ok next := by
  have agrees : ∀ id, Agrees (state.pair id) (ofPair id events) := fun id => .of_runs (pair_runs run id)
  refine ⟨fun id => ⟨(agrees id).proper, pair_runs run id⟩, ?_, awake_of_runs run,
    fun input => step_returns fun id => ⟨_, agrees id⟩⟩
  intro id waiting
  obtain ⟨-, expected, since, request, serving⟩ := (agrees id).serving_of (.inl waiting)
  refine ⟨expected, since, request, (Agrees.complete_iff serving).trans ?_⟩
  have finished := serving.finished
  constructor
  · rintro ⟨working, all⟩
    rw [if_pos all] at finished
    exact ⟨all, finished, working⟩
  · exact fun ⟨all, _, working⟩ => ⟨working, all⟩

instance (state : BlockerSystem Handle Msg) (events : List (PairId × BlockerEvent Handle Msg))
    (input : BlockerInput Handle Msg) : Decidable (Enabled state events input) :=
  match input with
  | .registerRecvHandle _ _ | .waitRequest _ | .wake _ | .test _ => inferInstanceAs (Decidable (_ = _))
  | .registerRecvFinishHandle _ _ | .newRequest _ _ => inferInstanceAs (Decidable (_ ∧ _))
  | .popAndDecide => match background : state.background, queue : state.workQueue with
    | .idle, _ :: _ => isTrue ⟨background, by rw [queue]; nofun⟩
    | .idle, [] => isFalse fun enabled => enabled.2 queue
    | .decided _ _ _, _ | .handled _ _, _ => isFalse fun enabled => by
        have idle := enabled.1
        rw [background] at idle
        cases idle
  | .hand _ _ => inferInstanceAs (Decidable (_ < _))
  | .runHandlers => match background : state.background with
    | .decided _ _ _ => isTrue ⟨_, _, _, background⟩
    | .idle | .handled _ _ => isFalse fun ⟨_, _, _, decided⟩ => by
        rw [background] at decided
        cases decided
  | .addCurrent => match background : state.background with
    | .handled _ _ => isTrue ⟨_, _, background⟩
    | .idle | .decided _ _ _ => isFalse fun ⟨_, _, handled⟩ => by
        rw [background] at handled
        cases handled

/-- Thread 1 waits for two responses, and thread 2 for one that arrives between them. -/
theorem released_when_complete_twoThreads :
    ∃ (state : BlockerSystem Nat Nat) (events : List (PairId × BlockerEvent Nat Nat)),
      ofPair (1, 0) events = [.registeredRecv 10, .registeredFinish 11, .requested 2, .handed 5,
        .received 10 5, .handed 6, .received 10 6, .finished 11, .returned] ∧
      AtEach Proper (ofPair (1, 0) events) ∧ AtEach Proper (ofPair (2, 0) events) ∧
      ¬ state.blocker.Complete (2, 0) := by
  obtain ⟨state, events, run, events_eq, asleep⟩ := Machine.runs_of_exec step Enabled init
    [.registerRecvHandle (1, 0) 10, .registerRecvHandle (2, 0) 20,
      .registerRecvFinishHandle (1, 0) 11, .registerRecvFinishHandle (2, 0) 21,
      .newRequest (1, 0) 2, .newRequest (2, 0) 1, .waitRequest (1, 0), .waitRequest (2, 0),
      .hand (1, 0) 5, .popAndDecide, .runHandlers, .hand (2, 0) 7, .addCurrent, .hand (1, 0) 6,
      .popAndDecide, .runHandlers, .addCurrent, .test (2, 0),
      .registerRecvFinishHandle (2, 0) 22, .newRequest (2, 0) 1, .waitRequest (2, 0),
      .popAndDecide, .runHandlers, .addCurrent, .test (1, 0), .test (2, 0)]
    (fun state events =>
      ofPair (1, 0) events = [.registeredRecv 10, .registeredFinish 11, .requested 2, .handed 5,
        .received 10 5, .handed 6, .received 10 6, .finished 11, .returned] ∧
      state.threads 2 = .asleep 0) (by decide +kernel)
  have holds := released_when_complete run
  exact ⟨state, events, events_eq, (holds.1 (1, 0)).1, (holds.1 (2, 0)).1, holds.2.2.1 (2, 0) asleep⟩

end BlockerSystem

end FlexPS
