import FlexPS.Rapid.Reassignment
import FlexPS.Lib.Rounds

/-! # Work stealing conserves work

The helpee compares its current point and the end of its interval with the request,
not the start of its interval. As long as every request it accepts was computed for
the start it has, no position is lost or processed twice.
-/

namespace FlexPS.Rapid

/-! ## Arithmetic of a stolen interval -/

theorem toFloat_le (x : Nat) : toFloat x ≤ 2 * x := by
  unfold toFloat
  split
  · omega
  · next large =>
      have unit_le : 2 ^ (x.log2 - 23) ≤ x := by
        apply le_trans _ (Nat.log2_self_le (by omega))
        exact Nat.pow_le_pow_right (by omega) (by omega)
      have below := Nat.div_mul_le_self x (2 ^ (x.log2 - 23))
      dsimp only
      split
      · omega
      · rw [Nat.add_mul]
        omega

theorem half_le (x : UInt32) : (half x).toNat ≤ x.toNat := by
  have bound := toFloat_le x.toNat
  have := x.toNat_lt
  unfold half
  rw [UInt32.toNat_ofNat']
  omega

namespace JobMeta

/-- The current point lies in the interval, whose end fits in 32 bits. -/
structure InRange (jobMeta : JobMeta) : Prop where
  start_le : jobMeta.startPt.toNat ≤ jobMeta.currentPt.toNat
  le_end : jobMeta.currentPt.toNat ≤ jobMeta.startPt.toNat + jobMeta.batchSize.toNat
  end_lt : jobMeta.startPt.toNat + jobMeta.batchSize.toNat < 2 ^ 32

/-- The positions `[currentPt, startPt + batchSize)`. -/
def remaining (jobMeta : JobMeta) : List Nat :=
  List.range' jobMeta.currentPt.toNat
    (jobMeta.startPt.toNat + jobMeta.batchSize.toNat - jobMeta.currentPt.toNat)

theorem isFinished_iff {jobMeta : JobMeta} (inRange : jobMeta.InRange) :
    jobMeta.isFinished = true ↔
      jobMeta.currentPt.toNat = jobMeta.startPt.toNat + jobMeta.batchSize.toNat := by
  obtain ⟨start_le, le_end, end_lt⟩ := inRange
  unfold isFinished
  rw [decide_eq_true_eq, ← UInt32.toNat_inj, UInt32.toNat_add, Nat.mod_eq_of_lt end_lt]

theorem remaining_finished {jobMeta : JobMeta} (inRange : jobMeta.InRange)
    (finished : jobMeta.isFinished = true) : jobMeta.remaining = [] := by
  have := (isFinished_iff inRange).mp finished
  unfold remaining
  rw [List.range'_eq_nil_iff]
  omega

/-- One position is processed. -/
theorem advance {jobMeta : JobMeta} (inRange : jobMeta.InRange)
    (unfinished : jobMeta.isFinished = false) :
    InRange { jobMeta with currentPt := jobMeta.currentPt + 1 } ∧
      jobMeta.remaining =
        jobMeta.currentPt.toNat :: remaining { jobMeta with currentPt := jobMeta.currentPt + 1 } := by
  have inside : jobMeta.currentPt.toNat ≠ jobMeta.startPt.toNat + jobMeta.batchSize.toNat := by
    intro finished
    rw [(isFinished_iff inRange).mpr finished] at unfinished
    cases unfinished
  obtain ⟨start_le, le_end, end_lt⟩ := inRange
  have next : (jobMeta.currentPt + 1).toNat = jobMeta.currentPt.toNat + 1 := by
    rw [UInt32.toNat_add, UInt32.toNat_one]
    omega
  refine ⟨⟨?_, ?_, end_lt⟩, ?_⟩
  · dsimp only
    omega
  · dsimp only
    omega
  · unfold remaining
    dsimp only
    rw [next]
    obtain ⟨rest, count⟩ : ∃ rest, jobMeta.startPt.toNat + jobMeta.batchSize.toNat -
        jobMeta.currentPt.toNat = rest + 1 := ⟨_, (Nat.succ_pred_eq_of_pos (by omega)).symm⟩
    rw [count, List.range'_succ]
    congr 2
    omega

end JobMeta

namespace StolenJob

/-- The positions that change hands. -/
def interval (stolenJob : StolenJob) : List Nat :=
  List.range' stolenJob.helperStartPtNew.toNat stolenJob.helperBatchSizeNew.toNat

/-- A request cuts off the end of the interval `[start, start + batch)`. -/
def Cuts (stolenJob : StolenJob) (start batch : UInt32) : Prop :=
  start.toNat + batch.toNat < 2 ^ 32 ∧
    stolenJob.helperBatchSizeNew.toNat ≤ batch.toNat ∧
    stolenJob.helperStartPtNew = start + batch - stolenJob.helperBatchSizeNew ∧
    stolenJob.helpeeBatchSizeNew = batch - stolenJob.helperBatchSizeNew

end StolenJob

namespace JobMeta

theorem cuts_of_stealJob {jobMeta : JobMeta} (inRange : jobMeta.InRange)
    {stealThreshold : WithTop ℚ} {stolenJob : StolenJob}
    (stolen : jobMeta.stealJob stealThreshold = some stolenJob) :
    stolenJob.Cuts jobMeta.startPt jobMeta.batchSize := by
  obtain ⟨start_le, le_end, end_lt⟩ := inRange
  unfold stealJob at stolen
  split at stolen
  · cases stolen
  · split at stolen
    · cases stolen
    · cases stolen
      refine ⟨end_lt, ?_, rfl, rfl⟩
      have bound := half_le (jobMeta.batchSize - (jobMeta.currentPt - jobMeta.startPt))
      have done : (jobMeta.currentPt - jobMeta.startPt).toNat =
          jobMeta.currentPt.toNat - jobMeta.startPt.toNat :=
        UInt32.toNat_sub_of_le _ _ (UInt32.le_iff_toNat_le.mpr start_le)
      have left : (jobMeta.batchSize - (jobMeta.currentPt - jobMeta.startPt)).toNat =
          jobMeta.batchSize.toNat - (jobMeta.currentPt - jobMeta.startPt).toNat :=
        UInt32.toNat_sub_of_le _ _ (UInt32.le_iff_toNat_le.mpr (by omega))
      dsimp only
      omega

/-- A request that is accepted, and that was computed for the start the worker has, splits
    what the worker has left. -/
theorem split {jobMeta : JobMeta} (inRange : jobMeta.InRange) {stolenJob : StolenJob}
    {start batch : UInt32} (cuts : stolenJob.Cuts start batch)
    (accepted : jobMeta.accepts stolenJob = true)
    (fresh : jobMeta.startPt + stolenJob.helpeeBatchSizeNew = stolenJob.helperStartPtNew) :
    InRange { jobMeta with batchSize := stolenJob.helpeeBatchSizeNew } ∧
      isFinished jobMeta = false ∧
      stolenJob.helperStartPtNew.toNat + stolenJob.helperBatchSizeNew.toNat < 2 ^ 32 ∧
      jobMeta.remaining = remaining { jobMeta with batchSize := stolenJob.helpeeBatchSizeNew } ++
        stolenJob.interval := by
  obtain ⟨in_bounds, le_batch, helper_start, helpee_batch⟩ := cuts
  obtain ⟨start_le, le_end, end_lt⟩ := inRange
  simp only [accepts, Bool.and_eq_true, decide_eq_true_eq] at accepted
  obtain ⟨before, same_end⟩ := accepted
  have same_start : jobMeta.startPt = start := by
    rw [helpee_batch, helper_start, ← add_sub_assoc] at fresh
    exact add_right_cancel (sub_left_inj.mp fresh)
  have same_batch : jobMeta.batchSize = batch := by
    rw [helper_start, same_start, sub_add_cancel] at same_end
    exact add_left_cancel same_end
  subst same_start same_batch
  have helpee : stolenJob.helpeeBatchSizeNew.toNat =
      jobMeta.batchSize.toNat - stolenJob.helperBatchSizeNew.toNat := by
    rw [helpee_batch]
    exact UInt32.toNat_sub_of_le _ _ (UInt32.le_iff_toNat_le.mpr le_batch)
  have helper : stolenJob.helperStartPtNew.toNat =
      jobMeta.startPt.toNat + stolenJob.helpeeBatchSizeNew.toNat := by
    rw [← fresh, UInt32.toNat_add]
    omega
  rw [fresh, UInt32.lt_iff_toNat_lt] at before
  refine ⟨⟨start_le, ?_, ?_⟩, ?_, ?_, ?_⟩
  · dsimp only
    omega
  · dsimp only
    omega
  · cases finished : jobMeta.isFinished with
    | false => rfl
    | true =>
        have := (isFinished_iff ⟨start_le, le_end, end_lt⟩).mp finished
        omega
  · omega
  · unfold remaining StolenJob.interval
    dsimp only
    have behind : stolenJob.helperStartPtNew.toNat = jobMeta.currentPt.toNat +
        (jobMeta.startPt.toNat + stolenJob.helpeeBatchSizeNew.toNat -
          jobMeta.currentPt.toNat) := by omega
    rw [behind, List.range'_append_1]
    congr 1
    omega

end JobMeta

variable {n : Nat}

/-! ## Whose turn it is -/

namespace Message

/-- The message is part of the collection of statuses for `w`. -/
def asksFor (w : Fin n) (msg : Message n) : Bool :=
  match msg.body with
  | .findTask => msg.sender = w
  | .sendStatus _ => msg.recver = w
  | _ => false

/-- The message is `w`'s request for help, or the answer to it. -/
def helpFor (w : Fin n) (msg : Message n) : Bool :=
  match msg.body with
  | .sendHelp _ => msg.sender = w
  | .confirmHelp _ | .cancelHelp => msg.recver = w
  | _ => false

/-- The positions on their way to the helper. -/
def stolen (msg : Message n) : List Nat :=
  match msg.body with
  | .confirmHelp stolenJob => stolenJob.interval
  | _ => []

/-- What a message may carry. -/
def Sound (msg : Message n) : Prop :=
  match msg.body with
  | .sendStatus jobMeta => jobMeta.InRange
  | .sendHelp stolenJob => ∃ start batch, stolenJob.Cuts start batch
  | .confirmHelp stolenJob =>
      stolenJob.helperStartPtNew.toNat + stolenJob.helperBatchSizeNew.toNat < 2 ^ 32
  | _ => True

end Message

namespace Worker

/-- The worker works, or it has finished and either collects statuses or waits for the answer
    to its one request. -/
def Turn (worker : Worker n) (members asks helps : Nat) : Prop :=
  worker.wait = false ∧ asks = 0 ∧ helps = 0 ∨
    worker.wait = true ∧ worker.jobMeta.isFinished = true ∧
      (asks = members ∧ helps = 0 ∨ asks = 0 ∧ helps = 1)

end Worker

namespace ReassgnState

def asks (state : ReassgnState n) (w : Fin n) : Nat :=
  state.inFlight.countP (Message.asksFor w) + (state.workers w).jobMetas.length

def helps (state : ReassgnState n) (w : Fin n) : Nat :=
  state.inFlight.countP (Message.helpFor w)

structure Inv (group : Fin n → List (Fin n)) (state : ReassgnState n) : Prop where
  reassgn : ∀ w, (state.workers w).doReassgn = true
  inRange : ∀ w, (state.workers w).jobMeta.InRange
  turn : ∀ w, (state.workers w).Turn (group w).length (state.asks w) (state.helps w)
  sound : ∀ msg ∈ state.inFlight, msg.Sound
  boxes : ∀ w, ∀ status ∈ (state.workers w).jobMetas, status.toJobMeta.InRange

/-- Everything that was processed, is left to do or is on its way. -/
def held (state : ReassgnState n) (processed : List Nat) : Multiset Nat :=
  (processed : Multiset Nat) + ∑ w, ((state.workers w).jobMeta.remaining : Multiset Nat) +
    (state.inFlight.flatMap Message.stolen : Multiset Nat)

/-- One worker takes a step. -/
theorem held_update {state : ReassgnState n} {processed processed' : List Nat} {w : Fin n}
    {worker : Worker n} {inFlight : List (Message n)}
    (kept : (processed' : Multiset Nat) + worker.jobMeta.remaining +
        (inFlight.flatMap Message.stolen : Multiset Nat) =
      processed + (state.workers w).jobMeta.remaining +
        (state.inFlight.flatMap Message.stolen : Multiset Nat)) :
    held ⟨Function.update state.workers w worker, inFlight⟩ processed' =
      held state processed := by
  have total := Rounds.sum_update (fun worker : Worker n =>
    (worker.jobMeta.remaining : Multiset Nat)) state.workers w worker
  unfold held
  dsimp only at total ⊢
  generalize ∑ v, ((Function.update state.workers w worker v).jobMeta.remaining : Multiset Nat) =
    after at total ⊢
  generalize ∑ v, ((state.workers v).jobMeta.remaining : Multiset Nat) = before at total ⊢
  apply add_right_cancel (b := ((state.workers w).jobMeta.remaining : Multiset Nat))
  calc (processed' : Multiset Nat) + after + (inFlight.flatMap Message.stolen : Multiset Nat) +
        (state.workers w).jobMeta.remaining
      = processed' + (inFlight.flatMap Message.stolen : Multiset Nat) +
          (after + (state.workers w).jobMeta.remaining) := by abel
    _ = (processed' : Multiset Nat) + (inFlight.flatMap Message.stolen : Multiset Nat) +
          (before + worker.jobMeta.remaining) := by rw [total]
    _ = (processed' : Multiset Nat) + worker.jobMeta.remaining +
          (inFlight.flatMap Message.stolen : Multiset Nat) + before := by abel
    _ = (processed : Multiset Nat) + (state.workers w).jobMeta.remaining +
          (state.inFlight.flatMap Message.stolen : Multiset Nat) + before := by rw [kept]
    _ = processed + before + (state.inFlight.flatMap Message.stolen : Multiset Nat) +
          (state.workers w).jobMeta.remaining := by abel

/-- The state after a message was handled. -/
def delivered (state : ReassgnState n) (msg : Message n) (worker : Worker n)
    (out : List (Message n)) : ReassgnState n :=
  ⟨Function.update state.workers msg.recver worker, state.inFlight.erase msg ++ out⟩

/-- A worker handles a message. -/
theorem held_deliver {state : ReassgnState n} {processed : List Nat} {msg : Message n}
    (member : msg ∈ state.inFlight) {worker : Worker n} {out : List (Message n)}
    (kept : (worker.jobMeta.remaining : Multiset Nat) +
        (out.flatMap Message.stolen : Multiset Nat) =
      (state.workers msg.recver).jobMeta.remaining + msg.stolen) :
    held (state.delivered msg worker out) processed = held state processed := by
  apply held_update
  have split : (state.inFlight.flatMap Message.stolen : Multiset Nat) =
      msg.stolen + ((state.inFlight.erase msg).flatMap Message.stolen : Multiset Nat) := by
    rw [Multiset.coe_add, Multiset.coe_eq_coe]
    exact (List.perm_cons_erase member).flatMap_right _
  rw [split, List.flatMap_append, ← Multiset.coe_add]
  calc (processed : Multiset Nat) + worker.jobMeta.remaining +
        (((state.inFlight.erase msg).flatMap Message.stolen : Multiset Nat) +
          (out.flatMap Message.stolen : Multiset Nat))
      = processed + ((state.inFlight.erase msg).flatMap Message.stolen : Multiset Nat) +
          (worker.jobMeta.remaining + (out.flatMap Message.stolen : Multiset Nat)) := by abel
    _ = (processed : Multiset Nat) +
          ((state.inFlight.erase msg).flatMap Message.stolen : Multiset Nat) +
          ((state.workers msg.recver).jobMeta.remaining + msg.stolen) := by rw [kept]
    _ = processed + (state.workers msg.recver).jobMeta.remaining +
          (msg.stolen + ((state.inFlight.erase msg).flatMap Message.stolen : Multiset Nat)) := by
        abel

/-- Counting the messages after one was handled. -/
theorem countP_deliver {inFlight : List (Message n)} {msg : Message n} (member : msg ∈ inFlight)
    (out : List (Message n)) (p : Message n → Bool) :
    (inFlight.erase msg ++ out).countP p + (if p msg = true then 1 else 0) =
      inFlight.countP p + out.countP p := by
  rw [(List.perm_cons_erase member).countP_eq p, List.countP_append, List.countP_cons]
  omega

variable {group : Fin n → List (Fin n)} {stealThreshold : WithTop ℚ} {state : ReassgnState n}
  {processed : List Nat}

/-- A worker handles a message, and the message and what it sends weigh the same for all
    others. -/
theorem Inv.deliver (inv : Inv group state) {msg : Message n} (member : msg ∈ state.inFlight)
    {worker : Worker n} {out : List (Message n)} (reassgn : worker.doReassgn = true)
    (inRange : worker.jobMeta.InRange) (sound : ∀ msg ∈ out, msg.Sound)
    (boxes : ∀ status ∈ worker.jobMetas, status.toJobMeta.InRange)
    (others : ∀ v, v ≠ msg.recver →
      out.countP (Message.asksFor v) = (if msg.asksFor v = true then 1 else 0) ∧
        out.countP (Message.helpFor v) = if msg.helpFor v = true then 1 else 0)
    (turn : ∀ asks helps,
      asks + (state.workers msg.recver).jobMetas.length +
          (if msg.asksFor msg.recver = true then 1 else 0) =
        state.asks msg.recver + out.countP (Message.asksFor msg.recver) + worker.jobMetas.length →
      helps + (if msg.helpFor msg.recver = true then 1 else 0) =
        state.helps msg.recver + out.countP (Message.helpFor msg.recver) →
      worker.Turn (group msg.recver).length asks helps) :
    Inv group (state.delivered msg worker out) where
  reassgn := (Function.forall_update_iff _ fun _ (worker : Worker n) =>
    worker.doReassgn = true).mpr ⟨reassgn, fun v _ => inv.reassgn v⟩
  inRange := (Function.forall_update_iff _ fun _ (worker : Worker n) =>
    worker.jobMeta.InRange).mpr ⟨inRange, fun v _ => inv.inRange v⟩
  boxes := (Function.forall_update_iff _ fun _ (worker : Worker n) =>
    ∀ status ∈ worker.jobMetas, status.toJobMeta.InRange).mpr ⟨boxes, fun v _ => inv.boxes v⟩
  sound other there := by
    cases List.mem_append.mp there with
    | inl old => exact inv.sound other (List.mem_of_mem_erase old)
    | inr new => exact sound other new
  turn := by
    apply (Function.forall_update_iff _ fun v (worker : Worker n) =>
      worker.Turn (group v).length
        ((state.inFlight.erase msg ++ out).countP (Message.asksFor v) + worker.jobMetas.length)
        ((state.inFlight.erase msg ++ out).countP (Message.helpFor v))).mpr
    constructor
    · have asks := countP_deliver member out (Message.asksFor msg.recver)
      have helps := countP_deliver member out (Message.helpFor msg.recver)
      apply turn
      · unfold ReassgnState.asks
        omega
      · unfold ReassgnState.helps
        omega
    · intro v other
      have asks := countP_deliver member out (Message.asksFor v)
      have helps := countP_deliver member out (Message.helpFor v)
      obtain ⟨same_asks, same_helps⟩ := others v other
      have before := inv.turn v
      unfold ReassgnState.asks ReassgnState.helps at before
      rw [same_asks] at asks
      rw [same_helps] at helps
      rw [add_right_cancel asks, add_right_cancel helps]
      exact before

/-- A message is handled without harm. -/
def Harmless (group : Fin n → List (Fin n)) (stealThreshold : WithTop ℚ) (state : ReassgnState n)
    (processed : List Nat) (msg : Message n) : Prop :=
  ∃ worker out, (state.workers msg.recver).handle msg.recver (group msg.recver) stealThreshold msg =
      (worker, out) ∧ Inv group (state.delivered msg worker out) ∧
    held (state.delivered msg worker out) processed = held state processed

theorem Inv.findTask (inv : Inv group state) {sender recver : Fin n}
    (member : ⟨sender, recver, .findTask⟩ ∈ state.inFlight) :
    Harmless group stealThreshold state processed ⟨sender, recver, .findTask⟩ := by
  refine ⟨_, _, by simp only [Worker.handle, inv.reassgn, if_true]; rfl, ?_, ?_⟩
  · apply inv.deliver member
    case reassgn => exact inv.reassgn recver
    case inRange => exact inv.inRange recver
    case boxes => exact inv.boxes recver
    case sound =>
      intro msg there
      cases List.mem_singleton.mp there
      exact inv.inRange recver
    case others =>
      intro v _
      simp [Message.asksFor, Message.helpFor, List.countP_singleton]
    case turn =>
      intro asks helps asks_eq helps_eq
      simp only [Message.asksFor, Message.helpFor, List.countP_singleton, decide_eq_true_eq,
        Bool.false_eq_true, if_false] at asks_eq helps_eq
      have before := inv.turn recver
      obtain rfl : asks = state.asks recver := by omega
      obtain rfl : helps = state.helps recver := by omega
      exact before
  · exact held_deliver member rfl

/-- A worker to which a status is on its way is collecting. -/
theorem Inv.collecting (inv : Inv group state) {w : Fin n} (asks : 0 < state.asks w) :
    (state.workers w).wait = true ∧ (state.workers w).jobMeta.isFinished = true ∧
      state.asks w = (group w).length ∧ state.helps w = 0 := by
  rcases inv.turn w with ⟨-, none, -⟩ | ⟨wait, finished, ⟨all, none⟩ | ⟨none, -⟩⟩
  · omega
  · exact ⟨wait, finished, all, none⟩
  · omega

theorem calSlowestWorker_mem (first : Status n) (rest : List (Status n)) :
    calSlowestWorker first rest ∈ first :: rest := by
  unfold calSlowestWorker
  induction rest generalizing first with
  | nil => exact List.mem_singleton_self first
  | cons status rest ih =>
      rw [List.foldl_cons]
      split
      · exact List.mem_cons_of_mem _ (ih status)
      · have member := ih first
        grind

theorem Inv.sendStatus (inv : Inv group state) {sender recver : Fin n} {jobMeta : JobMeta}
    (member : ⟨sender, recver, .sendStatus jobMeta⟩ ∈ state.inFlight) :
    Harmless group stealThreshold state processed ⟨sender, recver, .sendStatus jobMeta⟩ := by
  have sound : jobMeta.InRange := inv.sound _ member
  have on_its_way : 0 < state.inFlight.countP (Message.asksFor recver) :=
    List.countP_pos_iff.mpr ⟨_, member, by simp [Message.asksFor]⟩
  have boxes : ∀ status ∈ (state.workers recver).jobMetas ++ [⟨jobMeta, sender⟩],
      status.toJobMeta.InRange := by
    intro status there
    cases List.mem_append.mp there with
    | inl old => exact inv.boxes recver status old
    | inr new => cases List.mem_singleton.mp new; exact sound
  have collecting := inv.collecting (w := recver) (by unfold ReassgnState.asks; omega)
  obtain ⟨wait, finished, all, none⟩ := collecting
  obtain ⟨first, rest, shape⟩ : ∃ first rest,
      (state.workers recver).jobMetas ++ [⟨jobMeta, sender⟩] = first :: rest :=
    List.exists_cons_of_ne_nil (by simp)
  have length : (state.workers recver).jobMetas.length + 1 = (first :: rest).length := by
    rw [← shape, List.length_append, List.length_singleton]
  rw [shape] at boxes
  have slowest := boxes _ (calSlowestWorker_mem first rest)
  cases Nat.decEq (first :: rest).length (group recver).length with
  | isFalse short =>
      refine ⟨_, _, by simp only [Worker.handle, Worker.addStatus, shape, short, if_false]; rfl,
        ?_, ?_⟩
      · apply inv.deliver member
        case reassgn => exact inv.reassgn recver
        case inRange => exact inv.inRange recver
        case boxes => exact boxes
        case sound => nofun
        case others =>
          intro v other
          simp [Message.asksFor, Message.helpFor, Ne.symm other]
        case turn =>
          intro asks helps asks_eq helps_eq
          simp only [Message.asksFor, Message.helpFor, List.countP_nil, decide_true, if_true,
            Bool.false_eq_true, if_false] at asks_eq helps_eq
          have still : asks = (group recver).length := by omega
          exact .inr ⟨wait, finished, .inl ⟨still, by omega⟩⟩
      · exact held_deliver member rfl
  | isTrue full =>
      -- the worker asks the slowest for help, or goes on
      have goes_on : ∀ worker : Worker n,
          worker = (((state.workers recver).addStatus ⟨jobMeta, sender⟩).setWait false).clear →
          Inv group (state.delivered ⟨sender, recver, .sendStatus jobMeta⟩ worker []) ∧
            held (state.delivered ⟨sender, recver, .sendStatus jobMeta⟩ worker []) processed =
              held state processed := by
        rintro worker rfl
        constructor
        · apply inv.deliver member
          case reassgn => exact inv.reassgn recver
          case inRange => exact inv.inRange recver
          case boxes => nofun
          case sound => nofun
          case others =>
            intro v other
            simp [Message.asksFor, Message.helpFor, Ne.symm other]
          case turn =>
            intro asks helps asks_eq helps_eq
            simp only [Message.asksFor, Message.helpFor, List.countP_nil, decide_true, if_true,
              Bool.false_eq_true, if_false, Worker.clear, List.length_nil] at asks_eq helps_eq
            exact .inl ⟨rfl, by omega, by omega⟩
        · exact held_deliver member rfl
      unfold Harmless
      simp only [Worker.handle, Worker.addStatus, shape, full, if_true, Worker.askForHelp]
      split
      · cases steal : (calSlowestWorker first rest).stealJob stealThreshold with
        | none => exact ⟨_, _, rfl, goes_on _ (by simp [Worker.addStatus, shape, Worker.clear])⟩
        | some stolenJob =>
            refine ⟨_, _, rfl, ?_, ?_⟩
            · apply inv.deliver member
              case reassgn => exact inv.reassgn recver
              case inRange => exact inv.inRange recver
              case boxes => nofun
              case sound =>
                intro msg there
                cases List.mem_singleton.mp there
                exact ⟨_, _, JobMeta.cuts_of_stealJob slowest steal⟩
              case others =>
                intro v other
                simp [Message.asksFor, Message.helpFor, Ne.symm other]
              case turn =>
                intro asks helps asks_eq helps_eq
                simp only [Message.asksFor, Message.helpFor, List.countP_singleton, decide_true,
                  if_true, Bool.false_eq_true, if_false, Worker.clear,
                  List.length_nil] at asks_eq helps_eq
                exact .inr ⟨wait, finished, .inr ⟨by omega, by omega⟩⟩
            · exact held_deliver member rfl
      · exact ⟨_, _, rfl, goes_on _ (by simp [Worker.addStatus, shape, Worker.clear])⟩

/-- The condition under which a request does no harm: when it is accepted, it was computed for
    the start the worker still has. -/
def StartUnchanged (jobMeta : JobMeta) (stolenJob : StolenJob) : Prop :=
  jobMeta.accepts stolenJob = true →
    jobMeta.startPt + stolenJob.helpeeBatchSizeNew = stolenJob.helperStartPtNew

theorem Inv.sendHelp (inv : Inv group state) {sender recver : Fin n} {stolenJob : StolenJob}
    (member : ⟨sender, recver, .sendHelp stolenJob⟩ ∈ state.inFlight)
    (unchanged : StartUnchanged (state.workers recver).jobMeta stolenJob) :
    Harmless group stealThreshold state processed ⟨sender, recver, .sendHelp stolenJob⟩ := by
  obtain ⟨start, batch, cuts⟩ := inv.sound _ member
  have others : ∀ body : Body, body = .cancelHelp ∨ body = .confirmHelp stolenJob → ∀ v,
      [(⟨recver, sender, body⟩ : Message n)].countP (Message.asksFor v) =
          (if Message.asksFor v ⟨sender, recver, .sendHelp stolenJob⟩ = true then 1 else 0) ∧
        [(⟨recver, sender, body⟩ : Message n)].countP (Message.helpFor v) =
          if Message.helpFor v ⟨sender, recver, .sendHelp stolenJob⟩ = true then 1 else 0 := by
    rintro body (rfl | rfl) v <;> simp [Message.asksFor, Message.helpFor, List.countP_singleton]
  have turn : ∀ body : Body, body = .cancelHelp ∨ body = .confirmHelp stolenJob →
      ∀ worker : Worker n, worker.jobMetas = (state.workers recver).jobMetas →
      (∀ members asks helps, (state.workers recver).Turn members asks helps →
        worker.Turn members asks helps) → ∀ asks helps,
      asks + (state.workers recver).jobMetas.length +
          (if Message.asksFor recver ⟨sender, recver, .sendHelp stolenJob⟩ = true then 1 else 0) =
        state.asks recver + [(⟨recver, sender, body⟩ : Message n)].countP (Message.asksFor recver) +
          worker.jobMetas.length →
      helps + (if Message.helpFor recver ⟨sender, recver, .sendHelp stolenJob⟩ = true then 1 else 0) =
        state.helps recver +
          [(⟨recver, sender, body⟩ : Message n)].countP (Message.helpFor recver) →
      worker.Turn (group recver).length asks helps := by
    intro body answer worker same keeps asks helps asks_eq helps_eq
    obtain ⟨same_asks, same_helps⟩ := others body answer recver
    rw [same_asks, same] at asks_eq
    rw [same_helps] at helps_eq
    obtain rfl : asks = state.asks recver := by omega
    obtain rfl : helps = state.helps recver := by omega
    exact keeps _ _ _ (inv.turn recver)
  cases accepted : (state.workers recver).jobMeta.accepts stolenJob with
  | false =>
      refine ⟨_, _, by simp only [Worker.handle, inv.reassgn, if_true, accepted]; rfl, ?_, ?_⟩
      · apply inv.deliver member
        case reassgn => exact inv.reassgn recver
        case inRange => exact inv.inRange recver
        case boxes => exact inv.boxes recver
        case sound =>
          intro msg there
          cases List.mem_singleton.mp there
          trivial
        case others => exact fun v _ => others _ (.inl rfl) v
        case turn => exact turn _ (.inl rfl) _ rfl fun _ _ _ => id
      · exact held_deliver member rfl
  | true =>
      obtain ⟨inRange, unfinished, interval, remaining⟩ :=
        JobMeta.split (inv.inRange recver) cuts accepted (unchanged accepted)
      refine ⟨_, _, by simp only [Worker.handle, inv.reassgn, if_true, accepted]; rfl, ?_, ?_⟩
      · apply inv.deliver member
        case reassgn => exact inv.reassgn recver
        case inRange => exact inRange
        case boxes => exact inv.boxes recver
        case sound =>
          intro msg there
          cases List.mem_singleton.mp there
          exact interval
        case others => exact fun v _ => others _ (.inr rfl) v
        case turn =>
          apply turn _ (.inr rfl)
            ((state.workers recver).updateBatchSize stolenJob.helpeeBatchSizeNew) rfl
          rintro members asks helps (⟨works, none⟩ | ⟨-, finished, -⟩)
          · exact .inl ⟨works, none⟩
          · rw [unfinished] at finished
            cases finished
      · apply held_deliver member
        simp only [Message.stolen, List.flatMap_singleton, Worker.updateBatchSize, remaining]
        simp

/-- The answer to a worker's request arrives. -/
theorem Inv.awaiting (inv : Inv group state) {w : Fin n} (helps : 0 < state.helps w) :
    (state.workers w).wait = true ∧ (state.workers w).jobMeta.isFinished = true ∧
      state.asks w = 0 ∧ state.helps w = 1 := by
  rcases inv.turn w with ⟨-, -, none⟩ | ⟨wait, finished, ⟨-, none⟩ | ⟨none, one⟩⟩
  · omega
  · omega
  · exact ⟨wait, finished, none, one⟩

theorem Inv.confirmHelp (inv : Inv group state) {sender recver : Fin n} {stolenJob : StolenJob}
    (member : ⟨sender, recver, .confirmHelp stolenJob⟩ ∈ state.inFlight) :
    Harmless group stealThreshold state processed ⟨sender, recver, .confirmHelp stolenJob⟩ := by
  have sound : stolenJob.helperStartPtNew.toNat + stolenJob.helperBatchSizeNew.toNat < 2 ^ 32 :=
    inv.sound _ member
  obtain ⟨wait, finished, none, one⟩ := inv.awaiting (w := recver)
    (List.countP_pos_iff.mpr ⟨_, member, by simp [Message.helpFor]⟩)
  refine ⟨_, _, by simp only [Worker.handle, inv.reassgn, if_true]; rfl, ?_, ?_⟩
  · apply inv.deliver member
    case reassgn => exact inv.reassgn recver
    case inRange => exact ⟨le_rfl, Nat.le_add_right _ _, sound⟩
    case boxes => exact inv.boxes recver
    case sound => nofun
    case others =>
      intro v other
      simp [Message.asksFor, Message.helpFor, Ne.symm other]
    case turn =>
      intro asks helps asks_eq helps_eq
      simp only [Message.asksFor, Message.helpFor, List.countP_nil, decide_true, if_true,
        Bool.false_eq_true, if_false, Worker.setWait, Worker.updateBatchSize,
        Worker.updateStartPt] at asks_eq helps_eq
      exact .inl ⟨rfl, by omega, by omega⟩
  · apply held_deliver member
    rw [JobMeta.remaining_finished (inv.inRange recver) finished]
    simp [Message.stolen, Worker.setWait, Worker.updateBatchSize, Worker.updateStartPt,
      JobMeta.remaining, StolenJob.interval]

theorem countP_findTasks (w v : Fin n) (members : List (Fin n)) :
    (members.map fun member => (⟨w, member, .findTask⟩ : Message n)).countP (Message.asksFor v) =
        (if w = v then members.length else 0) ∧
      (members.map fun member => (⟨w, member, .findTask⟩ : Message n)).countP
        (Message.helpFor v) = 0 ∧
      (members.map fun member => (⟨w, member, .findTask⟩ : Message n)).flatMap Message.stolen =
        [] := by
  induction members with
  | nil => simp
  | cons member members ih =>
      obtain ⟨asks, helps, stolen⟩ := ih
      simp only [List.map_cons, List.countP_cons, List.flatMap_cons, asks, helps, stolen,
        Message.asksFor, Message.helpFor, Message.stolen, decide_eq_true_eq, List.length_cons]
      split <;> simp

theorem Inv.cancelHelp (inv : Inv group state) {sender recver : Fin n}
    (member : ⟨sender, recver, .cancelHelp⟩ ∈ state.inFlight) :
    Harmless group stealThreshold state processed ⟨sender, recver, .cancelHelp⟩ := by
  obtain ⟨wait, finished, none, one⟩ := inv.awaiting (w := recver)
    (List.countP_pos_iff.mpr ⟨_, member, by simp [Message.helpFor]⟩)
  refine ⟨_, _, rfl, ?_, ?_⟩
  · apply inv.deliver member
    case reassgn => exact inv.reassgn recver
    case inRange => exact inv.inRange recver
    case boxes => exact inv.boxes recver
    case sound =>
      intro msg there
      obtain ⟨_, -, rfl⟩ := List.mem_map.mp there
      trivial
    case others =>
      intro v other
      obtain ⟨asks, helps, -⟩ := countP_findTasks recver v (group recver)
      rw [asks, helps]
      simp [Message.asksFor, Message.helpFor, Ne.symm other]
    case turn =>
      intro asks helps asks_eq helps_eq
      obtain ⟨out_asks, out_helps, -⟩ := countP_findTasks recver recver (group recver)
      simp only [Message.asksFor, Message.helpFor, decide_true, if_true, Bool.false_eq_true,
        if_false, out_asks, out_helps] at asks_eq helps_eq
      have all : asks = (group recver).length := by omega
      exact .inr ⟨wait, finished, .inl ⟨all, by omega⟩⟩
  · apply held_deliver member
    obtain ⟨-, -, stolen⟩ := countP_findTasks recver recver (group recver)
    rw [stolen]
    rfl

theorem Inv.check (inv : Inv group state) {w : Fin n} (works : (state.workers w).wait = false)
    (unfinished : (state.workers w).jobMeta.isFinished = false) :
    ∃ worker out, (state.workers w).check w (group w) = (worker, out) ∧
      Inv group ⟨Function.update state.workers w worker, state.inFlight ++ out⟩ ∧
      held ⟨Function.update state.workers w worker, state.inFlight ++ out⟩
          (processed ++ [(state.workers w).jobMeta.currentPt.toNat]) = held state processed := by
  obtain ⟨inRange, remaining⟩ := JobMeta.advance (inv.inRange w) unfinished
  obtain ⟨no_asks, no_helps⟩ : state.asks w = 0 ∧ state.helps w = 0 := by
    rcases inv.turn w with ⟨-, none⟩ | ⟨wait, -⟩
    · exact none
    · rw [works] at wait
      cases wait
  have kept : ∀ out : List (Message n), out.flatMap Message.stolen = [] →
      ∀ worker : Worker n, worker.jobMeta =
        { (state.workers w).jobMeta with currentPt := (state.workers w).jobMeta.currentPt + 1 } →
      held ⟨Function.update state.workers w worker, state.inFlight ++ out⟩
          (processed ++ [(state.workers w).jobMeta.currentPt.toNat]) = held state processed := by
    intro out none worker moved
    apply held_update
    rw [List.flatMap_append, none, List.append_nil, moved, remaining, Multiset.coe_add,
      Multiset.coe_add (processed), List.append_assoc]
    rfl
  have stays : ∀ out : List (Message n), (∀ msg ∈ out, msg.Sound) →
      (∀ v, v ≠ w → out.countP (Message.asksFor v) = 0 ∧ out.countP (Message.helpFor v) = 0) →
      ∀ worker : Worker n, worker.doReassgn = true → worker.jobMeta.InRange →
      worker.jobMetas = (state.workers w).jobMetas →
      worker.Turn (group w).length (out.countP (Message.asksFor w))
        (out.countP (Message.helpFor w)) →
      Inv group ⟨Function.update state.workers w worker, state.inFlight ++ out⟩ := by
    intro out sound others worker reassgn inRange same turn
    unfold ReassgnState.asks at no_asks
    unfold ReassgnState.helps at no_helps
    constructor
    case reassgn =>
      exact (Function.forall_update_iff _ fun _ (worker : Worker n) =>
        worker.doReassgn = true).mpr ⟨reassgn, fun v _ => inv.reassgn v⟩
    case inRange =>
      exact (Function.forall_update_iff _ fun _ (worker : Worker n) =>
        worker.jobMeta.InRange).mpr ⟨inRange, fun v _ => inv.inRange v⟩
    case boxes =>
      exact (Function.forall_update_iff _ fun _ (worker : Worker n) =>
        ∀ status ∈ worker.jobMetas, status.toJobMeta.InRange).mpr
        ⟨same ▸ inv.boxes w, fun v _ => inv.boxes v⟩
    case sound =>
      intro msg there
      cases List.mem_append.mp there with
      | inl old => exact inv.sound msg old
      | inr new => exact sound msg new
    case turn =>
      apply (Function.forall_update_iff _ fun v (worker : Worker n) =>
        worker.Turn (group v).length
          ((state.inFlight ++ out).countP (Message.asksFor v) + worker.jobMetas.length)
          ((state.inFlight ++ out).countP (Message.helpFor v))).mpr
      constructor
      · rw [List.countP_append, List.countP_append, same, no_helps, Nat.zero_add, Nat.add_right_comm,
          no_asks, Nat.zero_add]
        exact turn
      · intro v other
        obtain ⟨none_asks, none_helps⟩ := others v other
        rw [List.countP_append, List.countP_append, none_asks, none_helps]
        exact inv.turn v
  obtain ⟨out_asks, out_helps, out_stolen⟩ := countP_findTasks w w (group w)
  cases finished : JobMeta.isFinished
      { (state.workers w).jobMeta with currentPt := (state.workers w).jobMeta.currentPt + 1 } with
  | true =>
      refine ⟨_, _, if_pos ⟨finished, inv.reassgn w⟩, ?_, ?_⟩
      · apply stays
        · intro msg there
          obtain ⟨_, -, rfl⟩ := List.mem_map.mp there
          trivial
        · intro v other
          obtain ⟨asks, helps, -⟩ := countP_findTasks w v (group w)
          exact ⟨asks.trans (if_neg (Ne.symm other)), helps⟩
        · exact inv.reassgn w
        · exact inRange
        · rfl
        · exact .inr ⟨rfl, finished, .inl ⟨out_asks.trans (if_pos rfl), out_helps⟩⟩
      · exact kept _ out_stolen _ rfl
  | false =>
      have goes_on : ¬ (JobMeta.isFinished { (state.workers w).jobMeta with
          currentPt := (state.workers w).jobMeta.currentPt + 1 } = true ∧
          (state.workers w).doReassgn = true) := by simp [finished]
      refine ⟨_, _, if_neg goes_on, ?_, ?_⟩
      · exact stays [] nofun (fun _ _ => ⟨rfl, rfl⟩) _ (inv.reassgn w) inRange rfl
          (.inl ⟨works, rfl, rfl⟩)
      · exact kept [] rfl _ rfl

/-! ## Runs -/

/-- The condition, for the steps of a run. -/
def Meets (state : ReassgnState n) : ReassgnInput n → Prop
  | .deliver ⟨_, recver, .sendHelp stolenJob⟩ =>
      StartUnchanged (state.workers recver).jobMeta stolenJob
  | _ => True

/-- The workers start with disjoint intervals, whose ends fit in 32 bits. -/
structure Assigned (jobs : Fin n → JobMeta) : Prop where
  begins : ∀ w, (jobs w).currentPt = (jobs w).startPt
  fits : ∀ w, (jobs w).startPt.toNat + (jobs w).batchSize.toNat < 2 ^ 32
  disjoint : ∀ v w, v ≠ w → (jobs v).remaining.Disjoint (jobs w).remaining

/-- The positions are those of the initial intervals, each once. -/
def ExactlyOnce (jobs : Fin n → JobMeta) (positions : Multiset Nat) : Prop :=
  positions.Nodup ∧ ∀ p, p ∈ positions ↔
    ∃ w, (jobs w).startPt.toNat ≤ p ∧ p < (jobs w).startPt.toNat + (jobs w).batchSize.toNat

theorem init_inv {jobs : Fin n → JobMeta} (assigned : Assigned jobs) :
    Inv group (init jobs) where
  reassgn _ := rfl
  inRange w := ⟨by simp [init, assigned.begins], by simp [init, assigned.begins], assigned.fits w⟩
  turn _ := .inl ⟨rfl, rfl, rfl⟩
  sound _ member := absurd member List.not_mem_nil
  boxes _ _ member := absurd member List.not_mem_nil

theorem init_held (jobs : Fin n → JobMeta) :
    held (init jobs) [] = ∑ w, ((jobs w).remaining : Multiset Nat) := by
  simp [held, init]

/-- The initial intervals hold each of their positions once. -/
theorem initial_once {jobs : Fin n → JobMeta} (assigned : Assigned jobs) :
    ExactlyOnce jobs (∑ w, ((jobs w).remaining : Multiset Nat)) := by
  constructor
  · apply Multiset.nodup_iff_count_le_one.mpr
    intro p
    rw [Multiset.count_sum']
    cases Classical.em (∃ w, p ∈ (jobs w).remaining) with
    | inl someone =>
        obtain ⟨w, here⟩ := someone
        rw [Finset.sum_eq_single w]
        · exact Multiset.nodup_iff_count_le_one.mp (Multiset.coe_nodup.mpr (List.nodup_range' 1)) p
        · intro v _ other
          exact Multiset.count_eq_zero.mpr fun there => assigned.disjoint v w other there here
        · exact fun absent => absurd (Finset.mem_univ w) absent
    | inr nobody =>
        rw [Finset.sum_eq_zero fun w _ => Multiset.count_eq_zero.mpr fun here => nobody ⟨w, here⟩]
        exact Nat.zero_le 1
  · intro p
    simp only [Multiset.mem_sum, Finset.mem_univ, true_and, Multiset.mem_coe, JobMeta.remaining,
      List.mem_range'_1, assigned.begins, Nat.add_sub_cancel_left]

theorem step_inv {state' : ReassgnState n} {out : List Nat} {input : ReassgnInput n}
    (inv : Inv group state) (enabled : state.Enabled processed input) (meets : state.Meets input)
    (stepped : state.step group stealThreshold input = .ok (state', out)) :
    Inv group state' ∧ held state' (processed ++ out) = held state processed := by
  cases input with
  | check w =>
      obtain ⟨works, unfinished⟩ := enabled
      obtain ⟨worker, msgs, checked, inv', kept⟩ := inv.check works unfinished
      simp only [step, checked] at stepped
      cases stepped
      exact ⟨inv', kept⟩
  | deliver msg =>
      obtain ⟨sender, recver, body⟩ := msg
      have harmless :
          Harmless group stealThreshold state processed ⟨sender, recver, body⟩ := by
        cases body with
        | findTask => exact inv.findTask enabled
        | sendStatus jobMeta => exact inv.sendStatus enabled
        | sendHelp stolenJob => exact inv.sendHelp enabled meets
        | confirmHelp stolenJob => exact inv.confirmHelp enabled
        | cancelHelp => exact inv.cancelHelp enabled
      obtain ⟨worker, msgs, handled, inv', kept⟩ := harmless
      simp only [step, handled] at stepped
      cases stepped
      rw [List.append_nil]
      exact ⟨inv', kept⟩

/-- Work is conserved as long as every request that is accepted was computed for the start of
    the helpee's interval. -/
theorem work_conserved {jobs : Fin n → JobMeta} (assigned : Assigned jobs)
    {inputs : List (ReassgnInput n)}
    (run : Machine.Runs (step group stealThreshold)
      (fun state processed input => state.Enabled processed input ∧ state.Meets input)
      (init jobs) inputs state processed) :
    ExactlyOnce jobs (held state processed) := by
  have kept : Inv group state ∧ held state processed = held (init jobs) [] := by
    refine run.invariant (P := fun _ state processed =>
      Inv group state ∧ held state processed = held (init jobs) []) ⟨init_inv assigned, rfl⟩ ?_
    intro _ state processed input state' out _ inv enabled stepped
    obtain ⟨inv', kept⟩ := step_inv inv.1 enabled.1 enabled.2 stepped
    exact ⟨inv', kept.trans inv.2⟩
  rw [kept.2, init_held]
  exact initial_once assigned

instance (jobMeta : JobMeta) (stolenJob : StolenJob) :
    Decidable (StartUnchanged jobMeta stolenJob) :=
  inferInstanceAs (Decidable (_ → _))

instance (state : ReassgnState n) (input : ReassgnInput n) : Decidable (state.Meets input) :=
  match input with
  | .check _ => .isTrue trivial
  | .deliver ⟨_, recver, body⟩ =>
      match body with
      | .sendHelp stolenJob => inferInstanceAs (Decidable (StartUnchanged (state.workers recver).jobMeta
          stolenJob))
      | .findTask | .sendStatus _ | .confirmHelp _ | .cancelHelp => .isTrue trivial

/-- Worker 0 has most of the work. -/
def threeJobs : Fin 3 → JobMeta := ![⟨0, 0, 4, 0⟩, ⟨0, 10, 1, 10⟩, ⟨0, 20, 1, 20⟩]

def threeMembers : Fin 3 → List (Fin 3) := ![[1, 2], [0, 2], [0, 1]]

theorem threeJobs_assigned : Assigned threeJobs where
  begins := by decide
  fits := by decide
  disjoint v w other := by
    have apart : ∀ v w, v ≠ w → ∀ p ∈ (threeJobs v).remaining, p ∉ (threeJobs w).remaining := by
      decide +kernel
    exact List.disjoint_left.mpr fun p here => apart v w other p here

/-- Workers 1 and 2 both ask worker 0 for `[2, 4)`. -/
def bothAsk : List (ReassgnInput 3) :=
  [.check 1, .check 2, .deliver ⟨1, 0, .findTask⟩, .deliver ⟨1, 2, .findTask⟩,
    .deliver ⟨2, 0, .findTask⟩, .deliver ⟨2, 1, .findTask⟩,
    .deliver ⟨0, 1, .sendStatus ⟨0, 0, 4, 0⟩⟩, .deliver ⟨2, 1, .sendStatus ⟨0, 20, 1, 21⟩⟩,
    .deliver ⟨0, 2, .sendStatus ⟨0, 0, 4, 0⟩⟩, .deliver ⟨1, 2, .sendStatus ⟨0, 10, 1, 11⟩⟩]

/-- Worker 1 gets it, and the request of worker 2 is rejected. -/
theorem work_conserved_threeWorkers : ∃ (state : ReassgnState 3) (processed : List Nat),
    (state.workers 1).jobMeta.remaining = [2, 3] ∧ ExactlyOnce threeJobs (held state processed) := by
  obtain ⟨state, processed, run, stolen⟩ := Machine.runs_of_exec (step threeMembers 0)
    (fun state processed input => state.Enabled processed input ∧ state.Meets input)
    (init threeJobs)
    (bothAsk ++ [.deliver ⟨1, 0, .sendHelp ⟨2, 2, 2⟩⟩, .deliver ⟨2, 0, .sendHelp ⟨2, 2, 2⟩⟩,
      .deliver ⟨0, 1, .confirmHelp ⟨2, 2, 2⟩⟩])
    (fun state _ => (state.workers 1).jobMeta.remaining = [2, 3]) (by decide +kernel)
  exact ⟨state, processed, stolen, work_conserved threeJobs_assigned run⟩

/-- The request of worker 2 arrives after worker 0 has taken `[3, 4)` back from worker 1: worker 0
    accepts it for an interval that starts elsewhere. -/
theorem work_conserved_fails : ∃ (inputs : List (ReassgnInput 3)) (state : ReassgnState 3)
    (processed : List Nat),
    Machine.Runs (step threeMembers 0) Enabled (init threeJobs) inputs state processed ∧
      Assigned threeJobs ∧ ¬ ExactlyOnce threeJobs (held state processed) := by
  obtain ⟨state, processed, run, twice⟩ := Machine.runs_of_exec (step threeMembers 0) Enabled
    (init threeJobs)
    (bothAsk ++ [.deliver ⟨1, 0, .sendHelp ⟨2, 2, 2⟩⟩, .deliver ⟨0, 1, .confirmHelp ⟨2, 2, 2⟩⟩,
      .check 0, .check 0, .deliver ⟨0, 1, .findTask⟩, .deliver ⟨0, 2, .findTask⟩,
      .deliver ⟨1, 0, .sendStatus ⟨0, 2, 2, 2⟩⟩, .deliver ⟨2, 0, .sendStatus ⟨0, 20, 1, 21⟩⟩,
      .deliver ⟨0, 1, .sendHelp ⟨1, 3, 1⟩⟩, .deliver ⟨1, 0, .confirmHelp ⟨1, 3, 1⟩⟩,
      .deliver ⟨2, 0, .sendHelp ⟨2, 2, 2⟩⟩])
    (fun state processed => (held state processed).count 2 = 2) (by decide +kernel)
  refine ⟨_, state, processed, run, threeJobs_assigned, fun exact_once => ?_⟩
  have once := Multiset.nodup_iff_count_le_one.mp exact_once.1 2
  omega

end ReassgnState

end FlexPS.Rapid
