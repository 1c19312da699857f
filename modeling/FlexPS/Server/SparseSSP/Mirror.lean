import FlexPS.Server.SparseSSP.Runs

/-! # A recorder and its slots in lockstep

A recorder over a representation of the slots and the recorder over the slots
themselves do the same, as long as every slot they touch is one the
representation is faithful at. They part where the representation cannot index a key: there
the one stops, and what the other goes on to do shows the key, as one that `HasConflict`
reports or as one of the record it removes.
-/

namespace FlexPS

open SparseSSPRecorder

variable {Val Main : Type}

/-- The same recorder over another main recorder. -/
def SparseSSPRecorder.withMain {Main' : Type} (recorder : SparseSSPRecorder Val Main')
    (main : Main) : SparseSSPRecorder Val Main :=
  { recorder with mainRecorder := main }

/-- Two recorders that differ only in how they represent the slots. -/
def Mirrors (R : Main → Slots Val → Prop) (mirrored : SparseSSPRecorder Val Main)
    (recorder : SparseSSPRecorder Val (Slots Val)) : Prop :=
  ∃ main, R main recorder.mainRecorder ∧ mirrored = recorder.withMain main

/-- Two calls of `HasConflict` that see the same counts where they look. -/
structure SameScan (keys : Key → Prop) (scan scan' : Scan) : Prop where
  keys_eq : scan.keys = scan'.keys
  begin_eq : scan.beginVersion = scan'.beginVersion
  end_eq : scan.endVersion = scan'.endVersion
  count_eq : ∀ version : Nat, scan.beginVersion ≤ version → (version : Int) ≤ scan.endVersion →
    ∀ key, keys key → scan.count version key = scan'.count version key

structure SameOut (keys : Key → Prop) (out out' : NonConflict Val) : Prop where
  msgs : out.msgs = out'.msgs
  scans : List.Forall₂ (SameScan keys) out.scans out'.scans

/-- Every slot a conflict test of `msg` reads is one the representation is faithful at. -/
structure Scannable (versions : Nat → Prop) (keys : Key → Prop) (staleness minClock : Nat)
    (msg : Message Val) : Prop where
  keys : ∀ key ∈ msg.keys, keys key
  versions : ∀ version, minClock ≤ version → version + staleness < msg.version → versions version

namespace Limits

/-- No call of `HasConflict` reports a key past the limits. -/
def FitScans (limits : Limits) (scans : List Scan) : Prop :=
  ∀ scan ∈ scans, ∀ key version, scan.conflict = some (key, version) → limits.Holds key

/-- Up to the first index past the limits both do the same. -/
abbrev UpTo (limits : Limits) (keys : Key → Prop) {α β : Type} (Fits : β → Prop)
    (R : α → β → Prop) : Except Fault α → Except Fault β → Prop :=
  Except.UpTo .outOfRange (limits.Exceeded keys) Fits R

theorem fitScans_append {limits : Limits} {scans more : List Scan} :
    limits.FitScans (scans ++ more) ↔ limits.FitScans scans ∧ limits.FitScans more :=
  List.forall_mem_append

theorem fitScans_nil (limits : Limits) : limits.FitScans [] :=
  fun _ member => absurd member List.not_mem_nil

end Limits

/-- The recorder functions add to the calls of `HasConflict`. -/
theorem takeOwnGet_scans {recorder recorder' : SparseSSPRecorder Val (Slots Val)}
    {out out' : NonConflict Val} {progress minClock : Nat} {w : Tid}
    (taken : recorder.takeOwnGet out progress w minClock = .ok (recorder', out')) :
    ∃ more, out'.scans = out.scans ++ more := by
  simp only [takeOwnGet] at taken
  split at taken
  · next version msg rest _ =>
      split at taken
      · obtain ⟨⟨placed, out₁⟩, place, taken⟩ := Except.bind_eq_ok.mp taken
        cases taken
        obtain ⟨_, -, place⟩ := Except.bind_eq_ok.mp place
        split at place
        · cases place
          exact ⟨[], (List.append_nil _).symm⟩
        split at place
        · obtain ⟨kept, released, scans, eq, -⟩ := forwardOrRelease_spec minClock recorder out msg
          cases place.symm.trans eq
          exact ⟨scans, rfl⟩
        split at place
        · cases place
          exact ⟨[], (List.append_nil _).symm⟩
        · cases place
      · cases taken
        exact ⟨[], (List.append_nil _).symm⟩
  · cases taken
    exact ⟨[], (List.append_nil _).symm⟩

section Sorting

variable [MainRecorder Val Main] {limits : Limits} {versions : Nat → Prop} {keys : Key → Prop}
  {R : Main → Slots Val → Prop} {minClock : Nat}

/-- The states of a sorting loop on both sides. -/
def SameSorting (keys : Key → Prop) (R : Main → Slots Val → Prop)
    (x : SparseSSPRecorder Val Main × NonConflict Val)
    (y : SparseSSPRecorder Val (Slots Val) × NonConflict Val) : Prop :=
  Mirrors R x.1 y.1 ∧ SameOut keys x.2 y.2

theorem findSome?_congr {α β : Type} {f g : α → Option β} {as : List α}
    (same : ∀ a ∈ as, f a = g a) : as.findSome? f = as.findSome? g := by
  induction as with
  | nil => rfl
  | cons a as ih =>
      rw [List.findSome?_cons, List.findSome?_cons, same a List.mem_cons_self,
        ih (fun b member => same b (List.mem_cons_of_mem a member))]

variable (faithful : Represents limits versions keys R)

include faithful

theorem hasConflict_mirrors {main : Main} {slots : Slots Val} (represents : R main slots)
    {msgKeys : List Key} {first : Nat} {last : Int} (keysOk : ∀ key ∈ msgKeys, keys key)
    (versionsOk : ∀ version, first ≤ version → (version : Int) ≤ last → versions version) :
    hasConflict main msgKeys first last = hasConflict slots msgKeys first last := by
  apply findSome?_congr
  intro version inRange
  obtain ⟨above, below⟩ := mem_checkVersions.mp inRange
  congr 1
  apply List.find?_congr
  intro key member
  exact faithful.hasKey represents (versionsOk version above below) (keysOk key member)

theorem forwardOrRelease_mirrors {x : SparseSSPRecorder Val Main × NonConflict Val}
    {y : SparseSSPRecorder Val (Slots Val) × NonConflict Val} (same : SameSorting keys R x y)
    (fits : limits.FitScans y.2.scans) {msg : Message Val}
    (scannable : Scannable versions keys y.1.staleness minClock msg) :
    limits.UpTo keys (fun z => limits.FitScans z.2.scans) (SameSorting keys R)
      (forwardOrRelease minClock x msg) (forwardOrRelease minClock y msg) := by
  obtain ⟨mirrored, out⟩ := x
  obtain ⟨recorder, out'⟩ := y
  obtain ⟨⟨main, represents, rfl⟩, msgs, scans⟩ := same
  have inWindow : ∀ version, minClock ≤ version →
      (version : Int) ≤ msg.version - recorder.staleness - 1 → versions version :=
    fun version above below => scannable.versions version above (by simp only; omega)
  have conflict := hasConflict_mirrors faithful represents scannable.keys inWindow
  have scanned : SameScan keys
      ⟨msg.keys, minClock, msg.version - recorder.staleness - 1, MainRecorder.count main⟩
      ⟨msg.keys, minClock, msg.version - recorder.staleness - 1, recorder.mainRecorder.counts⟩ :=
    ⟨rfl, rfl, rfl, fun version above below _ owned =>
      faithful.count represents (inWindow version above below) owned⟩
  have scans' := List.rel_append scans (.cons scanned .nil)
  have reported : Scan.conflict ⟨msg.keys, minClock, msg.version - recorder.staleness - 1,
      recorder.mainRecorder.counts⟩ = hasConflict recorder.mainRecorder msg.keys minClock
        (msg.version - recorder.staleness - 1) := rfl
  simp only [forwardOrRelease, withMain, conflict]
  cases found : hasConflict recorder.mainRecorder msg.keys minClock
      (msg.version - recorder.staleness - 1) with
  | none =>
      refine .ok (Limits.fitScans_append.mpr ⟨fits, ?_⟩)
        ⟨⟨main, represents, rfl⟩, congrArg (· ++ [msg]) msgs, scans'⟩
      intro scan member key version some_conflict
      obtain rfl := List.mem_singleton.mp member
      cases some_conflict.symm.trans (reported.trans found)
  | some slot =>
      obtain ⟨key, version⟩ := slot
      obtain ⟨member, above, below, counted⟩ := hasConflict_eq_some found
      obtain ⟨within, past⟩ := faithful.hold represents (inWindow version above below)
        (scannable.keys key member) (of_decide_eq_true counted) msg
      by_cases holds : limits.Holds key
      · obtain ⟨main', held, represents'⟩ := within holds
        simp only [held, Except.ok_bind]
        refine .ok (Limits.fitScans_append.mpr ⟨fits, ?_⟩) ⟨⟨main', represents', rfl⟩, msgs, scans'⟩
        intro scan member key' version' conflict'
        obtain rfl := List.mem_singleton.mp member
        cases conflict'.symm.trans (reported.trans found)
        exact holds
      · simp only [past holds, Except.error_bind]
        refine .stopped ⟨key, scannable.keys key member, fun both => holds both.1⟩ ?_
        intro z returned fits'
        cases returned
        exact holds ((Limits.fitScans_append.mp fits').2 _ (List.mem_singleton_self _) key version
          (reported.trans found))

theorem foldlM_forwardOrRelease_mirrors {x : SparseSSPRecorder Val Main × NonConflict Val}
    {y : SparseSSPRecorder Val (Slots Val) × NonConflict Val} (same : SameSorting keys R x y)
    (fits : limits.FitScans y.2.scans) {msgs : List (Message Val)}
    (scannable : ∀ msg ∈ msgs, Scannable versions keys y.1.staleness minClock msg) :
    limits.UpTo keys (fun z => limits.FitScans z.2.scans) (SameSorting keys R)
      (msgs.foldlM (forwardOrRelease minClock) x) (msgs.foldlM (forwardOrRelease minClock) y) := by
  induction msgs generalizing x y with
  | nil => exact .ok fits same
  | cons msg rest ih =>
      rw [List.foldlM_cons, List.foldlM_cons]
      refine (forwardOrRelease_mirrors faithful same fits
        (scannable msg List.mem_cons_self)).bind ?_ ?_
      · intro x' y' forwarded fits' same'
        obtain ⟨kept, released, scans, eq, -⟩ := forwardOrRelease_spec minClock y.1 y.2 msg
        cases forwarded.symm.trans eq
        exact ih same' fits' fun later member => scannable later (List.mem_cons_of_mem _ member)
      · intro y' z sorted fits'
        obtain ⟨kept, released, scans, eq, -⟩ := foldlM_forwardOrRelease minClock rest y'.1 y'.2
        cases sorted.symm.trans eq
        exact (Limits.fitScans_append.mp fits').1

theorem removeKeys_mirrors (dcheckIsOn : Bool) {version : Nat} (inside : versions version)
    {msgKeys : List Key} (owned : ∀ key ∈ msgKeys, keys key) {main : Main} {slots : Slots Val}
    (represents : R main slots) (enough : ∀ key, msgKeys.count key ≤ slots.counts version key) :
    limits.UpTo keys (fun _ => ∀ key ∈ msgKeys, limits.Removes key)
      (fun x y => R x.1 y.1 ∧ x.2 = y.2) (removeKeys dcheckIsOn version main msgKeys)
      (removeKeys dcheckIsOn version slots msgKeys) := by
  suffices general : ∀ handled : List (Message Val),
      limits.UpTo keys (fun _ => ∀ key ∈ msgKeys, limits.Removes key) (fun x y => R x.1 y.1 ∧ x.2 = y.2)
      (msgKeys.foldlM (fun (state : Main × List (Message Val)) key => do
        let removed ← MainRecorder.decrement dcheckIsOn state.1 version key
        return (removed.1, state.2 ++ removed.2)) (main, handled) : Except Fault _)
      (msgKeys.foldlM (fun (state : Slots Val × List (Message Val)) key => do
        let removed ← MainRecorder.decrement dcheckIsOn state.1 version key
        return (removed.1, state.2 ++ removed.2)) (slots, handled)) from general []
  induction msgKeys generalizing main slots with
  | nil => exact fun handled => .ok (fun _ member => absurd member List.not_mem_nil) ⟨represents, rfl⟩
  | cons key rest ih =>
      intro handled
      obtain ⟨counted, -, enoughRest⟩ := enough_decrement enough
      obtain ⟨within, past⟩ :=
        faithful.decrement represents inside (owned key List.mem_cons_self) counted dcheckIsOn
      rw [List.foldlM_cons, List.foldlM_cons]
      by_cases removes : limits.Removes key
      · obtain ⟨main', decremented, represents'⟩ := within removes
        have next := ih (fun k member => owned k (List.mem_cons_of_mem _ member)) represents' enoughRest
          (handled ++ (slots.decrement version key).2)
        rw [decremented]
        exact next.mono (fun _ _ _ fits same => ⟨List.forall_mem_cons.mpr ⟨removes, fits⟩, same⟩)
          fun _ _ fits => (List.forall_mem_cons.mp fits).2
      · rw [past removes]
        exact .stopped ⟨key, owned key List.mem_cons_self, fun both => removes both.2⟩
          fun _ _ fits => removes (fits key List.mem_cons_self)

end Sorting

/-! ## What holds for every speculation

With speculation zero a queued request can be left behind, so less is known than
in the picture of the ledger: the counts and the record queues, and that every
stored request is one that was received.
-/

section Stored

variable (W : Workload Val) (staleness : Nat) (threads : List Tid)

/-- `msg` is a `Get` this server received. -/
structure Received (gets : Tid → Nat) (msg : Message Val) : Prop where
  genuine : msg = W.getMsg msg.sender msg.version
  registered : msg.sender ∈ threads
  received : msg.version < gets msg.sender

structure Stored (prog gets : Tid → Nat) (recorder : SparseSSPRecorder Val (Slots Val)) : Prop where
  staleness_eq : recorder.staleness = staleness
  speculation_eq : recorder.speculation = W.speculation
  counts : recorder.mainRecorder.counts = recordedCount W threads prog gets
  futureKeys : ∀ w ∈ threads,
    recorder.futureKeys w = W.recorded w (W.keys w) (prog w) (gets w)
  held : ∀ h ∈ recorder.mainRecorder.held, Received W threads gets h.2
  futureMsgs : ∀ w, ∀ entry ∈ recorder.futureMsgs w, Received W threads gets entry.2
  tooFast : ∀ msg ∈ recorder.tooFastBuffer, Received W threads gets msg

variable {W staleness threads} {prog gets : Tid → Nat}
  {recorder : SparseSSPRecorder Val (Slots Val)} {w : Tid} {minClock : Nat}

theorem Received.receive {msg : Message Val} (received : Received W threads gets msg) (w : Tid) :
    Received W threads (Function.update gets w (gets w + 1)) msg where
  genuine := received.genuine
  registered := received.registered
  received := Nat.lt_of_lt_of_le received.received (le_update_succ gets w _)

theorem Stored.foldlM_forwardOrRelease (stored : Stored W staleness threads prog gets recorder)
    {msgs : List (Message Val)} (received : ∀ msg ∈ msgs, Received W threads gets msg)
    {out : NonConflict Val} {result : SparseSSPRecorder Val (Slots Val) × NonConflict Val}
    (folded : msgs.foldlM (forwardOrRelease minClock) (recorder, out) = .ok result) :
    Stored W staleness threads prog gets result.1 := by
  obtain ⟨kept, released, scans, eq, sorted⟩ :=
    SparseSSPRecorder.foldlM_forwardOrRelease minClock msgs recorder out
  cases folded.symm.trans eq
  refine { stored with held := ?_ }
  intro h member
  rcases List.mem_append.mp member with old | new
  · exact stored.held h old
  · exact received _ (sorted.kept h new).1

/-- Passing over an absent `Get` changes nothing. -/
theorem Stored.absent (stored : Stored W staleness threads prog gets recorder)
    (registered : w ∈ threads) (behind : prog w ≤ gets w) (absent : W.keys w (gets w) = []) :
    Stored W staleness threads prog (Function.update gets w (gets w + 1)) recorder where
  staleness_eq := stored.staleness_eq
  speculation_eq := stored.speculation_eq
  counts := by
    funext version key
    rw [recordedCount_receive registered behind, ← stored.counts]
    by_cases level : version = gets w
    · simp [level, absent]
    · simp [level]
  futureKeys := by
    intro v member
    by_cases same : v = w
    · subst same
      rw [Function.update_self, Workload.recorded_snoc behind, stored.futureKeys v member]
      simp [absent]
    · rw [Function.update_of_ne same]
      exact stored.futureKeys v member
  held := fun h member => (stored.held h member).receive w
  futureMsgs := fun v entry member => (stored.futureMsgs v entry member).receive w
  tooFast := fun msg member => (stored.tooFast msg member).receive w

end Stored

section Recorder

variable [MainRecorder Val Main] {limits : Limits} {versions : Nat → Prop} {keys : Key → Prop}
  {R : Main → Slots Val → Prop} {W : Workload Val} {staleness : Nat} {threads : List Tid}
  {prog gets : Tid → Nat} {recorder : SparseSSPRecorder Val (Slots Val)} {main : Main} {w : Tid}
  {minClock : Nat}

variable (faithful : Represents limits versions keys R)
  (owned : ∀ w version, ∀ key ∈ W.keys w version, keys key)

include faithful owned

theorem removeRecordAndGetNonConflictMsgs_mirrors (represents : R main recorder.mainRecorder)
    (stored : Stored W staleness threads prog gets recorder) (registered : w ∈ threads)
    (own : prog w < gets w) (inside : versions (prog w))
    (scannable : ∀ msg, Received W threads gets msg → Scannable versions keys staleness minClock msg) :
    limits.UpTo keys
      (fun z => (∀ key ∈ W.keys w (prog w), limits.Removes key) ∧ limits.FitScans z.2.scans)
      (fun x y => SameSorting keys R x y ∧
        ∃ slots : Slots Val, y.1 = { recorder with mainRecorder := slots } ∧
          slots.counts = recordedCount W threads (Function.update prog w (prog w + 1)) gets ∧
          ∀ h ∈ slots.held, Received W threads gets h.2)
      ((recorder.withMain main).removeRecordAndGetNonConflictMsgs (prog w) minClock
        (W.keys w (prog w)))
      (recorder.removeRecordAndGetNonConflictMsgs (prog w) minClock (W.keys w (prog w))) := by
  have enough : ∀ key, (W.keys w (prog w)).count key ≤
      recorder.mainRecorder.counts (prog w) key := by
    intro key
    rw [stored.counts]
    exact le_recordedCount registered (Nat.le_refl _) own
  obtain ⟨slots, handled, removed, -, counts, held, handled_held, -⟩ :=
    removeKeys_spec recorder.dcheckIsOn (prog w) (W.keys w (prog w))
      (faithful.live represents) enough
  have received : ∀ msg ∈ handled, Received W threads gets msg := by
    intro msg member
    obtain ⟨h, inHeld, rfl⟩ := handled_held msg member
    exact stored.held h inHeld
  refine (removeKeys_mirrors faithful recorder.dcheckIsOn inside (owned w (prog w))
    represents enough).bind ?_ fun _ _ _ fits => fits.1
  intro ⟨main', taken⟩ ⟨slots', handled'⟩ removed' removes ⟨represents', same⟩
  cases removed'.symm.trans removed
  obtain rfl : taken = handled := same
  have start : SameSorting keys R (recorder.withMain main', {})
      ({ recorder with mainRecorder := slots }, {}) := ⟨⟨main', represents', rfl⟩, rfl, .nil⟩
  refine (foldlM_forwardOrRelease_mirrors faithful start limits.fitScans_nil
    (fun msg member => stored.staleness_eq ▸ scannable msg (received msg member))).mono ?_
    fun _ _ fits => fits.2
  intro x y folded fits sorted
  obtain ⟨kept, released, scans, sortedEq, facts⟩ :=
    SparseSSPRecorder.foldlM_forwardOrRelease minClock taken
      { recorder with mainRecorder := slots } {}
  cases folded.symm.trans sortedEq
  refine ⟨⟨removes, fits⟩, sorted, _, rfl, recordedCount_removed registered own stored.counts counts, ?_⟩
  intro h member
  rcases List.mem_append.mp member with old | new
  · exact stored.held h (held h old)
  · exact received _ (facts.kept h new).1

theorem removeOwnRecord_mirrors (represents : R main recorder.mainRecorder)
    (stored : Stored W staleness threads prog gets recorder) (registered : w ∈ threads)
    (inside : prog w < gets w → versions (prog w))
    (scannable : ∀ msg, Received W threads gets msg → Scannable versions keys staleness minClock msg) :
    limits.UpTo keys (fun z => (prog w < gets w → ∀ key ∈ W.keys w (prog w), limits.Removes key) ∧
        limits.FitScans z.2.scans)
      (fun x y => SameSorting keys R x y ∧
        Stored W staleness threads (Function.update prog w (prog w + 1)) gets y.1)
      ((recorder.withMain main).removeOwnRecord (prog w + 1) w minClock)
      (recorder.removeOwnRecord (prog w + 1) w minClock) := by
  by_cases own : prog w < gets w ∧ W.keys w (prog w) ≠ []
  · have front := stored.futureKeys w registered
    rw [Workload.recorded_cons own.1 own.2] at front
    have front' : (recorder.withMain main).futureKeys w = _ := front
    simp only [removeOwnRecord, front, front', if_true]
    refine (removeRecordAndGetNonConflictMsgs_mirrors faithful owned represents stored registered
      own.1 (inside own.1) scannable).bind ?_ ?_
    · intro x y _ fits same
      obtain ⟨⟨⟨main', represents', mirrors⟩, sameOut⟩, slots, eq, counts, held⟩ := same
      rw [mirrors, eq]
      rw [eq] at represents'
      refine .ok ⟨fun _ => fits.1, fits.2⟩ ⟨⟨⟨main', represents', rfl⟩, sameOut⟩, ?_⟩
      refine { stored with counts := counts, held := held, futureKeys := ?_ }
      intro v member
      by_cases same : v = w
      · subst same
        simp only [Function.update_self]
      · simp only [Function.update_of_ne same]
        exact stored.futureKeys v member
    · intro y z returned fits
      cases returned
      exact ⟨fits.1 own.1, fits.2⟩
  · have queue := stored.futureKeys w registered
    rw [Workload.recorded_skip own] at queue
    have queue' : (recorder.withMain main).futureKeys w = _ := queue
    rw [removeOwnRecord_later queue, removeOwnRecord_later queue']
    refine .ok ⟨fun received key member => ?_, limits.fitScans_nil⟩
      ⟨⟨⟨main, represents, rfl⟩, rfl, .nil⟩, { stored with
        counts := stored.counts.trans (recordedCount_skip registered own), futureKeys := ?_ }⟩
    · exact absurd ⟨received, List.ne_nil_of_mem member⟩ own
    · intro v member
      by_cases same : v = w
      · rw [same, queue, Function.update_self]
      · rw [Function.update_of_ne same]
        exact stored.futureKeys v member

omit owned in
theorem placeOwnGet_mirrors {x : SparseSSPRecorder Val Main} (mirrors : Mirrors R x recorder)
    {out out' : NonConflict Val} (same : SameOut keys out out') (fits : limits.FitScans out'.scans)
    (stored : Stored W staleness threads prog gets recorder) {msg : Message Val}
    (received : Received W threads gets msg)
    (scannable : Scannable versions keys staleness minClock msg) :
    limits.UpTo keys (fun z => limits.FitScans z.2.scans)
      (fun x y => SameSorting keys R x y ∧ Stored W staleness threads prog gets y.1)
      (x.placeOwnGet out minClock msg) (recorder.placeOwnGet out' minClock msg) := by
  have start : SameSorting keys R (x, out) (recorder, out') := ⟨mirrors, same⟩
  have sorted := forwardOrRelease_mirrors faithful start fits (stored.staleness_eq.symm ▸ scannable)
  obtain ⟨main, represents, rfl⟩ := mirrors
  simp only [placeOwnGet, withMain]
  refine .bind_same ?_
  intro _ _
  refine .ite ?_ ?_
  · intro _
    exact .ok fits ⟨⟨⟨main, represents, rfl⟩, congrArg (· ++ [msg]) same.msgs, same.scans⟩, stored⟩
  intro _
  refine .ite ?_ ?_
  · intro _
    have onlyOwn : ∀ m ∈ [msg], Received W threads gets m := by simpa using received
    refine sorted.mono (fun x y forwarded fits sorted => ⟨fits, sorted, ?_⟩) fun _ _ fits => fits
    exact stored.foldlM_forwardOrRelease onlyOwn
      (by rw [List.foldlM_cons, forwarded, Except.ok_bind]; rfl)
  intro _
  refine .ite ?_ ?_
  · intro _
    refine .ok fits ⟨⟨⟨main, represents, rfl⟩, same⟩, { stored with tooFast := ?_ }⟩
    intro other member
    rcases List.mem_append.mp member with old | new
    · exact stored.tooFast other old
    · rw [List.mem_singleton.mp new]
      exact received
  · intro _
    exact .error _

omit owned in
theorem takeOwnGet_mirrors {x : SparseSSPRecorder Val Main} (mirrors : Mirrors R x recorder)
    {out out' : NonConflict Val} (same : SameOut keys out out') (fits : limits.FitScans out'.scans)
    (stored : Stored W staleness threads prog gets recorder) (progress : Nat)
    (scannable : ∀ msg, Received W threads gets msg → Scannable versions keys staleness minClock msg) :
    limits.UpTo keys (fun z => limits.FitScans z.2.scans)
      (fun x y => SameSorting keys R x y ∧ Stored W staleness threads prog gets y.1)
      (x.takeOwnGet out progress w minClock) (recorder.takeOwnGet out' progress w minClock) := by
  obtain ⟨main, represents, rfl⟩ := mirrors
  have queue : (recorder.withMain main).futureMsgs w = recorder.futureMsgs w := rfl
  simp only [takeOwnGet, queue]
  split
  · next version msg rest front =>
      split
      · have received : Received W threads gets msg :=
          stored.futureMsgs w (version, msg) (front ▸ List.mem_cons_self)
        refine (placeOwnGet_mirrors faithful ⟨main, represents, rfl⟩ same fits stored received
          (scannable msg received)).bind ?_ fun _ _ returned fits => by cases returned; exact fits
        intro x y _ fits' placed
        obtain ⟨⟨⟨main', represents', mirrors⟩, sameOut⟩, stored'⟩ := placed
        rw [mirrors]
        refine .ok fits' ⟨⟨⟨main', represents', rfl⟩, sameOut⟩, { stored' with futureMsgs := ?_ }⟩
        intro v entry member
        by_cases same : v = w
        · subst same
          simp only [Function.update_self] at member
          exact stored.futureMsgs v entry (front ▸ List.mem_cons_of_mem _ member)
        · simp only [Function.update_of_ne same] at member
          exact stored'.futureMsgs v entry member
      · exact .ok fits ⟨⟨⟨main, represents, rfl⟩, same⟩, stored⟩
  · exact .ok fits ⟨⟨⟨main, represents, rfl⟩, same⟩, stored⟩

theorem getNonConflictMsgs_mirrors (represents : R main recorder.mainRecorder)
    (stored : Stored W staleness threads prog gets recorder) (registered : w ∈ threads)
    (inside : prog w < gets w → versions (prog w))
    (scannable : ∀ msg, Received W threads gets msg → Scannable versions keys staleness minClock msg) :
    limits.UpTo keys (fun z => (prog w < gets w → ∀ key ∈ W.keys w (prog w), limits.Removes key) ∧
        limits.FitScans z.2.scans)
      (fun x y => SameSorting keys R x y ∧
        Stored W staleness threads (Function.update prog w (prog w + 1)) gets y.1)
      ((recorder.withMain main).getNonConflictMsgs (prog w + 1) w minClock)
      (recorder.getNonConflictMsgs (prog w + 1) w minClock) := by
  refine (removeOwnRecord_mirrors faithful owned represents stored registered inside scannable).bind ?_ ?_
  · intro x y _ fits removed
    obtain ⟨⟨mirrors, sameOut⟩, stored'⟩ := removed
    exact (takeOwnGet_mirrors faithful mirrors sameOut fits.2 stored' (prog w + 1) scannable).mono
      (fun _ _ _ fits' same => ⟨⟨fits.1, fits'⟩, same⟩) fun _ _ fits' => fits'.2
  · intro y z taken fits
    obtain ⟨more, eq⟩ := takeOwnGet_scans taken
    exact ⟨fits.1, (Limits.fitScans_append.mp (eq ▸ fits.2)).1⟩

omit owned in
theorem handleTooFastBuffer_mirrors (represents : R main recorder.mainRecorder)
    (stored : Stored W staleness threads prog gets recorder)
    (scannable : ∀ msg, Received W threads gets msg → Scannable versions keys staleness minClock msg) :
    limits.UpTo keys (fun z => limits.FitScans z.2.scans)
      (fun x y => SameSorting keys R x y ∧ Stored W staleness threads prog gets y.1)
      ((recorder.withMain main).handleTooFastBuffer minClock) (recorder.handleTooFastBuffer minClock) := by
  have start : SameSorting keys R (recorder.withMain main, {}) (recorder, {}) :=
    ⟨⟨main, represents, rfl⟩, rfl, .nil⟩
  refine (foldlM_forwardOrRelease_mirrors faithful start limits.fitScans_nil
    (fun msg member => stored.staleness_eq ▸ scannable msg (stored.tooFast msg member))).bind ?_
    fun _ _ returned fits => by cases returned; exact fits
  intro ⟨_, out⟩ ⟨recorder', out'⟩ folded fits ⟨⟨main', represents', mirrors⟩, sameOut⟩
  obtain rfl := mirrors
  exact .ok fits ⟨⟨⟨main', represents', rfl⟩, sameOut⟩,
    { stored.foldlM_forwardOrRelease stored.tooFast folded with
      tooFast := fun msg member => absurd member List.not_mem_nil }⟩

omit owned in
/-- Removing an empty level changes neither side. -/
theorem removeRecord_mirrors (represents : R main recorder.mainRecorder) {version : Nat}
    (empty : ∀ key, recorder.mainRecorder.counts version key = 0) :
    Mirrors R ((recorder.withMain main).removeRecord version) recorder ∧
      recorder.removeRecord version = recorder := by
  refine ⟨⟨_, faithful.removeRecord represents empty, rfl⟩, ?_⟩
  simp only [removeRecord, MainRecorder.removeRecord,
    Slots.removeRecord_eq (faithful.live represents) empty]

omit owned in
theorem foldlM_increment_mirrors {slots : Slots Val} (represents : R main slots) {version : Nat}
    (inside : versions version) {msgKeys : List Key} (owned : ∀ key ∈ msgKeys, keys key) :
    ∃ main', msgKeys.foldlM (fun main key => MainRecorder.increment main version key) main =
        (.ok main' : Except Fault Main) ∧ R main' (slots.addKeys version msgKeys) := by
  have added := foldlM_increment slots version msgKeys
  generalize slots.addKeys version msgKeys = slots' at added ⊢
  induction msgKeys generalizing main slots with
  | nil =>
      cases added
      exact ⟨main, rfl, represents⟩
  | cons key rest ih =>
      obtain ⟨main', increment, represents'⟩ :=
        faithful.increment represents inside (owned key List.mem_cons_self)
      rw [List.foldlM_cons] at added ⊢
      rw [increment]
      exact ih represents' (fun k member => owned k (List.mem_cons_of_mem _ member)) added

theorem addRecord_mirrors (represents : R main recorder.mainRecorder)
    (stored : Stored W staleness threads prog gets recorder) (registered : w ∈ threads)
    (behind : prog w ≤ gets w) (inside : versions (gets w)) (sent : W.keys w (gets w) ≠ []) :
    Except.Sim (fun x y => Mirrors R x y ∧
        Stored W staleness threads prog (Function.update gets w (gets w + 1)) y)
      ((recorder.withMain main).addRecord (W.getMsg w (gets w)))
      (recorder.addRecord (W.getMsg w (gets w))) := by
  obtain ⟨main', increments, represents'⟩ :=
    foldlM_increment_mirrors faithful represents inside (owned w (gets w))
  have received : Received W threads (Function.update gets w (gets w + 1)) (W.getMsg w (gets w)) :=
    ⟨rfl, registered, by rw [Workload.sender_getMsg, Function.update_self]; exact Nat.lt_succ_self _⟩
  have stored' : Stored W staleness threads prog (Function.update gets w (gets w + 1))
      { recorder with
        mainRecorder := recorder.mainRecorder.addKeys (gets w) (W.keys w (gets w))
        futureKeys := Function.update recorder.futureKeys w
          (recorder.futureKeys w ++ [(gets w, W.keys w (gets w))])
        futureMsgs :=
          if gets w ≠ 0 then
            Function.update recorder.futureMsgs w
              (recorder.futureMsgs w ++ [(gets w, W.getMsg w (gets w))])
          else recorder.futureMsgs } := {
    staleness_eq := stored.staleness_eq
    speculation_eq := stored.speculation_eq
    counts := by
      funext version key
      rw [recordedCount_receive registered behind, ← stored.counts]
      by_cases level : version = gets w
      · rw [level]
        rfl
      · simp only [Slots.addKeys, if_neg level]
    futureKeys := by
      intro v member
      by_cases same : v = w
      · subst same
        simp only [Function.update_self]
        rw [Workload.recorded_snoc behind, if_pos sent, stored.futureKeys v member]
      · simp only [Function.update_of_ne same]
        exact stored.futureKeys v member
    held := fun h member => (stored.held h member).receive w
    futureMsgs := by
      intro v entry member
      simp only at member
      split at member
      · by_cases same : v = w
        · subst same
          rw [Function.update_self] at member
          rcases List.mem_append.mp member with old | new
          · exact (stored.futureMsgs v entry old).receive v
          · rw [List.mem_singleton.mp new]
            exact received
        · rw [Function.update_of_ne same] at member
          exact (stored.futureMsgs v entry member).receive w
      · exact (stored.futureMsgs v entry member).receive w
    tooFast := fun msg member => (stored.tooFast msg member).receive w }
  have atMain : (recorder.withMain main).mainRecorder = main := rfl
  simp only [addRecord, atMain, Workload.keys_getMsg, Workload.version_getMsg, increments,
    foldlM_increment, Except.ok_bind]
  refine .ite ?_ ?_
  · intro _
    refine .bind_same ?_
    intro _ _
    exact .ok ⟨⟨main', represents', rfl⟩, stored'⟩
  · intro _
    exact .ok ⟨⟨main', represents', rfl⟩, stored'⟩

end Recorder

end FlexPS
