import FlexPS.Server.SparseSSP.Slots
import FlexPS.Server.SparseSSP.Stream

/-! # The ledger of a recorder

Over abstract slots, the whole content of a recorder is determined by how far
each worker has come: the counts by the `Get`s received and not yet clocked, the
two queues by the `Get`s of future iterations. A request whose iteration its
worker has entered is in exactly one place: answered, too fast, or held at one
slot. The lemmas of this file say what each recorder function does to that
picture; invariants of runs are read off from them.
-/

namespace FlexPS

open MainRecorder

variable {Val : Type}

/-- How many of the messages are `Get_v` of `w`. -/
def tally (w : Tid) (version : Nat) (msgs : List (Message Val)) : Nat :=
  msgs.countP (fun msg => msg.sender = w ∧ msg.version = version)

@[simp] theorem tally_nil (w : Tid) (version : Nat) : tally w version ([] : List (Message Val)) = 0 := rfl

@[simp] theorem tally_append (w : Tid) (version : Nat) (msgs more : List (Message Val)) :
    tally w version (msgs ++ more) = tally w version msgs + tally w version more :=
  List.countP_append

theorem tally_cons (w : Tid) (version : Nat) (msg : Message Val) (msgs : List (Message Val)) :
    tally w version (msg :: msgs) =
      tally w version msgs + if msg.sender = w ∧ msg.version = version then 1 else 0 := by
  simp [tally, List.countP_cons]

theorem tally_pos {w : Tid} {version : Nat} {msgs : List (Message Val)}
    (h : 0 < tally w version msgs) : ∃ msg ∈ msgs, msg.sender = w ∧ msg.version = version := by
  simpa [tally, List.countP_pos_iff] using h

theorem tally_pendingAt (slots : Slots Val) (w : Tid) (v version : Nat) (key : Key) :
    tally w v (slots.pendingAt version key) =
      slots.held.countP (fun h => h.1 = (version, key) ∧ h.2.sender = w ∧ h.2.version = v) := by
  simp only [tally, Slots.pendingAt, List.countP_map, List.countP_filter]
  apply List.countP_congr
  intro h _
  simp [and_comm]

/-- What is not held at all is at no slot. -/
theorem tally_pendingAt_eq_zero {slots : Slots Val} {w : Tid} {v : Nat}
    (none : tally w v (slots.held.map Prod.snd) = 0) (version : Nat) (key : Key) :
    tally w v (slots.pendingAt version key) = 0 := by
  rw [tally_pendingAt, List.countP_eq_zero]
  simp only [tally, List.countP_map, List.countP_eq_zero] at none
  intro h member here
  exact none h member (by simpa using (of_decide_eq_true here).2)

/-- What is held once is at one slot. -/
theorem tally_pendingAt_of_one {slots : Slots Val} {w : Tid} {v : Nat}
    (once : tally w v (slots.held.map Prod.snd) = 1) :
    ∃ h ∈ slots.held, h.2.sender = w ∧ h.2.version = v ∧
      ∀ version key, tally w v (slots.pendingAt version key) =
        if (version, key) = h.1 then 1 else 0 := by
  obtain ⟨msg, member, sender, version⟩ := tally_pos (once ▸ Nat.one_pos)
  obtain ⟨h, held, rfl⟩ := List.mem_map.mp member
  obtain ⟨before, after, split⟩ := List.append_of_mem held
  have one : ∀ h' ∈ before ++ after, ¬ (h'.2.sender = w ∧ h'.2.version = v) := by
    simp only [split, List.map_append, List.map_cons, tally_append, tally_cons, sender, version,
      and_self, if_true] at once
    have none : tally w v ((before ++ after).map Prod.snd) = 0 := by
      simp only [List.map_append, tally_append]
      omega
    intro h' member
    simp only [tally, List.countP_map, List.countP_eq_zero] at none
    simpa using none h' member
  refine ⟨h, held, sender, version, fun version' key => ?_⟩
  rw [tally_pendingAt, split]
  have rest : ∀ hs : List ((Nat × Key) × Message Val), (∀ h' ∈ hs, h' ∈ before ++ after) →
      hs.countP (fun h => h.1 = (version', key) ∧ h.2.sender = w ∧ h.2.version = v) = 0 := by
    intro hs sub
    rw [List.countP_eq_zero]
    intro h' inside here
    exact one h' (sub h' inside) (of_decide_eq_true here).2
  rw [List.countP_append, List.countP_cons, rest before (by simp +contextual),
    rest after (by simp +contextual)]
  simp [sender, version, eq_comm]

/-! ## Conflict tests -/

namespace SparseSSPRecorder

theorem mem_checkVersions {first : Nat} {last : Int} {version : Nat} :
    version ∈ checkVersions first last ↔ first ≤ version ∧ (version : Int) ≤ last := by
  rw [checkVersions, List.mem_reverse, List.mem_range'_1]
  omega

theorem hasConflict_eq_some {Main : Type} [MainRecorder Val Main] {main : Main} {keys : List Key}
    {first : Nat} {last : Int} {key : Key} {version : Nat}
    (h : hasConflict main keys first last = some (key, version)) :
    key ∈ keys ∧ first ≤ version ∧ (version : Int) ≤ last ∧ hasKey main version key = true := by
  obtain ⟨v, inRange, found⟩ := List.exists_of_findSome?_eq_some h
  obtain ⟨k, found, eq⟩ := Option.map_eq_some_iff.mp found
  cases eq
  obtain ⟨above, below⟩ := mem_checkVersions.mp inRange
  exact ⟨List.mem_of_find?_eq_some found, above, below, List.find?_some found⟩

theorem hasConflict_eq_none {Main : Type} [MainRecorder Val Main] {main : Main} {keys : List Key}
    {first : Nat} {last : Int} :
    hasConflict main keys first last = none ↔
      ∀ version, first ≤ version → (version : Int) ≤ last → ∀ key ∈ keys,
        hasKey main version key = false := by
  simp only [hasConflict, List.findSome?_eq_none_iff, Option.map_eq_none_iff, List.find?_eq_none,
    mem_checkVersions, Bool.not_eq_true, and_imp]

/-- No slot of `msg` in the window between `minClock` and its staleness bound is counted. -/
def Clear (slots : Slots Val) (staleness minClock : Nat) (msg : Message Val) : Prop :=
  ∀ version, minClock ≤ version → version + staleness < msg.version →
    ∀ key ∈ msg.keys, slots.counts version key = 0

/-- A held request waits at a counted slot of one of its keys, in its window. -/
structure WaitsAt (slots : Slots Val) (staleness minClock : Nat) (h : (Nat × Key) × Message Val) :
    Prop where
  key : h.1.2 ∈ h.2.keys
  above : minClock ≤ h.1.1
  below : h.1.1 + staleness < h.2.version
  counted : 0 < slots.counts h.1.1 h.1.2

/-- What a recorder did with a list of requests: some it released, the others it
    holds, and every call of `HasConflict` looked at the same counts. -/
structure Sorted (slots : Slots Val) (staleness minClock : Nat) (msgs released : List (Message Val))
    (kept : List ((Nat × Key) × Message Val)) (scans : List Scan) : Prop where
  conserved : ∀ w v, tally w v released + tally w v (kept.map Prod.snd) = tally w v msgs
  released : ∀ msg ∈ released, msg ∈ msgs ∧ Clear slots staleness minClock msg
  kept : ∀ h ∈ kept, h.2 ∈ msgs ∧ WaitsAt slots staleness minClock h
  scans : ∀ scan ∈ scans, ∃ msg ∈ msgs,
    scan = ⟨msg.keys, minClock, msg.version - staleness - 1, slots.counts⟩

theorem forwardOrRelease_spec (minClock : Nat) (recorder : SparseSSPRecorder Val (Slots Val))
    (out : NonConflict Val) (msg : Message Val) :
    ∃ kept released scans,
      forwardOrRelease minClock (recorder, out) msg =
        .ok ({ recorder with mainRecorder := { recorder.mainRecorder with
              held := recorder.mainRecorder.held ++ kept } },
          ⟨out.msgs ++ released, out.scans ++ scans⟩) ∧
      Sorted recorder.mainRecorder recorder.staleness minClock [msg] released kept scans := by
  have scanned : ∀ scan ∈ [(⟨msg.keys, minClock, (msg.version : Int) - recorder.staleness - 1,
      recorder.mainRecorder.counts⟩ : Scan)], ∃ m ∈ [msg],
      scan = ⟨m.keys, minClock, m.version - recorder.staleness - 1, recorder.mainRecorder.counts⟩ := by
    intro scan member
    obtain rfl := List.mem_singleton.mp member
    exact ⟨msg, List.mem_singleton_self _, rfl⟩
  simp only [forwardOrRelease]
  split
  · next key version conflict =>
      obtain ⟨member, above, below, counted⟩ := hasConflict_eq_some conflict
      refine ⟨[((version, key), msg)], [], _, by rw [List.append_nil]; rfl, ?_, ?_, ?_, scanned⟩
      · intro w v
        simp
      · simp
      · intro h inKept
        obtain rfl := List.mem_singleton.mp inKept
        refine ⟨List.mem_singleton_self _, member, above, ?_, of_decide_eq_true counted⟩
        simp only
        omega
  · next clear =>
      refine ⟨[], [msg], _, by rw [List.append_nil]; rfl, ?_, ?_, by simp, scanned⟩
      · intro w v
        simp
      · intro m member
        obtain rfl := List.mem_singleton.mp member
        refine ⟨List.mem_singleton_self _, fun version above below key inKeys => ?_⟩
        have none := hasConflict_eq_none.mp clear version above (by omega) key inKeys
        exact Nat.eq_zero_of_not_pos (of_decide_eq_false none)

/-- Sorting a whole list, as the three loops of the recorder do. -/
theorem foldlM_forwardOrRelease (minClock : Nat) (msgs : List (Message Val))
    (recorder : SparseSSPRecorder Val (Slots Val)) (out : NonConflict Val) :
    ∃ kept released scans,
      msgs.foldlM (forwardOrRelease minClock) (recorder, out) =
        .ok ({ recorder with mainRecorder := { recorder.mainRecorder with
              held := recorder.mainRecorder.held ++ kept } },
          ⟨out.msgs ++ released, out.scans ++ scans⟩) ∧
      Sorted recorder.mainRecorder recorder.staleness minClock msgs released kept scans := by
  induction msgs generalizing recorder out with
  | nil => exact ⟨[], [], [], by simp, ⟨by simp, by simp, by simp, by simp⟩⟩
  | cons msg rest ih =>
      obtain ⟨kept₁, released₁, scans₁, eq₁, sorted₁⟩ := forwardOrRelease_spec minClock recorder out msg
      obtain ⟨kept₂, released₂, scans₂, eq₂, sorted₂⟩ := ih
        { recorder with mainRecorder := { recorder.mainRecorder with
            held := recorder.mainRecorder.held ++ kept₁ } }
        ⟨out.msgs ++ released₁, out.scans ++ scans₁⟩
      refine ⟨kept₁ ++ kept₂, released₁ ++ released₂, scans₁ ++ scans₂, ?_, ?_, ?_, ?_, ?_⟩
      · rw [List.foldlM_cons, eq₁, Except.ok_bind, eq₂]
        simp only [List.append_assoc]
      · intro w v
        have first := sorted₁.conserved w v
        have second := sorted₂.conserved w v
        simp only [tally_append, List.map_append, tally_cons, tally_nil] at first second ⊢
        omega
      · intro m member
        rcases List.mem_append.mp member with inFirst | inSecond
        · obtain ⟨same, clear⟩ := sorted₁.released m inFirst
          exact ⟨List.mem_cons.mpr (.inl (List.mem_singleton.mp same)), clear⟩
        · obtain ⟨inRest, clear⟩ := sorted₂.released m inSecond
          exact ⟨List.mem_cons_of_mem _ inRest, clear⟩
      · intro h member
        rcases List.mem_append.mp member with inFirst | inSecond
        · obtain ⟨same, waits⟩ := sorted₁.kept h inFirst
          exact ⟨List.mem_cons.mpr (.inl (List.mem_singleton.mp same)), waits⟩
        · obtain ⟨inRest, waits⟩ := sorted₂.kept h inSecond
          exact ⟨List.mem_cons_of_mem _ inRest, ⟨waits.key, waits.above, waits.below, waits.counted⟩⟩
      · intro scan member
        rcases List.mem_append.mp member with inFirst | inSecond
        · obtain ⟨m, same, eq⟩ := sorted₁.scans scan inFirst
          exact ⟨m, List.mem_cons.mpr (.inl (List.mem_singleton.mp same)), eq⟩
        · obtain ⟨m, inRest, eq⟩ := sorted₂.scans scan inSecond
          exact ⟨m, List.mem_cons_of_mem _ inRest, eq⟩

/-- Where the sender's own `Get` goes: into `too_fast_buffer_`, or sorted with the others. -/
theorem placeOwnGet_spec {minClock : Nat} (recorder : SparseSSPRecorder Val (Slots Val))
    (out : NonConflict Val) {msg : Message Val} (admitted : minClock ≤ msg.version ∧
      msg.version ≤ minClock + recorder.staleness + recorder.speculation + 1) :
    ∃ fast sorted kept released scans,
      recorder.placeOwnGet out minClock msg = .ok ({ recorder with
          tooFastBuffer := recorder.tooFastBuffer ++ fast
          mainRecorder := { recorder.mainRecorder with held := recorder.mainRecorder.held ++ kept } },
        ⟨out.msgs ++ released, out.scans ++ scans⟩) ∧
      fast ++ sorted = [msg] ∧
      (∀ m ∈ fast, m.version = minClock + recorder.staleness + recorder.speculation + 1) ∧
      (∀ m ∈ sorted, m.version ≤ minClock + recorder.staleness + recorder.speculation) ∧
      Sorted recorder.mainRecorder recorder.staleness minClock sorted released kept scans := by
  have inWindow : minClock ≤ msg.version ∧
      msg.version < minClock + recorder.staleness + recorder.speculation + 2 := by omega
  by_cases fresh : msg.version ≤ recorder.staleness + minClock
  · refine ⟨[], [msg], [], [msg], [], ?_, rfl, by simp, ?_, by simp, ?_, by simp, by simp⟩
    · simp only [placeOwnGet, check_pos inWindow, Except.ok_bind, if_pos fresh, Except.pure_eq_ok,
        List.append_nil]
    · intro m member
      rw [List.mem_singleton.mp member]
      omega
    · intro m member
      refine ⟨member, fun version above below => ?_⟩
      rw [List.mem_singleton.mp member] at below
      omega
  · by_cases speculative : msg.version ≤ minClock + recorder.staleness + recorder.speculation
    · obtain ⟨kept, released, scans, eq, sorted⟩ := forwardOrRelease_spec minClock recorder out msg
      refine ⟨[], [msg], kept, released, scans, ?_, rfl, by simp, by simpa using speculative, sorted⟩
      simp only [placeOwnGet, check_pos inWindow, Except.ok_bind, if_neg fresh, if_pos speculative,
        Except.pure_eq_ok, eq, List.append_nil]
    · have exactly : msg.version = minClock + recorder.staleness + recorder.speculation + 1 := by
        omega
      refine ⟨[msg], [], [], [], [], ?_, rfl, ?_, by simp, by simp, by simp, by simp, by simp⟩
      · simp only [placeOwnGet, check_pos inWindow, Except.ok_bind, if_neg fresh,
          if_neg speculative, if_pos exactly, Except.pure_eq_ok, List.append_nil]
      · intro m member
        rw [List.mem_singleton.mp member, exactly]

/-! ## Removing the record of an iteration -/

private theorem tally_decrement (slots : Slots Val) (version : Nat) (key : Key) (w : Tid) (v : Nat) :
    tally w v ((slots.decrement version key).1.held.map Prod.snd) +
        tally w v (slots.decrement version key).2 =
      tally w v (slots.held.map Prod.snd) := by
  simp only [Slots.decrement]
  split
  · simp only [Slots.pendingAt, tally, List.countP_map]
    rw [Nat.add_comm, List.countP_eq_countP_filter_add slots.held _ (fun h => h.1 = (version, key))]
    congr 2
    apply List.filter_congr
    intro h _
    simp
  · rfl

private theorem held_decrement {slots : Slots Val} {version : Nat} {key : Key}
    {h : (Nat × Key) × Message Val} (member : h ∈ (slots.decrement version key).1.held) :
    h ∈ slots.held := by
  simp only [Slots.decrement] at member
  split at member
  · exact List.mem_of_mem_filter member
  · exact member

private theorem taken_decrement {slots : Slots Val} {version : Nat} {key : Key} {msg : Message Val}
    (member : msg ∈ (slots.decrement version key).2) : ∃ h ∈ slots.held, h.2 = msg := by
  rw [Slots.taken_decrement] at member
  split at member
  · obtain ⟨h, inFilter, eq⟩ := List.mem_map.mp member
    exact ⟨h, List.mem_of_mem_filter inFilter, eq⟩
  · exact absurd member List.not_mem_nil

/-- The counts suffice for the rest of the keys after the first has been removed. -/
theorem enough_decrement {slots : Slots Val} {version : Nat} {key : Key} {rest : List Key}
    (enough : ∀ k, (key :: rest).count k ≤ slots.counts version k) :
    0 < slots.counts version key ∧
      (∀ v k, (slots.decrement version key).1.counts v k =
        slots.counts v k - if v = version ∧ k = key then 1 else 0) ∧
      ∀ k, rest.count k ≤ (slots.decrement version key).1.counts version k := by
  have counted : 0 < slots.counts version key := by
    have := enough key
    rw [List.count_cons_self] at this
    omega
  have decremented : ∀ v k, (slots.decrement version key).1.counts v k =
      slots.counts v k - if v = version ∧ k = key then 1 else 0 := by
    intro v k
    rw [Slots.counts_decrement]
    split
    · next here =>
        rw [here.1, here.2]
        cases h : slots.counts version key with
        | zero => omega
        | succ n => rfl
    · rfl
  refine ⟨counted, decremented, fun k => ?_⟩
  have := enough k
  rw [decremented]
  by_cases same : k = key
  · subst same
    rw [List.count_cons_self] at this
    rw [if_pos ⟨rfl, rfl⟩]
    omega
  · rw [List.count_cons_of_ne (Ne.symm same)] at this
    rw [if_neg (fun h => same h.2)]
    exact this

/-- The loop of `RemoveRecordAndGetNonConflictMsgs`: the counts of one level drop
    by the multiplicity of each key, and what a slot held when it reached zero is
    handed back. -/
theorem removeKeys_spec (dcheckIsOn : Bool) (version : Nat) (keys : List Key) {slots : Slots Val}
    (live : slots.Live) (enough : ∀ key, keys.count key ≤ slots.counts version key) :
    ∃ slots' handled, removeKeys dcheckIsOn version slots keys = .ok (slots', handled) ∧
      slots'.Live ∧
      (∀ v k, slots'.counts v k = slots.counts v k - if v = version then keys.count k else 0) ∧
      (∀ h ∈ slots'.held, h ∈ slots.held) ∧
      (∀ msg ∈ handled, ∃ h ∈ slots.held, h.2 = msg) ∧
      ∀ w v, tally w v (slots'.held.map Prod.snd) + tally w v handled =
        tally w v (slots.held.map Prod.snd) := by
  suffices general : ∀ handled₀ : List (Message Val), ∃ slots' handled,
      keys.foldlM (fun (state : Slots Val × List (Message Val)) key => do
        let (main, msgs) ← decrement dcheckIsOn state.1 version key
        return (main, state.2 ++ msgs)) (slots, handled₀) =
        (.ok (slots', handled₀ ++ handled) : Except Fault _) ∧
      slots'.Live ∧
      (∀ v k, slots'.counts v k = slots.counts v k - if v = version then keys.count k else 0) ∧
      (∀ h ∈ slots'.held, h ∈ slots.held) ∧
      (∀ msg ∈ handled, ∃ h ∈ slots.held, h.2 = msg) ∧
      ∀ w v, tally w v (slots'.held.map Prod.snd) + tally w v handled =
        tally w v (slots.held.map Prod.snd) by
    simpa only [removeKeys, List.nil_append] using general []
  induction keys generalizing slots with
  | nil => exact fun handled₀ => ⟨slots, [], by simp, live, by simp, by simp, by simp, by simp⟩
  | cons key rest ih =>
      intro handled₀
      obtain ⟨-, decremented, enoughRest⟩ := enough_decrement enough
      obtain ⟨slots', handled, eq, live', counts', held', handled', conserved⟩ :=
        @ih (slots.decrement version key).1 (Slots.live_decrement live _ _) enoughRest
          (handled₀ ++ (slots.decrement version key).2)
      refine ⟨slots', (slots.decrement version key).2 ++ handled, ?_, live', ?_, ?_, ?_, ?_⟩
      · rw [List.foldlM_cons]
        rw [List.append_assoc] at eq
        exact eq
      · intro v k
        rw [counts', decremented]
        by_cases level : v = version
        · by_cases same : k = key
          · simp only [level, same, and_self, if_true, List.count_cons_self]
            omega
          · simp [level, same, List.count_cons_of_ne (Ne.symm same)]
        · simp [level]
      · exact fun h member => held_decrement (held' h member)
      · intro msg member
        rcases List.mem_append.mp member with now | later
        · exact taken_decrement now
        · obtain ⟨h, inHeld, eq⟩ := handled' msg later
          exact ⟨h, held_decrement inHeld, eq⟩
      · intro w v
        have now := tally_decrement slots version key w v
        have later := conserved w v
        rw [tally_append]
        omega

/-! ## Recording a `Get` -/

theorem foldlM_increment (slots : Slots Val) (version : Nat) (keys : List Key) :
    keys.foldlM (fun main key => MainRecorder.increment main version key) slots =
      (.ok (slots.addKeys version keys) : Except Fault (Slots Val)) := by
  induction keys generalizing slots with
  | nil => simp [Slots.addKeys]
  | cons key rest ih =>
      rw [List.foldlM_cons]
      refine (ih (slots.increment version key)).trans (congrArg Except.ok ?_)
      simp only [Slots.addKeys, Slots.increment, Slots.setCount, Slots.mk.injEq, and_true]
      funext v k
      by_cases level : v = version
      · by_cases same : k = key
        · simp [level, same]
          omega
        · simp [level, same, List.count_cons_of_ne (Ne.symm same)]
      · simp [level]

theorem addRecord_eq_ok {recorder recorder' : SparseSSPRecorder Val (Slots Val)}
    {msg : Message Val} :
    recorder.addRecord msg = .ok recorder' ↔
      (recorder.dcheckIsOn = true →
        (recorder.futureKeys msg.sender).length < recorder.speculation + 1) ∧
      recorder' = { recorder with
        mainRecorder := recorder.mainRecorder.addKeys msg.version msg.keys
        futureKeys := Function.update recorder.futureKeys msg.sender
          (recorder.futureKeys msg.sender ++ [(msg.version, msg.keys)])
        futureMsgs :=
          if msg.version ≠ 0 then
            Function.update recorder.futureMsgs msg.sender
              (recorder.futureMsgs msg.sender ++ [(msg.version, msg)])
          else recorder.futureMsgs } := by
  simp only [addRecord, foldlM_increment, Except.ok_bind, Except.pure_eq_ok]
  cases dcheck : recorder.dcheckIsOn with
  | false => simp [eq_comm]
  | true =>
      simp only [if_true, Except.bind_eq_ok, check_eq_ok, exists_const, Except.ok.injEq,
        forall_const]
      rw [eq_comm (a := recorder')]

end SparseSSPRecorder

/-! ## The picture of a recorder -/

namespace Workload

variable (W : Workload Val)

/-- The entries a queue holds for the `Get`s of `w` with versions in `[lo, hi)`. -/
def recorded {β : Type} (w : Tid) (entry : Nat → β) (lo hi : Nat) : List (Nat × β) :=
  ((List.range' lo (hi - lo)).filter (fun v => W.keys w v ≠ [])).map (fun v => (v, entry v))

variable {W} {β : Type} {w : Tid} {entry : Nat → β} {lo hi : Nat}

theorem recorded_cons (inside : lo < hi) (sent : W.keys w lo ≠ []) :
    W.recorded w entry lo hi = (lo, entry lo) :: W.recorded w entry (lo + 1) hi := by
  rw [recorded, show hi - lo = (hi - (lo + 1)) + 1 by omega, List.range'_succ,
    List.filter_cons_of_pos (by simpa using sent), List.map_cons]
  rfl

theorem recorded_skip (absent : ¬ (lo < hi ∧ W.keys w lo ≠ [])) :
    W.recorded w entry lo hi = W.recorded w entry (lo + 1) hi := by
  by_cases inside : lo < hi
  · have empty : W.keys w lo = [] := not_not.mp (fun sent => absent ⟨inside, sent⟩)
    rw [recorded, show hi - lo = (hi - (lo + 1)) + 1 by omega, List.range'_succ,
      List.filter_cons_of_neg (by simpa using empty)]
    rfl
  · rw [recorded, recorded, show hi - lo = 0 by omega, show hi - (lo + 1) = 0 by omega]
    rfl

theorem recorded_snoc (ordered : lo ≤ hi) :
    W.recorded w entry lo (hi + 1) =
      W.recorded w entry lo hi ++ if W.keys w hi ≠ [] then [(hi, entry hi)] else [] := by
  rw [recorded, show hi + 1 - lo = (hi - lo) + 1 by omega, List.range'_concat,
    List.filter_append, List.map_append, recorded, show lo + 1 * (hi - lo) = hi by omega]
  by_cases sent : W.keys w hi ≠ [] <;> simp [sent]

theorem mem_recorded {x : Nat × β} : x ∈ W.recorded w entry lo hi ↔
    ∃ v, lo ≤ v ∧ v < hi ∧ W.keys w v ≠ [] ∧ x = (v, entry v) := by
  simp only [recorded, List.mem_map, List.mem_filter, List.mem_range'_1, decide_eq_true_eq]
  constructor
  · rintro ⟨v, ⟨⟨above, below⟩, sent⟩, rfl⟩
    exact ⟨v, above, by omega, sent, rfl⟩
  · rintro ⟨v, above, below, sent, rfl⟩
    exact ⟨v, ⟨⟨above, by omega⟩, sent⟩, rfl⟩

end Workload

theorem tally_recorded (W : Workload Val) (w : Tid) (v : Nat) (u : Tid) (lo hi : Nat) :
    tally w v ((W.recorded u (W.getMsg u) lo hi).map Prod.snd) =
      if u = w ∧ lo ≤ v ∧ v < hi ∧ W.keys w v ≠ [] then 1 else 0 := by
  rcases Nat.lt_or_ge hi lo with none | ordered
  · rw [if_neg (by omega)]
    simp [Workload.recorded, show hi - lo = 0 by omega]
  induction hi, ordered using Nat.le_induction with
  | base =>
      rw [if_neg (by omega)]
      simp [Workload.recorded]
  | succ hi ordered ih =>
      rw [Workload.recorded_snoc ordered, List.map_append, tally_append, ih]
      by_cases here : u = w ∧ hi = v
      · obtain ⟨rfl, rfl⟩ := here
        by_cases sent : W.keys u hi = []
        · simp [sent]
        · simp [sent, ordered, tally_cons]
      · have same : u = w ∧ lo ≤ v ∧ v < hi + 1 ∧ W.keys w v ≠ [] ↔
            u = w ∧ lo ≤ v ∧ v < hi ∧ W.keys w v ≠ [] := by grind
        rw [if_congr same rfl rfl]
        by_cases sent : W.keys u hi = []
        · simp [sent]
        · simp [sent, tally_cons, here]
section Picture

variable (W : Workload Val) (staleness : Nat) (threads : List Tid)

/-- The counts of a recorder that has received `gets` and removed `prog`. -/
def recordedCount (prog gets : Tid → Nat) (version : Nat) (key : Key) : Nat :=
  ∑ w ∈ threads.toFinset, if prog w ≤ version ∧ version < gets w then (W.keys w version).count key else 0

/-- `msg` is a `Get` that was received and whose iteration its worker has entered. -/
structure Due (prog gets : Tid → Nat) (msg : Message Val) : Prop where
  genuine : msg = W.getMsg msg.sender msg.version
  registered : msg.sender ∈ threads
  received : msg.version < gets msg.sender
  sent : W.keys msg.sender msg.version ≠ []
  entered : msg.version ≤ prog msg.sender

theorem Due.keys_eq {W : Workload Val} {threads : List Tid} {prog gets : Tid → Nat} {msg : Message Val}
    (due : Due W threads prog gets msg) : msg.keys = W.keys msg.sender msg.version :=
  congrArg Message.keys due.genuine

/-- A due request that is not too fast. -/
structure Admitted (prog gets : Tid → Nat) (minClock : Nat) (msg : Message Val) : Prop where
  due : Due W threads prog gets msg
  slow : msg.version ≤ minClock + staleness + W.speculation

/-- A request may be answered: every received `Get` that is older than its
    staleness bound and shares a key with it has been clocked. -/
structure Answerable (prog gets : Tid → Nat) (minClock : Nat) (msg : Message Val) : Prop where
  admitted : Admitted W staleness threads prog gets minClock msg
  clear : ∀ version, version + staleness < msg.version → ∀ w ∈ threads, version < gets w →
    ∀ key ∈ msg.keys, key ∈ W.keys w version → version < prog w

/-- A call of `HasConflict` on behalf of an admitted request. -/
structure FairScan (prog gets : Tid → Nat) (minClock : Nat) (scan : Scan) : Prop where
  first : scan.beginVersion = minClock
  request : ∃ msg, Admitted W staleness threads prog gets minClock msg ∧
    scan.keys = msg.keys ∧ scan.endVersion = msg.version - staleness - 1
  count : scan.count = recordedCount W threads prog gets

/-- The content of a recorder. `prog` is how far the records have been removed,
    `entered` how far the queued requests have been taken; the two differ only
    between the two halves of `GetNonConflictMsgs`. `answered` counts the replies. -/
structure RecorderInv (prog entered gets : Tid → Nat) (minClock tooFast : Nat)
    (answered : Tid → Nat → Nat) (recorder : SparseSSPRecorder Val (Slots Val)) : Prop where
  staleness_eq : recorder.staleness = staleness
  speculation_eq : recorder.speculation = W.speculation
  counts : recorder.mainRecorder.counts = recordedCount W threads prog gets
  futureKeys : ∀ w ∈ threads,
    recorder.futureKeys w = W.recorded w (W.keys w) (prog w) (gets w)
  futureMsgs : ∀ w ∈ threads,
    recorder.futureMsgs w = W.recorded w (W.getMsg w) (entered w + 1) (gets w)
  held : ∀ h ∈ recorder.mainRecorder.held,
    Admitted W staleness threads entered gets minClock h.2 ∧
      SparseSSPRecorder.WaitsAt recorder.mainRecorder staleness minClock h
  tooFast : ∀ msg ∈ recorder.tooFastBuffer, Due W threads entered gets msg ∧ msg.version = tooFast
  ledger : ∀ w ∈ threads, ∀ v, answered w v + tally w v recorder.tooFastBuffer +
      tally w v (recorder.mainRecorder.held.map Prod.snd) =
    if v < gets w ∧ v ≤ entered w ∧ W.keys w v ≠ [] then 1 else 0

end Picture

end FlexPS
