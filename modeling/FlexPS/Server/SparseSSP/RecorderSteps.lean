import FlexPS.Server.SparseSSP.Ledger

/-! # What each recorder function does to the picture -/

namespace FlexPS

open SparseSSPRecorder

variable {Val : Type} {W : Workload Val} {staleness : Nat} {threads : List Tid}

/-! ## Counts -/

section Counts

variable {prog gets : Tid → Nat} {w : Tid}

private theorem sum_split {f g : Tid → Nat} (registered : w ∈ threads) {extra : Nat}
    (here : f w = g w + extra) (elsewhere : ∀ v ∈ threads, v ≠ w → f v = g v) :
    ∑ v ∈ threads.toFinset, f v = ∑ v ∈ threads.toFinset, g v + extra := by
  have member : w ∈ threads.toFinset := List.mem_toFinset.mpr registered
  rw [← Finset.add_sum_erase _ f member, ← Finset.add_sum_erase _ g member, here]
  have rest : ∑ v ∈ threads.toFinset.erase w, f v = ∑ v ∈ threads.toFinset.erase w, g v := by
    apply Finset.sum_congr rfl
    intro v inErase
    obtain ⟨ne, inThreads⟩ := Finset.mem_erase.mp inErase
    exact elsewhere v (List.mem_toFinset.mp inThreads) ne
  omega

/-- A clocked iteration takes its own keys out of the counts. -/
theorem recordedCount_advance (registered : w ∈ threads) (version : Nat) (key : Key) :
    recordedCount W threads prog gets version key =
      recordedCount W threads (Function.update prog w (prog w + 1)) gets version key +
        if version = prog w ∧ version < gets w then (W.keys w version).count key else 0 := by
  apply sum_split registered
  · rw [Function.update_self]
    by_cases own : version = prog w
    · by_cases received : version < gets w
      · rw [if_pos ⟨by omega, received⟩, if_neg (by omega), if_pos ⟨own, received⟩, Nat.zero_add]
      · rw [if_neg (by omega), if_neg (by omega), if_neg (by omega)]
    · by_cases now : prog w + 1 ≤ version ∧ version < gets w
      · rw [if_pos (by omega), if_pos now, if_neg (by omega), Nat.add_zero]
      · rw [if_neg (by omega), if_neg now, if_neg (by omega)]
  · intro v _ ne
    rw [Function.update_of_ne ne]

/-- The counts after the record of the clocked iteration has been removed. -/
theorem recordedCount_removed {counts counts' : Nat → Key → Nat} (registered : w ∈ threads)
    (received : prog w < gets w) (before : counts = recordedCount W threads prog gets)
    (removed : ∀ v k, counts' v k = counts v k - if v = prog w then (W.keys w (prog w)).count k else 0) :
    counts' = recordedCount W threads (Function.update prog w (prog w + 1)) gets := by
  funext v k
  rw [removed, before, recordedCount_advance registered]
  by_cases level : v = prog w
  · rw [if_pos level, if_pos ⟨level, by omega⟩, level, Nat.add_sub_cancel]
  · rw [if_neg level, if_neg (fun h => level h.1)]
    rfl

/-- Clocking an iteration without a received `Get` keeps the counts. -/
theorem recordedCount_skip (registered : w ∈ threads)
    (absent : ¬ (prog w < gets w ∧ W.keys w (prog w) ≠ [])) :
    recordedCount W threads prog gets =
      recordedCount W threads (Function.update prog w (prog w + 1)) gets := by
  funext v k
  rw [recordedCount_advance registered]
  split
  · next here =>
      have empty : W.keys w v = [] := by
        obtain ⟨rfl, received⟩ := here
        exact not_not.mp (fun sent => absent ⟨received, sent⟩)
      simp [empty]
  · rfl

/-- A received `Get` puts its keys into the counts. -/
theorem recordedCount_receive (registered : w ∈ threads) (behind : prog w ≤ gets w)
    (version : Nat) (key : Key) :
    recordedCount W threads prog (Function.update gets w (gets w + 1)) version key =
      recordedCount W threads prog gets version key +
        if version = gets w then (W.keys w version).count key else 0 := by
  apply sum_split registered
  · rw [Function.update_self]
    by_cases own : version = gets w
    · rw [if_pos (by omega), if_neg (by omega), if_pos own, Nat.zero_add]
    · by_cases now : prog w ≤ version ∧ version < gets w
      · rw [if_pos (by omega), if_pos now, if_neg own, Nat.add_zero]
      · rw [if_neg (by omega), if_neg now, if_neg own]
  · intro v _ ne
    rw [Function.update_of_ne ne]

theorem recordedCount_pos {version : Nat} {key : Key}
    (h : 0 < recordedCount W threads prog gets version key) :
    ∃ v ∈ threads, prog v ≤ version ∧ version < gets v ∧ key ∈ W.keys v version := by
  obtain ⟨v, member, positive⟩ := Finset.exists_ne_zero_of_sum_ne_zero (Nat.ne_of_gt h)
  split at positive
  · next inside =>
      exact ⟨v, List.mem_toFinset.mp member, inside.1, inside.2,
        List.count_pos_iff.mp (Nat.pos_of_ne_zero positive)⟩
  · exact absurd rfl positive

theorem recordedCount_eq_zero {version : Nat} {key : Key}
    (h : ∀ v ∈ threads, prog v ≤ version → version < gets v → key ∉ W.keys v version) :
    recordedCount W threads prog gets version key = 0 := by
  by_contra positive
  obtain ⟨v, member, above, below, inKeys⟩ := recordedCount_pos (Nat.pos_of_ne_zero positive)
  exact h v member above below inKeys

theorem le_recordedCount {version : Nat} {key : Key} {v : Tid} (member : v ∈ threads)
    (above : prog v ≤ version) (below : version < gets v) :
    (W.keys v version).count key ≤ recordedCount W threads prog gets version key := by
  let share : Tid → Nat := fun v =>
    if prog v ≤ version ∧ version < gets v then (W.keys v version).count key else 0
  calc (W.keys v version).count key
      = share v := (if_pos ⟨above, below⟩).symm
    _ ≤ ∑ v ∈ threads.toFinset, share v :=
        Finset.single_le_sum (fun _ _ => Nat.zero_le _) (List.mem_toFinset.mpr member)

end Counts

theorem Due.mono {prog prog' gets gets' : Tid → Nat} {msg : Message Val}
    (due : Due W threads prog gets msg) (more : ∀ w, prog w ≤ prog' w)
    (later : ∀ w, gets w ≤ gets' w) : Due W threads prog' gets' msg where
  genuine := due.genuine
  registered := due.registered
  received := Nat.lt_of_lt_of_le due.received (later _)
  sent := due.sent
  entered := Nat.le_trans due.entered (more _)

theorem Admitted.mono {prog prog' gets gets' : Tid → Nat} {minClock minClock' : Nat}
    {msg : Message Val} (admitted : Admitted W staleness threads prog gets minClock msg)
    (more : ∀ w, prog w ≤ prog' w) (later : ∀ w, gets w ≤ gets' w)
    (raised : minClock ≤ minClock') : Admitted W staleness threads prog' gets' minClock' msg where
  due := admitted.due.mono more later
  slow := by
    have := admitted.slow
    omega

theorem le_update_succ (prog : Tid → Nat) (w v : Tid) :
    prog v ≤ Function.update prog w (prog w + 1) v := by
  by_cases same : v = w
  · subst same; simp
  · rw [Function.update_of_ne same]

/-- A released request is answerable once the clocks are at least the minimum. -/
theorem Answerable.of_clear {prog gets : Tid → Nat} {minClock : Nat} {slots : Slots Val}
    {msg : Message Val} (counts : slots.counts = recordedCount W threads prog gets)
    (above : ∀ w ∈ threads, minClock ≤ prog w)
    (admitted : Admitted W staleness threads prog gets minClock msg)
    (clear : Clear slots staleness minClock msg) :
    Answerable W staleness threads prog gets minClock msg where
  admitted := admitted
  clear := by
    intro version below w member received key inMsg inKeys
    by_contra behind
    have inWindow : minClock ≤ version ∨ version < minClock := le_or_gt _ _
    rcases inWindow with inside | before
    · have zero := clear version inside below key inMsg
      rw [counts] at zero
      have some : (W.keys w version).count key ≤ recordedCount W threads prog gets version key :=
        le_recordedCount member (Nat.le_of_not_lt behind) received
      have positive := List.count_pos_iff.mpr inKeys
      omega
    · have := above w member
      omega

/-- What a recorder function leaves behind: the picture, with what it released
    counted as answered; what it released may be answered, and it scanned fairly. -/
structure Released (W : Workload Val) (staleness : Nat) (threads : List Tid)
    (prog entered gets : Tid → Nat) (minClock tooFast : Nat) (answered : Tid → Nat → Nat)
    (recorder : SparseSSPRecorder Val (Slots Val)) (msgs : List (Message Val)) (scans : List Scan) :
    Prop where
  inv : RecorderInv W staleness threads prog entered gets minClock tooFast
    (fun w v => answered w v + tally w v msgs) recorder
  answerable : ∀ msg ∈ msgs, Answerable W staleness threads prog gets minClock msg
  scans : ∀ scan ∈ scans, FairScan W staleness threads prog gets minClock scan

section Steps

variable {prog gets : Tid → Nat} {minClock tooFast : Nat} {answered : Tid → Nat → Nat}
  {recorder : SparseSSPRecorder Val (Slots Val)} {w : Tid}

theorem RecorderInv.live {entered : Tid → Nat}
    (inv : RecorderInv W staleness threads prog entered gets minClock tooFast answered recorder) :
    recorder.mainRecorder.Live := fun h member => (inv.held h member).2.counted

/-- Sorting admitted requests against the counts of a recorder. -/
private theorem Released.of_sorted (recorder : SparseSSPRecorder Val (Slots Val)) {entered : Tid → Nat}
    {msgs released : List (Message Val)}
    {kept : List ((Nat × Key) × Message Val)} {scans : List Scan} {tooFastBuffer : List (Message Val)}
    {futureMsgs : Tid → List (Nat × Message Val)}
    (counts : recorder.mainRecorder.counts = recordedCount W threads prog gets)
    (staleness_eq : recorder.staleness = staleness)
    (speculation_eq : recorder.speculation = W.speculation)
    (futureKeys : ∀ v ∈ threads, recorder.futureKeys v = W.recorded v (W.keys v) (prog v) (gets v))
    (futureMsgs_eq : ∀ v ∈ threads, futureMsgs v = W.recorded v (W.getMsg v) (entered v + 1) (gets v))
    (held : ∀ h ∈ recorder.mainRecorder.held,
      Admitted W staleness threads entered gets minClock h.2 ∧
        WaitsAt recorder.mainRecorder staleness minClock h)
    (fast : ∀ msg ∈ tooFastBuffer, Due W threads entered gets msg ∧ msg.version = tooFast)
    (admitted : ∀ msg ∈ msgs, Admitted W staleness threads entered gets minClock msg)
    (entered_le : ∀ v, entered v ≤ prog v) (above : ∀ v ∈ threads, minClock ≤ prog v)
    (ledger : ∀ v ∈ threads, ∀ u, answered v u + tally v u tooFastBuffer +
        tally v u (recorder.mainRecorder.held.map Prod.snd) + tally v u msgs =
      if u < gets v ∧ u ≤ entered v ∧ W.keys v u ≠ [] then 1 else 0)
    (sorted : Sorted recorder.mainRecorder staleness minClock msgs released kept scans) :
    Released W staleness threads prog entered gets minClock tooFast answered
      { recorder with
        tooFastBuffer, futureMsgs,
        mainRecorder := { recorder.mainRecorder with held := recorder.mainRecorder.held ++ kept } }
      released scans where
  inv := {
    staleness_eq := staleness_eq
    speculation_eq := speculation_eq
    counts := counts
    futureKeys := futureKeys
    futureMsgs := futureMsgs_eq
    held := by
      intro h member
      rcases List.mem_append.mp member with old | new
      · exact ⟨(held h old).1, ⟨(held h old).2.key, (held h old).2.above, (held h old).2.below,
          (held h old).2.counted⟩⟩
      · obtain ⟨inMsgs, waits⟩ := sorted.kept h new
        exact ⟨admitted _ inMsgs, ⟨waits.key, waits.above, waits.below, waits.counted⟩⟩
    tooFast := fast
    ledger := by
      intro v member u
      have before := ledger v member u
      have conserved := sorted.conserved v u
      simp only [List.map_append, tally_append]
      rw [← before]
      omega }
  answerable := by
    intro msg member
    obtain ⟨inMsgs, clear⟩ := sorted.released msg member
    exact .of_clear counts above
      ((admitted msg inMsgs).mono entered_le (fun _ => Nat.le_refl _) (Nat.le_refl _)) clear
  scans := by
    intro scan member
    obtain ⟨msg, inMsgs, rfl⟩ := sorted.scans scan member
    exact ⟨rfl, ⟨msg, (admitted msg inMsgs).mono entered_le (fun _ => Nat.le_refl _)
      (Nat.le_refl _), rfl, rfl⟩, counts⟩

/-- A queue that starts with a later iteration is left alone. -/
theorem removeOwnRecord_later {Main : Type} [MainRecorder Val Main]
    {recorder : SparseSSPRecorder Val Main} {last : Nat}
    (queue : recorder.futureKeys w = W.recorded w (W.keys w) (prog w + 1) last) (minClock : Nat) :
    recorder.removeOwnRecord (prog w + 1) w minClock = .ok (recorder, {}) := by
  simp only [removeOwnRecord]
  split
  · next version keys rest front =>
      have member : (version, keys) ∈ W.recorded w (W.keys w) (prog w + 1) last := by
        rw [← queue, front]
        exact List.mem_cons_self
      obtain ⟨v, later, -, -, eq⟩ := Workload.mem_recorded.mp member
      cases eq
      rw [if_neg (by omega)]
      rfl
  · rfl

/-- First half of `GetNonConflictMsgs`, after `w` has clocked iteration `prog w`. -/
theorem removeOwnRecord_spec
    (inv : RecorderInv W staleness threads prog prog gets minClock tooFast answered recorder)
    (registered : w ∈ threads) {minClock' : Nat} (raised : minClock ≤ minClock')
    (above : ∀ v ∈ threads, minClock' ≤ Function.update prog w (prog w + 1) v) :
    ∃ recorder' out, recorder.removeOwnRecord (prog w + 1) w minClock' = .ok (recorder', out) ∧
      Released W staleness threads (Function.update prog w (prog w + 1)) prog gets minClock' tooFast
        answered recorder' out.msgs out.scans := by
  have admitted : ∀ h ∈ recorder.mainRecorder.held,
      Admitted W staleness threads prog gets minClock' h.2 := fun h member =>
    (inv.held h member).1.mono (fun _ => Nat.le_refl _) (fun _ => Nat.le_refl _) raised
  have windowed : ∀ h ∈ recorder.mainRecorder.held,
      0 < recordedCount W threads (Function.update prog w (prog w + 1)) gets h.1.1 h.1.2 →
      minClock' ≤ h.1.1 := by
    intro h _ positive
    obtain ⟨v, member, le, -⟩ := recordedCount_pos positive
    exact Nat.le_trans (above v member) le
  by_cases own : prog w < gets w ∧ W.keys w (prog w) ≠ []
  · -- the record of the iteration just clocked is at the front of the queue
    have front := inv.futureKeys w registered
    rw [Workload.recorded_cons own.1 own.2] at front
    have enough : ∀ key, (W.keys w (prog w)).count key ≤
        recorder.mainRecorder.counts (prog w) key := by
      intro key
      rw [inv.counts]
      exact le_recordedCount registered (Nat.le_refl _) own.1
    obtain ⟨slots, handled, removed, live, counts, held, handled_held, conserved⟩ :=
      removeKeys_spec recorder.dcheckIsOn (prog w) (W.keys w (prog w)) inv.live enough
    obtain ⟨kept, released, scans, sortedEq, sorted⟩ := foldlM_forwardOrRelease minClock' handled
      { recorder with mainRecorder := slots } {}
    have counts' := recordedCount_removed registered own.1 inv.counts counts
    refine ⟨{ recorder with
        mainRecorder := { slots with held := slots.held ++ kept }
        futureKeys := Function.update recorder.futureKeys w
          (W.recorded w (W.keys w) (prog w + 1) (gets w)) }, ⟨[] ++ released, [] ++ scans⟩, ?_, ?_⟩
    · simp only [removeOwnRecord, front, if_true, removeRecordAndGetNonConflictMsgs, removed,
        Except.ok_bind, sortedEq, Except.pure_eq_ok]
    · simp only [List.nil_append]
      apply Released.of_sorted { recorder with
          mainRecorder := slots, futureKeys := Function.update recorder.futureKeys w
            (W.recorded w (W.keys w) (prog w + 1) (gets w)) }
      · exact counts'
      · exact inv.staleness_eq
      · exact inv.speculation_eq
      · intro v member
        by_cases same : v = w
        · subst same; simp
        · simp only [Function.update_of_ne same]
          exact inv.futureKeys v member
      · exact inv.futureMsgs
      · intro h member
        have waits := (inv.held h (held h member)).2
        have positive := live h member
        exact ⟨admitted h (held h member), ⟨waits.key, windowed h (held h member) (counts' ▸ positive), waits.below,
          positive⟩⟩
      · exact inv.tooFast
      · intro msg member
        obtain ⟨h, inHeld, rfl⟩ := handled_held msg member
        exact admitted h inHeld
      · exact le_update_succ prog w
      · exact above
      · intro v member u
        have before := inv.ledger v member u
        have split := conserved v u
        simp only
        omega
      · rw [inv.staleness_eq] at sorted
        exact sorted
  · -- nothing was recorded for that iteration; the front, if any, is a later one
    have queue := inv.futureKeys w registered
    rw [Workload.recorded_skip own] at queue
    have counts' := inv.counts.trans (recordedCount_skip registered own)
    have unchanged := removeOwnRecord_later queue minClock'
    refine ⟨recorder, {}, unchanged, ⟨?_, by simp, by simp⟩⟩
    exact {
      staleness_eq := inv.staleness_eq
      speculation_eq := inv.speculation_eq
      counts := counts'
      futureKeys := by
        intro v member
        by_cases same : v = w
        · subst same; rw [queue, Function.update_self]
        · rw [Function.update_of_ne same]; exact inv.futureKeys v member
      futureMsgs := inv.futureMsgs
      held := by
        intro h member
        have waits := (inv.held h member).2
        exact ⟨admitted h member, ⟨waits.key, windowed h member (counts' ▸ waits.counted), waits.below,
          waits.counted⟩⟩
      tooFast := inv.tooFast
      ledger := by simpa using inv.ledger }

/-- Second half of `GetNonConflictMsgs`: `w` enters iteration `prog w + 1`. -/
theorem takeOwnGet_spec
    (inv : RecorderInv W staleness threads (Function.update prog w (prog w + 1)) prog gets minClock
      tooFast answered recorder)
    (registered : w ∈ threads) (out : NonConflict Val)
    (above : ∀ v ∈ threads, minClock ≤ Function.update prog w (prog w + 1) v)
    (window : prog w ≤ minClock + staleness + W.speculation)
    (fast : prog w = minClock + staleness + W.speculation →
      tooFast = minClock + staleness + W.speculation + 1) :
    ∃ recorder' msgs scans, recorder.takeOwnGet out (prog w + 1) w minClock =
        .ok (recorder', ⟨out.msgs ++ msgs, out.scans ++ scans⟩) ∧
      Released W staleness threads (Function.update prog w (prog w + 1))
        (Function.update prog w (prog w + 1)) gets minClock tooFast answered recorder' msgs scans := by
  set prog' := Function.update prog w (prog w + 1) with progDef
  have here : prog' w = prog w + 1 := by simp [progDef]
  have elsewhere : ∀ v, v ≠ w → prog' v = prog v := fun v ne => by simp [progDef, ne]
  have grows : ∀ v, prog v ≤ prog' v := le_update_succ prog w
  have dueLater : ∀ msg, Due W threads prog gets msg → Due W threads prog' gets msg :=
    fun msg due => due.mono grows fun _ => Nat.le_refl _
  have admittedLater : ∀ msg, Admitted W staleness threads prog gets minClock msg →
      Admitted W staleness threads prog' gets minClock msg :=
    fun msg admitted => admitted.mono grows (fun _ => Nat.le_refl _) (Nat.le_refl _)
  have above' := above w registered
  rw [here] at above'
  by_cases own : prog w + 1 < gets w ∧ W.keys w (prog w + 1) ≠ []
  · have front := inv.futureMsgs w registered
    rw [Workload.recorded_cons own.1 own.2] at front
    have due : Due W threads prog' gets (W.getMsg w (prog w + 1)) :=
      ⟨rfl, registered, own.1, own.2, here.ge⟩
    have futureMsgs : ∀ v ∈ threads, Function.update recorder.futureMsgs w
          (W.recorded w (W.getMsg w) (prog w + 1 + 1) (gets w)) v =
        W.recorded v (W.getMsg v) (prog' v + 1) (gets v) := by
      intro v member
      by_cases same : v = w
      · subst same; rw [Function.update_self, here]
      · rw [Function.update_of_ne same, elsewhere v same]; exact inv.futureMsgs v member
    have held : ∀ h ∈ recorder.mainRecorder.held,
        Admitted W staleness threads prog' gets minClock h.2 ∧
          WaitsAt recorder.mainRecorder staleness minClock h :=
      fun h member => ⟨admittedLater _ (inv.held h member).1, (inv.held h member).2⟩
    -- entering the iteration makes exactly this request due
    have ledger : ∀ v ∈ threads, ∀ u, answered v u + tally v u recorder.tooFastBuffer +
          tally v u (recorder.mainRecorder.held.map Prod.snd) + tally v u [W.getMsg w (prog w + 1)] =
        if u < gets v ∧ u ≤ prog' v ∧ W.keys v u ≠ [] then 1 else 0 := by
      intro v member u
      have single : tally v u [W.getMsg w (prog w + 1)] =
          if v = w ∧ u = prog w + 1 then 1 else 0 := by
        rw [tally_cons, tally_nil, Nat.zero_add]
        exact if_congr ⟨fun h => ⟨h.1.symm, h.2.symm⟩, fun h => ⟨h.1.symm, h.2.symm⟩⟩ rfl rfl
      rw [inv.ledger v member u, single]
      by_cases enters : v = w ∧ u = prog w + 1
      · obtain ⟨rfl, rfl⟩ := enters
        simp [own.1, own.2, here]
      · rw [if_neg enters, Nat.add_zero]
        have same : u ≤ prog v ↔ u ≤ prog' v := by
          by_cases same : v = w
          · have apart : u ≠ prog w + 1 := fun eq => enters ⟨same, eq⟩
            rw [same, here]
            omega
          · rw [elsewhere v same]
        simp only [same]
    have admitted : minClock ≤ (W.getMsg w (prog w + 1)).version ∧
        (W.getMsg w (prog w + 1)).version ≤
          minClock + recorder.staleness + recorder.speculation + 1 := by
      rw [inv.staleness_eq, inv.speculation_eq]
      show minClock ≤ prog w + 1 ∧ prog w + 1 ≤ _
      omega
    obtain ⟨fastMsgs, sortedMsgs, kept, released, scans, placed, split, tooFast', slow, sorted⟩ :=
      placeOwnGet_spec recorder out admitted
    rw [inv.staleness_eq, inv.speculation_eq] at slow tooFast'
    rw [inv.staleness_eq] at sorted
    have dueSplit : ∀ msg ∈ fastMsgs ++ sortedMsgs, msg = W.getMsg w (prog w + 1) := by
      intro msg member
      rw [split] at member
      exact List.mem_singleton.mp member
    refine ⟨{ recorder with
        tooFastBuffer := recorder.tooFastBuffer ++ fastMsgs
        futureMsgs := Function.update recorder.futureMsgs w
          (W.recorded w (W.getMsg w) (prog w + 1 + 1) (gets w))
        mainRecorder := { recorder.mainRecorder with held := recorder.mainRecorder.held ++ kept } },
      released, scans, ?_, ?_⟩
    · simp only [takeOwnGet, front, if_true, placed, Except.ok_bind, Except.pure_eq_ok]
    · apply Released.of_sorted recorder inv.counts inv.staleness_eq inv.speculation_eq inv.futureKeys
        futureMsgs held _ _ (fun _ => Nat.le_refl _) above _ sorted
      · intro msg member
        rcases List.mem_append.mp member with old | new
        · exact ⟨dueLater _ (inv.tooFast msg old).1, (inv.tooFast msg old).2⟩
        · have eq := dueSplit msg (List.mem_append_left _ new)
          have version := tooFast' msg new
          have here : (W.getMsg w (prog w + 1)).version = prog w + 1 := rfl
          rw [version, eq]
          exact ⟨due, (fast (by rw [eq] at version; omega)).symm⟩
      · intro msg member
        refine ⟨?_, slow msg member⟩
        rw [dueSplit msg (List.mem_append_right _ member)]
        exact due
      · intro v member u
        have before := ledger v member u
        rw [← split, tally_append] at before
        rw [tally_append]
        omega
  · -- no `Get` of that iteration was received here
    have queue := inv.futureMsgs w registered
    rw [Workload.recorded_skip own] at queue
    have unchanged : recorder.takeOwnGet out (prog w + 1) w minClock = .ok (recorder, out) := by
      simp only [takeOwnGet]
      split
      · next version msg rest front =>
          have member : (version, msg) ∈ W.recorded w (W.getMsg w) (prog w + 1 + 1) (gets w) := by
            rw [← queue, front]
            exact List.mem_cons_self
          obtain ⟨v, later, -, -, eq⟩ := Workload.mem_recorded.mp member
          cases eq
          rw [if_neg (by omega)]
          rfl
      · rfl
    refine ⟨recorder, [], [], by simpa using unchanged, ⟨?_, by simp, by simp⟩⟩
    exact {
      staleness_eq := inv.staleness_eq
      speculation_eq := inv.speculation_eq
      counts := inv.counts
      futureKeys := inv.futureKeys
      futureMsgs := by
        intro v member
        by_cases same : v = w
        · subst same; rw [queue, here]
        · rw [elsewhere v same]; exact inv.futureMsgs v member
      held := fun h member => ⟨admittedLater _ (inv.held h member).1, (inv.held h member).2⟩
      tooFast := fun msg member => ⟨dueLater _ (inv.tooFast msg member).1, (inv.tooFast msg member).2⟩
      ledger := by
        intro v member u
        rw [tally_nil, Nat.add_zero, inv.ledger v member u]
        by_cases same : v = w
        · subst same
          rw [here]
          apply if_congr _ rfl rfl
          constructor
          · intro h
            exact ⟨h.1, by omega, h.2.2⟩
          · intro h
            have : u ≠ prog v + 1 := fun eq => own ⟨eq ▸ h.1, eq ▸ h.2.2⟩
            exact ⟨h.1, by omega, h.2.2⟩
        · rw [elsewhere v same] }

/-- The too fast requests are sorted once the minimum has moved to `minClock + 1`. -/
theorem handleTooFastBuffer_spec
    (inv : RecorderInv W staleness threads prog prog gets minClock tooFast answered recorder)
    (fast : tooFast = minClock + staleness + W.speculation)
    (above : ∀ v ∈ threads, minClock ≤ prog v) (tooFast' : Nat) :
    ∃ recorder' out, recorder.handleTooFastBuffer minClock = .ok (recorder', out) ∧
      Released W staleness threads prog prog gets minClock tooFast' answered recorder'
        out.msgs out.scans := by
  obtain ⟨kept, released, scans, eq, sorted⟩ :=
    foldlM_forwardOrRelease minClock recorder.tooFastBuffer recorder {}
  rw [inv.staleness_eq] at sorted
  refine ⟨{ recorder with
      tooFastBuffer := []
      mainRecorder := { recorder.mainRecorder with held := recorder.mainRecorder.held ++ kept } },
    ⟨[] ++ released, [] ++ scans⟩, ?_, ?_⟩
  · simp only [handleTooFastBuffer, eq, Except.ok_bind, Except.pure_eq_ok]
  · simp only [List.nil_append]
    apply Released.of_sorted recorder inv.counts inv.staleness_eq inv.speculation_eq inv.futureKeys
      inv.futureMsgs inv.held _ _ (fun _ => Nat.le_refl _) above _ sorted
    · exact fun msg member => absurd member List.not_mem_nil
    · intro msg member
      obtain ⟨due, version⟩ := inv.tooFast msg member
      exact ⟨due, by omega⟩
    · intro v member u
      have before := inv.ledger v member u
      rw [tally_nil]
      omega

/-- A level below every clock is already empty when it is removed. -/
theorem removeRecord_spec
    (inv : RecorderInv W staleness threads prog prog gets minClock tooFast answered recorder)
    {version : Nat} (passed : ∀ v ∈ threads, version < prog v) :
    recorder.removeRecord version = recorder := by
  have empty : ∀ key, recorder.mainRecorder.counts version key = 0 := by
    intro key
    rw [inv.counts]
    apply recordedCount_eq_zero
    intro v member above
    have := passed v member
    omega
  simp only [removeRecord, MainRecorder.removeRecord, Slots.removeRecord_eq inv.live empty]

/-- What receiving `Get_v` of `w` must do to a recorder, `v` being the next version. -/
private theorem RecorderInv.receive {recorder' : SparseSSPRecorder Val (Slots Val)}
    {answered' : Tid → Nat → Nat}
    (inv : RecorderInv W staleness threads prog prog gets minClock tooFast answered recorder)
    (registered : w ∈ threads) (behind : prog w ≤ gets w) (ahead : gets w ≠ 0 → prog w < gets w)
    (staleness_eq : recorder'.staleness = recorder.staleness)
    (speculation_eq : recorder'.speculation = recorder.speculation)
    (tooFast_eq : recorder'.tooFastBuffer = recorder.tooFastBuffer)
    (held_eq : recorder'.mainRecorder.held = recorder.mainRecorder.held)
    (counts : ∀ version key, recorder'.mainRecorder.counts version key =
      recorder.mainRecorder.counts version key +
        if version = gets w then (W.keys w version).count key else 0)
    (futureKeys : recorder'.futureKeys = Function.update recorder.futureKeys w
      (recorder.futureKeys w ++ if W.keys w (gets w) ≠ [] then [(gets w, W.keys w (gets w))] else []))
    (futureMsgs : recorder'.futureMsgs = Function.update recorder.futureMsgs w
      (recorder.futureMsgs w ++
        if gets w ≠ 0 ∧ W.keys w (gets w) ≠ [] then [(gets w, W.getMsg w (gets w))] else []))
    (answers : ∀ v u, answered' v u = answered v u +
      if v = w ∧ u = 0 ∧ gets w = 0 ∧ W.keys w 0 ≠ [] then 1 else 0) :
    RecorderInv W staleness threads prog prog (Function.update gets w (gets w + 1)) minClock tooFast
      answered' recorder' where
  staleness_eq := staleness_eq.trans inv.staleness_eq
  speculation_eq := speculation_eq.trans inv.speculation_eq
  counts := by
    funext version key
    rw [counts, recordedCount_receive registered behind, inv.counts]
  futureKeys := by
    intro v member
    rw [futureKeys]
    by_cases same : v = w
    · subst same
      rw [Function.update_self, Function.update_self, Workload.recorded_snoc behind,
        inv.futureKeys v member]
    · rw [Function.update_of_ne same, Function.update_of_ne same, inv.futureKeys v member]
  futureMsgs := by
    intro v member
    rw [futureMsgs]
    by_cases same : v = w
    · subst same
      rw [Function.update_self, Function.update_self, inv.futureMsgs v member]
      by_cases first : gets v = 0
      · simp [first, Workload.recorded]
      · rw [Workload.recorded_snoc (ahead first)]
        simp [first]
    · rw [Function.update_of_ne same, Function.update_of_ne same, inv.futureMsgs v member]
  held := by
    intro h member
    rw [held_eq] at member
    obtain ⟨admitted, waits⟩ := inv.held h member
    refine ⟨admitted.mono (fun _ => Nat.le_refl _) (le_update_succ gets w) (Nat.le_refl _),
      waits.key, waits.above, waits.below, ?_⟩
    rw [counts]
    exact Nat.lt_of_lt_of_le waits.counted (Nat.le_add_right _ _)
  tooFast := by
    intro msg member
    rw [tooFast_eq] at member
    obtain ⟨due, version⟩ := inv.tooFast msg member
    exact ⟨due.mono (fun _ => Nat.le_refl _) (le_update_succ gets w), version⟩
  ledger := by
    intro v member u
    have before := inv.ledger v member u
    rw [tooFast_eq, held_eq, answers]
    by_cases received : v = w ∧ u = gets w
    · obtain ⟨rfl, rfl⟩ := received
      by_cases first : gets v = 0
      · simp only [first] at before ⊢
        simp only [Function.update_self, Nat.lt_irrefl, false_and, if_false] at before ⊢
        by_cases sent : W.keys v 0 ≠ []
        · simp [sent]
          omega
        · simp [sent]
          omega
      · have := ahead first
        have late : ¬ gets v ≤ prog v := by omega
        simp [first, late] at before ⊢
        omega
    · have unaffected : ¬ (v = w ∧ u = 0 ∧ gets w = 0 ∧ W.keys w 0 ≠ []) :=
        fun h => received ⟨h.1, by rw [h.2.1, h.2.2.1]⟩
      have same : u < Function.update gets w (gets w + 1) v ↔ u < gets v := by
        by_cases same : v = w
        · have apart : u ≠ gets w := fun eq => received ⟨same, eq⟩
          rw [same, Function.update_self]
          omega
        · rw [Function.update_of_ne same]
      rw [if_neg unaffected]
      simp only [same]
      omega

/-- The picture does not change when an absent `Get` is passed over. -/
theorem RecorderInv.absent
    (inv : RecorderInv W staleness threads prog prog gets minClock tooFast answered recorder)
    (registered : w ∈ threads) (behind : prog w ≤ gets w) (ahead : gets w ≠ 0 → prog w < gets w)
    (absent : W.keys w (gets w) = []) :
    RecorderInv W staleness threads prog prog (Function.update gets w (gets w + 1)) minClock tooFast
      answered recorder := by
  apply inv.receive registered behind ahead rfl rfl rfl rfl
  · intro version key
    by_cases level : version = gets w
    · simp [level, absent]
    · simp [level]
  · simp [absent]
  · simp [absent]
  · intro v u
    have unsent : ¬ (v = w ∧ u = 0 ∧ gets w = 0 ∧ W.keys w 0 ≠ []) :=
      fun h => h.2.2.2 (h.2.2.1 ▸ absent)
    rw [if_neg unsent, Nat.add_zero]

theorem addRecord_spec {recorder' : SparseSSPRecorder Val (Slots Val)}
    (inv : RecorderInv W staleness threads prog prog gets minClock tooFast answered recorder)
    (registered : w ∈ threads) (behind : prog w ≤ gets w) (ahead : gets w ≠ 0 → prog w < gets w)
    (sent : W.keys w (gets w) ≠ [])
    (added : recorder.addRecord (W.getMsg w (gets w)) = .ok recorder') :
    RecorderInv W staleness threads prog prog (Function.update gets w (gets w + 1)) minClock tooFast
      (fun v u => answered v u + tally v u (if gets w = 0 then [W.getMsg w (gets w)] else []))
      recorder' := by
  obtain ⟨-, rfl⟩ := addRecord_eq_ok.mp added
  refine inv.receive registered behind ahead ?_ ?_ ?_ ?_ ?_ ?_ ?_ ?_
  · rfl
  · rfl
  · rfl
  · rfl
  · intro version key
    by_cases level : version = gets w
    · subst level
      rfl
    · have apart : version ≠ (W.getMsg w (gets w)).version := level
      simp only [Slots.addKeys, if_neg level, if_neg apart]
  · rw [if_pos sent]
    rfl
  · by_cases first : gets w = 0
    · simp [first, Workload.getMsg]
    · simp [first, sent, Workload.getMsg]
  · intro v u
    by_cases first : gets w = 0
    · simp only [first, if_true, tally_cons, tally_nil, Nat.zero_add, Workload.getMsg] at sent ⊢
      congr 1
      exact if_congr ⟨fun h => ⟨h.1.symm, h.2.symm, trivial, sent⟩, fun h => ⟨h.1.symm, h.2.1.symm⟩⟩
        rfl rfl
    · simp [first]

end Steps

end FlexPS
