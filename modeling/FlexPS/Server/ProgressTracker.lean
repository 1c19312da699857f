import FlexPS.Base.Message

/-! # The clocks of the registered workers -/

namespace FlexPS

/-- `progresses_` is a finite map: the registered thread ids and the clock of each. -/
structure ProgressTracker where
  threads : List Tid
  nodup : threads.Nodup
  progresses : Tid → Nat
  minClock : Nat

namespace ProgressTracker

def init (tids : List Tid) : ProgressTracker :=
  { threads := tids.dedup, nodup := tids.nodup_dedup, progresses := fun _ => 0, minClock := 0 }

def checkThreadValid (tracker : ProgressTracker) (tid : Tid) : Bool :=
  tid ∈ tracker.threads

def getProgress (tracker : ProgressTracker) (tid : Tid) : Except Fault Nat := do
  check .threadValid (tracker.checkThreadValid tid)
  return tracker.progresses tid

/-- The counting loop of `IsUniqueMin`, left as soon as a second holder is met. -/
def holdersAtMostOne (minClock : Nat) (minCount : Nat) : List Nat → Bool
  | [] => true
  | progress :: rest =>
      let minCount := if progress = minClock then minCount + 1 else minCount
      if minCount > 1 then false else holdersAtMostOne minClock minCount rest

def isUniqueMin (tracker : ProgressTracker) (tid : Tid) : Except Fault Bool := do
  check .threadValid (tracker.checkThreadValid tid)
  if tracker.progresses tid ≠ tracker.minClock then
    return false
  return holdersAtMostOne tracker.minClock 0 (tracker.threads.map tracker.progresses)

/-- `none` is the code's `-1`: the minimum did not change. -/
def advanceAndGetChangedMinClock (tracker : ProgressTracker) (tid : Tid) :
    Except Fault (Option Nat × ProgressTracker) := do
  check .threadValid (tracker.checkThreadValid tid)
  if ← tracker.isUniqueMin tid then
    let minClock ← increment tracker.minClock
    let progress ← increment (tracker.progresses tid)
    return (some minClock, { tracker with
      minClock, progresses := Function.update tracker.progresses tid progress })
  else
    let progress ← increment (tracker.progresses tid)
    return (none, { tracker with
      progresses := Function.update tracker.progresses tid progress })

@[simp] theorem mem_threads_init (tids : List Tid) (w : Tid) : w ∈ (init tids).threads ↔ w ∈ tids :=
  List.mem_dedup

@[simp] theorem progresses_init (tids : List Tid) (w : Tid) : (init tids).progresses w = 0 := rfl

@[simp] theorem minClock_init (tids : List Tid) : (init tids).minClock = 0 := rfl

theorem getProgress_eq {tracker : ProgressTracker} {w : Tid} (valid : w ∈ tracker.threads) :
    tracker.getProgress w = .ok (tracker.progresses w) := by
  simp [getProgress, checkThreadValid, valid, check_pos]

/-- `min_clock_` is the minimum of the registered clocks. -/
structure Exact (tracker : ProgressTracker) : Prop where
  le : ∀ w ∈ tracker.threads, tracker.minClock ≤ tracker.progresses w
  attained : tracker.threads ≠ [] → ∃ w ∈ tracker.threads, tracker.progresses w = tracker.minClock

theorem exact_init (tids : List Tid) : (init tids).Exact where
  le := fun _ _ => Nat.le_refl 0
  attained := by
    intro nonempty
    obtain ⟨w, member⟩ := List.exists_mem_of_ne_nil _ nonempty
    exact ⟨w, member, rfl⟩

private theorem holdersAtMostOne_iff (minClock minCount : Nat) (clocks : List Nat)
    (small : minCount ≤ 1) :
    holdersAtMostOne minClock minCount clocks = true ↔ minCount + clocks.count minClock ≤ 1 := by
  induction clocks generalizing minCount with
  | nil => simpa [holdersAtMostOne] using small
  | cons progress rest ih =>
      by_cases holder : progress = minClock
      · subst holder
        simp only [holdersAtMostOne, if_true, List.count_cons_self]
        split
        · simp; omega
        · rw [ih _ (by omega)]; omega
      · simp only [holdersAtMostOne, if_neg holder, List.count_cons_of_ne holder]
        rw [if_neg (by omega), ih _ small]

private theorem count_map_le_one {threads : List Tid} (nodup : threads.Nodup) {f : Tid → Nat}
    {w : Tid} (member : w ∈ threads) :
    (threads.map f).count (f w) ≤ 1 ↔ ∀ v ∈ threads, f v = f w → v = w := by
  have step : (threads.map f).count (f w) = (threads.filter (fun v => f v = f w)).length := by
    rw [List.count_eq_countP, List.countP_map, List.countP_eq_length_filter]
    rfl
  rw [step]
  constructor
  · intro le v inThreads same
    have hv : v ∈ threads.filter (fun v => f v = f w) := by simp [inThreads, same]
    have hw : w ∈ threads.filter (fun v => f v = f w) := by simp [member]
    obtain ⟨x, only⟩ := List.length_eq_one_iff.mp
      (Nat.le_antisymm le (List.length_pos_of_mem hw))
    rw [only] at hv hw
    rw [List.mem_singleton.mp hv, List.mem_singleton.mp hw]
  · intro unique
    have sub : threads.filter (fun v => f v = f w) ⊆ [w] := by
      intro v hv
      obtain ⟨inThreads, same⟩ := List.mem_filter.mp hv
      exact List.mem_singleton.mpr (unique v inThreads (by simpa using same))
    exact (nodup.filter _).length_le_of_subset sub

/-- `tid` alone holds the minimum. -/
def UniqueMin (tracker : ProgressTracker) (w : Tid) : Prop :=
  tracker.progresses w = tracker.minClock ∧
    ∀ v ∈ tracker.threads, tracker.progresses v = tracker.minClock → v = w

theorem isUniqueMin_eq {tracker : ProgressTracker} {w : Tid} (valid : w ∈ tracker.threads)
    [Decidable (tracker.UniqueMin w)] :
    tracker.isUniqueMin w = .ok (decide (tracker.UniqueMin w)) := by
  simp only [isUniqueMin, checkThreadValid, valid, decide_true, check_pos, Except.ok_bind]
  split
  · next other => simp [UniqueMin, other]
  · next holder =>
      have holds : tracker.progresses w = tracker.minClock := not_not.mp holder
      have same : holdersAtMostOne tracker.minClock 0 (tracker.threads.map tracker.progresses) = true
          ↔ tracker.UniqueMin w := by
        rw [holdersAtMostOne_iff _ _ _ (by omega), Nat.zero_add, ← holds,
          count_map_le_one tracker.nodup valid, UniqueMin, holds]
        simp
      by_cases unique : tracker.UniqueMin w <;> simp_all

/-- What one advance of a registered thread does. -/
inductive Advanced (tracker : ProgressTracker) (w : Tid) : Option Nat → ProgressTracker → Prop where
  | moved (unique : tracker.UniqueMin w) :
      Advanced tracker w (some (tracker.minClock + 1)) { tracker with
        minClock := tracker.minClock + 1
        progresses := Function.update tracker.progresses w (tracker.progresses w + 1) }
  | kept (shared : ¬ tracker.UniqueMin w) :
      Advanced tracker w none { tracker with
        progresses := Function.update tracker.progresses w (tracker.progresses w + 1) }

theorem advance_eq_ok {tracker : ProgressTracker} {w : Tid} {updated : Option Nat}
    {tracker' : ProgressTracker} :
    tracker.advanceAndGetChangedMinClock w = .ok (updated, tracker') ↔
      w ∈ tracker.threads ∧ tracker.progresses w < intMax ∧
        Advanced tracker w updated tracker' := by
  classical
  by_cases valid : w ∈ tracker.threads
  · simp only [advanceAndGetChangedMinClock, checkThreadValid, valid, decide_true, check_pos,
      Except.ok_bind, isUniqueMin_eq valid, true_and]
    by_cases unique : tracker.UniqueMin w
    · simp only [unique, decide_true, if_true]
      constructor
      · intro h
        obtain ⟨minClock, hm, h⟩ := Except.bind_eq_ok.mp h
        obtain ⟨progress, hp, h⟩ := Except.bind_eq_ok.mp h
        obtain ⟨-, rfl⟩ := increment_eq_ok.mp hm
        obtain ⟨small, rfl⟩ := increment_eq_ok.mp hp
        cases h
        exact ⟨small, .moved unique⟩
      · rintro ⟨small, advanced⟩
        have small' : tracker.minClock < intMax := unique.1 ▸ small
        cases advanced with
        | moved _ => simp [increment, small, small']
        | kept shared => exact absurd unique shared
    · simp only [unique, decide_false, Bool.false_eq_true, if_false]
      constructor
      · intro h
        obtain ⟨progress, hp, h⟩ := Except.bind_eq_ok.mp h
        obtain ⟨small, rfl⟩ := increment_eq_ok.mp hp
        cases h
        exact ⟨small, .kept unique⟩
      · rintro ⟨small, advanced⟩
        cases advanced with
        | moved h => exact absurd h unique
        | kept _ => simp [increment, small]
  · simp [advanceAndGetChangedMinClock, checkThreadValid, valid, check_neg]

theorem advance_eq_error {tracker : ProgressTracker} {w : Tid} {e : Fault}
    (valid : w ∈ tracker.threads) (h : tracker.advanceAndGetChangedMinClock w = .error e) :
    e = .overflow := by
  classical
  simp only [advanceAndGetChangedMinClock, checkThreadValid, valid, decide_true, check_pos,
    Except.ok_bind, isUniqueMin_eq valid] at h
  split at h
  · obtain h | ⟨minClock, -, h⟩ := Except.bind_eq_error.mp h
    · exact increment_eq_error h
    · obtain h | ⟨progress, -, h⟩ := Except.bind_eq_error.mp h
      · exact increment_eq_error h
      · cases h
  · obtain h | ⟨progress, -, h⟩ := Except.bind_eq_error.mp h
    · exact increment_eq_error h
    · cases h

/-- The only fault is the overflow of the clock of the thread itself. -/
theorem advance_eq_overflow {tracker : ProgressTracker} {w : Tid} {e : Fault}
    (valid : w ∈ tracker.threads) (h : tracker.advanceAndGetChangedMinClock w = .error e) :
    intMax ≤ tracker.progresses w := by
  classical
  by_contra small
  have advanced : ∃ updated tracker', Advanced tracker w updated tracker' := by
    by_cases unique : tracker.UniqueMin w
    · exact ⟨_, _, .moved unique⟩
    · exact ⟨_, _, .kept unique⟩
  obtain ⟨updated, tracker', advanced⟩ := advanced
  rw [advance_eq_ok.mpr ⟨valid, Nat.lt_of_not_le small, advanced⟩] at h
  cases h

namespace Advanced

variable {tracker tracker' : ProgressTracker} {w : Tid} {updated : Option Nat}

theorem threads (h : Advanced tracker w updated tracker') : tracker'.threads = tracker.threads := by
  cases h <;> rfl

theorem progresses (h : Advanced tracker w updated tracker') :
    tracker'.progresses = Function.update tracker.progresses w (tracker.progresses w + 1) := by
  cases h <;> rfl

/-- The cached minimum stays the minimum of the registered clocks. -/
theorem exact (h : Advanced tracker w updated tracker') (valid : w ∈ tracker.threads)
    (before : tracker.Exact) : tracker'.Exact := by
  cases h with
  | moved unique =>
      refine ⟨fun v member => ?_, fun _ => ⟨w, valid, by simp [unique.1]⟩⟩
      by_cases same : v = w
      · subst same; simp [unique.1]
      · simp only [Function.update_of_ne same]
        have above := before.le v member
        have other : tracker.progresses v ≠ tracker.minClock := fun eq => same (unique.2 v member eq)
        omega
  | kept shared =>
      refine ⟨fun v member => ?_, ?_⟩
      · have above := before.le v member
        by_cases same : v = w
        · subst same; simp only [Function.update_self]; omega
        · simpa only [Function.update_of_ne same] using above
      · -- some holder other than `w` stays where it is
        intro _
        by_cases holder : tracker.progresses w = tracker.minClock
        · have : ∃ v ∈ tracker.threads, tracker.progresses v = tracker.minClock ∧ v ≠ w := by
            by_contra none
            push Not at none
            exact shared ⟨holder, none⟩
          obtain ⟨v, member, eq, ne⟩ := this
          exact ⟨v, member, by simpa only [Function.update_of_ne ne] using eq⟩
        · obtain ⟨v, member, eq⟩ := before.attained (List.ne_nil_of_mem valid)
          have ne : v ≠ w := fun same => holder (same ▸ eq)
          exact ⟨v, member, by simpa only [Function.update_of_ne ne] using eq⟩

theorem minClock_of_none (h : Advanced tracker w none tracker') :
    tracker'.minClock = tracker.minClock := by
  cases h
  rfl

theorem minClock_of_some {minClock : Nat} (h : Advanced tracker w (some minClock) tracker') :
    minClock = tracker.minClock + 1 ∧ tracker'.minClock = tracker.minClock + 1 ∧
      tracker.UniqueMin w := by
  cases h with
  | moved unique => exact ⟨rfl, rfl, unique⟩

theorem minClock_le (h : Advanced tracker w updated tracker') :
    tracker.minClock ≤ tracker'.minClock ∧ tracker'.minClock ≤ tracker.minClock + 1 := by
  cases h <;> simp

end Advanced

/-! ## Sequences of advances -/

/-- The calls of `AdvanceAndGetChangedMinClock` one after the other, with what each returns. -/
def advances (tracker : ProgressTracker) :
    List Tid → Except Fault (List (Option Nat) × ProgressTracker)
  | [] => return ([], tracker)
  | w :: calls => do
      let (updated, tracker) ← tracker.advanceAndGetChangedMinClock w
      let (returned, tracker) ← tracker.advances calls
      return (updated :: returned, tracker)

/-- The least number of advances of a registered id. -/
def minAdvances (tids calls : List Tid) : Nat := (tids.map calls.count).min?.getD 0

theorem minAdvances_eq {tids calls : List Tid} {least : Nat}
    (le : ∀ w ∈ tids, least ≤ calls.count w) (attained : ∃ w ∈ tids, calls.count w = least) :
    minAdvances tids calls = least := by
  have found : (tids.map calls.count).min? = some least := by
    rw [List.min?_eq_some_iff]
    constructor
    · simpa using attained
    · simpa using le
  rw [minAdvances, found, Option.getD_some]

/-- What a call for `w` returns after the calls in `before`. -/
structure Returned (tids before : List Tid) (w : Tid) (updated : Option Nat) : Prop where
  updated_eq : updated =
    if minAdvances tids (before ++ [w]) = minAdvances tids before then none
    else some (minAdvances tids (before ++ [w]))
  moved : minAdvances tids (before ++ [w]) ≠ minAdvances tids before →
    minAdvances tids (before ++ [w]) = minAdvances tids before + 1 ∧
      ∀ v ∈ tids, before.count v = minAdvances tids before ↔ v = w

/-- The tracker of `tids` after the advances in `calls`. -/
structure Counted (tids calls : List Tid) (tracker : ProgressTracker) : Prop where
  threads_eq : tracker.threads = tids.dedup
  progresses_eq : ∀ w, tracker.progresses w = calls.count w
  exact : tracker.Exact

namespace Counted

variable {tids calls : List Tid} {tracker tracker' : ProgressTracker} {w : Tid}
  {updated : Option Nat}

theorem init (tids : List Tid) : Counted tids [] (init tids) where
  threads_eq := rfl
  progresses_eq := fun _ => rfl
  exact := exact_init tids

theorem mem_threads (counted : Counted tids calls tracker) : w ∈ tracker.threads ↔ w ∈ tids := by
  rw [counted.threads_eq, List.mem_dedup]

theorem minClock_eq (counted : Counted tids calls tracker) (nonempty : tids ≠ []) :
    tracker.minClock = minAdvances tids calls := by
  have listed : tracker.threads ≠ [] := by
    obtain ⟨w, member⟩ := List.exists_mem_of_ne_nil _ nonempty
    exact List.ne_nil_of_mem (counted.mem_threads.mpr member)
  symm
  apply minAdvances_eq
  · intro w member
    rw [← counted.progresses_eq]
    exact counted.exact.le w (counted.mem_threads.mpr member)
  · obtain ⟨w, member, holds⟩ := counted.exact.attained listed
    exact ⟨w, counted.mem_threads.mp member, (counted.progresses_eq w).symm.trans holds⟩

/-- One advance: the counts follow, and the call returns the new minimum if it moved. -/
theorem advanced (counted : Counted tids calls tracker) (registered : w ∈ tids)
    (advanced : Advanced tracker w updated tracker') :
    Counted tids (calls ++ [w]) tracker' ∧ Returned tids calls w updated := by
  have nonempty : tids ≠ [] := List.ne_nil_of_mem registered
  have counted' : Counted tids (calls ++ [w]) tracker' := by
    refine ⟨advanced.threads.trans counted.threads_eq, fun v => ?_,
      advanced.exact (counted.mem_threads.mpr registered) counted.exact⟩
    rw [advanced.progresses, List.count_append, List.count_singleton]
    by_cases same : v = w
    · subst same
      simp [counted.progresses_eq]
    · simp [same, Ne.symm same, counted.progresses_eq]
  refine ⟨counted', ?_⟩
  have before := counted.minClock_eq nonempty
  have after := counted'.minClock_eq nonempty
  cases advanced with
  | kept _ =>
      have same : minAdvances tids (calls ++ [w]) = minAdvances tids calls := after.symm.trans before
      exact ⟨by rw [if_pos same], fun moved => absurd same moved⟩
  | moved unique =>
      have grown : minAdvances tids (calls ++ [w]) = minAdvances tids calls + 1 := by
        rw [← after, ← before]
      refine ⟨by rw [if_neg (by omega), grown, before], fun _ => ⟨grown, fun v member => ?_⟩⟩
      rw [← before, ← counted.progresses_eq]
      constructor
      · exact unique.2 v (counted.mem_threads.mpr member)
      · rintro rfl
        exact unique.1

/-- The calls after those in `done`, by induction on them. -/
theorem advances {tids : List Tid} {calls done : List Tid} {tracker : ProgressTracker}
    (counted : Counted tids done tracker) (registered : ∀ w ∈ calls, w ∈ tids) :
    (∃ returned tracker', tracker.advances calls = .ok (returned, tracker') ∧
      Counted tids (done ++ calls) tracker' ∧ returned.length = calls.length ∧
      ∀ before w after, calls = before ++ w :: after →
        ∃ updated, returned[before.length]? = some updated ∧
          Returned tids (done ++ before) w updated) ∨
    (tracker.advances calls = .error .overflow ∧ ∃ w ∈ tids, intMax < (done ++ calls).count w) := by
  induction calls generalizing done tracker with
  | nil =>
      refine .inl ⟨[], tracker, rfl, by simpa using counted, rfl, fun before w after split => ?_⟩
      simp at split
  | cons w calls ih =>
      have valid := counted.mem_threads.mpr (registered w List.mem_cons_self)
      cases call : tracker.advanceAndGetChangedMinClock w with
      | error fault =>
          obtain rfl := advance_eq_error valid call
          have full := advance_eq_overflow valid call
          rw [counted.progresses_eq] at full
          refine .inr ⟨by simp [ProgressTracker.advances, call], w, registered w List.mem_cons_self, ?_⟩
          rw [List.count_append, List.count_cons_self]
          omega
      | ok result =>
          obtain ⟨updated, tracker'⟩ := result
          obtain ⟨-, -, advanced⟩ := advance_eq_ok.mp call
          obtain ⟨counted', now⟩ := counted.advanced (registered w List.mem_cons_self) advanced
          have rest := ih counted' fun v member => registered v (List.mem_cons_of_mem _ member)
          rw [List.append_assoc, List.singleton_append] at rest
          obtain ⟨returned, last, ran, countedLast, length_eq, each⟩ | ⟨failed, tooMany⟩ := rest
          · refine .inl ⟨updated :: returned, last, by simp [ProgressTracker.advances, call, ran],
              countedLast, congrArg (· + 1) length_eq, fun before v after split => ?_⟩
            cases before with
            | nil =>
                obtain ⟨rfl, rfl⟩ := List.cons.inj split
                exact ⟨updated, rfl, by simpa using now⟩
            | cons first before =>
                obtain ⟨rfl, later⟩ := List.cons.inj split
                simpa using each before v after later
          · exact .inr ⟨by simp [ProgressTracker.advances, call, failed], tooMany⟩

end Counted

/-- After any sequence of advances of registered ids, the cached minimum is the least number
    of advances, and every call has returned the minimum if and only if it moved it. The
    sequence is cut short only by an id that advances more than `INT_MAX` times. -/
theorem cached_minimum_exact {tids calls : List Tid} (nonempty : tids ≠ [])
    (registered : ∀ w ∈ calls, w ∈ tids) :
    match (init tids).advances calls with
    | .ok (returned, tracker) =>
        tracker.minClock = minAdvances tids calls ∧
        (∀ w ∈ tids, tracker.getProgress w = .ok (calls.count w)) ∧
        returned.length = calls.length ∧
        ∀ before w after, calls = before ++ w :: after →
          ∃ updated, returned[before.length]? = some updated ∧ Returned tids before w updated
    | .error fault => fault = .overflow ∧ ∃ w ∈ tids, intMax < calls.count w := by
  obtain ⟨returned, tracker, ran, counted, length_eq, each⟩ | ⟨failed, tooMany⟩ :=
    (Counted.init tids).advances registered
  · rw [ran]
    refine ⟨counted.minClock_eq nonempty, fun w member => ?_, length_eq, each⟩
    rw [getProgress_eq (counted.mem_threads.mpr member), counted.progresses_eq, List.nil_append]
  · rw [failed]
    exact ⟨rfl, tooMany⟩

/-- Worker 1 is listed twice and advances twice; worker 2 then moves the minimum. -/
theorem cached_minimum_exact_twoWorkers :
    ∃ tracker, (init [1, 2, 1]).advances [1, 1, 2] = .ok ([none, none, some 1], tracker) ∧
      tracker.minClock = minAdvances [1, 2, 1] [1, 1, 2] ∧ tracker.getProgress 1 = .ok 2 := by
  have holds := @cached_minimum_exact [1, 2, 1] [1, 1, 2] (by decide) (by decide)
  exact ⟨_, rfl, holds.1, holds.2.1 1 (by decide)⟩

end ProgressTracker

end FlexPS
