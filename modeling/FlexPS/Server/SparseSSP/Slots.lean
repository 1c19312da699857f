import FlexPS.Lib.Window
import FlexPS.Server.SparseSSP.Recorder

/-! # What a main recorder stands for

Abstractly a main recorder is a count for every version and key, and one list of
held requests, each with the slot it waits at. Both representations of the
source stand for such slots: the map for all of them, the ring of levels only
for the versions of a window that is no longer than the ring, and only as long as
the indices it computes fit an `int`.
-/

namespace FlexPS

structure Slots (Val : Type) where
  counts : Nat → Key → Nat
  held : List ((Nat × Key) × Message Val)

namespace Slots

variable {Val : Type}

def pendingAt (slots : Slots Val) (version : Nat) (key : Key) : List (Message Val) :=
  (slots.held.filter (fun h => h.1 = (version, key))).map Prod.snd

def setCount (slots : Slots Val) (version : Nat) (key : Key) (count : Nat) : Slots Val :=
  { slots with counts := fun v k => if v = version ∧ k = key then count else slots.counts v k }

def increment (slots : Slots Val) (version : Nat) (key : Key) : Slots Val :=
  slots.setCount version key (slots.counts version key + 1)

/-- The counts of one level raised by the multiplicity of each key. -/
def addKeys (slots : Slots Val) (version : Nat) (keys : List Key) : Slots Val :=
  { slots with counts := fun v k => slots.counts v k + if v = version then keys.count k else 0 }

def hold (slots : Slots Val) (version : Nat) (key : Key) (msg : Message Val) : Slots Val :=
  { slots with held := slots.held ++ [((version, key), msg)] }

/-- The slot after a decrement, and the requests it lets go. -/
def decrement (slots : Slots Val) (version : Nat) (key : Key) : Slots Val × List (Message Val) :=
  let count := decrementUint32 (slots.counts version key)
  if count = 0 then
    ({ slots.setCount version key count with
        held := slots.held.filter (fun h => h.1 ≠ (version, key)) }, slots.pendingAt version key)
  else
    (slots.setCount version key count, [])

def removeRecord (slots : Slots Val) (version : Nat) : Slots Val :=
  { counts := fun v k => if v = version then 0 else slots.counts v k
    held := slots.held.filter (fun h => h.1.1 ≠ version) }

instance : MainRecorder Val (Slots Val) where
  count := counts
  pending := pendingAt
  hasKey slots version key := slots.counts version key > 0
  increment slots version key := .ok (slots.increment version key)
  hold slots version key msg := .ok (slots.hold version key msg)
  decrement _ slots version key := .ok (slots.decrement version key)
  removeRecord := removeRecord

/-- Requests wait only at slots that are still counted. -/
def Live (slots : Slots Val) : Prop := ∀ h ∈ slots.held, 0 < slots.counts h.1.1 h.1.2

theorem counts_decrement (slots : Slots Val) (version : Nat) (key : Key) (v : Nat) (k : Key) :
    (slots.decrement version key).1.counts v k =
      if v = version ∧ k = key then decrementUint32 (slots.counts version key)
      else slots.counts v k := by
  simp only [decrement]
  split <;> rfl

theorem pendingAt_eq_nil {slots : Slots Val} (live : slots.Live) {version : Nat} {key : Key}
    (empty : slots.counts version key = 0) : slots.pendingAt version key = [] := by
  rw [pendingAt, List.map_eq_nil_iff, List.filter_eq_nil_iff]
  intro h member here
  have positive := live h member
  rw [show h.1 = (version, key) by simpa using here] at positive
  exact absurd empty (Nat.pos_iff_ne_zero.mp positive)

theorem pendingAt_hold (slots : Slots Val) (version : Nat) (key : Key) (msg : Message Val)
    (v : Nat) (k : Key) :
    (slots.hold version key msg).pendingAt v k =
      slots.pendingAt v k ++ if v = version ∧ k = key then [msg] else [] := by
  by_cases here : v = version ∧ k = key
  · obtain ⟨rfl, rfl⟩ := here
    simp [pendingAt, hold]
  · have apart : ¬ (version, key) = (v, k) := fun eq => here (by simpa [eq_comm] using eq)
    rw [if_neg here]
    simp [pendingAt, hold, apart]

theorem pendingAt_decrement (slots : Slots Val) (version : Nat) (key : Key) (v : Nat) (k : Key) :
    (slots.decrement version key).1.pendingAt v k =
      if decrementUint32 (slots.counts version key) = 0 ∧ v = version ∧ k = key then []
      else slots.pendingAt v k := by
  simp only [decrement]
  split
  · next zero =>
      simp only [zero, true_and, pendingAt, List.filter_filter]
      split
      · next here =>
          obtain ⟨rfl, rfl⟩ := here
          rw [List.map_eq_nil_iff, List.filter_eq_nil_iff]
          simp
      · next apart =>
          congr 1
          apply List.filter_congr
          intro h _
          by_cases at' : h.1 = (v, k)
          · have : ¬ (v, k) = (version, key) := fun eq => apart (by simpa using eq)
            simp [at', this]
          · simp [at']
  · next positive =>
      rw [if_neg (fun h => positive h.1)]
      rfl

theorem taken_decrement (slots : Slots Val) (version : Nat) (key : Key) :
    (slots.decrement version key).2 =
      if decrementUint32 (slots.counts version key) = 0 then slots.pendingAt version key
      else [] := by
  simp only [decrement]
  split <;> rfl

theorem live_increment {slots : Slots Val} (live : slots.Live) (version : Nat) (key : Key) :
    (slots.increment version key).Live := by
  intro h member
  have positive := live h member
  simp only [increment, setCount]
  split
  · exact Nat.succ_pos _
  · exact positive

theorem live_hold {slots : Slots Val} (live : slots.Live) {version : Nat} {key : Key}
    (counted : 0 < slots.counts version key) (msg : Message Val) :
    (slots.hold version key msg).Live := by
  intro h member
  rcases List.mem_append.mp member with old | new
  · exact live h old
  · obtain rfl := List.mem_singleton.mp new
    exact counted

theorem live_decrement {slots : Slots Val} (live : slots.Live) (version : Nat) (key : Key) :
    (slots.decrement version key).1.Live := by
  intro h member
  rw [counts_decrement]
  simp only [decrement] at member
  split at member
  · next zero =>
      obtain ⟨old, apart⟩ := List.mem_filter.mp member
      have : ¬ (h.1.1 = version ∧ h.1.2 = key) := by
        intro here
        exact (of_decide_eq_true apart) (Prod.ext here.1 here.2)
      rw [if_neg this]
      exact live h old
  · next positive =>
      split
      · exact Nat.pos_of_ne_zero positive
      · exact live h member

/-- Removing a level whose counts are zero removes nothing. -/
theorem removeRecord_eq {slots : Slots Val} (live : slots.Live) {version : Nat}
    (empty : ∀ key, slots.counts version key = 0) : slots.removeRecord version = slots := by
  have counts : (slots.removeRecord version).counts = slots.counts := by
    funext v k
    simp only [removeRecord]
    split
    · next same => rw [same, empty]
    · rfl
  have held : (slots.removeRecord version).held = slots.held := by
    apply List.filter_eq_self.mpr
    intro h member
    have positive := live h member
    have : h.1.1 ≠ version := fun same => by rw [same, empty] at positive; exact absurd positive (by simp)
    simpa using this
  calc slots.removeRecord version
      = ⟨(slots.removeRecord version).counts, (slots.removeRecord version).held⟩ := rfl
    _ = slots := by rw [counts, held]

end Slots

/-- The keys a main recorder can index, when it forwards a request to their slot and when it
    removes them. -/
structure Limits where
  Holds : Key → Prop
  Removes : Key → Prop

/-- Some of the keys are past the limits. -/
def Limits.Exceeded (limits : Limits) (keys : Key → Prop) : Prop :=
  ∃ key, keys key ∧ ¬ (limits.Holds key ∧ limits.Removes key)

def Limits.unlimited : Limits := ⟨fun _ => True, fun _ => True⟩

/-- The limits of a ring: the indices are `int`s. -/
def Limits.ofRange (range : Range) : Limits :=
  ⟨fun key => key.toNat ≤ intMax, fun key => key.toNat - range.begin_ ≤ intMax⟩

/-- A representation of the slots, faithful at the given versions and keys: within the limits
    every operation at such a slot commutes with the abstract one. -/
structure Represents {Val Main : Type} [MainRecorder Val Main] (limits : Limits)
    (versions : Nat → Prop) (keys : Key → Prop) (R : Main → Slots Val → Prop) : Prop where
  live {main slots} : R main slots → slots.Live
  count {main slots version key} : R main slots → versions version → keys key →
    MainRecorder.count main version key = slots.counts version key
  pending {main slots version key} : R main slots → versions version → keys key →
    MainRecorder.pending main version key = slots.pendingAt version key
  hasKey {main slots version key} : R main slots → versions version → keys key →
    MainRecorder.hasKey main version key = decide (0 < slots.counts version key)
  increment {main slots version key} : R main slots → versions version → keys key →
    ∃ main', MainRecorder.increment main version key = .ok main' ∧
      R main' (slots.increment version key)
  hold {main slots version key} : R main slots → versions version → keys key →
    0 < slots.counts version key → ∀ msg,
      (limits.Holds key → ∃ main', MainRecorder.hold main version key msg = .ok main' ∧
        R main' (slots.hold version key msg)) ∧
      (¬ limits.Holds key → MainRecorder.hold main version key msg = .error .outOfRange)
  decrement {main slots version key} : R main slots → versions version → keys key →
    0 < slots.counts version key → ∀ dcheckIsOn,
      (limits.Removes key → ∃ main', MainRecorder.decrement dcheckIsOn main version key =
          .ok (main', (slots.decrement version key).2) ∧ R main' (slots.decrement version key).1) ∧
      (¬ limits.Removes key →
        MainRecorder.decrement dcheckIsOn main version key = .error .outOfRange)
  removeRecord {main slots version} : R main slots → (∀ key, slots.counts version key = 0) →
    R (MainRecorder.removeRecord main version) slots

/-- What is faithful somewhere is faithful at some of these versions and keys. -/
theorem Represents.restrict {Val Main : Type} [MainRecorder Val Main] {limits : Limits}
    {versions versions' : Nat → Prop} {keys keys' : Key → Prop} {R : Main → Slots Val → Prop}
    (h : Represents limits versions keys R) (fewer : ∀ version, versions' version → versions version)
    (fewer' : ∀ key, keys' key → keys key) : Represents limits versions' keys' R where
  live models := h.live models
  count models inside owned := h.count models (fewer _ inside) (fewer' _ owned)
  pending models inside owned := h.pending models (fewer _ inside) (fewer' _ owned)
  hasKey models inside owned := h.hasKey models (fewer _ inside) (fewer' _ owned)
  increment models inside owned := h.increment models (fewer _ inside) (fewer' _ owned)
  hold models inside owned := h.hold models (fewer _ inside) (fewer' _ owned)
  decrement models inside owned := h.decrement models (fewer _ inside) (fewer' _ owned)
  removeRecord models := h.removeRecord models

section Instances

variable {Val : Type}

/-- The map has a slot exactly where something is counted. -/
structure MapRecorder.Models (main : MapRecorder Val) (slots : Slots Val) : Prop where
  live : slots.Live
  slot : ∀ version key, main.slots version key =
    if 0 < slots.counts version key then
      some (slots.counts version key, slots.pendingAt version key)
    else none

theorem MapRecorder.Models.slot_eq {main : MapRecorder Val} {slots : Slots Val}
    (models : main.Models slots) (version : Nat) (key : Key) :
    main.slot version key = (slots.counts version key, slots.pendingAt version key) := by
  rw [MapRecorder.slot, models.slot]
  split
  · rfl
  · next zero =>
      have empty : slots.counts version key = 0 := by omega
      rw [Slots.pendingAt_eq_nil models.live empty, empty, Option.getD_none]

/-- What a change of one slot of a map has to establish. -/
private theorem MapRecorder.Models.set {main : MapRecorder Val} {slots slots' : Slots Val}
    (models : main.Models slots) {version : Nat} {key : Key}
    {slot : Option (Nat × List (Message Val))} (live : slots'.Live)
    (here : slot = if 0 < slots'.counts version key then
        some (slots'.counts version key, slots'.pendingAt version key) else none)
    (elsewhere : ∀ v k, ¬ (v = version ∧ k = key) →
      slots'.counts v k = slots.counts v k ∧ slots'.pendingAt v k = slots.pendingAt v k) :
    (main.setSlot version key slot).Models slots' where
  live := live
  slot v k := by
    simp only [MapRecorder.setSlot]
    split
    · next same => rw [here, same.1, same.2]
    · next other => rw [models.slot, (elsewhere v k other).1, (elsewhere v k other).2]

theorem MapRecorder.represents :
    Represents .unlimited (fun _ => True) (fun _ => True)
      (MapRecorder.Models : MapRecorder Val → Slots Val → Prop) where
  live models := models.live
  count models _ _ := by simp [MainRecorder.count, models.slot_eq]
  pending models _ _ := by simp [MainRecorder.pending, models.slot_eq]
  hasKey models _ _ := by
    simp only [MainRecorder.hasKey, models.slot]
    split <;> simp_all
  increment := by
    intro main slots version key models _ _
    refine ⟨main.increment version key, rfl,
      models.set (Slots.live_increment models.live _ _) ?_ ?_⟩
    · rw [models.slot_eq]
      simp [Slots.increment, Slots.setCount, Slots.pendingAt]
    · intro v k other
      simp [Slots.increment, Slots.setCount, other, Slots.pendingAt]
  hold := by
    intro main slots version key models _ _ counted msg
    refine ⟨fun _ => ⟨main.hold version key msg, rfl,
      models.set (Slots.live_hold models.live counted msg) ?_ ?_⟩, fun limited => absurd trivial limited⟩
    · rw [models.slot_eq, Slots.pendingAt_hold]
      simp [Slots.hold, counted]
    · intro v k other
      rw [Slots.pendingAt_hold]
      simp [Slots.hold, other]
  decrement := by
    intro main slots version key models _ _ counted dcheckIsOn
    have present : (main.slots version key).isSome = true := by rw [models.slot, if_pos counted]; rfl
    have live := Slots.live_decrement models.live version key
    refine ⟨fun _ => ?_, fun limited => absurd trivial limited⟩
    simp only [MainRecorder.decrement, MapRecorder.decrement, check_pos present, ite_self,
      Except.ok_bind, models.slot_eq]
    by_cases zero : decrementUint32 (slots.counts version key) = 0
    · refine ⟨main.setSlot version key none, by simp [Slots.taken_decrement, zero],
        models.set live ?_ ?_⟩
      · simp [Slots.counts_decrement, zero]
      · intro v k other
        simp [Slots.counts_decrement, Slots.pendingAt_decrement, other]
    · refine ⟨main.setSlot version key
          (some (decrementUint32 (slots.counts version key), slots.pendingAt version key)),
        by simp [Slots.taken_decrement, zero], models.set live ?_ ?_⟩
      · simp [Slots.counts_decrement, Slots.pendingAt_decrement, zero, Nat.pos_of_ne_zero zero]
      · intro v k other
        simp [Slots.counts_decrement, Slots.pendingAt_decrement, other]
  removeRecord := by
    intro main slots version models empty
    refine ⟨models.live, fun v k => ?_⟩
    simp only [MainRecorder.removeRecord]
    split
    · next same => rw [same, empty, if_neg (by simp)]
    · exact models.slot v k

/-- The ring stands for the slots of a window of versions; nothing outside the
    window is counted. -/
structure VectorRecorder.Models (first size : Nat) (range : Range) (main : VectorRecorder Val)
    (slots : Slots Val) : Prop where
  live : slots.Live
  size_eq : main.mainRecorderVersionLevelSize = size
  range_eq : main.range = range
  slot : ∀ version key, Window.Inside first size version → range.Owns key →
    main.slot version key = (slots.counts version key, slots.pendingAt version key)

theorem VectorRecorder.throughInt_pos {index : Nat} (small : index ≤ intMax) :
    throughInt index = .ok () := if_pos small

theorem VectorRecorder.throughInt_neg {index : Nat} (large : ¬ index ≤ intMax) :
    throughInt index = .error .outOfRange := if_neg large

private theorem VectorRecorder.Models.set {first size : Nat} {range : Range}
    {main : VectorRecorder Val} {slots slots' : Slots Val}
    (models : main.Models first size range slots) {version : Nat} {key : Key}
    {slot : Nat × List (Message Val)} (inside : Window.Inside first size version)
    (owned : range.Owns key) (live : slots'.Live)
    (here : slot = (slots'.counts version key, slots'.pendingAt version key))
    (elsewhere : ∀ v k, ¬ (v = version ∧ k = key) →
      slots'.counts v k = slots.counts v k ∧ slots'.pendingAt v k = slots.pendingAt v k) :
    (main.setSlot version key slot).Models first size range slots' where
  live := live
  size_eq := models.size_eq
  range_eq := models.range_eq
  slot v k insideV ownedK := by
    simp only [VectorRecorder.slot, VectorRecorder.setSlot]
    split
    · next same =>
        rw [models.size_eq, models.range_eq] at same
        have sameVersion := Window.mod_injective insideV inside same.1
        have sameKey : k = key := by
          apply UInt32.toNat_inj.mp
          have := ownedK.1
          have := owned.1
          omega
        rw [here, sameVersion, sameKey]
    · next apart =>
        have other : ¬ (v = version ∧ k = key) := fun same => apart ⟨by rw [same.1], by rw [same.2]⟩
        rw [(elsewhere v k other).1, (elsewhere v k other).2]
        exact models.slot v k insideV ownedK

theorem VectorRecorder.represents (first size : Nat) (range : Range) :
    Represents (.ofRange range) (Window.Inside first size) range.Owns
      (VectorRecorder.Models first size range : VectorRecorder Val → Slots Val → Prop) where
  live models := models.live
  count models inside owned := by simp [MainRecorder.count, models.slot _ _ inside owned]
  pending models inside owned := by simp [MainRecorder.pending, models.slot _ _ inside owned]
  hasKey models inside owned := by simp [MainRecorder.hasKey, models.slot _ _ inside owned]
  increment := by
    intro main slots version key models inside owned
    refine ⟨main.setSlot version key
        ((main.slot version key).1 + 1, (main.slot version key).2), ?_,
      models.set inside owned (Slots.live_increment models.live _ _) ?_ ?_⟩
    · simp only [MainRecorder.increment, VectorRecorder.increment, models.range_eq, if_pos owned]
    · rw [models.slot _ _ inside owned]
      simp [Slots.increment, Slots.setCount, Slots.pendingAt]
    · intro v k other
      simp [Slots.increment, Slots.setCount, other, Slots.pendingAt]
  hold := by
    intro main slots version key models inside owned counted msg
    refine ⟨fun small => ?_, fun large => ?_⟩
    · refine ⟨main.setSlot version key
          ((main.slot version key).1, (main.slot version key).2 ++ [msg]), ?_,
        models.set inside owned (Slots.live_hold models.live counted msg) ?_ ?_⟩
      · simp only [MainRecorder.hold, VectorRecorder.hold, VectorRecorder.throughInt_pos small, Except.ok_bind,
          Except.pure_eq_ok]
      · rw [models.slot _ _ inside owned, Slots.pendingAt_hold]
        simp [Slots.hold]
      · intro v k other
        rw [Slots.pendingAt_hold]
        simp [Slots.hold, other]
    · simp only [MainRecorder.hold, VectorRecorder.hold, VectorRecorder.throughInt_neg large,
        Except.error_bind]
  decrement := by
    intro main slots version key models inside owned counted dcheckIsOn
    have live := Slots.live_decrement models.live version key
    refine ⟨fun small => ?_, fun large => ?_⟩
    · replace small : key.toNat - main.range.begin_ ≤ intMax := models.range_eq ▸ small
      simp only [MainRecorder.decrement, VectorRecorder.decrement, models.slot _ _ inside owned,
        VectorRecorder.throughInt_pos small, Except.ok_bind]
      by_cases zero : decrementUint32 (slots.counts version key) = 0
      · refine ⟨main.setSlot version key (0, []), by simp [Slots.taken_decrement, zero],
          models.set inside owned live ?_ ?_⟩
        · simp [Slots.counts_decrement, Slots.pendingAt_decrement, zero]
        · intro v k other
          simp [Slots.counts_decrement, Slots.pendingAt_decrement, other]
      · refine ⟨main.setSlot version key
            (decrementUint32 (slots.counts version key), slots.pendingAt version key),
          by simp [Slots.taken_decrement, zero], models.set inside owned live ?_ ?_⟩
        · simp [Slots.counts_decrement, Slots.pendingAt_decrement, zero]
        · intro v k other
          simp [Slots.counts_decrement, Slots.pendingAt_decrement, other]
    · replace large : ¬ key.toNat - main.range.begin_ ≤ intMax := models.range_eq ▸ large
      simp only [MainRecorder.decrement, VectorRecorder.decrement, VectorRecorder.throughInt_neg large,
        Except.error_bind]
  removeRecord models _ := models

/-- The window moves on when its first level and the level it takes in are empty. -/
theorem VectorRecorder.Models.shift {first size : Nat} {range : Range} {main : VectorRecorder Val}
    {slots : Slots Val} (models : main.Models first size range slots) (positive : 0 < size)
    (emptyFirst : ∀ key, slots.counts first key = 0)
    (emptyNext : ∀ key, slots.counts (first + size) key = 0) :
    main.Models (first + 1) size range slots where
  live := models.live
  size_eq := models.size_eq
  range_eq := models.range_eq
  slot version key inside owned := by
    by_cases next : version = first + size
    · -- the new last level reuses the slots of the old first level
      have reused : main.slot version key = main.slot first key := by
        simp only [VectorRecorder.slot, next, models.size_eq, Nat.add_mod_right]
      have before := models.slot first key ⟨Nat.le_refl _, by omega⟩ owned
      rw [reused, before, next, emptyFirst, emptyNext,
        Slots.pendingAt_eq_nil models.live (emptyFirst key),
        Slots.pendingAt_eq_nil models.live (emptyNext key)]
    · obtain ⟨above, below⟩ := inside
      exact models.slot version key ⟨by omega, by omega⟩ owned

end Instances

end FlexPS
