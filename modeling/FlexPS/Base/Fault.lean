import Mathlib
import FlexPS.Lib.Except

/-! # How a process of the system stops

A failed glog `CHECK` aborts the process. Two kinds of undefined behaviour are
faults of their own: an `int` counter that overflows, and a vector that is
changed while a loop iterates over it.
-/

namespace FlexPS

/-- The assertions of the modelled code. -/
inductive Check where
  /-- `CHECK(CheckThreadValid(tid))` and `CHECK(progress_tracker_.CheckThreadValid(..))`. -/
  | threadValid
  /-- `CHECK(msg.data.size() == 1)`, also spelled `CHECK_EQ`. -/
  | oneArray
  /-- `CHECK(msg.data.size() == 2)`, also spelled `CHECK_EQ`. -/
  | twoArrays
  /-- `CHECK_EQ(typed_keys.size(), typed_vals.size())` in `SubAdd`. -/
  | sameSize
  /-- `CHECK_GE(typed_keys[index], range_.begin())` in `VectorStorage`. -/
  | keyAtLeastBegin
  /-- `CHECK_LT(typed_keys[index], range_.end())` in `VectorStorage`. -/
  | keyBelowEnd
  /-- `CHECK_LE(progress, progress_tracker_.GetMinClock() + 1)` in `BSPModel::Clock`. -/
  | bspClock
  /-- `CHECK(false) << "progress error in BSPModel::Add"`. -/
  | bspAdd
  /-- `CHECK(false) << "progress error in BSPModel::Get"`. -/
  | bspGet
  /-- `CHECK_EQ(message.meta.version, staleness_ + speculation_ + min_clock + 1)` in
      `SparseSSPModel::Clock`. -/
  | clockVersion
  /-- `CHECK(message.meta.version == GetProgress(sender))` in `SparseSSPModel::Add`. -/
  | addVersion
  /-- The version-window `CHECK` in `GetNonConflictMsgs`. -/
  | versionWindow
  /-- `CHECK(false)` in the last branch of `GetNonConflictMsgs`. -/
  | versionBranch
  /-- `DCHECK_LT(future_keys_[msg.meta.sender].size(), speculation_ + 1)` in `AddRecord`. -/
  | futureKeysSize
  /-- `DCHECK(main_recorder_[version].find(key) != main_recorder_[version].end())`. -/
  | keyRecorded
  /-- `CHECK(false) << "Unknown flag in msg"` in `ServerThread::Main`. -/
  | knownFlag
  /-- `DCHECK(range_.end() > range_.begin())` in the constructor of `VectorSparseSSPRecorder`. -/
  | rangeNotEmpty
  /-- `CHECK_GE(speculation_, 0)` in `SparseKVClientTable::Setup_`. -/
  | speculationAtLeast
  /-- `CHECK_LE(speculation_, 50)` in `SparseKVClientTable::Setup_`. -/
  | speculationAtMost
  /-- `CHECK_EQ(get_count_, add_count_)` in `SparseKVClientTable`. -/
  | getAddCount
  /-- `CHECK_LT(.., keys_.size())` in `SparseKVClientTable::Get_`. -/
  | keysLeft
  /-- `CHECK_EQ(total_key, keys.size()) << "lost some servers?"`. -/
  | allServers
  /-- `CHECK_EQ(range.size(), s.keys.size()) << "unmatched keys size from one server"`. -/
  | matchedKeys
  deriving DecidableEq, Repr

/-- Why a handler does not return. -/
inductive Fault where
  | check (failed : Check)
  /-- Signed overflow of a clock. -/
  | overflow
  /-- A vector is changed while a range loop iterates over it. -/
  | invalidated
  /-- An access outside a vector. -/
  | outOfRange
  /-- An integer division by zero. -/
  | divByZero
  deriving DecidableEq, Repr

/-- `CHECK(condition)`. -/
def check (c : Check) (condition : Prop) [Decidable condition] : Except Fault Unit :=
  if condition then .ok () else .error (.check c)

@[simp] theorem check_eq_ok {c : Check} {condition : Prop} [Decidable condition] {u : Unit} :
    check c condition = .ok u ↔ condition := by
  unfold check
  split <;> simp_all

theorem check_pos {c : Check} {condition : Prop} [Decidable condition] (h : condition) :
    check c condition = .ok () := check_eq_ok.mpr h

theorem check_neg {c : Check} {condition : Prop} [Decidable condition] (h : ¬ condition) :
    check c condition = .error (.check c) := if_neg h

theorem check_eq_error {c : Check} {condition : Prop} [Decidable condition] {e : Fault} :
    check c condition = .error e ↔ ¬ condition ∧ e = .check c := by
  unfold check
  split <;> simp_all [eq_comm]

/-- The largest `int`. -/
def intMax : Nat := 2147483647

/-- `x += 1` on an `int` that is not negative. -/
def increment (x : Nat) : Except Fault Nat :=
  if x < intMax then .ok (x + 1) else .error .overflow

theorem increment_eq_ok {x y : Nat} : increment x = .ok y ↔ x < intMax ∧ y = x + 1 := by
  unfold increment
  split <;> simp_all [eq_comm]

theorem increment_eq_error {x : Nat} {e : Fault} (h : increment x = .error e) : e = .overflow := by
  unfold increment at h
  split at h <;> simp_all

end FlexPS
