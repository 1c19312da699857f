import FlexPS.Base.Fault

/-! # Messages -/

namespace FlexPS

/-- `using Key = uint32_t`. -/
abbrev Key := UInt32

/-- Thread ids. The code keeps the same 32 bits as `int` in a message and as
    `uint32_t` in id lists, and only compares them. -/
abbrev Tid := UInt32

-- the default instances would enumerate all of `UInt32`
instance (priority := high) (P : Tid → Prop) [DecidablePred P] (tids : List Tid) :
    Decidable (∀ tid ∈ tids, P tid) := List.decidableBAll P tids

instance (priority := high) (P : Tid → Prop) [DecidablePred P] (tids : List Tid) :
    Decidable (∃ tid ∈ tids, P tid) := List.decidableBEx P tids

inductive Flag where
  | kExit | kBarrier | kResetWorkerInModel | kClock | kAdd | kGet
  deriving DecidableEq, Repr

structure Meta where
  sender : Tid
  recver : Tid
  modelId : UInt32
  flag : Flag
  version : Nat
  deriving DecidableEq, Repr

/-- One array of a message. Keys and thread ids are `uint32_t`; values have the
    table's type. -/
inductive SArray (Val : Type) where
  | u32 (xs : List UInt32)
  | val (xs : List Val)
  deriving DecidableEq, Repr

namespace SArray

variable {Val : Type}

/-- `SArray<uint32_t>(data)`. The system never casts an array of values to keys. -/
def asU32 : SArray Val → List UInt32
  | .u32 xs => xs
  | .val _ => []

/-- `SArray<Val>(data)`. -/
def asVals : SArray Val → List Val
  | .val xs => xs
  | .u32 _ => []

end SArray

structure Message (Val : Type) extends Meta where
  data : List (SArray Val)
  deriving DecidableEq, Repr

namespace Message

variable {Val : Type}

/-- `SArray<Key>(msg.data[0])`. -/
def keys (msg : Message Val) : List Key := (msg.data.head?.map SArray.asU32).getD []

end Message

/-- `CreateMessage` of the tests. -/
def createMessage {Val : Type} (flag : Flag) (modelId : UInt32) (sender recver : Tid)
    (version : Nat) (keys : List Key := []) (values : List Val := []) : Message Val :=
  { sender, recver, modelId, flag, version,
    data := (if keys = [] then [] else [.u32 keys]) ++
      (if values.isEmpty then [] else [.val values]) }

/-- `third_party::Range`, the half-open interval of the keys one server owns. -/
structure Range where
  begin_ : Nat
  end_ : Nat
  deriving DecidableEq, Repr

namespace Range

def size (range : Range) : Nat := range.end_ - range.begin_

/-- `key` lies in `[begin, end)`. -/
def Owns (range : Range) (key : Key) : Prop := range.begin_ ≤ key.toNat ∧ key.toNat < range.end_

instance (range : Range) (key : Key) : Decidable (range.Owns key) :=
  inferInstanceAs (Decidable (_ ∧ _))

end Range

/-- `KVPairs<Val>`. -/
structure KVPairs (Val : Type) where
  keys : List Key
  vals : List Val
  deriving DecidableEq, Repr

/-- The pairs of a message with two arrays. -/
def Message.kvs {Val : Type} (msg : Message Val) : KVPairs Val :=
  match msg.data with
  | [keys, vals] => ⟨keys.asU32, vals.asVals⟩
  | _ => ⟨[], []⟩

end FlexPS
