import FlexPS.Base.Message

/-! # Parameter storage

`AbstractStorage` with its two implementations. Values form a commutative
monoid: what a storage returns depends on the multiset of `Add`s it has applied,
not on their order.
-/

namespace FlexPS

/-- `VectorStorage`: one value for each key of the range. -/
structure VectorStorage (Val : Type) where
  range : Range
  storage : List Val
  size_eq : storage.length = range.size

inductive Storage (Val : Type) where
  /-- `MapStorage`; a key never written holds `Val()`. -/
  | map (storage : Key → Val)
  | vector (storage : VectorStorage Val)

/-- The values a list of key-value pairs adds to `key`, summed. -/
def KVPairs.contribution {Val : Type} [AddCommMonoid Val] (kvs : KVPairs Val) (key : Key) : Val :=
  (((kvs.keys.zip kvs.vals).filter (fun kv => kv.1 = key)).map Prod.snd).sum

theorem KVPairs.contribution_of_absent {Val : Type} [AddCommMonoid Val] {kvs : KVPairs Val} {key : Key}
    (absent : key ∉ kvs.keys) : kvs.contribution key = 0 := by
  have none : (kvs.keys.zip kvs.vals).filter (fun kv => kv.1 = key) = [] := by
    refine List.filter_eq_nil_iff.mpr fun kv member same => absent ?_
    exact of_decide_eq_true same ▸ (List.of_mem_zip member).1
  rw [contribution, none]
  rfl

namespace Storage

variable {Val : Type} [AddCommMonoid Val]

/-- `storage_[key] += val`. -/
def addAt : Storage Val → Key × Val → Except Fault (Storage Val)
  | .map storage, (key, val) => .ok (.map (Function.update storage key (storage key + val)))
  | .vector ⟨range, storage, size_eq⟩, (key, val) => do
      check .keyAtLeastBegin (range.begin_ ≤ key.toNat)
      check .keyBelowEnd (key.toNat < range.end_)
      return .vector ⟨range, storage.modify (key.toNat - range.begin_) (· + val),
        by rw [List.length_modify, size_eq]⟩

/-- `reply_vals[i] = storage_[key]`. -/
def getAt : Storage Val → Key → Except Fault Val
  | .map storage, key => .ok (storage key)
  | .vector ⟨range, storage, _⟩, key => do
      check .keyAtLeastBegin (range.begin_ ≤ key.toNat)
      check .keyBelowEnd (key.toNat < range.end_)
      return storage.getD (key.toNat - range.begin_) 0

def subAdd (storage : Storage Val) (keys : List Key) (vals : List Val) :
    Except Fault (Storage Val) := do
  check .sameSize (keys.length = vals.length)
  (keys.zip vals).foldlM addAt storage

def subGet (storage : Storage Val) (keys : List Key) : Except Fault (List Val) :=
  keys.mapM storage.getAt

def add (storage : Storage Val) (msg : Message Val) : Except Fault (Storage Val) :=
  match msg.data with
  | [keys, vals] => storage.subAdd keys.asU32 vals.asVals
  | _ => .error (.check .twoArrays)

def get (storage : Storage Val) (msg : Message Val) : Except Fault (Message Val) :=
  match msg.data with
  | [keys] => do
      let vals ← storage.subGet keys.asU32
      return { sender := msg.recver, recver := msg.sender, modelId := msg.modelId, flag := msg.flag,
               version := msg.version, data := [.u32 keys.asU32, .val vals] }
  | _ => .error (.check .oneArray)

/-- Both storages do nothing at the end of an iteration. -/
def finishIter (storage : Storage Val) : Storage Val := storage

/-- The value of `key`; a storage without the key reads as zero. -/
def value : Storage Val → Key → Val
  | .map storage, key => storage key
  | .vector ⟨range, storage, _⟩, key =>
      if range.Owns key then storage.getD (key.toNat - range.begin_) 0 else 0

/-- The keys the storage accepts. -/
def Holds : Storage Val → Key → Prop
  | .map _, _ => True
  | .vector ⟨range, _, _⟩, key => range.Owns key

theorem getAt_eq_ok {storage : Storage Val} {key : Key} {val : Val} :
    storage.getAt key = .ok val ↔ storage.Holds key ∧ val = storage.value key := by
  cases storage with
  | map storage => simp [getAt, Holds, value, eq_comm]
  | vector storage =>
      simp only [getAt, Holds, value, Except.bind_eq_ok, check_eq_ok, exists_const]
      constructor
      · rintro ⟨above, below, h⟩
        cases h
        exact ⟨⟨above, below⟩, (if_pos ⟨above, below⟩).symm⟩
      · rintro ⟨owned, rfl⟩
        rw [if_pos owned]
        exact ⟨owned.1, owned.2, rfl⟩

theorem subGet_eq_ok {storage : Storage Val} {keys : List Key} {vals : List Val} :
    storage.subGet keys = .ok vals ↔
      (∀ key ∈ keys, storage.Holds key) ∧ vals = keys.map storage.value := by
  rw [subGet, Except.mapM_eq_ok_iff]
  simp only [getAt_eq_ok]
  constructor
  · intro h
    induction h with
    | nil => simp
    | cons head _ ih => exact ⟨by simpa using ⟨head.1, ih.1⟩, by rw [head.2, ih.2, List.map_cons]⟩
  · rintro ⟨held, rfl⟩
    rw [List.forall₂_map_right_iff]
    exact List.forall₂_same.mpr fun key member => ⟨held key member, rfl⟩

/-- The reply to a `Get` of `keys`. -/
def replyTo (storage : Storage Val) (msg : Message Val) : Message Val :=
  { sender := msg.recver, recver := msg.sender, modelId := msg.modelId, flag := msg.flag,
    version := msg.version, data := [.u32 msg.keys, .val (msg.keys.map storage.value)] }

theorem get_eq_ok {storage : Storage Val} {msg reply : Message Val} :
    storage.get msg = .ok reply ↔ msg.data.length = 1 ∧
      (∀ key ∈ msg.keys, storage.Holds key) ∧ reply = storage.replyTo msg := by
  rcases h : msg.data with _ | ⟨keys, _ | ⟨second, rest⟩⟩
  · simp [get, h]
  · simp only [get, h, Except.bind_eq_ok, subGet_eq_ok, List.length_singleton, true_and,
      Message.keys, replyTo, List.head?_cons, Option.map_some, Option.getD_some]
    constructor
    · rintro ⟨vals, ⟨held, rfl⟩, h⟩
      cases h
      exact ⟨held, rfl⟩
    · rintro ⟨held, rfl⟩
      exact ⟨_, ⟨held, rfl⟩, rfl⟩
  · simp [get, h]

theorem addAt_spec {storage storage' : Storage Val} {kv : Key × Val}
    (h : storage.addAt kv = .ok storage') :
    (∀ key, storage'.Holds key ↔ storage.Holds key) ∧
      ∀ key, storage'.value key = storage.value key + if kv.1 = key then kv.2 else 0 := by
  obtain ⟨k, v⟩ := kv
  cases storage with
  | map storage =>
      cases h
      refine ⟨fun _ => Iff.rfl, fun key => ?_⟩
      by_cases same : k = key
      · subst same; simp [value]
      · simp [value, same, Function.update_of_ne (Ne.symm same)]
  | vector storage =>
      obtain ⟨range, storage, size_eq⟩ := storage
      simp only [addAt, Except.bind_eq_ok, check_eq_ok, exists_const] at h
      obtain ⟨above, below, h⟩ := h
      cases h
      refine ⟨fun _ => Iff.rfl, fun key => ?_⟩
      simp only [value]
      by_cases owned : range.Owns key
      · simp only [if_pos owned, List.getD_eq_getElem?_getD, List.getElem?_modify]
        have inside : key.toNat - range.begin_ < storage.length := by
          rw [size_eq]; simp only [Range.size]; have := owned.1; have := owned.2; omega
        rw [List.getElem?_eq_getElem inside]
        by_cases same : k = key
        · subst same; simp
        · have apart : k.toNat - range.begin_ ≠ key.toNat - range.begin_ := by
            intro eq
            have := owned.1
            exact same (UInt32.toNat_inj.mp (by omega))
          simp [same, apart]
      · have other : k ≠ key := fun same => owned (same ▸ ⟨above, below⟩)
        simp [if_neg owned, other]

theorem addAt_ok {storage : Storage Val} {kv : Key × Val} (held : storage.Holds kv.1) :
    ∃ storage', storage.addAt kv = .ok storage' := by
  obtain ⟨k, v⟩ := kv
  cases storage with
  | map storage => exact ⟨_, rfl⟩
  | vector storage => exact ⟨_, by simp [addAt, check_pos held.1, check_pos held.2]; rfl⟩

private theorem foldlM_addAt_spec {pairs : List (Key × Val)} {storage storage' : Storage Val}
    (h : pairs.foldlM addAt storage = .ok storage') :
    (∀ key, storage'.Holds key ↔ storage.Holds key) ∧
      ∀ key, storage'.value key =
        storage.value key + ((pairs.filter (fun kv => kv.1 = key)).map Prod.snd).sum := by
  induction pairs generalizing storage with
  | nil => cases h; simp
  | cons kv rest ih =>
      obtain ⟨middle, hfirst, hrest⟩ := Except.bind_eq_ok.mp h
      obtain ⟨holdsFirst, valueFirst⟩ := addAt_spec hfirst
      obtain ⟨holdsRest, valueRest⟩ := ih hrest
      refine ⟨fun key => (holdsRest key).trans (holdsFirst key), fun key => ?_⟩
      rw [valueRest, valueFirst]
      by_cases same : kv.1 = key <;> simp [same, add_assoc]

/-- An `Add` keeps the keys and adds its contribution to each. -/
theorem subAdd_spec {storage storage' : Storage Val} {kvs : KVPairs Val}
    (h : storage.subAdd kvs.keys kvs.vals = .ok storage') :
    (∀ key, storage'.Holds key ↔ storage.Holds key) ∧
      ∀ key, storage'.value key = storage.value key + kvs.contribution key := by
  simp only [subAdd, Except.bind_eq_ok, check_eq_ok, exists_const] at h
  exact foldlM_addAt_spec h.2

theorem add_spec {storage storage' : Storage Val} {msg : Message Val}
    (h : storage.add msg = .ok storage') :
    (∀ key, storage'.Holds key ↔ storage.Holds key) ∧
      ∀ key, storage'.value key = storage.value key + msg.kvs.contribution key := by
  unfold add at h
  split at h
  · next keys vals data_eq =>
      have kvs_eq : msg.kvs = ⟨keys.asU32, vals.asVals⟩ := by rw [Message.kvs, data_eq]
      rw [kvs_eq]
      exact subAdd_spec h
  · cases h

/-- Several `Add`s one after the other. -/
theorem foldlM_add_spec {msgs : List (Message Val)} {storage storage' : Storage Val}
    (h : msgs.foldlM add storage = .ok storage') (key : Key) :
    storage'.value key = storage.value key + (msgs.map fun msg => msg.kvs.contribution key).sum := by
  induction msgs generalizing storage with
  | nil =>
      cases h
      simp
  | cons msg rest ih =>
      obtain ⟨middle, hfirst, hrest⟩ := Except.bind_eq_ok.mp h
      rw [ih hrest, (add_spec hfirst).2, List.map_cons, List.sum_cons, add_assoc]

/-- Only the checks of a storage can fail in it. -/
def StorageCheck (c : Check) : Prop :=
  c = .oneArray ∨ c = .twoArrays ∨ c = .sameSize ∨ c = .keyAtLeastBegin ∨ c = .keyBelowEnd

theorem addAt_error {storage : Storage Val} {kv : Key × Val} {e : Fault}
    (h : storage.addAt kv = .error e) : ∃ c, StorageCheck c ∧ e = .check c := by
  cases storage with
  | map => cases h
  | vector storage =>
      obtain h | ⟨_, -, h⟩ := Except.bind_eq_error.mp h
      · exact ⟨_, by simp [StorageCheck], (check_eq_error.mp h).2⟩
      · obtain h | ⟨_, -, h⟩ := Except.bind_eq_error.mp h
        · exact ⟨_, by simp [StorageCheck], (check_eq_error.mp h).2⟩
        · cases h

theorem add_error {storage : Storage Val} {msg : Message Val} {e : Fault}
    (h : storage.add msg = .error e) : ∃ c, StorageCheck c ∧ e = .check c := by
  unfold add at h
  split at h
  · obtain h | ⟨_, -, h⟩ := Except.bind_eq_error.mp h
    · exact ⟨_, by simp [StorageCheck], (check_eq_error.mp h).2⟩
    · obtain ⟨storage', kv, -, failed⟩ := Except.foldlM_eq_error h
      exact addAt_error failed
  · cases h
    exact ⟨_, by simp [StorageCheck], rfl⟩

theorem getAt_error {storage : Storage Val} {key : Key} {e : Fault}
    (h : storage.getAt key = .error e) : ∃ c, StorageCheck c ∧ e = .check c := by
  cases storage with
  | map => cases h
  | vector storage =>
      obtain h | ⟨_, -, h⟩ := Except.bind_eq_error.mp h
      · exact ⟨_, by simp [StorageCheck], (check_eq_error.mp h).2⟩
      · obtain h | ⟨_, -, h⟩ := Except.bind_eq_error.mp h
        · exact ⟨_, by simp [StorageCheck], (check_eq_error.mp h).2⟩
        · cases h

theorem get_error {storage : Storage Val} {msg : Message Val} {e : Fault}
    (h : storage.get msg = .error e) : ∃ c, StorageCheck c ∧ e = .check c := by
  unfold get at h
  split at h
  · obtain h | ⟨_, -, h⟩ := Except.bind_eq_error.mp h
    · obtain ⟨key, -, failed⟩ := Except.mapM_eq_error h
      exact getAt_error failed
    · cases h
  · cases h
    exact ⟨_, by simp [StorageCheck], rfl⟩

theorem subAdd_ok {storage : Storage Val} {kvs : KVPairs Val}
    (sizes : kvs.keys.length = kvs.vals.length) (held : ∀ key ∈ kvs.keys, storage.Holds key) :
    ∃ storage', storage.subAdd kvs.keys kvs.vals = .ok storage' := by
  have heldPairs : ∀ kv ∈ kvs.keys.zip kvs.vals, storage.Holds kv.1 :=
    fun kv member => held kv.1 (List.of_mem_zip member).1
  simp only [subAdd, check_pos sizes, Except.ok_bind]
  generalize kvs.keys.zip kvs.vals = pairs at heldPairs
  induction pairs generalizing storage with
  | nil => exact ⟨storage, rfl⟩
  | cons kv rest ih =>
      obtain ⟨middle, hfirst⟩ := addAt_ok (heldPairs kv List.mem_cons_self)
      have same := (addAt_spec hfirst).1
      obtain ⟨storage', hrest⟩ := @ih middle
        (fun key member => (same key).mpr (held key member))
        (fun kv' member => (same kv'.1).mpr (heldPairs kv' (List.mem_cons_of_mem _ member)))
      exact ⟨storage', Except.bind_eq_ok.mpr ⟨middle, hfirst, hrest⟩⟩

end Storage

end FlexPS
