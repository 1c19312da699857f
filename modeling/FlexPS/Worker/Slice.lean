import FlexPS.Base.Message
import FlexPS.Lib.SortedList

/-! # Slicing a request over the servers

`SimpleRangePartitionManager::Slice` walks over sorted keys and cuts them where
the servers' ranges end. What it hands to a server is described by the part of
the key space the server gets: `shares` follows the cuts for any ranges, and for
contiguous ranges the shares are the ranges themselves.
-/

namespace FlexPS

structure SimpleRangePartitionManager where
  ranges : List Range
  serverThreadIds : List Tid
  /-- `CHECK_EQ(ranges_.size(), server_thread_ids_.size())`. -/
  sameSize : ranges.length = serverThreadIds.length

/-- `SlicedKVs`: what goes to which server. -/
abbrev SlicedKVs (Val : Type) := List (Tid × KVPairs Val)

/-- `std::lower_bound` among the keys from index `first` on, which are sorted or all on one side of
    the bound. -/
def lowerBound (keys : List Key) (first bound : Nat) : Nat :=
  first + ((keys.drop first).takeWhile fun key => key.toNat < bound).length

/-- `SArray::segment`. -/
def segment {α : Type} (xs : List α) (first last : Nat) : Except Fault (List α) :=
  if last ≤ xs.length then .ok ((xs.take last).drop first) else .error .outOfRange

namespace SimpleRangePartitionManager

variable {Val : Type}

/-- The loop over the servers. `begin` is always `send.keys.begin() + begin_idx`. -/
def sliceLoop (send : KVPairs Val) (ratio : Nat) :
    List (Range × Tid) → Nat → SlicedKVs Val → Except Fault (SlicedKVs Val)
  | [], _, sliced => .ok sliced
  | (range, server) :: rest, beginIdx, sliced =>
      let split := lowerBound send.keys beginIdx range.end_
      if beginIdx < split then do
        let keys ← segment send.keys beginIdx split
        let vals ← segment send.vals (beginIdx * ratio) (split * ratio)
        sliceLoop send ratio rest split (sliced ++ [(server, ⟨keys, vals⟩)])
      else sliceLoop send ratio rest split sliced

def slice (manager : SimpleRangePartitionManager) (send : KVPairs Val) :
    Except Fault (SlicedKVs Val) :=
  match manager.ranges with
  | [] => .error .outOfRange
  | range :: _ =>
      let beginIdx := lowerBound send.keys 0 range.begin_
      if send.keys.length = 0 then .error .divByZero
      else sliceLoop send (send.vals.length / send.keys.length)
        (manager.ranges.zip manager.serverThreadIds) beginIdx []

end SimpleRangePartitionManager

theorem lowerBound_eq_cut (keys : List Key) (first bound : Nat) :
    lowerBound keys first bound = SortedList.cut UInt32.toNat keys first bound := rfl

/-! ## Keys with their values -/

namespace KVPairs

variable {Val : Type}

/-- Each key with its `c` values. -/
def rows (c : Nat) (kvs : KVPairs Val) : List (Key × List Val) :=
  kvs.keys.mapIdx fun i key => (key, (kvs.vals.drop (i * c)).take c)

@[simp] theorem rows_length (c : Nat) (kvs : KVPairs Val) :
    (kvs.rows c).length = kvs.keys.length := List.length_mapIdx

theorem rows_keys (c : Nat) (kvs : KVPairs Val) : (kvs.rows c).map Prod.fst = kvs.keys := by
  unfold rows
  simp [List.mapIdx_eq_zipIdx_map, Function.comp_def]

theorem rows_cons (c : Nat) (key : Key) (keys : List Key) (vals : List Val) :
    rows c ⟨key :: keys, vals⟩ = (key, vals.take c) :: rows c ⟨keys, vals.drop c⟩ := by
  simp [rows, List.mapIdx_cons, Nat.add_mul, Nat.add_comm]

theorem rows_vals (c : Nat) (kvs : KVPairs Val) (sized : kvs.vals.length = c * kvs.keys.length) :
    (kvs.rows c).flatMap Prod.snd = kvs.vals := by
  obtain ⟨keys, vals⟩ := kvs
  induction keys generalizing vals with
  | nil => simpa [rows, eq_comm] using sized
  | cons key keys ih =>
      have rest : (vals.drop c).length = c * keys.length := by
        simp only [List.length_cons, Nat.mul_add, Nat.mul_one] at sized
        simp only [List.length_drop]
        omega
      simp only [rows_cons, List.flatMap_cons, ih _ rest, List.take_append_drop]

/-- A cut through the keys is a cut through the rows. -/
theorem rows_segment (c first last : Nat) (kvs : KVPairs Val)
    (within : last ≤ kvs.keys.length) :
    rows c ⟨(kvs.keys.take last).drop first, (kvs.vals.take (last * c)).drop (first * c)⟩ =
      ((kvs.rows c).take last).drop first := by
  apply List.ext_getElem
  · simp
  intro i below _
  have inside : first + i < last := by simp at below; omega
  have fits : (first + i) * c + c ≤ last * c := by
    calc (first + i) * c + c = (first + i + 1) * c := by ring
      _ ≤ last * c := Nat.mul_le_mul_right c inside
  simp only [rows, List.getElem_mapIdx, List.getElem_drop, List.getElem_take, List.drop_drop,
    Prod.mk.injEq, true_and]
  rw [List.drop_take, List.take_take, ← Nat.add_mul, min_eq_left (by omega)]

/-- Rows `c` values wide, as key-value pairs. -/
def ofRows (rows : List (Key × List Val)) : KVPairs Val :=
  ⟨rows.map Prod.fst, rows.flatMap Prod.snd⟩

theorem ofRows_rows (c : Nat) (kvs : KVPairs Val) (sized : kvs.vals.length = c * kvs.keys.length) :
    ofRows (kvs.rows c) = kvs := by
  unfold ofRows
  rw [rows_keys, rows_vals c kvs sized]

/-- The pairs whose key lies in `share`. -/
def part (c : Nat) (kvs : KVPairs Val) (share : Range) : KVPairs Val :=
  ofRows ((kvs.rows c).filter fun row => share.Owns row.1)

theorem part_keys (c : Nat) (kvs : KVPairs Val) (share : Range) :
    (kvs.part c share).keys = kvs.keys.filter fun key => share.Owns key := by
  unfold part ofRows
  rw [← rows_keys c kvs, List.filter_map]
  rfl

theorem part_vals (c : Nat) (kvs : KVPairs Val) (share : Range) :
    (kvs.part c share).vals = ((kvs.rows c).filter fun row => share.Owns row.1).flatMap Prod.snd :=
  rfl

theorem part_vals_of_empty {c : Nat} {kvs : KVPairs Val} {share : Range}
    (empty : (kvs.part c share).keys = []) : (kvs.part c share).vals = [] := by
  unfold part ofRows at empty ⊢
  rw [List.map_eq_nil_iff.mp empty]
  rfl

theorem rows_width {c : Nat} {kvs : KVPairs Val} (sized : kvs.vals.length = c * kvs.keys.length)
    {row : Key × List Val} (member : row ∈ kvs.rows c) : row.2.length = c := by
  obtain ⟨i, below, rfl⟩ := List.mem_mapIdx.mp member
  have fits : i * c + c ≤ kvs.vals.length := by
    calc i * c + c = (i + 1) * c := by ring
      _ ≤ kvs.keys.length * c := Nat.mul_le_mul_right c below
      _ = kvs.vals.length := by rw [sized, Nat.mul_comm]
  simp only [List.length_take, List.length_drop]
  omega

theorem part_sized {c : Nat} {kvs : KVPairs Val} (sized : kvs.vals.length = c * kvs.keys.length)
    (share : Range) : (kvs.part c share).vals.length = c * (kvs.part c share).keys.length := by
  unfold part ofRows
  simp only [List.length_flatMap, List.length_map]
  have widths : ((kvs.rows c).filter fun row => share.Owns row.1).map (fun row => row.2.length) =
      List.replicate ((kvs.rows c).filter fun row => share.Owns row.1).length c := by
    apply List.eq_replicate_iff.mpr
    refine ⟨List.length_map _, ?_⟩
    intro width member
    obtain ⟨row, kept, rfl⟩ := List.mem_map.mp member
    exact rows_width sized (List.mem_of_mem_filter kept)
  rw [widths, List.sum_replicate, smul_eq_mul, Nat.mul_comm]

/-- With one value for each key, a part is the pairs of its share. -/
theorem part_zip {kvs : KVPairs Val} (sized : kvs.vals.length = kvs.keys.length) (share : Range) :
    (kvs.part 1 share).keys.zip (kvs.part 1 share).vals =
      (kvs.keys.zip kvs.vals).filter fun kv => share.Owns kv.1 := by
  obtain ⟨keys, vals⟩ := kvs
  induction keys generalizing vals with
  | nil => rfl
  | cons key keys ih =>
      cases vals with
      | nil => cases sized
      | cons val vals =>
          have later := ih vals (Nat.succ.inj sized)
          simp only [part, ofRows, rows_cons, List.take_succ_cons, List.take_zero, List.drop_succ_cons,
            List.drop_zero, List.zip_cons_cons] at later ⊢
          by_cases owned : share.Owns key
          · rw [List.filter_cons_of_pos (by simpa using owned),
              List.filter_cons_of_pos (by simpa using owned), ← later]
            rfl
          · rw [List.filter_cons_of_neg (by simpa using owned),
              List.filter_cons_of_neg (by simpa using owned), ← later]

end KVPairs

namespace SimpleRangePartitionManager

variable {Val : Type}

/-- The parts of the key space the servers get when everything below `floor` is
    already given away. -/
def sharesFrom : Nat → List Range → List Range
  | _, [] => []
  | floor, range :: rest => ⟨floor, range.end_⟩ :: sharesFrom (max floor range.end_) rest

/-- The slices of `send` for servers with the given shares. -/
def slices (c : Nat) (send : KVPairs Val) (shares : List (Range × Tid)) : SlicedKVs Val :=
  (shares.map fun (share, server) => (server, send.part c share)).filter fun slice =>
    slice.2.keys ≠ []

theorem slices_cons (c : Nat) (send : KVPairs Val) (share : Range) (server : Tid)
    (rest : List (Range × Tid)) :
    slices c send ((share, server) :: rest) =
      (if (send.part c share).keys = [] then [] else [(server, send.part c share)]) ++
        slices c send rest := by
  unfold slices
  cases decEq (send.part c share).keys [] with
  | isTrue none_here => simp [none_here]
  | isFalse some_here => simp [some_here]

/-- A slice that is left out has nothing to contribute. -/
theorem slices_flatMap {β : Type} (c : Nat) (send : KVPairs Val) (shares : List (Range × Tid))
    (f : KVPairs Val → List β) (nothing : ∀ share, (send.part c share).keys = [] →
      f (send.part c share) = []) :
    (slices c send shares).flatMap (fun slice => f slice.2) =
      (shares.map Prod.fst).flatMap fun share => f (send.part c share) := by
  induction shares with
  | nil => rfl
  | cons head rest ih =>
      obtain ⟨share, server⟩ := head
      rw [slices_cons, List.flatMap_append, ih]
      split
      · next empty => simp [nothing share empty]
      · simp

/-- One cut of the loop is the part of one share. -/
theorem segment_eq_part {send : KVPairs Val} {c : Nat}
    (sorted : SortedList.Sorted UInt32.toNat send.keys)
    (sized : send.vals.length = c * send.keys.length) {floor beginIdx : Nat}
    (within : beginIdx ≤ send.keys.length)
    (from_floor : (send.rows c).drop beginIdx =
      (send.rows c).filter (fun row => floor ≤ row.1.toNat)) (bound : Nat) :
    let split := lowerBound send.keys beginIdx bound
    beginIdx ≤ split ∧ split ≤ send.keys.length ∧
      ⟨(send.keys.take split).drop beginIdx, (send.vals.take (split * c)).drop (beginIdx * c)⟩ =
        send.part c ⟨floor, bound⟩ ∧
      (send.rows c).drop split =
        (send.rows c).filter (fun row => max floor bound ≤ row.1.toNat) := by
  intro split
  let rowKey (row : Key × List Val) : Nat := row.1.toNat
  have on_rows : split = SortedList.cut rowKey (send.rows c) beginIdx bound := by
    simp only [split, lowerBound_eq_cut]
    rw [← KVPairs.rows_keys c send, SortedList.cut_map]
    rfl
  have rows_sorted : SortedList.Sorted rowKey (send.rows c) := by
    rw [← KVPairs.rows_keys c send] at sorted
    exact sorted.of_map
  have within' : split ≤ send.keys.length := SortedList.cut_le_length within bound
  have fits : split * c ≤ send.vals.length := by
    rw [sized, Nat.mul_comm c]
    exact Nat.mul_le_mul_right c within'
  let taken : KVPairs Val :=
    ⟨(send.keys.take split).drop beginIdx, (send.vals.take (split * c)).drop (beginIdx * c)⟩
  have taken_sized : taken.vals.length = c * taken.keys.length := by
    simp only [taken, List.length_drop, List.length_take, min_eq_left within', min_eq_left fits]
    rw [Nat.mul_comm c, Nat.sub_mul]
  have taken_rows : taken.rows c = (send.rows c).filter fun row => floor ≤ row.1.toNat ∧ row.1.toNat < bound := by
    rw [KVPairs.rows_segment c beginIdx split send within', on_rows]
    exact SortedList.segment_cut rows_sorted from_floor bound
  have taken_part : taken = send.part c ⟨floor, bound⟩ := by
    rw [← KVPairs.ofRows_rows c taken taken_sized, taken_rows]
    rfl
  refine ⟨SortedList.first_le_cut _ _, within', taken_part, ?_⟩
  rw [on_rows]
  exact SortedList.drop_cut rows_sorted from_floor bound

theorem sliceLoop_eq {send : KVPairs Val} {c : Nat}
    (sorted : SortedList.Sorted UInt32.toNat send.keys)
    (sized : send.vals.length = c * send.keys.length) (servers : List (Range × Tid))
    {floor beginIdx : Nat} (within : beginIdx ≤ send.keys.length)
    (from_floor : (send.rows c).drop beginIdx =
      (send.rows c).filter (fun row => floor ≤ row.1.toNat)) (sliced : SlicedKVs Val) :
    sliceLoop send c servers beginIdx sliced = .ok (sliced ++ slices c send
      ((sharesFrom floor (servers.map Prod.fst)).zip (servers.map Prod.snd))) := by
  induction servers generalizing floor beginIdx sliced with
  | nil => simp [sliceLoop, sharesFrom, slices]
  | cons head servers ih =>
      obtain ⟨range, server⟩ := head
      obtain ⟨forward, within', taken, left⟩ :=
        segment_eq_part sorted sized within from_floor range.end_
      have rest := ih within' left
      have fits : lowerBound send.keys beginIdx range.end_ * c ≤ send.vals.length := by
        rw [sized, Nat.mul_comm c]
        exact Nat.mul_le_mul_right c within'
      have share_keys : (send.part c ⟨floor, range.end_⟩).keys =
          (send.keys.take (lowerBound send.keys beginIdx range.end_)).drop beginIdx := by
        rw [← taken]
      unfold sliceLoop
      simp only [List.map_cons, sharesFrom, List.zip_cons_cons, slices_cons]
      split
      next some_key =>
        have not_empty : (send.part c ⟨floor, range.end_⟩).keys ≠ [] := by
          intro empty
          have := congrArg List.length (share_keys.symm.trans empty)
          simp [min_eq_left within'] at this
          omega
        simp [segment, within', fits, taken, rest, not_empty]
      next no_key =>
        have empty : (send.part c ⟨floor, range.end_⟩).keys = [] := by
          rw [share_keys]
          apply List.drop_eq_nil_of_le
          simp only [List.length_take]
          omega
        simp [rest, empty]

/-- The parts of the key space the servers get. -/
def shares (manager : SimpleRangePartitionManager) : List Range :=
  sharesFrom ((manager.ranges.head?.map Range.begin_).getD 0) manager.ranges

theorem slice_eq (manager : SimpleRangePartitionManager) {send : KVPairs Val} {c : Nat}
    (some_range : manager.ranges ≠ []) (some_key : send.keys ≠ [])
    (sorted : SortedList.Sorted UInt32.toNat send.keys)
    (sized : send.vals.length = c * send.keys.length) :
    manager.slice send = .ok (slices c send (manager.shares.zip manager.serverThreadIds)) := by
  have positive : 0 < send.keys.length := List.length_pos_iff.mpr some_key
  have ratio : send.vals.length / send.keys.length = c := by
    rw [sized, Nat.mul_div_cancel c positive]
  have from_start : (send.rows c).drop 0 = (send.rows c).filter (fun row => 0 ≤ row.1.toNat) := by
    simp
  unfold slice shares
  cases ranges : manager.ranges with
  | nil => exact absurd ranges some_range
  | cons range rest =>
      obtain ⟨-, within, -, from_begin⟩ :=
        segment_eq_part sorted sized (Nat.zero_le _) from_start range.begin_
      rw [Nat.zero_max] at from_begin
      have loop := sliceLoop_eq sorted sized (manager.ranges.zip manager.serverThreadIds) within
        from_begin []
      rw [List.map_fst_zip manager.sameSize.le, List.map_snd_zip manager.sameSize.ge, ranges] at loop
      simp only [positive.ne', if_false, ratio]
      simpa using loop

/-! ## Who is sent to -/

/-- A server is sent at most one slice, and no slice is empty. -/
theorem sliceLoop_receivers {send : KVPairs Val} {ratio : Nat} {servers : List (Range × Tid)}
    {beginIdx : Nat} {before sliced : SlicedKVs Val}
    (cut : sliceLoop send ratio servers beginIdx before = .ok sliced) :
    ∃ more, sliced = before ++ more ∧ (more.map Prod.fst).Sublist (servers.map Prod.snd) ∧
      ∀ slice ∈ more, slice.2.keys ≠ [] := by
  induction servers generalizing beginIdx before with
  | nil =>
      cases cut
      exact ⟨[], (List.append_nil _).symm, .slnil, fun _ member => absurd member List.not_mem_nil⟩
  | cons head rest ih =>
      obtain ⟨range, server⟩ := head
      unfold sliceLoop at cut
      simp only at cut
      split at cut
      next some_key =>
        obtain ⟨keys, keysCut, cut⟩ := Except.bind_eq_ok.mp cut
        obtain ⟨vals, -, cut⟩ := Except.bind_eq_ok.mp cut
        obtain ⟨more, rfl, receivers, filled⟩ := ih cut
        refine ⟨(server, ⟨keys, vals⟩) :: more, by simp, receivers.cons_cons server, ?_⟩
        refine List.forall_mem_cons.mpr ⟨?_, filled⟩
        unfold segment at keysCut
        split at keysCut
        next within =>
          cases keysCut
          intro empty
          have := List.drop_eq_nil_iff.mp empty
          rw [List.length_take] at this
          omega
        next => cases keysCut
      next =>
        obtain ⟨more, rfl, receivers, filled⟩ := ih cut
        exact ⟨more, rfl, receivers.cons server, filled⟩

theorem slice_receivers {manager : SimpleRangePartitionManager} {send : KVPairs Val}
    {sliced : SlicedKVs Val} (cut : manager.slice send = .ok sliced) :
    (sliced.map Prod.fst).Sublist manager.serverThreadIds ∧ ∀ slice ∈ sliced, slice.2.keys ≠ [] := by
  unfold slice at cut
  split at cut
  · cases cut
  · simp only at cut
    split at cut
    · cases cut
    · obtain ⟨more, rfl, receivers, filled⟩ := sliceLoop_receivers cut
      rw [List.map_snd_zip manager.sameSize.ge] at receivers
      exact ⟨receivers, filled⟩

/-- Which keys go to which server does not depend on the values. -/
theorem sliceLoop_keys {keys : List Key} {vals : List Val} {ratio : Nat} {pairs : List (Range × Tid)}
    {beginIdx : Nat} {sent sent' sliced : SlicedKVs Val}
    (cut : sliceLoop ⟨keys, vals⟩ ratio pairs beginIdx sent = .ok sliced)
    (same : sent.map (fun slice => (slice.1, slice.2.keys)) =
      sent'.map fun slice => (slice.1, slice.2.keys)) :
    ∃ sliced', sliceLoop ⟨keys, []⟩ 0 pairs beginIdx sent' = .ok sliced' ∧
      sliced.map (fun slice => (slice.1, slice.2.keys)) =
        sliced'.map fun slice => (slice.1, slice.2.keys) := by
  induction pairs generalizing beginIdx sent sent' with
  | nil =>
      cases cut
      exact ⟨sent', rfl, same⟩
  | cons pair rest ih =>
      obtain ⟨range, server⟩ := pair
      simp only [sliceLoop] at cut ⊢
      split at cut
      next some_key =>
        obtain ⟨theirs, inKeys, cut⟩ := Except.bind_eq_ok.mp cut
        obtain ⟨values, -, cut⟩ := Except.bind_eq_ok.mp cut
        have none : segment ([] : List Val) (beginIdx * 0) (lowerBound keys beginIdx range.end_ * 0) =
            .ok [] := by simp [segment]
        rw [if_pos some_key, inKeys, Except.ok_bind, none, Except.ok_bind]
        apply ih cut
        rw [List.map_append, List.map_append, same]
        rfl
      next absent =>
        rw [if_neg absent]
        exact ih cut same

theorem slice_keys {manager : SimpleRangePartitionManager} {send : KVPairs Val}
    {sliced : SlicedKVs Val} (cut : manager.slice send = .ok sliced) :
    ∃ sliced', manager.slice (⟨send.keys, []⟩ : KVPairs Val) = .ok sliced' ∧
      sliced.map (fun slice => (slice.1, slice.2.keys)) =
        sliced'.map fun slice => (slice.1, slice.2.keys) := by
  unfold slice at cut ⊢
  split at cut
  · cases cut
  · simp only at cut ⊢
    split at cut
    · cases cut
    next some_key =>
      rw [if_neg some_key, List.length_nil, Nat.zero_div]
      exact sliceLoop_keys cut rfl

/-! ## Contiguous ranges -/

/-- `ranges[i].end() = ranges[i + 1].begin()`; a range may be empty. -/
def Contiguous (manager : SimpleRangePartitionManager) : Prop :=
  manager.ranges.IsChain (fun range next => range.end_ = next.begin_) ∧
    ∀ range ∈ manager.ranges, range.begin_ ≤ range.end_

instance (manager : SimpleRangePartitionManager) : Decidable manager.Contiguous :=
  inferInstanceAs (Decidable (_ ∧ _))

/-- `[ranges.front().begin(), ranges.back().end())`. -/
def span (manager : SimpleRangePartitionManager) : Range :=
  ⟨(manager.ranges.head?.map Range.begin_).getD 0, (manager.ranges.getLast?.map Range.end_).getD 0⟩

theorem sharesFrom_of_chain {range : Range} {rest : List Range}
    (chain : (range :: rest).IsChain fun range next => range.end_ = next.begin_)
    (forward : ∀ range' ∈ range :: rest, range'.begin_ ≤ range'.end_) :
    sharesFrom range.begin_ (range :: rest) = range :: rest := by
  induction rest generalizing range with
  | nil => simp [sharesFrom]
  | cons next rest ih =>
      obtain ⟨joined, chain⟩ := List.isChain_cons_cons.mp chain
      have floor : max range.begin_ range.end_ = next.begin_ := by
        rw [max_eq_right (forward range (by simp)), joined]
      have later := ih chain fun range' member => forward range' (by simp [member])
      unfold sharesFrom
      rw [floor, later]

theorem shares_of_contiguous {manager : SimpleRangePartitionManager}
    (contiguous : manager.Contiguous) : manager.shares = manager.ranges := by
  obtain ⟨chain, forward⟩ := contiguous
  unfold shares
  cases ranges : manager.ranges with
  | nil => rfl
  | cons range rest =>
      rw [ranges] at chain forward
      exact sharesFrom_of_chain chain forward

theorem flatMap_owns_of_chain {α : Type} {key : α → Key} {xs : List α}
    (sorted : SortedList.Sorted (fun x => (key x).toNat) xs) {range : Range} {rest : List Range}
    (chain : (range :: rest).IsChain fun range next => range.end_ = next.begin_)
    (forward : ∀ range' ∈ range :: rest, range'.begin_ ≤ range'.end_) :
    range.begin_ ≤ ((range :: rest).getLast (by simp)).end_ ∧
      ((range :: rest).flatMap fun range' => xs.filter fun x => range'.Owns (key x)) =
        xs.filter fun x =>
          Range.Owns ⟨range.begin_, ((range :: rest).getLast (by simp)).end_⟩ (key x) := by
  induction rest generalizing range with
  | nil => exact ⟨forward range (by simp), List.append_nil _⟩
  | cons next rest ih =>
      obtain ⟨joined, chain⟩ := List.isChain_cons_cons.mp chain
      obtain ⟨later, slices⟩ := ih chain fun range' member => forward range' (by simp [member])
      have here := forward range (by simp)
      rw [List.getLast_cons_cons, List.flatMap_cons, slices]
      refine ⟨by omega, ?_⟩
      rw [← joined] at later ⊢
      exact SortedList.filter_append_filter sorted here later

theorem flatMap_owns_span {manager : SimpleRangePartitionManager} (contiguous : manager.Contiguous)
    (some_range : manager.ranges ≠ []) {α : Type} {key : α → Key} {xs : List α}
    (sorted : SortedList.Sorted (fun x => (key x).toNat) xs) :
    (manager.ranges.flatMap fun range => xs.filter fun x => range.Owns (key x)) =
      xs.filter fun x => manager.span.Owns (key x) := by
  obtain ⟨chain, forward⟩ := contiguous
  unfold span
  cases ranges : manager.ranges with
  | nil => exact absurd ranges some_range
  | cons range rest =>
      rw [ranges] at chain forward
      rw [List.getLast?_eq_some_getLast (by simp)]
      exact (flatMap_owns_of_chain sorted chain forward).2

/-- `Slice` cuts these keys at the ends of the ranges: they are sorted, or there is one server and
    all of them are in its range. -/
def Cuts (manager : SimpleRangePartitionManager) (keys : List Key) : Prop :=
  keys.Pairwise (· ≤ ·) ∨ ∃ range, manager.ranges = [range] ∧ ∀ key ∈ keys, range.Owns key

/-- One server is sent the request as it is. -/
theorem slice_of_one {manager : SimpleRangePartitionManager} {send : KVPairs Val} {c : Nat} {range : Range}
    (one : manager.ranges = [range]) (inside : ∀ key ∈ send.keys, range.Owns key)
    (some_key : send.keys ≠ []) (sized : send.vals.length = c * send.keys.length) :
    manager.slice send = .ok (slices c send (manager.ranges.zip manager.serverThreadIds)) := by
  have positive : 0 < send.keys.length := List.length_pos_iff.mpr some_key
  have ratio : send.vals.length / send.keys.length = c := by
    rw [sized, Nat.mul_div_cancel c positive]
  have oneServer : manager.serverThreadIds.length = 1 := by
    rw [← manager.sameSize, one, List.length_singleton]
  obtain ⟨server, servers⟩ := List.length_eq_one_iff.mp oneServer
  have fromStart : lowerBound send.keys 0 range.begin_ = 0 := by
    rw [lowerBound, List.drop_zero, Nat.zero_add, List.length_eq_zero_iff, List.takeWhile_eq_nil_iff]
    intro nonempty below
    exact absurd (of_decide_eq_true below) (Nat.not_lt.mpr (inside _ (List.getElem_mem _)).1)
  have toEnd : lowerBound send.keys 0 range.end_ = send.keys.length := by
    have all : (send.keys.takeWhile fun key => key.toNat < range.end_) = send.keys :=
      List.takeWhile_eq_self_iff.mpr fun key member => decide_eq_true (inside key member).2
    rw [lowerBound, List.drop_zero, Nat.zero_add, all]
  have whole : send.part c range = send := by
    have all : ((send.rows c).filter fun row => range.Owns row.1) = send.rows c := by
      refine List.filter_eq_self.mpr fun row member => decide_eq_true (inside row.1 ?_)
      exact KVPairs.rows_keys c send ▸ List.mem_map_of_mem member
    rw [KVPairs.part, all, KVPairs.ofRows_rows c send sized]
  have keys : segment send.keys 0 send.keys.length = .ok send.keys := by
    rw [segment, if_pos (Nat.le_refl _), List.take_length, List.drop_zero]
  have vals : segment send.vals (0 * c) (send.keys.length * c) = .ok send.vals := by
    rw [Nat.zero_mul, Nat.mul_comm, ← sized, segment, if_pos (Nat.le_refl _), List.take_length,
      List.drop_zero]
  unfold slice
  simp only [one, servers, List.zip_cons_cons, List.zip_nil_right, positive.ne', if_false, ratio, fromStart,
    sliceLoop, toEnd, if_pos positive, keys, vals, Except.ok_bind, slices_cons, whole, if_neg some_key]
  rfl

theorem slice_of_cuts {manager : SimpleRangePartitionManager} {send : KVPairs Val} {c : Nat}
    (some_range : manager.ranges ≠ []) (contiguous : manager.Contiguous) (some_key : send.keys ≠ [])
    (cuts : manager.Cuts send.keys) (sized : send.vals.length = c * send.keys.length) :
    manager.slice send = .ok (slices c send (manager.ranges.zip manager.serverThreadIds)) := by
  cases cuts with
  | inl sorted =>
      have cut := manager.slice_eq some_range some_key sorted sized
      rwa [shares_of_contiguous contiguous] at cut
  | inr single =>
      obtain ⟨range, one, inside⟩ := single
      exact slice_of_one one inside some_key sized

theorem flatMap_owns_of_cuts {manager : SimpleRangePartitionManager} (contiguous : manager.Contiguous)
    (some_range : manager.ranges ≠ []) {keys : List Key} (cuts : manager.Cuts keys) :
    (manager.ranges.flatMap fun range => keys.filter fun key => range.Owns key) =
      keys.filter fun key => manager.span.Owns key := by
  cases cuts with
  | inl sorted => exact flatMap_owns_span contiguous some_range sorted
  | inr single =>
      obtain ⟨range, one, -⟩ := single
      simp [span, one]

/-- `slice` goes to the server of `range`: it has a key, every key lies in the
    range, and every key has its `c` values. -/
structure SliceFor (c : Nat) (server : Range × Tid) (slice : Tid × KVPairs Val) : Prop where
  receiver : slice.1 = server.2
  some_key : slice.2.keys ≠ []
  owned : ∀ key ∈ slice.2.keys, server.1.Owns key
  sized : slice.2.vals.length = c * slice.2.keys.length

theorem slices_served {c : Nat} {send : KVPairs Val}
    (sized : send.vals.length = c * send.keys.length) (servers : List (Range × Tid)) :
    List.Forall₂ (SliceFor c) (servers.filter fun server => (send.part c server.1).keys ≠ [])
      (slices c send servers) := by
  unfold slices
  rw [List.filter_map, List.forall₂_map_right_iff]
  apply List.forall₂_same.mpr
  intro server kept
  obtain ⟨-, some_key⟩ := List.mem_filter.mp kept
  refine ⟨rfl, of_decide_eq_true some_key, ?_, KVPairs.part_sized sized server.1⟩
  intro key member
  rw [KVPairs.part_keys] at member
  exact of_decide_eq_true (List.mem_filter.mp member).2

/-- Slicing over contiguous ranges is an order-preserving partition. -/
theorem slice_partitions (manager : SimpleRangePartitionManager) (send : KVPairs Val) (c : Nat)
    (some_range : manager.ranges ≠ []) (contiguous : manager.Contiguous)
    (some_key : send.keys ≠ []) (sorted : send.keys.Pairwise (· ≤ ·))
    (sized : send.vals.length = c * send.keys.length) :
    ∃ sliced, manager.slice send = .ok sliced ∧
      (∃ servers, servers.Sublist (manager.ranges.zip manager.serverThreadIds) ∧
        List.Forall₂ (SliceFor c) servers sliced) ∧
      sliced.flatMap (fun slice => slice.2.keys) =
        send.keys.filter (fun key => manager.span.Owns key) ∧
      sliced.flatMap (fun slice => slice.2.vals) =
        ((send.rows c).filter fun row => manager.span.Owns row.1).flatMap Prod.snd := by
  have sorted' : SortedList.Sorted UInt32.toNat send.keys := sorted
  have rows_sorted : SortedList.Sorted (fun row : Key × List Val => row.1.toNat) (send.rows c) := by
    rw [← KVPairs.rows_keys c send] at sorted'
    exact sorted'.of_map
  have ranges : (manager.ranges.zip manager.serverThreadIds).map Prod.fst = manager.ranges :=
    List.map_fst_zip manager.sameSize.le
  have computed := manager.slice_eq some_range some_key sorted' sized
  rw [shares_of_contiguous contiguous] at computed
  refine ⟨_, computed, ⟨_, List.filter_sublist, slices_served sized _⟩, ?_, ?_⟩
  · rw [slices_flatMap c send _ KVPairs.keys fun _ empty => empty, ranges]
    simp only [KVPairs.part_keys]
    exact flatMap_owns_span contiguous some_range sorted'
  · rw [slices_flatMap c send _ KVPairs.vals fun _ => KVPairs.part_vals_of_empty, ranges]
    simp only [KVPairs.part_vals]
    rw [← List.flatMap_assoc, flatMap_owns_span contiguous some_range rows_sorted]

/-- Keys below the first range, on a boundary, repeated and above the last range. -/
theorem slice_partitions_example :
    ∃ sliced, slice ⟨[⟨2, 4⟩, ⟨4, 4⟩, ⟨4, 7⟩], [0, 1, 2], rfl⟩
        ⟨[1, 3, 4, 4, 7], [10, 11, 30, 31, 40, 41, 42, 43, 70, 71]⟩ = .ok sliced ∧
      sliced.flatMap (fun slice => slice.2.vals) = [30, 31, 40, 41, 42, 43] := by
  obtain ⟨sliced, computed, -, -, vals⟩ := slice_partitions
    ⟨[⟨2, 4⟩, ⟨4, 4⟩, ⟨4, 7⟩], [0, 1, 2], rfl⟩
    (⟨[1, 3, 4, 4, 7], [10, 11, 30, 31, 40, 41, 42, 43, 70, 71]⟩ : KVPairs Nat) 2
    (by decide) (by decide) (by decide) (by decide) (by decide)
  exact ⟨sliced, computed, vals.trans (by decide)⟩

end SimpleRangePartitionManager

end FlexPS
