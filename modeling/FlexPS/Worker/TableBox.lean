import FlexPS.Worker.Slice

/-! # The replies to one `Get`

The replies of the servers arrive in any order. `HandleFinish` checks each of them
against the keys that were asked for, and puts them into the order of their first keys.
-/

namespace FlexPS

/-- `FindRange`, the indices of the keys in `[lower, upper)`. -/
def findRange (arr : List Key) (lower upper : Key) : Range :=
  if upper ≤ lower then ⟨0, 0⟩ else ⟨lowerBound arr 0 lower.toNat, lowerBound arr 0 upper.toNat⟩

/-- The first key, by which the replies are sorted. -/
def KVPairs.front {Val : Type} (kvs : KVPairs Val) : Nat := (kvs.keys.head?.map UInt32.toNat).getD 0

/-- `KVTableBox`, as far as it handles replies. -/
structure KVTableBox (Val : Type) where
  recvKvs : List (KVPairs Val)
  deriving DecidableEq

namespace KVTableBox

variable {Val : Type}

def handleMsg (box : KVTableBox Val) (msg : Message Val) : Except Fault (KVTableBox Val) :=
  match msg.data with
  | [keys, vals] => .ok ⟨box.recvKvs ++ [⟨keys.asU32, vals.asVals⟩]⟩
  | _ => .error (.check .twoArrays)

/-- One turn of the first loop: the keys of the reply are those that were asked for between
    its first and its last. The end of that range is a `uint32_t` sum. -/
def checkReply (keys : List Key) (s : KVPairs Val) : Except Fault Unit :=
  match s.keys.head?, s.keys.getLast? with
  | some front, some back => check .matchedKeys ((findRange keys front (back + 1)).size = s.keys.length)
  | _, _ => .error .outOfRange

def handleFinish (box : KVTableBox Val) (keys : List Key) : Except Fault (List Val × KVTableBox Val) := do
  forM box.recvKvs (checkReply keys)
  let totalKey := (box.recvKvs.map fun s => s.keys.length).sum
  check .allServers (totalKey = keys.length)
  let sorted := box.recvKvs.insertionSort fun a b => a.front ≤ b.front
  return (sorted.flatMap KVPairs.vals, ⟨[]⟩)

end KVTableBox

/-! ## The check of one reply -/

section Check

variable {Val : Type} {keys : List Key} {share : Range} {front back : Key}

/-- A slice is what lies between its first and its last key. -/
theorem filter_between (sorted : SortedList.Sorted UInt32.toNat keys)
    (first : (keys.filter fun key => share.Owns key).head? = some front)
    (last : (keys.filter fun key => share.Owns key).getLast? = some back) :
    (keys.filter fun key => front.toNat ≤ key.toNat ∧ key.toNat < back.toNat + 1) =
      keys.filter fun key => share.Owns key := by
  have sliceSorted : ((keys.filter fun key => share.Owns key)).Pairwise
      fun x y => x.toNat ≤ y.toNat := sorted.sublist List.filter_sublist
  have frontOwned : share.Owns front :=
    of_decide_eq_true (List.mem_filter.mp (List.mem_of_mem_head? first)).2
  have backOwned : share.Owns back :=
    of_decide_eq_true (List.mem_filter.mp (List.mem_of_mem_getLast? last)).2
  apply List.filter_congr
  intro key member
  rw [decide_eq_decide]
  constructor
  · rintro ⟨above, below⟩
    exact ⟨frontOwned.1.trans above, Nat.lt_of_le_of_lt (Nat.le_of_lt_succ below) backOwned.2⟩
  · intro owned
    have inSlice : key ∈ keys.filter fun key => share.Owns key := by simp [member, owned]
    constructor
    · obtain ⟨rest, split⟩ := List.head?_eq_some_iff.mp first
      rw [split] at inSlice sliceSorted
      rcases List.mem_cons.mp inSlice with rfl | later
      · exact Nat.le_refl _
      · exact (List.pairwise_cons.mp sliceSorted).1 key later
    · obtain ⟨init, split⟩ := List.getLast?_eq_some_iff.mp last
      rw [split] at inSlice sliceSorted
      rcases List.mem_append.mp inSlice with earlier | here
      · exact Nat.lt_succ_of_le ((List.pairwise_append.mp sliceSorted).2.2 key earlier back (by simp))
      · rw [List.mem_singleton.mp here]
        exact Nat.lt_succ_self _

theorem lowerBound_zero (sorted : SortedList.Sorted UInt32.toNat keys) (bound : Nat) :
    lowerBound keys 0 bound = (keys.filter fun key => key.toNat < bound).length := by
  rw [lowerBound, Nat.zero_add, List.drop_zero, SortedList.takeWhile_eq_filter sorted]

/-- How many keys `FindRange` finds. -/
theorem findRange_size (sorted : SortedList.Sorted UInt32.toNat keys) {lower upper : Key}
    (forward : lower < upper) : (findRange keys lower upper).size =
      (keys.filter fun key => lower.toNat ≤ key.toNat ∧ key.toNat < upper.toNat).length := by
  have split := SortedList.filter_append_filter sorted (Nat.zero_le lower.toNat)
    (Nat.le_of_lt (UInt32.lt_iff_toNat_lt.mp forward))
  have lengths := congrArg List.length split
  simp only [List.length_append, Nat.zero_le, true_and] at lengths
  rw [findRange, if_neg (UInt32.not_le.mpr forward), Range.size, lowerBound_zero sorted,
    lowerBound_zero sorted, ← lengths]
  exact Nat.add_sub_cancel_left _ _

/-- The check accepts a slice unless it holds the greatest key, whose successor is 0. -/
theorem checkReply_slice (sorted : SortedList.Sorted UInt32.toNat keys) {s : KVPairs Val}
    (slice : s.keys = keys.filter fun key => share.Owns key) (some_key : s.keys ≠ []) :
    KVTableBox.checkReply keys s =
      if 4294967295 ∈ s.keys then .error (.check .matchedKeys) else .ok () := by
  obtain ⟨front, first⟩ := Option.isSome_iff_exists.mp (List.isSome_head?.mpr some_key)
  obtain ⟨back, last⟩ : ∃ back, s.keys.getLast? = some back :=
    ⟨_, List.getLast?_eq_some_getLast some_key⟩
  have positive := List.length_pos_iff.mpr some_key
  simp only [KVTableBox.checkReply, first, last]
  rw [slice] at first last
  have between := filter_between sorted first last
  have held : 4294967295 ∈ s.keys ↔ back = 4294967295 := by
    rw [slice]
    constructor
    · intro greatest
      have inside : (4294967295 : Key) ∈ keys.filter fun key =>
          front.toNat ≤ key.toNat ∧ key.toNat < back.toNat + 1 := between ▸ greatest
      have below := (of_decide_eq_true (List.mem_filter.mp inside).2).2
      have := back.toNat_lt
      exact UInt32.toNat_inj.mp (by change back.toNat = 4294967295; simp at below; omega)
    · rintro rfl
      exact List.mem_of_mem_getLast? last
  by_cases greatest : back = 4294967295
  · -- the sum wraps to 0, and the range is empty
    rw [if_pos (held.mpr greatest), greatest]
    have empty : findRange keys front (4294967295 + 1) = ⟨0, 0⟩ := by
      rw [findRange, if_pos]
      exact UInt32.le_iff_toNat_le.mpr (Nat.zero_le _)
    rw [empty]
    exact check_neg (by simp only [Range.size]; omega)
  · rw [if_neg (fun member => greatest (held.mp member))]
    have successor : (back + 1).toNat = back.toNat + 1 := by
      have := back.toNat_lt
      have apart : back.toNat ≠ 4294967295 := fun same => greatest (UInt32.toNat_inj.mp same)
      rw [UInt32.toNat_add]
      simp
      omega
    have ordered : front.toNat ≤ back.toNat := by
      have member : front ∈ keys.filter fun key =>
          front.toNat ≤ key.toNat ∧ key.toNat < back.toNat + 1 := between ▸ List.mem_of_mem_head? first
      exact Nat.le_of_lt_succ (of_decide_eq_true (List.mem_filter.mp member).2).2
    apply check_pos
    rw [findRange_size sorted (UInt32.lt_iff_toNat_lt.mpr (by omega)), successor, between, slice]

end Check

/-! ## The whole answer -/

variable {Val : Type}

/-- The replies to the slices of a `Get`, one value for each key. -/
def Replies (sliced : SlicedKVs Val) (replies : List (KVPairs Val)) : Prop :=
  List.Forall₂ (fun slice reply => reply.keys = slice.2.keys ∧ reply.vals.length = reply.keys.length)
    sliced replies

/-- `HandleFinish` takes the replies in any order and puts them into the order of `keys`; it
    does not take fewer of them. -/
structure AnswersExactly (keys : List Key) (replies : List (KVPairs Val)) : Prop where
  complete : ∀ arrived : List (KVPairs Val), arrived.Perm replies →
    ∃ vals, KVTableBox.handleFinish ⟨arrived⟩ keys = .ok (vals, ⟨[]⟩) ∧ vals.length = keys.length ∧
      keys.zip vals = replies.flatMap fun reply => reply.keys.zip reply.vals
  missing : ∀ arrived : List (KVPairs Val), arrived.Subperm replies → arrived.length < replies.length →
    ∃ c, KVTableBox.handleFinish ⟨arrived⟩ keys = .error (.check c)

/-- The replies to slices of sorted keys, in the order of the keys. -/
structure InOrder (keys : List Key) (replies : List (KVPairs Val)) : Prop where
  keys_eq : replies.flatMap KVPairs.keys = keys
  some_key : ∀ reply ∈ replies, reply.keys ≠ []
  sized : ∀ reply ∈ replies, reply.vals.length = reply.keys.length
  slice : ∀ reply ∈ replies, ∃ share : Range, reply.keys = keys.filter fun key => share.Owns key
  ordered : replies.Pairwise fun a b => a.front < b.front

namespace InOrder

variable {keys : List Key} {replies arrived : List (KVPairs Val)}

/-- Sorting by the first keys undoes any order of arrival. -/
theorem sort_eq (inOrder : InOrder keys replies) (arrival : arrived.Perm replies) :
    (arrived.insertionSort fun a b => a.front ≤ b.front) = replies := by
  have total : Std.Total fun a b : KVPairs Val => a.front ≤ b.front :=
    ⟨fun a b => Nat.le_total a.front b.front⟩
  have trans : IsTrans (KVPairs Val) fun a b => a.front ≤ b.front :=
    ⟨fun _ _ _ => Nat.le_trans⟩
  have same := (List.perm_insertionSort (fun a b : KVPairs Val => a.front ≤ b.front) arrived).trans
    arrival
  refine List.Perm.eq_of_pairwise ?_ (List.pairwise_insertionSort _ _)
    (inOrder.ordered.imp fun less => Nat.le_of_lt less) same
  intro a b memberA memberB le ge
  have apart : (replies.map KVPairs.front).Nodup :=
    List.pairwise_map.mpr (inOrder.ordered.imp Nat.ne_of_lt)
  exact List.inj_on_of_nodup_map apart (same.mem_iff.mp memberA) memberB (Nat.le_antisymm le ge)

theorem total_eq (inOrder : InOrder keys replies) :
    (replies.map fun reply => reply.keys.length).sum = keys.length := by
  rw [← inOrder.keys_eq, List.length_flatMap]

theorem vals_length (inOrder : InOrder keys replies) :
    (replies.flatMap KVPairs.vals).length = keys.length := by
  rw [← inOrder.total_eq, List.length_flatMap]
  exact congrArg List.sum (List.map_congr_left inOrder.sized)

theorem zip_flatMap {replies : List (KVPairs Val)}
    (sized : ∀ reply ∈ replies, reply.vals.length = reply.keys.length) :
    (replies.flatMap KVPairs.keys).zip (replies.flatMap KVPairs.vals) =
      replies.flatMap fun reply => reply.keys.zip reply.vals := by
  induction replies with
  | nil => rfl
  | cons reply replies ih =>
      obtain ⟨here, rest⟩ := List.forall_mem_cons.mp sized
      simp only [List.flatMap_cons, List.zip_append here.symm, ih rest]

theorem check_eq (inOrder : InOrder keys replies) (sorted : SortedList.Sorted UInt32.toNat keys)
    {reply : KVPairs Val} (member : reply ∈ replies) : KVTableBox.checkReply keys reply =
      if 4294967295 ∈ reply.keys then .error (.check .matchedKeys) else .ok () := by
  obtain ⟨share, slice⟩ := inOrder.slice reply member
  exact checkReply_slice sorted slice (inOrder.some_key reply member)

theorem complete (inOrder : InOrder keys replies) (sorted : SortedList.Sorted UInt32.toNat keys)
    (notGreatest : 4294967295 ∉ keys) (arrival : arrived.Perm replies) :
    ∃ vals, KVTableBox.handleFinish ⟨arrived⟩ keys = .ok (vals, ⟨[]⟩) ∧ vals.length = keys.length ∧
      keys.zip vals = replies.flatMap fun reply => reply.keys.zip reply.vals := by
  have checked : forM arrived (KVTableBox.checkReply keys) = .ok () := by
    apply Except.forM_eq_ok_iff.mpr
    intro reply member
    have inReplies := arrival.mem_iff.mp member
    rw [inOrder.check_eq sorted inReplies]
    apply if_neg
    intro greatest
    apply notGreatest
    rw [← inOrder.keys_eq]
    exact List.mem_flatMap.mpr ⟨reply, inReplies, greatest⟩
  have total : (arrived.map fun s => s.keys.length).sum = keys.length :=
    (arrival.map _).sum_eq.trans inOrder.total_eq
  refine ⟨replies.flatMap KVPairs.vals, ?_, inOrder.vals_length, ?_⟩
  · simp only [KVTableBox.handleFinish, checked, total, check_pos, Except.ok_bind,
      inOrder.sort_eq arrival, Except.pure_eq_ok]
  · rw [← zip_flatMap inOrder.sized, inOrder.keys_eq]

theorem missing (inOrder : InOrder keys replies) (sorted : SortedList.Sorted UInt32.toNat keys)
    (arrival : arrived.Subperm replies) (fewer : arrived.length < replies.length) :
    ∃ c, KVTableBox.handleFinish ⟨arrived⟩ keys = .error (.check c) := by
  cases checked : forM arrived (KVTableBox.checkReply keys) with
  | error e =>
      obtain ⟨reply, member, failed⟩ := Except.forM_eq_error checked
      rw [inOrder.check_eq sorted (arrival.subset member)] at failed
      split at failed
      · cases failed
        exact ⟨.matchedKeys, by simp [KVTableBox.handleFinish, checked]⟩
      · cases failed
  | ok =>
      obtain ⟨reply, more⟩ := arrival.exists_of_length_lt fewer
      obtain ⟨others, split⟩ := Multiset.le_iff_exists_add.mp (Multiset.coe_le.mpr more)
      have sums := congrArg (fun m : Multiset (KVPairs Val) => (m.map fun s => s.keys.length).sum) split
      simp only [Multiset.map_add, Multiset.sum_add, Multiset.map_coe, Multiset.sum_coe,
        List.map_cons, List.sum_cons, inOrder.total_eq] at sums
      have some_key := List.length_pos_iff.mpr (inOrder.some_key reply (more.subset List.mem_cons_self))
      have short : (arrived.map fun s => s.keys.length).sum ≠ keys.length := by omega
      exact ⟨.allServers, by simp [KVTableBox.handleFinish, checked, check_neg short]⟩

/-- The greatest key is in one of the replies, and that reply is not accepted. -/
theorem not_complete (inOrder : InOrder keys replies) (sorted : SortedList.Sorted UInt32.toNat keys)
    (greatest : 4294967295 ∈ keys) (vals : List Val) :
    KVTableBox.handleFinish ⟨replies⟩ keys ≠ .ok (vals, ⟨[]⟩) := by
  rw [← inOrder.keys_eq] at greatest
  obtain ⟨reply, member, inReply⟩ := List.mem_flatMap.mp greatest
  intro finished
  obtain ⟨_, checked, -⟩ := Except.bind_eq_ok.mp finished
  have accepted := Except.forM_eq_ok_iff.mp checked reply member
  rw [inOrder.check_eq sorted member, if_pos inReply] at accepted
  cases accepted

end InOrder

/-! ## The slices in the order of the keys -/

theorem pairwise_of_chain {ranges : List Range}
    (chain : ranges.IsChain fun range next => range.end_ = next.begin_)
    (forward : ∀ range ∈ ranges, range.begin_ ≤ range.end_) :
    ranges.Pairwise fun range later => range.end_ ≤ later.begin_ := by
  induction ranges with
  | nil => exact List.Pairwise.nil
  | cons range ranges ih =>
      have rest := ih chain.tail fun later member => forward later (List.mem_cons_of_mem _ member)
      refine List.pairwise_cons.mpr ⟨fun later member => ?_, rest⟩
      cases ranges with
      | nil => cases member
      | cons next ranges =>
          have joined : range.end_ = next.begin_ := (List.isChain_cons_cons.mp chain).1
          cases List.mem_cons.mp member with
          | inl here => rw [here, joined]
          | inr further =>
              have above := (List.pairwise_cons.mp rest).1 later further
              have := forward next (by simp)
              omega

/-- The first key of a slice lies in its range. -/
theorem front_owned {keys : List Key} {share : Range}
    (some_key : (keys.filter fun key => share.Owns key) ≠ []) (vals : List Val) :
    share.begin_ ≤ (⟨keys.filter fun key => share.Owns key, vals⟩ : KVPairs Val).front ∧
      (⟨keys.filter fun key => share.Owns key, vals⟩ : KVPairs Val).front < share.end_ := by
  obtain ⟨front, first⟩ := Option.isSome_iff_exists.mp (List.isSome_head?.mpr some_key)
  have owned := of_decide_eq_true (List.mem_filter.mp (List.mem_of_mem_head? first)).2
  simp only [KVPairs.front, first, Option.map_some, Option.getD_some]
  exact owned

namespace SimpleRangePartitionManager

theorem slices_ordered (send : KVPairs Val) (c : Nat) {servers : List (Range × Tid)}
    (apart : servers.Pairwise fun server later => server.1.end_ ≤ later.1.begin_) :
    (slices c send servers).Pairwise fun slice later => slice.2.front < later.2.front := by
  unfold slices
  rw [List.pairwise_filter, List.pairwise_map]
  refine apart.imp fun {server later} before some_key later_key => ?_
  replace some_key := of_decide_eq_true some_key
  replace later_key := of_decide_eq_true later_key
  rw [KVPairs.part_keys] at some_key later_key
  have here := (front_owned some_key ([] : List Val)).2
  have there := (front_owned later_key ([] : List Val)).1
  simp only [KVPairs.front, KVPairs.part_keys] at here there ⊢
  omega

end SimpleRangePartitionManager

theorem Replies.sameKeys {sliced : SlicedKVs Val} {replies : List (KVPairs Val)}
    (replied : Replies sliced replies) :
    replies.map KVPairs.keys = sliced.map fun slice => slice.2.keys := by
  induction replied with
  | nil => rfl
  | cons head _ ih => simp only [List.map_cons, head.1, ih]

theorem Replies.sized {sliced : SlicedKVs Val} {replies : List (KVPairs Val)}
    (replied : Replies sliced replies) : ∀ reply ∈ replies, reply.vals.length = reply.keys.length := by
  induction replied with
  | nil => exact fun _ member => absurd member List.not_mem_nil
  | cons head _ ih => exact List.forall_mem_cons.mpr ⟨head.2, ih⟩

/-- The slices over contiguous ranges come in the order of the keys. -/
theorem Replies.inOrder {manager : SimpleRangePartitionManager} {keys : List Key}
    (some_range : manager.ranges ≠ []) (contiguous : manager.Contiguous) (some_key : keys ≠ [])
    (cuts : manager.Cuts keys) (inside : ∀ key ∈ keys, manager.span.Owns key)
    {sliced : SlicedKVs Val} (cut : manager.slice ⟨keys, []⟩ = .ok sliced)
    {replies : List (KVPairs Val)} (replied : Replies sliced replies) : InOrder keys replies := by
  let send : KVPairs Val := ⟨keys, []⟩
  have sized : send.vals.length = 0 * send.keys.length := (Nat.zero_mul _).symm
  have computed := SimpleRangePartitionManager.slice_of_cuts some_range contiguous some_key cuts sized
  have sliced_eq := Except.ok.inj (cut.symm.trans computed)
  have ranges : (manager.ranges.zip manager.serverThreadIds).map Prod.fst = manager.ranges :=
    List.map_fst_zip manager.sameSize.le
  have sameKeys := replied.sameKeys
  have isSlice : ∀ reply ∈ replies, ∃ share : Range,
      reply.keys = (keys.filter fun key => share.Owns key) ∧ reply.keys ≠ [] := by
    intro reply member
    have listed : reply.keys ∈ replies.map KVPairs.keys := List.mem_map_of_mem member
    rw [sameKeys] at listed
    obtain ⟨slice, inSliced, same⟩ := List.mem_map.mp listed
    rw [sliced_eq] at inSliced
    obtain ⟨inShares, kept⟩ := List.mem_filter.mp inSliced
    obtain ⟨server, -, rfl⟩ := List.mem_map.mp inShares
    rw [← same]
    exact ⟨server.1, KVPairs.part_keys _ _ _, of_decide_eq_true kept⟩
  constructor
  case keys_eq =>
    calc replies.flatMap KVPairs.keys
        = sliced.flatMap fun slice => slice.2.keys := by
          rw [List.flatMap_def, sameKeys, ← List.flatMap_def]
      _ = manager.ranges.flatMap fun range => keys.filter fun key => range.Owns key := by
          rw [sliced_eq, SimpleRangePartitionManager.slices_flatMap _ _ _ _ fun _ empty => empty, ranges]
          simp only [KVPairs.part_keys, send]
      _ = keys.filter fun key => manager.span.Owns key :=
          SimpleRangePartitionManager.flatMap_owns_of_cuts contiguous some_range cuts
      _ = keys := List.filter_eq_self.mpr fun key member => decide_eq_true (inside key member)
  case some_key => exact fun reply member => (isSlice reply member).choose_spec.2
  case sized => exact replied.sized
  case slice => exact fun reply member => (isSlice reply member).imp fun _ slice => slice.1
  case ordered =>
    have apart : (manager.ranges.zip manager.serverThreadIds).Pairwise
        fun server later => server.1.end_ ≤ later.1.begin_ := by
      have pairwise := pairwise_of_chain contiguous.1 contiguous.2
      rw [← ranges, List.pairwise_map] at pairwise
      exact pairwise
    have ordered := SimpleRangePartitionManager.slices_ordered (⟨keys, []⟩ : KVPairs Val) 0 apart
    rw [← sliced_eq] at ordered
    let frontOf (ks : List Key) : Nat := (ks.head?.map UInt32.toNat).getD 0
    have onKeys : (sliced.map fun slice => slice.2.keys).Pairwise fun a b => frontOf a < frontOf b :=
      List.pairwise_map.mpr ordered
    rw [← sameKeys, List.pairwise_map] at onKeys
    exact onKeys

/-- The whole answer to a `Get` is accepted in any order of arrival and put into the order
    of its keys, unless the greatest `uint32_t` is among them; a part of it never is. -/
theorem answers_exactly_iff (manager : SimpleRangePartitionManager) (some_range : manager.ranges ≠ [])
    (contiguous : manager.Contiguous) {keys : List Key} (some_key : keys ≠ [])
    (sorted : keys.Pairwise (· ≤ ·)) (inside : ∀ key ∈ keys, manager.span.Owns key)
    {sliced : SlicedKVs Val} (cut : manager.slice ⟨keys, []⟩ = .ok sliced)
    {replies : List (KVPairs Val)} (replied : Replies sliced replies) :
    AnswersExactly keys replies ↔ 4294967295 ∉ keys := by
  have inOrder := replied.inOrder some_range contiguous some_key (.inl sorted) inside cut
  constructor
  · intro answers greatest
    obtain ⟨vals, finished, -⟩ := answers.complete replies (List.Perm.refl _)
    exact inOrder.not_complete sorted greatest vals finished
  · intro notGreatest
    exact ⟨fun _ => inOrder.complete sorted notGreatest, fun _ => inOrder.missing sorted⟩

/-- Two servers and a repeated key. -/
theorem answers_exactly_iff_twoServers :
    AnswersExactly [3, 4, 4] [⟨[3], [30]⟩, (⟨[4, 4], [40, 41]⟩ : KVPairs Int)] := by
  have cut : SimpleRangePartitionManager.slice ⟨[⟨2, 4⟩, ⟨4, 7⟩], [0, 1], rfl⟩
      (⟨[3, 4, 4], []⟩ : KVPairs Int) = .ok [(0, ⟨[3], []⟩), (1, ⟨[4, 4], []⟩)] := by rfl
  have replied : Replies [(0, ⟨[3], []⟩), (1, ⟨[4, 4], []⟩)]
      [⟨[3], [30]⟩, (⟨[4, 4], [40, 41]⟩ : KVPairs Int)] := .cons ⟨rfl, rfl⟩ (.cons ⟨rfl, rfl⟩ .nil)
  exact (answers_exactly_iff _ (by decide) (by decide) (by decide) (by decide) (by decide) cut
    replied).mpr (by decide)

/-- One server owns every key, and the greatest is asked for. -/
theorem answer_not_accepted : ¬ ∀ (manager : SimpleRangePartitionManager), manager.ranges ≠ [] →
    manager.Contiguous → ∀ (keys : List Key), keys ≠ [] → keys.Pairwise (· ≤ ·) →
    (∀ key ∈ keys, manager.span.Owns key) → ∀ (sliced : SlicedKVs Int),
    manager.slice ⟨keys, []⟩ = .ok sliced → ∀ (replies : List (KVPairs Int)),
    Replies sliced replies → AnswersExactly keys replies := by
  intro always
  have answers := always ⟨[⟨0, 4294967296⟩], [0], rfl⟩ (by decide) (by decide) [4294967295] (by decide)
    (by decide) (by decide) [(0, ⟨[4294967295], []⟩)] (by rfl) [⟨[4294967295], [1]⟩]
    (.cons ⟨rfl, rfl⟩ .nil)
  obtain ⟨vals, finished, -⟩ := answers.complete _ (List.Perm.refl _)
  obtain ⟨_, checked, -⟩ := Except.bind_eq_ok.mp finished
  have accepted := Except.forM_eq_ok_iff.mp checked _ List.mem_cons_self
  revert accepted
  decide

end FlexPS
