import FlexPS.Server.Storage
import FlexPS.Worker.TableBox

/-! # What each server gets of a request -/

namespace FlexPS

namespace SimpleRangePartitionManager

variable {Val : Type}

/-- What one server gets of a request. -/
def part (manager : SimpleRangePartitionManager) (send : KVPairs Val) (server : Tid) : KVPairs Val :=
  match manager.slice send with
  | .ok sliced => ((sliced.find? fun slice => slice.1 = server).map Prod.snd).getD ⟨[], []⟩
  | .error _ => ⟨[], []⟩

/-- Contiguous ranges, one for each of some servers. -/
structure Sound (manager : SimpleRangePartitionManager) : Prop where
  some_range : manager.ranges ≠ []
  contiguous : manager.Contiguous
  apart : manager.serverThreadIds.Nodup

variable {manager : SimpleRangePartitionManager} {send : KVPairs Val} {sliced : SlicedKVs Val}
  {server : Tid} {range range' : Range} {c : Nat}

theorem filter_slices (apart : manager.serverThreadIds.Nodup) (cut : manager.slice send = .ok sliced)
    (server : Tid) : (sliced.filter fun slice => slice.1 = server) =
      if (manager.part send server).keys = [] then [] else [(server, manager.part send server)] := by
  obtain ⟨receivers, filled⟩ := slice_receivers cut
  have once : (sliced.map Prod.fst).Nodup := apart.sublist receivers
  simp only [part, cut]
  cases found : sliced.find? fun slice => slice.1 = server with
  | none =>
      rw [List.find?_eq_none] at found
      simpa using found
  | some slice =>
      have member := List.mem_of_find?_eq_some found
      have receiver : slice.1 = server := by simpa using List.find?_some found
      have only : (sliced.filter fun other => other.1 = server) = [slice] := by
        obtain ⟨before, after, rfl⟩ := List.append_of_mem member
        rw [List.map_append, List.map_cons, List.nodup_append, List.nodup_cons] at once
        obtain ⟨-, ⟨notLater, -⟩, notBoth⟩ := once
        have noneBefore : (before.filter fun other => other.1 = server) = [] := by
          apply List.filter_eq_nil_iff.mpr
          intro other inBefore same
          have same := of_decide_eq_true same
          exact notBoth _ (List.mem_map_of_mem inBefore) _ List.mem_cons_self (same.trans receiver.symm)
        have noneAfter : (after.filter fun other => other.1 = server) = [] := by
          apply List.filter_eq_nil_iff.mpr
          intro other inAfter same
          have same := of_decide_eq_true same
          exact notLater (receiver ▸ same ▸ List.mem_map_of_mem inAfter)
        rw [List.filter_append, List.filter_cons_of_pos (by simpa using receiver), noneBefore, noneAfter,
          List.nil_append]
      obtain ⟨target, kvs⟩ := slice
      rw [only, Option.map_some, Option.getD_some, if_neg (filled _ member)]
      simp only at receiver
      rw [receiver]

/-- The receivers of a request are the servers with a part of it, in their order. -/
theorem receivers_eq (apart : manager.serverThreadIds.Nodup) (cut : manager.slice send = .ok sliced) :
    sliced.map Prod.fst =
      manager.serverThreadIds.filter fun server => (manager.part send server).keys ≠ [] := by
  obtain ⟨receivers, -⟩ := slice_receivers cut
  have named : ∀ server, server ∈ sliced.map Prod.fst ↔ (manager.part send server).keys ≠ [] := by
    intro server
    have slices := filter_slices apart cut server
    constructor
    · intro member empty
      obtain ⟨slice, inSliced, receiver⟩ := List.mem_map.mp member
      rw [if_pos empty, List.filter_eq_nil_iff] at slices
      exact slices slice inSliced (decide_eq_true receiver)
    · intro filled
      rw [if_neg filled] at slices
      have member : (server, manager.part send server) ∈
          sliced.filter fun slice => slice.1 = server := slices ▸ List.mem_singleton_self _
      exact List.mem_map.mpr ⟨_, List.mem_of_mem_filter member, rfl⟩
  apply (apart.perm_iff_eq_of_sublist receivers List.filter_sublist).mp
  apply (List.perm_ext_iff_of_nodup (apart.sublist receivers) (apart.sublist List.filter_sublist)).mpr
  intro server
  rw [named, List.mem_filter, decide_eq_true_eq]
  constructor
  · intro filled
    exact ⟨receivers.subset ((named server).mpr filled), filled⟩
  · exact fun ⟨_, filled⟩ => filled

/-- A slice holds what its receiver gets. -/
theorem mem_sliced (apart : manager.serverThreadIds.Nodup) (cut : manager.slice send = .ok sliced)
    {slice : Tid × KVPairs Val} (member : slice ∈ sliced) : slice.2 = manager.part send slice.1 := by
  have only := filter_slices apart cut slice.1
  have inFilter : slice ∈ sliced.filter fun other => other.1 = slice.1 :=
    List.mem_filter.mpr ⟨member, decide_eq_true rfl⟩
  rw [only] at inFilter
  split at inFilter
  · cases inFilter
  · exact congrArg Prod.snd (List.mem_singleton.mp inFilter)

/-- Every server has a range. -/
theorem range_of_server (member : server ∈ manager.serverThreadIds) :
    ∃ range, (range, server) ∈ manager.ranges.zip manager.serverThreadIds := by
  rw [← List.map_snd_zip manager.sameSize.ge] at member
  obtain ⟨⟨range, _⟩, inZip, rfl⟩ := List.mem_map.mp member
  exact ⟨range, inZip⟩

theorem range_unique (apart : manager.serverThreadIds.Nodup)
    (inZip : (range, server) ∈ manager.ranges.zip manager.serverThreadIds)
    (inZip' : (range', server) ∈ manager.ranges.zip manager.serverThreadIds) : range = range' := by
  have once : ((manager.ranges.zip manager.serverThreadIds).map Prod.snd).Nodup := by
    rw [List.map_snd_zip manager.sameSize.ge]
    exact apart
  exact congrArg Prod.fst (List.inj_on_of_nodup_map once inZip inZip' rfl)

/-- A request without keys is never cut: `Slice` divides by their number. -/
theorem part_of_empty (none : send.keys = []) (server : Tid) : manager.part send server = ⟨[], []⟩ := by
  have stopped : ∃ e, manager.slice send = .error e := by
    unfold slice
    cases manager.ranges with
    | nil => exact ⟨_, rfl⟩
    | cons range rest => exact ⟨_, if_pos (congrArg List.length none)⟩
  obtain ⟨e, stopped⟩ := stopped
  rw [part, stopped]

theorem keys_of_part (filled : (manager.part send server).keys ≠ []) : send.keys ≠ [] := by
  intro none
  rw [part_of_empty none] at filled
  exact filled rfl

/-- The keys that a server gets do not depend on the values. -/
theorem part_keys_eq (filled : (manager.part send server).keys ≠ []) :
    (manager.part send server).keys = (manager.part (⟨send.keys, []⟩ : KVPairs Val) server).keys := by
  cases cut : manager.slice send with
  | error e =>
      simp only [part, cut] at filled
      exact absurd rfl filled
  | ok sliced =>
      obtain ⟨sliced', cut', same⟩ := slice_keys cut
      have keys_of (sent : SlicedKVs Val) :
          (((sent.find? fun slice => slice.1 = server).map Prod.snd).getD ⟨[], []⟩).keys =
            (((sent.map fun slice => (slice.1, slice.2.keys)).find? fun slice =>
              slice.1 = server).map Prod.snd).getD [] := by
        rw [List.find?_map]
        change _ = (((sent.find? fun slice => slice.1 = server).map _).map Prod.snd).getD []
        cases sent.find? fun slice => slice.1 = server <;> rfl
      simp only [part, cut, cut']
      rw [keys_of, keys_of, same]

/-- A server gets what is in its range. -/
theorem part_eq (sound : manager.Sound) (cuts : manager.Cuts send.keys)
    (sized : send.vals.length = c * send.keys.length)
    (inZip : (range, server) ∈ manager.ranges.zip manager.serverThreadIds) :
    manager.part send server = send.part c range := by
  by_cases some_key : send.keys = []
  · have empty : (send.part c range).keys = [] := by rw [KVPairs.part_keys, some_key, List.filter_nil]
    rw [part_of_empty some_key]
    exact (congrArg₂ KVPairs.mk empty (KVPairs.part_vals_of_empty empty)).symm
  have cut := slice_of_cuts sound.some_range sound.contiguous some_key cuts sized
  have only := filter_slices sound.apart cut server
  by_cases empty : (send.part c range).keys = []
  · have none : ∀ slice ∈ slices c send (manager.ranges.zip manager.serverThreadIds),
        slice.1 ≠ server := by
      intro slice member receiver
      obtain ⟨inParts, filled⟩ := List.mem_filter.mp member
      obtain ⟨⟨range', server'⟩, inZip', rfl⟩ := List.mem_map.mp inParts
      obtain rfl : server' = server := receiver
      obtain rfl := range_unique sound.apart inZip inZip'
      exact of_decide_eq_true filled empty
    have nothing : manager.part send server = ⟨[], []⟩ := by
      simp only [part, cut]
      rw [List.find?_eq_none.mpr fun slice member same => none slice member (of_decide_eq_true same)]
      rfl
    rw [nothing]
    exact (congrArg₂ KVPairs.mk empty (KVPairs.part_vals_of_empty empty)).symm
  · have inSlices : (server, send.part c range) ∈
        slices c send (manager.ranges.zip manager.serverThreadIds) :=
      List.mem_filter.mpr ⟨List.mem_map.mpr ⟨(range, server), inZip, rfl⟩, decide_eq_true empty⟩
    exact (mem_sliced sound.apart cut inSlices).symm

/-- Only a server of the manager gets anything. -/
theorem mem_of_part (apart : manager.serverThreadIds.Nodup) (filled : (manager.part send server).keys ≠ []) :
    server ∈ manager.serverThreadIds := by
  cases cut : manager.slice send with
  | error e =>
      simp only [part, cut] at filled
      exact absurd rfl filled
  | ok sliced =>
      have inSlices := filter_slices apart cut server
      rw [if_neg filled] at inSlices
      have member := List.mem_of_mem_filter (inSlices ▸ List.mem_singleton_self _ :
        (server, manager.part send server) ∈ _)
      exact (slice_receivers cut).1.subset (List.mem_map_of_mem member)

/-- The owner of a key gets all that is added to it. -/
theorem contribution_part [AddCommMonoid Val] (sound : manager.Sound)
    (sorted : send.keys.Pairwise (· ≤ ·)) (sized : send.vals.length = send.keys.length)
    (inZip : (range, server) ∈ manager.ranges.zip manager.serverThreadIds) {key : Key}
    (owned : range.Owns key) : (manager.part send server).contribution key = send.contribution key := by
  rw [part_eq sound (.inl sorted) (sized.trans (Nat.one_mul _).symm) inZip, KVPairs.contribution,
    KVPairs.contribution, KVPairs.part_zip sized, List.filter_filter]
  congr 2
  refine List.filter_congr fun kv _ => ?_
  by_cases same : kv.1 = key
  · simp [same, owned]
  · simp [same]

/-- The servers with a part of a request, in their order. -/
def owners (manager : SimpleRangePartitionManager) (send : KVPairs Val) : List Tid :=
  manager.serverThreadIds.filter fun server => (manager.part send server).keys ≠ []

theorem mem_owners : server ∈ manager.owners send ↔
    server ∈ manager.serverThreadIds ∧ (manager.part send server).keys ≠ [] := by
  rw [owners, List.mem_filter, decide_eq_true_eq]

/-- An answer of every owner for its part, one value for each key. -/
theorem replies_of_owners (apart : manager.serverThreadIds.Nodup) (cut : manager.slice send = .ok sliced)
    {answers : List (KVPairs Val)}
    (each : List.Forall₂ (fun server answer => answer.keys = (manager.part send server).keys ∧
      answer.vals.length = answer.keys.length) (manager.owners send) answers) :
    Replies sliced answers := by
  rw [owners, ← receivers_eq apart cut, List.forall₂_map_left_iff] at each
  refine ((List.forall₂_and_left _ _).mpr ⟨fun _ inSliced => inSliced, each⟩).imp ?_
  rintro slice answer ⟨inSliced, keys_eq, sized⟩
  exact ⟨by rw [keys_eq, mem_sliced apart cut inSliced], sized⟩

end SimpleRangePartitionManager

end FlexPS
