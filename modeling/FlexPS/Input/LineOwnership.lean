import FlexPS.Input.LineReader

/-! # Every line has one owner

The blocks of a file own its lines: a block at the start owns the first line, and every
block owns the lines that start behind its newlines. `next` does not follow this where a
block has no newline, and where the block is a single byte.
-/

namespace FlexPS

open Lines

namespace FileBlock

/-- The lines that `next` has to return for the block. -/
def own (block : FileBlock) : List Bytes :=
  (if block.offset = 0 then [lineAt newline (block.bytes ++ block.rest)] else []) ++
    owned newline block.bytes block.rest

/-- What `next` returns although it belongs to another block, or starts inside a line. -/
def extra (inside : Bool) (block : FileBlock) : List Bytes :=
  if block.Skipped inside then
    if block.bytes = [newline] then [] else nonempty [lineAt newline block.rest]
  else if block.offset ≠ 0 ∧ newline ∉ block.bytes then [block.bytes ++ lineAt newline block.rest]
  else []

/-- The line whose only byte in the block is skipped. -/
def lost (inside : Bool) (block : FileBlock) : List Bytes :=
  if block.Skipped inside ∧ block.offset = 0 ∧ block.bytes ≠ [newline] then
    [block.bytes ++ lineAt newline block.rest]
  else []

variable {inside : Bool} {block : FileBlock}

theorem returned_of_skipped (skipped : block.Skipped inside) :
    (nonempty (block.returned inside) ++ block.lost inside).Perm
      (nonempty block.own ++ block.extra inside) := by
  obtain ⟨c, bytes⟩ := List.length_eq_one_iff.mp skipped.2
  rw [returned, if_pos skipped, extra, if_pos skipped]
  by_cases same : c = newline
  · subst same
    by_cases first : block.offset = 0 <;>
      simp [lost, own, bytes, first, owned, lineAt_cons_sep, nonempty]
  · have absent : newline ∉ [c] := by simpa using Ne.symm same
    by_cases first : block.offset = 0
    · rw [lost, if_pos ⟨skipped, first, by simpa [bytes] using same⟩, own, if_pos first, bytes,
        owned_of_not_mem absent, lineAt_append_of_not_mem absent, if_neg (by simpa using same)]
      exact List.perm_append_comm.trans (by simp [nonempty])
    · simp [lost, own, bytes, first, owned, same, nonempty]

theorem returned_of_not_skipped (inner : ¬ block.Skipped inside) (bytes_ne : block.bytes ≠ []) :
    (nonempty (block.returned inside) ++ block.lost inside).Perm
      (nonempty block.own ++ block.extra inside) := by
  rw [returned, if_neg inner, extra, if_neg inner, lost, if_neg fun h => inner h.1, List.append_nil]
  by_cases first : block.offset = 0
  · rw [own, if_pos first, if_neg fun h => h.1 first, List.append_nil]
    by_cases head : block.bytes.head? = some newline
    · obtain ⟨tail, bytes⟩ := List.head?_eq_some_iff.mp head
      simp [entered, first, bytes, owned, lineAt_cons_sep, nonempty]
    · simp [entered, first, head]
  · by_cases mem : newline ∈ block.bytes
    · obtain ⟨line, tail, bytes, absent⟩ := List.eq_append_cons_of_mem mem
      rw [own, if_neg first, if_neg fun h => h.2 mem, List.append_nil, List.nil_append,
        entered_of_split first bytes absent, bytes, owned_append_sep absent]
    · simp [entered, own, first, mem, owned_of_not_mem mem, lineAt_append_of_not_mem mem, bytes_ne,
        nonempty]

theorem returned_perm (inside : Bool) (bytes_ne : block.bytes ≠ []) :
    (nonempty (block.returned inside) ++ block.lost inside).Perm
      (nonempty block.own ++ block.extra inside) := by
  by_cases skipped : block.Skipped inside
  · exact returned_of_skipped skipped
  · exact returned_of_not_skipped skipped bytes_ne

end FileBlock

/-! ## Blocks and readers -/

theorem collect_perm {blocks : List FileBlock} (inside : Bool)
    (bytes_ne : ∀ block ∈ blocks, block.bytes ≠ []) :
    (nonempty (collect FileBlock.returned inside blocks) ++ collect FileBlock.lost inside blocks).Perm
      (blocks.flatMap (nonempty ∘ FileBlock.own) ++ collect FileBlock.extra inside blocks) := by
  induction blocks generalizing inside with
  | nil => rfl
  | cons block blocks ih =>
      have first := block.returned_perm inside (bytes_ne block List.mem_cons_self)
      have later := ih (block.leaves inside) fun later mem => bytes_ne later (List.mem_cons_of_mem _ mem)
      rw [← Multiset.coe_eq_coe] at first later ⊢
      simp only [collect, nonempty, List.filter_append, List.flatMap_cons, Function.comp_apply,
        ← Multiset.coe_add] at first later ⊢
      rw [add_add_add_comm, first, later, add_add_add_comm]

/-- Where the blocks of a file start. -/
def blockOffsets (blockSize : Nat) (file : Bytes) : List Nat :=
  (List.range ((file.length + blockSize - 1) / blockSize)).map (· * blockSize)

def allBlocks (blockSize : Nat) (files : List Bytes) : List (Nat × Nat) :=
  files.zipIdx.flatMap fun (file, i) => (blockOffsets blockSize file).map fun offset => (i, offset)

/-- Every block of every file is assigned to one reader, and `fetch_block` returns its bytes
    and what is behind it. It counts them in an `int`. -/
structure AssignedBlocks (blockSize : Nat) (files : List Bytes) (readers : List (List FileBlock)) : Prop where
  places : (readers.flatten.map fun block => (block.file, block.offset)).Perm
    (allBlocks blockSize files)
  bytes : ∀ block ∈ readers.flatten, ∃ file, files[block.file]? = some file ∧
    block.bytes = (file.drop block.offset).take blockSize ∧
    block.rest = file.drop (block.offset + blockSize)
  chunks_ne : ∀ block ∈ readers.flatten, ∀ chunk ∈ block.chunks, chunk ≠ []
  bytes_lt : ∀ block ∈ readers.flatten, block.bytes.length < 2147483648
  chunks_lt : ∀ block ∈ readers.flatten, ∀ chunk ∈ block.chunks, chunk.length < 2147483648

/-- The non-empty lines of all files. -/
def fileLines (files : List Bytes) : List Bytes := nonempty (files.flatMap (·.splitOn newline))

/-- The readers return the non-empty lines of all files, each as often as it is there. -/
def ReadsEveryLine (files : List Bytes) (readers : List (List FileBlock)) : Prop :=
  ∃ records, List.Forall₂ (fun blocks => (LineInputFormat.init blocks).Reads) readers records ∧
    (nonempty records.flatten).Perm (fileLines files)

def extraRecords (readers : List (List FileBlock)) : List Bytes :=
  readers.flatMap (collect FileBlock.extra false)

def lostLines (readers : List (List FileBlock)) : List Bytes :=
  readers.flatMap (collect FileBlock.lost false)

section AssignedBlocks

variable {blockSize : Nat} {files : List Bytes} {readers : List (List FileBlock)}

/-- The lines that the block of `file` at `offset` owns. -/
def ownedAt (blockSize : Nat) (file : Bytes) (offset : Nat) : List Bytes :=
  (if offset = 0 then [lineAt newline file] else []) ++
    owned newline ((file.drop offset).take blockSize) (file.drop (offset + blockSize))

theorem own_eq_ownedAt {block : FileBlock} {file : Bytes}
    (bytes : block.bytes = (file.drop block.offset).take blockSize)
    (rest : block.rest = file.drop (block.offset + blockSize)) :
    block.own = ownedAt blockSize file block.offset := by
  have whole : block.offset = 0 → block.bytes ++ block.rest = file := by
    intro first
    rw [bytes, rest, first, Nat.zero_add, List.drop_zero, List.take_append_drop]
  unfold FileBlock.own ownedAt
  split
  · next first => rw [whole first, bytes, rest]
  · rw [bytes, rest]

theorem flatMap_first {α : Type} (x : α) (positive : 0 < blockSize) {n : Nat} (some : 0 < n) :
    ((List.range n).map (· * blockSize)).flatMap (fun offset => if offset = 0 then [x] else []) = [x] := by
  obtain ⟨n, rfl⟩ := Nat.exists_eq_succ_of_ne_zero some.ne'
  rw [List.range_succ_eq_map, List.map_cons, List.flatMap_cons, List.map_map]
  simp [positive.ne']

theorem ownedAt_perm (positive : 0 < blockSize) (file : Bytes) :
    (nonempty ((blockOffsets blockSize file).flatMap (ownedAt blockSize file))).Perm
      (nonempty (file.splitOn newline)) := by
  by_cases empty : file = []
  · subst empty
    have none : blockOffsets blockSize [] = [] := by
      rw [blockOffsets, List.length_nil, Nat.div_eq_of_lt (by omega)]
      rfl
    simp [none, nonempty]
  · obtain ⟨n, n_eq⟩ : ∃ n, n = (file.length + blockSize - 1) / blockSize := ⟨_, rfl⟩
    have length_pos : 0 < file.length := List.length_pos_of_ne_nil empty
    have some : 0 < n := by
      rw [n_eq]
      exact Nat.div_pos (by omega) positive
    have covers : file.length ≤ n * blockSize := by
      have below := Nat.lt_mul_div_succ (file.length + blockSize - 1) positive
      rw [← n_eq, Nat.mul_add, Nat.mul_comm blockSize n] at below
      omega
    have tails := @flatMap_owned_of_le _ _ newline _ _ _ covers
    have firsts := flatMap_first (lineAt newline file) positive some
    rw [splitOn_eq, blockOffsets, ← n_eq]
    refine List.Perm.filter _ ?_
    refine (List.flatMap_append_perm _ _ _).symm.trans ?_
    rw [firsts, List.flatMap_map, tails]
    rfl

/-- What the block at a place owns. -/
def ownedPlace (blockSize : Nat) (files : List Bytes) (place : Nat × Nat) : List Bytes :=
  match files[place.1]? with
  | some file => nonempty (ownedAt blockSize file place.2)
  | none => []

theorem own_eq_ownedPlace (assigned : AssignedBlocks blockSize files readers) :
    readers.flatten.flatMap (nonempty ∘ FileBlock.own) =
      (readers.flatten.map fun block => (block.file, block.offset)).flatMap
        (ownedPlace blockSize files) := by
  rw [List.flatMap_map]
  refine List.flatMap_congr fun block mem => ?_
  obtain ⟨file, found, bytes, rest⟩ := assigned.bytes block mem
  simp only [Function.comp_apply, ownedPlace, found, own_eq_ownedAt bytes rest]

theorem own_perm (positive : 0 < blockSize) (assigned : AssignedBlocks blockSize files readers) :
    (readers.flatten.flatMap (nonempty ∘ FileBlock.own)).Perm (fileLines files) := by
  have lines_eq : fileLines files = files.zipIdx.flatMap fun (file, _) =>
      nonempty (file.splitOn newline) := by
    conv => lhs; rw [fileLines, nonempty, List.filter_flatMap, ← List.zipIdx_map_fst 0 files,
      List.flatMap_map]
  rw [own_eq_ownedPlace assigned, lines_eq]
  refine (assigned.places.flatMap_right _).trans ?_
  rw [allBlocks, List.flatMap_assoc]
  refine List.Perm.flatMap_left _ fun (file, i) mem => ?_
  have found : files[i]? = some file := List.mem_zipIdx_iff_getElem?.mp mem
  have owned_eq : ((blockOffsets blockSize file).map fun offset => (i, offset)).flatMap
      (ownedPlace blockSize files) =
        nonempty ((blockOffsets blockSize file).flatMap (ownedAt blockSize file)) := by
    rw [List.flatMap_map, nonempty, List.filter_flatMap]
    simp only [ownedPlace, found]
  rw [owned_eq]
  exact ownedAt_perm positive file

theorem AssignedBlocks.fetched (positive : 0 < blockSize) (assigned : AssignedBlocks blockSize files readers)
    {block : FileBlock} (mem : block ∈ readers.flatten) : block.Fetched where
  bytes_ne := by
    have place : (block.file, block.offset) ∈ allBlocks blockSize files :=
      assigned.places.subset (List.mem_map_of_mem mem)
    obtain ⟨⟨file, i⟩, file_mem, place⟩ := List.mem_flatMap.mp place
    obtain ⟨offset, offset_mem, same⟩ := List.mem_map.mp place
    obtain ⟨rfl, rfl⟩ := Prod.mk.inj same
    obtain ⟨n, n_lt, n_eq⟩ := List.mem_map.mp offset_mem
    obtain ⟨file', found, bytes, _⟩ := assigned.bytes block mem
    have file_eq : files[block.file]? = some file := List.mem_zipIdx_iff_getElem?.mp file_mem
    obtain rfl : file = file' := Option.some.inj (file_eq.symm.trans found)
    have inside : block.offset < file.length := by
      have below := Nat.mul_le_of_le_div _ _ _ (Nat.succ_le_of_lt (List.mem_range.mp n_lt))
      rw [Nat.succ_mul, n_eq] at below
      omega
    rw [bytes]
    refine List.ne_nil_of_length_pos ?_
    rw [List.length_take, List.length_drop]
    omega
  bytes_lt := assigned.bytes_lt block mem
  chunks chunk chunk_mem :=
    ⟨assigned.chunks_ne block mem chunk chunk_mem, assigned.chunks_lt block mem chunk chunk_mem⟩

end AssignedBlocks

/-! ## All readers together -/

theorem LineInputFormat.Reads.unique {format : LineInputFormat} {records records' : List Bytes}
    (reads : format.Reads records) (reads' : format.Reads records') : records = records' := by
  induction reads generalizing records' with
  | done finished =>
      cases reads' with
      | done _ => rfl
      | more found _ => simp [finished] at found
  | more found _ ih =>
      cases reads' with
      | done finished => simp [found] at finished
      | more found' rest =>
          rw [found] at found'
          cases found'
          rw [ih rest]

/-- Up to what is lost, and what should not have been returned, the readers return what
    their blocks own. -/
theorem records_perm {readers : List (List FileBlock)}
    (fetched : ∀ block ∈ readers.flatten, block.Fetched) :
    ∃ records, List.Forall₂ (fun blocks => (LineInputFormat.init blocks).Reads) readers records ∧
      (nonempty records.flatten ++ lostLines readers).Perm
        (readers.flatten.flatMap (nonempty ∘ FileBlock.own) ++ extraRecords readers) := by
  induction readers with
  | nil => exact ⟨[], .nil, .nil⟩
  | cons blocks readers ih =>
      have mine : ∀ block ∈ blocks, block.Fetched := fun block mem =>
        fetched block (List.mem_append_left _ mem)
      obtain ⟨records, reads, same⟩ := LineInputFormat.readsLines_init mine
      obtain ⟨others, all, later⟩ := ih fun block mem => fetched block (List.mem_append_right _ mem)
      refine ⟨records :: others, .cons reads all, ?_⟩
      have first := collect_perm false fun block mem => (mine block mem).bytes_ne
      rw [← same] at first
      rw [← Multiset.coe_eq_coe] at first later ⊢
      simp only [lostLines, extraRecords, nonempty, List.flatten_cons, List.filter_append,
        List.flatMap_cons, List.flatMap_append, ← Multiset.coe_add] at first later ⊢
      rw [add_add_add_comm, first, later, add_add_add_comm]

/-- Every line is read exactly once if and only if the records that should not have been
    returned are the lines that are lost. -/
theorem readsEveryLine_iff {blockSize : Nat} {files : List Bytes} {readers : List (List FileBlock)}
    (positive : 0 < blockSize) (assigned : AssignedBlocks blockSize files readers) :
    ReadsEveryLine files readers ↔ (extraRecords readers).Perm (lostLines readers) := by
  obtain ⟨records, all, same⟩ := records_perm fun block mem => assigned.fetched positive mem
  have owned := own_perm positive assigned
  rw [← Multiset.coe_eq_coe] at same owned ⊢
  rw [← Multiset.coe_add, ← Multiset.coe_add, owned] at same
  constructor
  · rintro ⟨records', all', every⟩
    obtain rfl : records' = records :=
      List.right_unique_forall₂' (fun _ _ _ reads reads' => reads.unique reads') all' all
    rw [Multiset.coe_eq_coe.mpr every] at same
    exact (add_left_cancel same).symm
  · intro balanced
    refine ⟨records, all, ?_⟩
    rw [balanced] at same
    exact Multiset.coe_eq_coe.mp (add_right_cancel same)

/-- Two files, blocks of four bytes, two readers. The block that ends at the last newline
    of its file leads to the next block inside a call. -/
theorem readsEveryLine_twoReaders :
    ReadsEveryLine [[97, 98, 10, 99, 100, 10, 101], [102, 103, 104, 10]]
      [[⟨1, 0, [102, 103, 104, 10], []⟩, ⟨0, 4, [100, 10, 101], []⟩],
        [⟨0, 0, [97, 98, 10, 99], [[100], [10, 101]]⟩]] :=
  (readsEveryLine_iff (show 0 < 4 by decide)
    { places := by decide +kernel
      bytes := by decide +kernel
      chunks_ne := by decide +kernel
      bytes_lt := by decide +kernel
      chunks_lt := by decide +kernel }).mpr (by decide +kernel)

/-- The only line of a file of one byte is lost. -/
theorem single_byte_lost : ¬ ∀ blockSize files readers, 0 < blockSize →
    AssignedBlocks blockSize files readers → ReadsEveryLine files readers := by
  intro every
  obtain ⟨records, all, perm⟩ := every 1 [[97]] [[⟨0, 0, [97], []⟩]] (by decide)
    { places := by decide +kernel
      bytes := by decide +kernel
      chunks_ne := by decide +kernel
      bytes_lt := by decide +kernel
      chunks_lt := by decide +kernel }
  obtain ⟨records, _, reads, rest, rfl⟩ := List.forall₂_cons_left_iff.mp all
  obtain rfl := List.forall₂_nil_left_iff.mp rest
  have finished : (LineInputFormat.init [⟨0, 0, [97], []⟩]).next =
      .ok (⟨[], 0, [], [], 0, 0, []⟩, none) := by decide +kernel
  obtain rfl := reads.unique (.done finished)
  exact absurd perm (by decide +kernel)

end FlexPS
