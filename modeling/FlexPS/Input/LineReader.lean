import FlexPS.Input.LineInput
import FlexPS.Lib.Lines

/-! # Which lines are read

What `next` returns for one block depends on the block, and on whether the call in
which it is fetched still tests for the last character: it does not when the same call
has found the end of the file before.
-/

namespace FlexPS

open Lines

section Sizes

theorem toInt_of_lt {x : Nat} (small : x < 2147483648) : toInt x = x := (toInt_eq_iff x).mpr small

theorem toSize_of_lt {x : Nat} (small : x < 2147483648) : toSize x = x := by
  simp only [toSize]
  omega

theorem toSize_toInt {x : Nat} (small : x < 2147483648) : toSize (toInt x) = x := by
  rw [toInt_of_lt small, toSize_of_lt small]

theorem toInt_npos : toInt npos = -1 := by
  change Int.bmod 18446744073709551615 4294967296 = -1
  decide +kernel

theorem toSize_neg_one : toSize (-1) = npos := by decide +kernel

theorem toSize_zero : toSize 0 = 0 := by decide

theorem ne_npos_of_lt {x : Nat} (small : x < 2147483648) : x ≠ npos := by
  simp only [npos]
  omega

end Sizes

section FindNext

variable {before line tail : Bytes}

theorem findIdx_newline (absent : newline ∉ line) : line.findIdx (· == newline) = line.length :=
  List.findIdx_eq_length.mpr fun x mem => by simpa using fun same : x = newline => absent (same ▸ mem)

theorem findNext_found (absent : newline ∉ line) :
    findNext (before ++ (line ++ newline :: tail)) before.length =
      .ok (before.length + line.length) := by
  have index : (line ++ newline :: tail).findIdx (· == newline) = line.length := by
    simp [List.findIdx_append, List.findIdx_cons, findIdx_newline absent]
  simp [findNext, index]

theorem findNext_missing (absent : newline ∉ line) :
    findNext (before ++ line) before.length = .ok npos := by
  simp [findNext, findIdx_newline absent]

end FindNext

namespace LineInputFormat

variable {format : LineInputFormat} {line tail : Bytes}

section HandleChunks

-- No proof here may compute with the bounds of the integer types.
attribute [local irreducible] npos toSize toInt

theorem handleChunks_eq (format : LineInputFormat) (chunks : List Bytes) :
    format.handleChunks chunks =
      if format.buffer = [] then .ok { format with chunks }
      else (findNext format.buffer 0).bind fun found =>
        if toSize (toInt found) = npos then
          match chunks with
          | [] => .ok { format with
              r := toInt found, lastPart := format.lastPart ++ format.buffer, buffer := [], chunks := [] }
          | chunk :: chunks => handleChunks { format with
              r := toInt found, lastPart := format.lastPart ++ format.buffer, buffer := chunk } chunks
        else
          .ok { format with
            l := 0
            r := 0
            lastPart := format.lastPart ++ format.buffer.take (toSize (toInt found))
            chunks := chunks
            buffer := [] } := by
  cases chunks with
  | nil => rfl
  | cons chunk chunks => rfl

/-- The loop has appended `line`, and has left the buffer empty. -/
def Appends (format : LineInputFormat) (line : Bytes) (result : Except LineFault LineInputFormat) :
    Prop :=
  ∃ format', result = .ok format' ∧ format'.lastPart = format.lastPart ++ line ∧
    format'.buffer = [] ∧ format'.blocks = format.blocks

theorem handleChunks_found {chunks : List Bytes} (mem : newline ∈ format.buffer)
    (small : format.buffer.length < 2147483648) (rest : Bytes) :
    Appends format (lineAt newline (format.buffer ++ rest)) (format.handleChunks chunks) := by
  obtain ⟨line, tail, buffer, absent⟩ := List.eq_append_cons_of_mem mem
  have shorter : line.length < 2147483648 := by
    rw [buffer, List.length_append] at small
    omega
  have found : findNext format.buffer 0 = .ok line.length := by
    simpa [buffer] using @findNext_found [] line tail absent
  have stops : toSize (toInt line.length) ≠ npos := by
    rw [toSize_toInt shorter]
    exact ne_npos_of_lt shorter
  have nonempty : format.buffer ≠ [] := by simp [buffer]
  have line_eq : format.buffer.take (toSize (toInt line.length)) = line := by
    rw [toSize_toInt shorter, buffer, List.take_left]
  rw [handleChunks_eq, if_neg nonempty, found, Except.bind, if_neg stops, line_eq, buffer,
    List.append_assoc, List.cons_append, lineAt_append_sep absent]
  exact ⟨_, rfl, rfl, rfl, rfl⟩

theorem handleChunks_missing {chunks : List Bytes} (absent : newline ∉ format.buffer)
    (nonempty : format.buffer ≠ []) :
    format.handleChunks chunks =
      match chunks with
      | [] => .ok { format with
          r := toInt npos, lastPart := format.lastPart ++ format.buffer, buffer := [], chunks := [] }
      | chunk :: chunks => handleChunks { format with
          r := toInt npos, lastPart := format.lastPart ++ format.buffer, buffer := chunk } chunks := by
  have missing : findNext format.buffer 0 = .ok npos := by
    simpa using @findNext_missing [] format.buffer absent
  have continues : toSize (toInt npos) = npos := by rw [toInt_npos, toSize_neg_one]
  rw [handleChunks_eq, if_neg nonempty, missing, Except.bind, if_pos continues]

/-- What is read behind a block is the line that ends there, and the buffer is left empty. -/
theorem handleChunks_appends (chunks : List Bytes) (nonempty : format.buffer ≠ [])
    (small : format.buffer.length < 2147483648)
    (fetched : ∀ chunk ∈ chunks, chunk ≠ [] ∧ chunk.length < 2147483648) :
    Appends format (lineAt newline (format.buffer ++ chunks.flatten)) (format.handleChunks chunks) := by
  induction chunks generalizing format with
  | nil =>
      by_cases mem : newline ∈ format.buffer
      · exact handleChunks_found mem small _
      · rw [handleChunks_missing mem nonempty, lineAt_append_of_not_mem mem]
        exact ⟨_, rfl, by simp [lineAt], rfl, rfl⟩
  | cons chunk chunks ih =>
      by_cases mem : newline ∈ format.buffer
      · exact handleChunks_found mem small _
      · obtain ⟨format', ran, lastPart, buffer, blocks⟩ := @ih { format with
          r := toInt npos, lastPart := format.lastPart ++ format.buffer, buffer := chunk }
          (fetched chunk List.mem_cons_self).1 (fetched chunk List.mem_cons_self).2
          fun later mem => fetched later (List.mem_cons_of_mem _ mem)
        rw [handleChunks_missing mem nonempty, lineAt_append_of_not_mem mem]
        exact ⟨format', ran, by rw [lastPart, List.append_assoc, List.flatten_cons], buffer, blocks⟩

theorem fetchNext_appends (fetched : ∀ chunk ∈ format.chunks, chunk ≠ [] ∧ chunk.length < 2147483648) :
    Appends format (lineAt newline format.chunks.flatten) format.fetchNext.handleNextBlock := by
  cases chunks : format.chunks with
  | nil =>
      have fetch_eq : format.fetchNext = { format with buffer := [] } := by simp [fetchNext, chunks]
      rw [fetch_eq, handleNextBlock, handleChunks_eq, if_pos rfl]
      exact ⟨_, rfl, by simp [lineAt], rfl, rfl⟩
  | cons chunk later =>
      have fetch_eq : format.fetchNext = { format with buffer := chunk, chunks := later } := by
        simp [fetchNext, chunks]
      rw [chunks] at fetched
      rw [fetch_eq, handleNextBlock, List.flatten_cons]
      exact @handleChunks_appends { format with buffer := chunk, chunks := later } later
        (fetched chunk List.mem_cons_self).1 (fetched chunk List.mem_cons_self).2
        fun chunk mem => fetched chunk (List.mem_cons_of_mem _ mem)

end HandleChunks

section Finish

attribute [local irreducible] npos toSize toInt

/-- The part of `locate` behind the search for `l`. -/
def finish (format : LineInputFormat) (l : Int) :
    Except LineFault (LineInputFormat × Option Bytes) := do
  let format := { format with l, r := toInt (← findNext format.buffer (toSize l)) }
  if toSize format.r = npos then
    if format.buffer.length < toSize l then throw .outOfRange
    let lastPart := format.buffer.drop (toSize l)
    let format ← { format with lastPart }.fetchNext.handleNextBlock
    return (format, some format.lastPart)
  else
    return (format, some ((format.buffer.drop (toSize l)).take (toSize (format.r - l))))

theorem locate_eq (format : LineInputFormat) :
    format.locate = if format.offset = 0 ∧ format.r = 0 then
        format.finish (if format.buffer.head? = some newline then 1 else 0)
      else (do
        let found ← findNext format.buffer (toSize format.r)
        format.finish (toInt ((found + 1) % 2 ^ 64))) := by
  unfold locate finish
  split <;> simp only [pure_bind]

variable {before text : Bytes}

theorem finish_missing (absent : newline ∉ text) (buffer : format.buffer = before ++ text)
    (small : format.buffer.length < 2147483648)
    (fetched : ∀ chunk ∈ format.chunks, chunk ≠ [] ∧ chunk.length < 2147483648) :
    ∃ format', format.finish before.length =
        .ok (format', some (lineAt newline (text ++ format.chunks.flatten))) ∧
      format'.buffer = [] ∧ format'.blocks = format.blocks := by
  have within : before.length ≤ format.buffer.length := by simp [buffer]
  have l_eq : toSize before.length = before.length := toSize_of_lt (by omega)
  have missing : findNext format.buffer before.length = .ok npos := by
    rw [buffer]
    exact findNext_missing absent
  have continues : toSize (toInt npos) = npos := by rw [toInt_npos, toSize_neg_one]
  have text_eq : format.buffer.drop before.length = text := by rw [buffer, List.drop_left]
  obtain ⟨format', ran, lastPart, empty, blocks⟩ := @fetchNext_appends
    { format with l := before.length, r := toInt npos, lastPart := text } fetched
  rw [finish, l_eq, missing]
  simp only [Except.ok_bind, if_pos continues, if_neg (Nat.not_lt.mpr within), text_eq, ran,
    lastPart, lineAt_append_of_not_mem absent]
  exact ⟨format', rfl, empty, blocks⟩

theorem finish_found (absent : newline ∉ line)
    (buffer : format.buffer = before ++ (line ++ newline :: tail))
    (small : format.buffer.length < 2147483648) :
    format.finish before.length =
      .ok ({ format with l := before.length, r := (before.length + line.length : Nat) }, some line) := by
  have length_eq : format.buffer.length = before.length + (line.length + (tail.length + 1)) := by
    simp [buffer]
  have l_eq : toSize before.length = before.length := toSize_of_lt (by omega)
  have found : findNext format.buffer before.length = .ok (before.length + line.length) := by
    rw [buffer]
    exact findNext_found absent
  have r_eq : toInt (before.length + line.length) = (before.length + line.length : Nat) :=
    toInt_of_lt (by omega)
  have stops : toSize (toInt (before.length + line.length)) ≠ npos := by
    rw [toSize_toInt (by omega)]
    exact ne_npos_of_lt (by omega)
  have size_eq : toSize ((before.length + line.length : Nat) - before.length) = line.length := by
    have difference : ((before.length + line.length : Nat) : Int) - before.length = line.length := by
      omega
    rw [difference]
    exact toSize_of_lt (by omega)
  rw [finish, l_eq, found, Except.ok_bind]
  dsimp only
  rw [if_neg stops, r_eq, size_eq, buffer, List.drop_left, List.take_left, Except.pure_eq_ok]

end Finish

section Advance

attribute [local irreducible] npos toSize toInt

/-- What is left of a call that has found the end of a file. -/
def enter (format : LineInputFormat) : Except LineFault (LineInputFormat × Option Bytes) :=
  if format.fetchNewBlock.buffer = [] then .ok (format.fetchNewBlock, none)
  else format.fetchNewBlock.locate

theorem next_of_empty (empty : format.buffer = []) :
    format.next = if format.fetchNewBlock.buffer = [] then .ok (format.fetchNewBlock, none)
      else format.fetchNewBlock.advance := by
  rw [next, if_pos empty]
  rfl

theorem next_of_nonempty (nonempty : format.buffer ≠ []) : format.next = format.advance := by
  rw [next, if_neg nonempty]

theorem advance_inner (inner : toSize format.r ≠ format.buffer.length - 1) :
    format.advance = format.locate := by
  rw [advance, if_neg inner]

theorem advance_last (last : toSize format.r = format.buffer.length - 1) (chunks : format.chunks = []) :
    format.advance = { format with buffer := [] }.enter := by
  have fetch_eq : format.fetchNext = { format with buffer := [] } := by simp [fetchNext, chunks]
  rw [advance, if_pos last, fetch_eq]
  rfl

theorem advance_continues (last : toSize format.r = format.buffer.length - 1)
    (chunks : format.chunks ≠ [])
    (fetched : ∀ chunk ∈ format.chunks, chunk ≠ [] ∧ chunk.length < 2147483648) :
    ∃ format', format.advance = .ok (format', some (lineAt newline format.chunks.flatten)) ∧
      format'.buffer = [] ∧ format'.blocks = format.blocks := by
  obtain ⟨chunk, later, chunks_eq⟩ := List.exists_cons_of_ne_nil chunks
  have fetch_eq : format.fetchNext = { format with buffer := chunk, chunks := later } := by
    simp [fetchNext, chunks_eq]
  have fetch_eq' : { format with lastPart := [] }.fetchNext =
      { format with buffer := chunk, chunks := later, lastPart := [] } := by
    simp [fetchNext, chunks_eq]
  have nonempty : chunk ≠ [] := (fetched chunk (chunks_eq ▸ List.mem_cons_self)).1
  obtain ⟨format', ran, lastPart, empty, blocks⟩ := @fetchNext_appends
    { format with lastPart := [] } fetched
  rw [fetch_eq'] at ran
  rw [advance, if_pos last, fetch_eq]
  dsimp only
  rw [if_neg nonempty, ran, Except.ok_bind, Except.pure_eq_ok, lastPart]
  exact ⟨format', rfl, empty, blocks⟩

end Advance

end LineInputFormat

/-! ## The lines of one block -/

abbrev nonempty (records : List Bytes) : List Bytes := records.filter (· ≠ [])

/-- `fetch_block` has returned the block, and will return the chunks: none is empty, and
    their sizes are `int`s. -/
structure FileBlock.Fetched (block : FileBlock) : Prop where
  bytes_ne : block.bytes ≠ []
  bytes_lt : block.bytes.length < 2147483648
  chunks : ∀ chunk ∈ block.chunks, chunk ≠ [] ∧ chunk.length < 2147483648

namespace FileBlock

/-- What is behind the `l` of the first record that is found in the block. -/
def entered (block : FileBlock) : Bytes :=
  if block.offset = 0 then
    if block.bytes.head? = some newline then block.bytes.tail else block.bytes
  else if newline ∈ block.bytes then (block.bytes.dropWhile (· ≠ newline)).tail
  else block.bytes

theorem entered_of_split {block : FileBlock} {line tail : Bytes} (later : block.offset ≠ 0)
    (bytes : block.bytes = line ++ newline :: tail) (absent : newline ∉ line) :
    block.entered = tail := by
  have line_pos : ∀ x ∈ line, decide (x ≠ newline) = true := fun x mem => by
    simpa using fun same : x = newline => absent (same ▸ mem)
  have dropped : (line ++ newline :: tail).dropWhile (· ≠ newline) = newline :: tail := by
    rw [List.dropWhile_append_of_pos line_pos]
    simp
  rw [entered, if_neg later, if_pos (by simp [bytes]), bytes, dropped, List.tail_cons]

/-- The first byte is taken for the newline that ends the last record. The test for it is
    not made `inside` a call that has made it before. -/
abbrev Skipped (inside : Bool) (block : FileBlock) : Prop :=
  inside = false ∧ block.bytes.length = 1

/-- The records that start in the block, with those that are empty. -/
def returned (inside : Bool) (block : FileBlock) : List Bytes :=
  if block.Skipped inside then [lineAt newline block.rest]
  else lineAt newline (block.entered ++ block.rest) :: owned newline block.entered block.rest

/-- The call that finds the end of the file fetches the next block. -/
def leaves (inside : Bool) (block : FileBlock) : Bool :=
  block.chunks = [] ∧ (block.Skipped inside ∨ block.entered.getLast? = some newline)

end FileBlock

/-- What each block contributes, given whether it is fetched inside a call. -/
def collect (contribution : Bool → FileBlock → List Bytes) : Bool → List FileBlock → List Bytes
  | _, [] => []
  | inside, block :: blocks =>
      contribution inside block ++ collect contribution (block.leaves inside) blocks

abbrev returnedFrom : Bool → List FileBlock → List Bytes := collect FileBlock.returned

namespace LineInputFormat

variable {format : LineInputFormat}

/-- The reader returns these lines up to empty ones. -/
def ReadsLines (format : LineInputFormat) (lines : List Bytes) : Prop :=
  ∃ records, Reads format records ∧ nonempty records = nonempty lines

theorem ReadsLines.more {format' : LineInputFormat} {line : Bytes} {lines : List Bytes}
    (found : format.next = .ok (format', some line)) (rest : ReadsLines format' lines) :
    ReadsLines format (line :: lines) := by
  obtain ⟨records, reads, same⟩ := rest
  exact ⟨line :: records, .more found reads, by simp only [nonempty, List.filter_cons, same]⟩

theorem ReadsLines.skip {lines : List Bytes} (reads : ReadsLines format lines) :
    ReadsLines format ([] :: lines) := by
  obtain ⟨records, reads, same⟩ := reads
  exact ⟨records, reads, same⟩

/-- The blocks that are left are read as they should be, from the start of a call and
    from inside one. -/
structure Continues (blocks : List FileBlock) : Prop where
  top : ∀ format : LineInputFormat, format.buffer = [] → format.blocks = blocks →
    format.ReadsLines (returnedFrom false blocks)
  inside : ∀ format last : LineInputFormat, last.blocks = blocks → format.next = last.enter →
    format.ReadsLines (returnedFrom true blocks)

section Lines

variable {blocks : List FileBlock}

/-- Behind a record that ends at the newline after `before`. -/
theorem locate_behind {before : Bytes} (buffer : format.buffer = before ++ newline :: tail)
    (started : before ≠ []) (r : format.r = before.length) (small : format.buffer.length < 2147483648) :
    format.locate = format.finish (before ++ [newline]).length := by
  have length_eq : format.buffer.length = before.length + (tail.length + 1) := by simp [buffer]
  have later : ¬ (format.offset = 0 ∧ format.r = 0) := by
    rw [r]
    simp [started]
  have position : toSize format.r = before.length := by
    rw [r]
    exact toSize_of_lt (by omega)
  have found : findNext format.buffer before.length = .ok before.length := by
    rw [buffer]
    exact @findNext_found before [] tail (by simp)
  have l_eq : toInt ((before.length + 1) % 2 ^ 64) = (before ++ [newline]).length := by
    rw [Nat.mod_eq_of_lt (by omega), List.length_append]
    exact toInt_of_lt (by rw [length_eq] at small; omega)
  rw [locate_eq, if_neg later, position, found, Except.ok_bind, l_eq]

theorem reads_tail (continues : Continues blocks) (tail before : Bytes) (format : LineInputFormat)
    (buffer : format.buffer = before ++ newline :: tail) (started : before ≠ [])
    (r : format.r = before.length) (small : format.buffer.length < 2147483648)
    (fetched : ∀ chunk ∈ format.chunks, chunk ≠ [] ∧ chunk.length < 2147483648)
    (left : format.blocks = blocks) :
    format.ReadsLines (lineAt newline (tail ++ format.chunks.flatten) ::
      (owned newline tail format.chunks.flatten ++
        returnedFrom (format.chunks = [] ∧ (newline :: tail).getLast? = some newline) blocks)) := by
  obtain ⟨n, n_eq⟩ : ∃ n, n = tail.length := ⟨_, rfl⟩
  induction n using Nat.strong_induction_on generalizing tail before format with | _ n ih
  have nonempty : format.buffer ≠ [] := by simp [buffer]
  have length_eq : format.buffer.length = before.length + (tail.length + 1) := by simp [buffer]
  have position : toSize format.r = before.length := by
    rw [r]
    exact toSize_of_lt (by omega)
  by_cases final : tail = []
  · subst final
    have last : toSize format.r = format.buffer.length - 1 := by
      rw [position, length_eq]
      simp
    by_cases chunks : format.chunks = []
    · have reads := continues.inside format { format with buffer := [] } left
        (by rw [next_of_nonempty nonempty, advance_last last chunks])
      simpa [chunks, owned, lineAt] using reads.skip
    · obtain ⟨format', found, empty, same⟩ := advance_continues last chunks fetched
      rw [← next_of_nonempty nonempty] at found
      have reads := ReadsLines.more found (continues.top format' empty (same.trans left))
      simpa [chunks, owned] using reads
  · have tail_pos : 0 < tail.length := List.length_pos_of_ne_nil final
    have inner : toSize format.r ≠ format.buffer.length - 1 := by
      rw [position, length_eq]
      omega
    have next_eq : format.next = format.finish (before ++ [newline]).length := by
      rw [next_of_nonempty nonempty, advance_inner inner, locate_behind buffer started r small]
    have buffer' : format.buffer = (before ++ [newline]) ++ tail := by simp [buffer]
    by_cases mem : newline ∈ tail
    · obtain ⟨line, tail', split, absent⟩ := List.eq_append_cons_of_mem mem
      have found := finish_found absent (split ▸ buffer') small
      rw [← next_eq] at found
      have shorter : tail'.length < n := by
        rw [n_eq, split, List.length_append, List.length_cons]
        omega
      have reads := ih tail'.length shorter tail' (before ++ [newline] ++ line)
        { format with
          l := (before ++ [newline]).length
          r := ((before ++ [newline]).length + line.length : Nat) }
        (by simp [buffer, split]) (by simp) (by simp; omega) small fetched left rfl
      have same_end : (newline :: tail).getLast? = (newline :: tail').getLast? := by
        rw [split, ← List.cons_append, List.getLast?_append_cons]
      rw [same_end, split, owned_append_sep absent, List.append_assoc, List.cons_append,
        lineAt_append_sep absent]
      exact .more found reads
    · obtain ⟨format', found, empty, same⟩ := finish_missing mem buffer' small fetched
      rw [← next_eq] at found
      have reads := ReadsLines.more found (continues.top format' empty (same.trans left))
      have unfinished : (newline :: tail).getLast? ≠ some newline := by
        obtain ⟨c, tail', rfl⟩ := List.exists_cons_of_ne_nil final
        rw [List.getLast?_cons_cons]
        exact fun ends => mem (List.mem_of_getLast? ends)
      simpa [owned_of_not_mem mem, unfinished] using reads

/-- The reader after `fetch_new_block`. -/
structure Entered (block : FileBlock) (blocks : List FileBlock) (format : LineInputFormat) : Prop where
  buffer : format.buffer = block.bytes
  offset : format.offset = block.offset
  chunks : format.chunks = block.chunks
  r : format.r = 0
  left : format.blocks = blocks

theorem entered_fetchNewBlock {block : FileBlock} (left : format.blocks = block :: blocks) :
    Entered block blocks format.fetchNewBlock := by
  simp only [fetchNewBlock, left]
  exact ⟨rfl, rfl, rfl, rfl, rfl⟩

variable {block : FileBlock}

/-- The bytes that are skipped at the front of a block end with a newline, if any are. -/
theorem locate_entered (h : Entered block blocks format) (fetched : block.Fetched) :
    ∃ before : Bytes, block.bytes = before ++ block.entered ∧
      (before = [] → block.entered.head? ≠ some newline) ∧
      format.locate = format.finish before.length := by
  have position : toSize format.r = 0 := by
    rw [h.r, toSize_zero]
  by_cases first : block.offset = 0
  · by_cases head : block.bytes.head? = some newline
    · obtain ⟨tail, bytes⟩ := List.head?_eq_some_iff.mp head
      refine ⟨[newline], ?_, nofun, ?_⟩
      · simp [FileBlock.entered, first, bytes]
      · rw [locate_eq, if_pos ⟨h.offset.trans first, h.r⟩, h.buffer, if_pos head]
        rfl
    · have entered_eq : block.entered = block.bytes := by simp [FileBlock.entered, first, head]
      refine ⟨[], entered_eq.symm, fun _ => entered_eq ▸ head, ?_⟩
      rw [locate_eq, if_pos ⟨h.offset.trans first, h.r⟩, h.buffer, if_neg head]
      rfl
  · have later : ¬ (format.offset = 0 ∧ format.r = 0) := fun both => first (h.offset ▸ both.1)
    by_cases mem : newline ∈ block.bytes
    · obtain ⟨line, tail, bytes, absent⟩ := List.eq_append_cons_of_mem mem
      have entered_eq : block.entered = tail := FileBlock.entered_of_split first bytes absent
      have found : findNext block.bytes 0 = .ok line.length := by
        simpa [bytes] using @findNext_found [] line tail absent
      have shorter : line.length + 1 < 2147483648 := by
        have small := fetched.bytes_lt
        rw [bytes, List.length_append, List.length_cons] at small
        omega
      have l_eq : toInt ((line.length + 1) % 2 ^ 64) = (line ++ [newline]).length := by
        rw [Nat.mod_eq_of_lt (by omega), List.length_append]
        exact toInt_of_lt shorter
      refine ⟨line ++ [newline], by simp [bytes, entered_eq], by simp, ?_⟩
      rw [locate_eq, if_neg later, position, h.buffer, found, Except.ok_bind, l_eq]
    · have entered_eq : block.entered = block.bytes := by simp [FileBlock.entered, first, mem]
      refine ⟨[], entered_eq.symm, fun _ head => mem ?_, ?_⟩
      · exact List.mem_of_mem_head? (entered_eq ▸ head)
      · have missing : findNext block.bytes 0 = .ok npos := by
          simpa using @findNext_missing [] block.bytes mem
        have l_eq : toInt ((npos + 1) % 2 ^ 64) = 0 := toInt_of_lt (by decide)
        rw [locate_eq, if_neg later, position, h.buffer, missing, Except.ok_bind, l_eq]
        rfl

theorem reads_entered {call : LineInputFormat} (continues : Continues blocks)
    (h : Entered block blocks format) (fetched : block.Fetched) (next_eq : call.next = format.locate) :
    call.ReadsLines (lineAt newline (block.entered ++ block.rest) ::
      (owned newline block.entered block.rest ++
        returnedFrom (block.chunks = [] ∧ block.entered.getLast? = some newline) blocks)) := by
  obtain ⟨before, split, first, locate_eq⟩ := locate_entered h fetched
  have buffer : format.buffer = before ++ block.entered := h.buffer.trans split
  have small : format.buffer.length < 2147483648 := h.buffer ▸ fetched.bytes_lt
  have chunks := h.chunks.symm ▸ fetched.chunks
  rw [locate_eq] at next_eq
  simp only [FileBlock.rest, ← h.chunks]
  by_cases mem : newline ∈ block.entered
  · obtain ⟨line, tail, entered_eq, absent⟩ := List.eq_append_cons_of_mem mem
    have found := finish_found absent (entered_eq ▸ buffer) small
    rw [← next_eq] at found
    have started : before ++ line ≠ [] := by
      intro none
      obtain ⟨rfl, rfl⟩ := List.append_eq_nil_iff.mp none
      exact first rfl (by simp [entered_eq])
    have reads := reads_tail continues tail (before ++ line)
      { format with l := before.length, r := (before.length + line.length : Nat) }
      (by simp [buffer, entered_eq]) started (by simp) small chunks h.left
    rw [entered_eq, owned_append_sep absent, List.append_assoc, List.cons_append,
      lineAt_append_sep absent, List.getLast?_append_cons]
    exact .more found reads
  · obtain ⟨format', found, empty, same⟩ := finish_missing mem buffer small chunks
    rw [← next_eq] at found
    have unfinished : block.entered.getLast? ≠ some newline := fun ends =>
      mem (List.mem_of_getLast? ends)
    have reads := ReadsLines.more found (continues.top format' empty (same.trans h.left))
    simpa [owned_of_not_mem mem, unfinished] using reads

/-- When the first byte is taken for the end of a record. -/
theorem reads_skipped {call : LineInputFormat} (continues : Continues blocks)
    (h : Entered block blocks format) (fetched : block.Fetched) (single : block.bytes.length = 1)
    (next_eq : call.next = format.advance) :
    call.ReadsLines (lineAt newline block.rest :: returnedFrom (block.chunks = []) blocks) := by
  have last : toSize format.r = format.buffer.length - 1 := by
    rw [h.r, toSize_zero, h.buffer, single]
  by_cases none : block.chunks = []
  · have reads := continues.inside call { format with buffer := [] } h.left
      (by rw [next_eq, advance_last last (h.chunks.trans none)])
    simpa [none, FileBlock.rest, lineAt] using reads.skip
  · obtain ⟨format', found, empty, same⟩ := advance_continues last (h.chunks ▸ none)
      (h.chunks.symm ▸ fetched.chunks)
    rw [← next_eq, h.chunks] at found
    have reads := ReadsLines.more found (continues.top format' empty (same.trans h.left))
    simpa [none, FileBlock.rest] using reads

theorem continues_nil : Continues [] where
  top format empty left := by
    have next_eq : format.next = .ok (format.fetchNewBlock, none) := by
      rw [next_of_empty empty, if_pos (by simp [fetchNewBlock, left])]
    exact ⟨[], .done next_eq, rfl⟩
  inside format last left next_eq := by
    rw [enter, if_pos (by simp [fetchNewBlock, left])] at next_eq
    exact ⟨[], .done next_eq, rfl⟩

theorem continues_cons (fetched : block.Fetched) (continues : Continues blocks) :
    Continues (block :: blocks) where
  top format empty left := by
    have h := entered_fetchNewBlock left
    have nonempty : format.fetchNewBlock.buffer ≠ [] := h.buffer ▸ fetched.bytes_ne
    have next_eq : format.next = format.fetchNewBlock.advance := by
      rw [next_of_empty empty, if_neg nonempty]
    by_cases single : block.bytes.length = 1
    · have reads := reads_skipped continues h fetched single next_eq
      simpa [collect, FileBlock.returned, FileBlock.leaves, FileBlock.Skipped, single] using reads
    · have positive : 0 < block.bytes.length := List.length_pos_of_ne_nil fetched.bytes_ne
      have inner : toSize format.fetchNewBlock.r ≠ format.fetchNewBlock.buffer.length - 1 := by
        rw [h.r, toSize_zero, h.buffer]
        omega
      have reads := reads_entered continues h fetched (next_eq.trans (advance_inner inner))
      simpa [collect, FileBlock.returned, FileBlock.leaves, FileBlock.Skipped, single] using reads
  inside format last left next_eq := by
    have h := entered_fetchNewBlock left
    have nonempty : last.fetchNewBlock.buffer ≠ [] := h.buffer ▸ fetched.bytes_ne
    rw [enter, if_neg nonempty] at next_eq
    have reads := reads_entered continues h fetched next_eq
    simpa [collect, FileBlock.returned, FileBlock.leaves, FileBlock.Skipped] using reads

end Lines

theorem readsLines_init {blocks : List FileBlock} (fetched : ∀ block ∈ blocks, block.Fetched) :
    (init blocks).ReadsLines (returnedFrom false blocks) := by
  have continues : Continues blocks := by
    induction blocks with
    | nil => exact continues_nil
    | cons block blocks ih =>
        exact continues_cons (fetched block List.mem_cons_self)
          (ih fun later mem => fetched later (List.mem_cons_of_mem _ mem))
  exact continues.top (init blocks) rfl rfl

end LineInputFormat

end FlexPS
