import FlexPS.Lib.Except

/-! # Reading one block of a file

`hdfsRead` may deliver fewer bytes than it is asked for, so `read_block` calls it in a
loop. Every call asks for a whole block, also when a part of the block is there.
-/

namespace FlexPS

abbrev Bytes := List UInt8

/-- Conversion of a `size_t` to `int`. -/
def toInt (x : Nat) : Int := Int.bmod x (2 ^ 32)

/-- An open file and its position. -/
structure HdfsFile where
  bytes : Bytes
  pos : Nat

/-- The number of bytes a call delivers: any number from one up to what it is asked for,
    as `wish` decides, and none only at the end of the file. -/
def delivered (wish requested left : Nat) : Nat := min (max 1 wish) (min requested left)

/-- `hdfsRead`; the length it is asked for is an `int`. -/
def hdfsRead (wish : Nat) (file : HdfsFile) (requested : Int) : Bytes × HdfsFile :=
  let n := delivered wish requested.toNat (file.bytes.length - file.pos)
  ((file.bytes.drop file.pos).take n, { file with pos := file.pos + n })

/-- What has been stored at each index of `data_`, also behind its end. -/
abbrev Data := Nat → Option UInt8

/-- The bytes are copied to `data_ + start`. -/
def Data.store (data : Data) (start : Nat) (chunk : Bytes) : Data := fun i =>
  if start ≤ i ∧ i < start + chunk.length then chunk[i - start]? else data i

/-- The loop of `read_block`; `wishes` decides how many bytes each call delivers. The length
    `requested` of each call is `hdfs_block_size` as an `int`. -/
def readLoop (wishes : Nat → Nat) (hdfsBlockSize : Nat) (requested : Int) (call start : Nat)
    (file : HdfsFile) (data : Data) : Nat × Data :=
  if start < hdfsBlockSize then
    let (chunk, file) := hdfsRead (wishes call) file requested
    let data := data.store start chunk
    if chunk.length = 0 then (start, data)
    else readLoop wishes hdfsBlockSize requested (call + 1) (start + chunk.length) file data
  else (start, data)
termination_by hdfsBlockSize - start

/-- `read_block` after `hdfsOpenFile`, with what it has stored. -/
def readBlock (wishes : Nat → Nat) (hdfsBlockSize : Nat) (bytes : Bytes) (offset : Nat) : Int × Data :=
  let (start, data) := readLoop wishes hdfsBlockSize (toInt hdfsBlockSize) 0 0 ⟨bytes, offset⟩ fun _ => none
  (toInt start, data)

/-- `read_block` has read the block: it stores nothing behind `data_` and returns the number
    of the block's bytes, which are then at the front of `data_`. -/
structure ReadsBlock (hdfsBlockSize : Nat) (bytes : Bytes) (offset : Nat) (result : Int × Data) :
    Prop where
  nbytes : result.1 = (min hdfsBlockSize (bytes.length - offset) : Nat)
  inside : ∀ i, hdfsBlockSize ≤ i → result.2 i = none
  data : ∀ i < min hdfsBlockSize (bytes.length - offset), result.2 i = bytes[offset + i]?

/-- How many bytes the first calls of `hdfsRead` deliver, `left` bytes before the end of the file. -/
def deliveredUpTo (wishes : Nat → Nat) (requested left : Nat) : Nat → Nat
  | 0 => 0
  | call + 1 =>
      let sum := deliveredUpTo wishes requested left call
      sum + delivered (wishes call) requested (left - sum)

/-- No call that starts inside the block delivers bytes behind it. -/
def NoneCrosses (wishes : Nat → Nat) (hdfsBlockSize left : Nat) : Prop :=
  ∀ call, deliveredUpTo wishes (toInt hdfsBlockSize).toNat left call < hdfsBlockSize →
    deliveredUpTo wishes (toInt hdfsBlockSize).toNat left (call + 1) ≤ hdfsBlockSize

section Loop

variable {wishes : Nat → Nat} {hdfsBlockSize requested left : Nat} {bytes : Bytes} {offset : Nat}

theorem toInt_eq_iff (x : Nat) : toInt x = x ↔ x < 2147483648 := by
  change Int.bmod x 4294967296 = x ↔ _
  rw [Int.bmod_eq_iff (by decide)]
  simp only [sub_self, dvd_zero, and_true]
  norm_num

theorem deliveredUpTo_le (call : Nat) : deliveredUpTo wishes requested left call ≤ left := by
  induction call with
  | zero => exact Nat.zero_le _
  | succ call ih =>
      simp only [deliveredUpTo, delivered]
      omega

theorem deliveredUpTo_mono {first later : Nat} (le : first ≤ later) :
    deliveredUpTo wishes requested left first ≤ deliveredUpTo wishes requested left later := by
  induction le with
  | refl => exact Nat.le_refl _
  | step _ ih => exact Nat.le_trans ih (Nat.le_add_right _ _)

/-- `data_` with the first `n` bytes of the block. -/
def stored (bytes : Bytes) (offset n : Nat) : Data := fun i =>
  if i < n then bytes[offset + i]? else none

theorem store_stored (n m : Nat) (available : m ≤ bytes.length - (offset + n)) :
    (stored bytes offset n).store n ((bytes.drop (offset + n)).take m) = stored bytes offset (n + m) := by
  have length_eq : ((bytes.drop (offset + n)).take m).length = m := by
    rw [List.length_take, List.length_drop]
    exact Nat.min_eq_left available
  funext i
  simp only [Data.store, stored, length_eq]
  by_cases new : n ≤ i ∧ i < n + m
  · rw [if_pos new, if_pos new.2, List.getElem?_take, if_pos (by omega), List.getElem?_drop]
    congr 1
    omega
  · rw [if_neg new]
    by_cases old : i < n
    · rw [if_pos old, if_pos (by omega)]
    · rw [if_neg old, if_neg (by omega)]

/-- The loop ends after a call that reaches the end of the block or of the file. -/
theorem readLoop_spec {requested : Int} (asks : 0 < requested) {sum : Nat → Nat}
    (sum_eq : sum = deliveredUpTo wishes requested.toNat (bytes.length - offset))
    (call : Nat) (running : ∀ earlier < call, sum earlier < hdfsBlockSize) :
    ∃ last, readLoop wishes hdfsBlockSize requested call (sum call) ⟨bytes, offset + sum call⟩
        (stored bytes offset (sum call)) = (sum last, stored bytes offset (sum last)) ∧
      (∀ earlier < last, sum earlier < hdfsBlockSize) ∧
      (hdfsBlockSize ≤ sum last ∨ sum last = bytes.length - offset) := by
  obtain ⟨left, left_eq⟩ : ∃ left, left = hdfsBlockSize - sum call := ⟨_, rfl⟩
  induction left using Nat.strong_induction_on generalizing call with
  | _ left ih =>
    unfold readLoop
    split
    · next inBlock =>
        have within : sum call ≤ bytes.length - offset := sum_eq ▸ deliveredUpTo_le call
        obtain ⟨n, n_eq⟩ : ∃ n, n = delivered (wishes call) requested.toNat
            (bytes.length - (offset + sum call)) := ⟨_, rfl⟩
        have next_eq : sum call + n = sum (call + 1) := by
          rw [n_eq, Nat.sub_add_eq, sum_eq, deliveredUpTo]
        have available : n ≤ bytes.length - (offset + sum call) := by
          rw [n_eq]
          exact Nat.le_trans (Nat.min_le_right _ _) (Nat.min_le_right _ _)
        have read_eq : hdfsRead (wishes call) ⟨bytes, offset + sum call⟩ requested =
            ((bytes.drop (offset + sum call)).take n, ⟨bytes, offset + sum (call + 1)⟩) := by
          simp only [hdfsRead, ← n_eq, ← next_eq, Nat.add_assoc]
        have length_eq : ((bytes.drop (offset + sum call)).take n).length = n := by
          rw [List.length_take, List.length_drop]
          exact Nat.min_eq_left available
        simp only [read_eq, length_eq, store_stored (sum call) n available, next_eq]
        split
        · next empty =>
            refine ⟨call, ?_, running, .inr ?_⟩
            · rw [← next_eq, empty, Nat.add_zero]
            · rw [empty, delivered] at n_eq
              omega
        · next more =>
            refine ih (hdfsBlockSize - sum (call + 1)) (by omega) (call + 1) (fun earlier before => ?_) rfl
            cases Nat.lt_succ_iff_lt_or_eq.mp before with
            | inl before => exact running earlier before
            | inr same => exact same ▸ inBlock
    · next past => exact ⟨call, rfl, running, .inl (Nat.le_of_not_lt past)⟩

/-- `read_block` reads the block exactly when no call delivers bytes behind it, and the
    number of its bytes is an `int`. -/
theorem reads_exactly_the_block (asks : 0 < toInt hdfsBlockSize) (inside : offset < bytes.length) :
    ReadsBlock hdfsBlockSize bytes offset (readBlock wishes hdfsBlockSize bytes offset) ↔
      NoneCrosses wishes hdfsBlockSize (bytes.length - offset) ∧
        min hdfsBlockSize (bytes.length - offset) < 2147483648 := by
  obtain ⟨sum, sum_eq⟩ : ∃ sum, sum =
    deliveredUpTo wishes (toInt hdfsBlockSize).toNat (bytes.length - offset) := ⟨_, rfl⟩
  have first : sum 0 = 0 := by rw [sum_eq, deliveredUpTo]
  have nothing : stored bytes offset 0 = fun _ => none := funext fun i => if_neg (Nat.not_lt_zero i)
  have within : ∀ call, sum call ≤ bytes.length - offset := by
    rw [sum_eq]
    exact deliveredUpTo_le
  have mono : ∀ {earlier later}, earlier ≤ later → sum earlier ≤ sum later := by
    rw [sum_eq]
    exact deliveredUpTo_mono
  obtain ⟨last, loop_eq, running, ended⟩ := readLoop_spec asks sum_eq 0
    (fun _ before => absurd before (Nat.not_lt_zero _))
  rw [first, nothing, Nat.add_zero] at loop_eq
  have result_eq : readBlock wishes hdfsBlockSize bytes offset =
      (toInt (sum last), stored bytes offset (sum last)) := by
    rw [readBlock, loop_eq]
  rw [result_eq, NoneCrosses, ← sum_eq]
  have bound := within last
  constructor
  · intro reads
    have fits : sum last ≤ hdfsBlockSize := by
      by_contra more
      have behind : stored bytes offset (sum last) hdfsBlockSize = none :=
        reads.inside hdfsBlockSize (Nat.le_refl _)
      simp only [stored] at behind
      rw [if_pos (Nat.lt_of_not_le more)] at behind
      have := List.getElem?_eq_none_iff.mp behind
      omega
    have total : sum last = min hdfsBlockSize (bytes.length - offset) := by omega
    refine ⟨fun call before => ?_, ?_⟩
    · cases Nat.lt_or_ge call last with
      | inl earlier =>
          exact Nat.le_trans (mono (Nat.succ_le_of_lt earlier)) fits
      | inr later =>
          have := mono later
          have := within (call + 1)
          omega
    · have returned := reads.nbytes
      dsimp only at returned
      rw [← total] at returned ⊢
      exact (toInt_eq_iff _).mp returned
  · rintro ⟨noneCrosses, small⟩
    have fits : sum last ≤ hdfsBlockSize := by
      cases last with
      | zero =>
          rw [first]
          exact Nat.zero_le _
      | succ call => exact noneCrosses call (running call (Nat.lt_succ_self _))
    have total : sum last = min hdfsBlockSize (bytes.length - offset) := by omega
    rw [← total] at small
    refine ⟨?_, fun i behind => ?_, fun i before => ?_⟩
    · dsimp only
      rw [← total]
      exact (toInt_eq_iff _).mpr small
    · exact if_neg (by omega)
    · exact if_pos (total ▸ before)

end Loop

/-- The last block of a file, read byte by byte. -/
theorem reads_exactly_the_block_lastBlock :
    ReadsBlock 4 [1, 2, 3, 4, 5, 6] 4 (readBlock (fun _ => 1) 4 [1, 2, 3, 4, 5, 6] 4) :=
  (reads_exactly_the_block (by decide) (by decide)).mpr
    ⟨fun _ _ => (deliveredUpTo_le _).trans (by decide), by decide⟩

/-- A block of three bytes, read two bytes at a time: the second call delivers the first
    byte of the next block. -/
theorem reads_too_much : ¬ ∀ (wishes : Nat → Nat) (hdfsBlockSize : Nat) (bytes : Bytes) (offset : Nat),
    1 ≤ hdfsBlockSize → offset < bytes.length →
      ReadsBlock hdfsBlockSize bytes offset (readBlock wishes hdfsBlockSize bytes offset) := by
  intro always
  have reads := always (fun _ => 2) 3 [1, 2, 3, 4, 5, 6] 0 (by decide) (by decide)
  have asked : toInt 3 = 3 := by decide
  have behind := reads.inside 3 (by decide)
  rw [readBlock, asked, readLoop, if_pos (by decide)] at behind
  simp [readLoop, hdfsRead, delivered, Data.store] at behind

end FlexPS
