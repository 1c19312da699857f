import FlexPS.Lib.Machine

/-! # The HDFS block assigner

`HDFSBlockAssigner` lists the blocks of a directory once for each replica host, under
that host, and hands them out on request. The listing of an (id, url) pair is made at
its first request and removed when all workers have been told that nothing is left.
-/

namespace FlexPS

/-- A replica of a block. `operator==` ignores the location. -/
structure BlkDesc where
  filename : String
  offset : Nat
  blockLocation : String
  deriving DecidableEq, Repr

/-- What identifies a block. -/
def BlkDesc.block (desc : BlkDesc) : String × Nat := (desc.filename, desc.offset)

/-- An entry of `hdfsListDirectory`. -/
structure FileInfo where
  mName : String
  isFile : Bool
  mSize : Nat
  mBlockSize : Nat
  blockSize_pos : 0 < mBlockSize
  deriving DecidableEq, Repr

/-- What the file system answers. -/
structure Hdfs where
  listDirectory : String → List FileInfo
  /-- The hosts in `hdfsGetFileBlockLocations`. -/
  blockHosts : String → Nat → List String

/-- The blocks with a replica on each host. -/
abbrev Locality := Std.TreeMap String (List BlkDesc)

structure HDFSBlockAssigner where
  numWorkersAlive : Nat
  filesLocality : Std.TreeMap Nat (Std.TreeMap String Locality)
  /-- How many workers have been rejected. -/
  finish : Std.TreeMap Nat (Std.TreeMap String Nat)

namespace Locality

/-- `filesLocality[host].insert(desc)`. -/
def insertDesc (locality : Locality) (host : String) (desc : BlkDesc) : Locality :=
  locality.alter host fun descs =>
    let descs := descs.getD []
    if desc.block ∈ descs.map BlkDesc.block then some descs else some (descs ++ [desc])

/-- The loop over the replicas of a block. -/
def insertReplicas (fs : Hdfs) (info : FileInfo) (locality : Locality) (k : Nat) : Locality :=
  (fs.blockHosts info.mName k).foldl
    (fun locality host => locality.insertDesc host ⟨info.mName ++ "\x00", k, host⟩) locality

end Locality

/-- The loop over the blocks of a file, `k` being the offset of the next one. -/
def FileInfo.offsetsFrom (info : FileInfo) : Nat → Nat → List Nat
  | 0, _ => []
  | fuel + 1, k =>
      if k < info.mSize then k :: info.offsetsFrom fuel (k + info.mBlockSize) else []

/-- The offsets of all blocks of a file. -/
def FileInfo.offsets (info : FileInfo) : List Nat := info.offsetsFrom info.mSize 0

namespace Locality

/-- The body of the loop over the files. -/
def insertFile (fs : Hdfs) (locality : Locality) (info : FileInfo) : Locality :=
  if info.isFile then info.offsets.foldl (insertReplicas fs info) locality else locality

/-- The loops of `browse_hdfs`. -/
def browse (fs : Hdfs) (url : String) (locality : Locality) : Locality :=
  (fs.listDirectory url).foldl (insertFile fs) locality

/-- Removes the replicas of a block on all hosts. -/
def remove (locality : Locality) (block : String × Nat) : Locality :=
  locality.map fun _ descs => descs.eraseP fun desc => desc.block = block

end Locality

namespace HDFSBlockAssigner

def init : HDFSBlockAssigner := ⟨0, ∅, ∅⟩

/-- `files_locality_multi_dict_[id][url]`, if there. -/
def listing (assigner : HDFSBlockAssigner) (id : Nat) (url : String) : Option Locality :=
  assigner.filesLocality[id]?.bind (·[url]?)

def setListing (assigner : HDFSBlockAssigner) (id : Nat) (url : String) (locality : Locality) :
    HDFSBlockAssigner :=
  { assigner with
    filesLocality := assigner.filesLocality.alter id fun urls =>
      some ((urls.getD ∅).insert url locality) }

/-- `files_locality_multi_dict_[id].erase(url)`. -/
def eraseListing (assigner : HDFSBlockAssigner) (id : Nat) (url : String) : HDFSBlockAssigner :=
  { assigner with
    filesLocality := assigner.filesLocality.alter id fun urls =>
      some ((urls.getD ∅).erase url) }

/-- `finish_multi_dict_[id][url].second`. -/
def rejected (assigner : HDFSBlockAssigner) (id : Nat) (url : String) : Nat :=
  (assigner.finish[id]?.bind (·[url]?)).getD 0

def setRejected (assigner : HDFSBlockAssigner) (id : Nat) (url : String) (count : Nat) :
    HDFSBlockAssigner :=
  { assigner with
    finish := assigner.finish.alter id fun urls => some ((urls.getD ∅).insert url count) }

def browseHdfs (assigner : HDFSBlockAssigner) (fs : Hdfs) (id : Nat) (url : String) :
    HDFSBlockAssigner :=
  assigner.setListing id url (((assigner.listing id url).getD ∅).browse fs url)

/-- The two tests at the head of `answer`. -/
def prepare (assigner : HDFSBlockAssigner) (fs : Hdfs) (id : Nat) (url : String) :
    HDFSBlockAssigner :=
  let assigner := if assigner.filesLocality[id]?.isNone then
    (assigner.browseHdfs fs id url).setRejected id url 0 else assigner
  if (assigner.listing id url).isNone then
    (assigner.browseHdfs fs id url).setRejected id url 0
  else assigner

/-- Hands out a block of `selectedHost`; `begin` tells which one `begin()` finds. -/
def select (assigner : HDFSBlockAssigner) (id : Nat) (url : String) (locality : Locality)
    (selectedHost : String) (begin : Nat) : HDFSBlockAssigner × (String × Nat) :=
  let descs := locality.getD selectedHost []
  match descs[begin % descs.length]? with
  | some desc => (assigner.setListing id url (locality.remove desc.block), desc.block)
  | none => (assigner, ("", 0))

/-- Tells a worker that nothing is left. -/
def reject (assigner : HDFSBlockAssigner) (id : Nat) (url : String) : HDFSBlockAssigner :=
  let assigner := assigner.setRejected id url (assigner.rejected id url + 1)
  if assigner.rejected id url = assigner.numWorkersAlive then assigner.eraseListing id url
  else assigner

def answer (assigner : HDFSBlockAssigner) (fs : Option Hdfs) (host url : String) (id begin : Nat) :
    HDFSBlockAssigner × (String × Nat) :=
  match fs with
  | none => (assigner, ("", 0))
  | some fs =>
      let assigner := assigner.prepare fs id url
      -- `all_files_locality[host]` makes an entry for the host
      let locality := ((assigner.listing id url).getD ∅).insertIfNew host []
      let assigner := assigner.setListing id url locality
      if locality.getD host [] ≠ [] then assigner.select id url locality host begin
      else match locality.toList.find? fun item => item.2 ≠ [] with
        | some item => assigner.select id url locality item.1 begin
        | none => (assigner.reject id url, ("", 0))

def handleBlockRequest (assigner : HDFSBlockAssigner) (fs : Option Hdfs) (host url : String)
    (numThreads id begin : Nat) : HDFSBlockAssigner × (String × Nat) :=
  { assigner with numWorkersAlive := numThreads }.answer fs host url id begin

end HDFSBlockAssigner

/-! ## What is listed -/

namespace Locality

/-- The block is listed under the host. -/
def Listed (locality : Locality) (host : String) (block : String × Nat) : Prop :=
  ∃ desc ∈ locality.getD host [], desc.block = block

/-- No block is listed twice under a host. -/
def Distinct (locality : Locality) : Prop :=
  ∀ host, ((locality.getD host []).map BlkDesc.block).Nodup

theorem listed_insertDesc (locality : Locality) (host : String) (desc : BlkDesc) (h : String)
    (b : String × Nat) : (locality.insertDesc host desc).Listed h b ↔
      locality.Listed h b ∨ host = h ∧ desc.block = b := by
  unfold Listed insertDesc
  rw [Std.TreeMap.getD_alter]
  cases decEq host h with
  | isFalse other => simp [other]
  | isTrue same =>
      subst same
      simp only [Std.compare_self, if_true, true_and, Std.TreeMap.getD_eq_getD_getElem?]
      split <;> grind

theorem distinct_insertDesc {locality : Locality} (distinct : locality.Distinct) (host : String)
    (desc : BlkDesc) : (locality.insertDesc host desc).Distinct := by
  intro h
  unfold insertDesc
  rw [Std.TreeMap.getD_alter]
  cases decEq host h with
  | isFalse other => simpa [other] using distinct h
  | isTrue same =>
      subst same
      have before := distinct host
      simp only [Std.compare_self, if_true, Std.TreeMap.getD_eq_getD_getElem?] at before ⊢
      split
      · exact before
      · next new => 
        rw [Option.getD_some, List.map_append, List.nodup_append]
        grind

/-- A loop that lists more and more blocks. -/
theorem listed_foldl {α : Type} {f : Locality → α → Locality}
    {Q : α → String → String × Nat → Prop}
    (body : ∀ locality a h b, (f locality a).Listed h b ↔ locality.Listed h b ∨ Q a h b)
    (items : List α) (locality : Locality) (h : String) (b : String × Nat) :
    (items.foldl f locality).Listed h b ↔ locality.Listed h b ∨ ∃ a ∈ items, Q a h b := by
  induction items generalizing locality with
  | nil => simp
  | cons a rest ih =>
      rw [List.foldl_cons, ih, body]
      grind

theorem distinct_foldl {α : Type} {f : Locality → α → Locality}
    (body : ∀ locality a, locality.Distinct → (f locality a).Distinct) (items : List α)
    {locality : Locality} (distinct : locality.Distinct) : (items.foldl f locality).Distinct := by
  induction items generalizing locality with
  | nil => exact distinct
  | cons a rest ih => exact ih (body locality a distinct)

theorem listed_insertReplicas (fs : Hdfs) (info : FileInfo) (locality : Locality) (k : Nat)
    (h : String) (b : String × Nat) : (locality.insertReplicas fs info k).Listed h b ↔
      locality.Listed h b ∨ h ∈ fs.blockHosts info.mName k ∧ (info.mName ++ "\x00", k) = b := by
  unfold insertReplicas
  rw [listed_foldl fun locality host =>
    locality.listed_insertDesc host ⟨info.mName ++ "\x00", k, host⟩]
  simp [BlkDesc.block]

/-- The file system has a replica of the block on the host. -/
def Replica (fs : Hdfs) (info : FileInfo) (host : String) (block : String × Nat) : Prop :=
  info.isFile = true ∧ ∃ k ∈ info.offsets, host ∈ fs.blockHosts info.mName k ∧
    (info.mName ++ "\x00", k) = block

theorem listed_insertFile (fs : Hdfs) (locality : Locality) (info : FileInfo) (h : String)
    (b : String × Nat) :
    (locality.insertFile fs info).Listed h b ↔ locality.Listed h b ∨ Replica fs info h b := by
  unfold insertFile Replica
  split
  · next file =>
      rw [listed_foldl (listed_insertReplicas fs info)]
      simp only [file, true_and]
  · next directory => simp [directory]

theorem listed_browse (fs : Hdfs) (url h : String) (b : String × Nat) :
    (browse fs url ∅).Listed h b ↔ ∃ info ∈ fs.listDirectory url, Replica fs info h b := by
  unfold browse
  rw [listed_foldl (listed_insertFile fs)]
  simp [Listed]

theorem distinct_browse (fs : Hdfs) (url : String) : (browse fs url ∅).Distinct := by
  apply distinct_foldl
  · intro locality info distinct
    unfold insertFile
    split
    · apply distinct_foldl _ _ distinct
      intro locality k distinct
      exact distinct_foldl (fun _ host distinct => distinct_insertDesc distinct host _) _ distinct
    · exact distinct
  · intro host
    simp

theorem mem_eraseP_block {descs : List BlkDesc} (distinct : (descs.map BlkDesc.block).Nodup)
    (block b : String × Nat) :
    (∃ desc ∈ descs.eraseP fun desc => desc.block = block, desc.block = b) ↔
      (∃ desc ∈ descs, desc.block = b) ∧ b ≠ block := by
  induction descs with
  | nil => simp
  | cons desc rest ih =>
      rw [List.map_cons, List.nodup_cons] at distinct
      rw [List.eraseP_cons]
      grind

theorem getD_remove (locality : Locality) (block : String × Nat) (h : String) :
    (locality.remove block).getD h [] =
      (locality.getD h []).eraseP fun desc => desc.block = block := by
  unfold remove
  rw [Std.TreeMap.getD_map, Std.TreeMap.getD_eq_getD_getElem?]
  cases locality[h]? <;> rfl

/-- The block is gone from all hosts, and no other block is. -/
theorem listed_remove {locality : Locality} (distinct : locality.Distinct) (block : String × Nat)
    (h : String) (b : String × Nat) :
    (locality.remove block).Listed h b ↔ locality.Listed h b ∧ b ≠ block := by
  unfold Listed
  rw [getD_remove]
  exact mem_eraseP_block (distinct h) block b

theorem distinct_remove {locality : Locality} (distinct : locality.Distinct)
    (block : String × Nat) : (locality.remove block).Distinct := by
  intro h
  rw [getD_remove]
  exact (List.eraseP_sublist.map _).nodup (distinct h)

end Locality

namespace HDFSBlockAssigner

@[simp] theorem listing_setListing (assigner : HDFSBlockAssigner) (id : Nat) (url : String)
    (locality : Locality) : (assigner.setListing id url locality).listing id url = some locality := by
  simp [listing, setListing]

@[simp] theorem listing_eraseListing (assigner : HDFSBlockAssigner) (id : Nat) (url : String) :
    (assigner.eraseListing id url).listing id url = none := by
  simp [listing, eraseListing]

@[simp] theorem rejected_setRejected (assigner : HDFSBlockAssigner) (id : Nat) (url : String)
    (count : Nat) : (assigner.setRejected id url count).rejected id url = count := by
  simp [rejected, setRejected]

@[simp] theorem listing_setRejected (assigner : HDFSBlockAssigner) (id : Nat) (url : String)
    (count : Nat) : (assigner.setRejected id url count).listing id url = assigner.listing id url :=
  rfl

@[simp] theorem rejected_setListing (assigner : HDFSBlockAssigner) (id : Nat) (url : String)
    (locality : Locality) :
    (assigner.setListing id url locality).rejected id url = assigner.rejected id url := rfl

@[simp] theorem rejected_eraseListing (assigner : HDFSBlockAssigner) (id : Nat) (url : String) :
    (assigner.eraseListing id url).rejected id url = assigner.rejected id url := rfl

@[simp] theorem numWorkers_setListing (assigner : HDFSBlockAssigner) (id : Nat) (url : String)
    (locality : Locality) :
    (assigner.setListing id url locality).numWorkersAlive = assigner.numWorkersAlive := rfl

@[simp] theorem numWorkers_setRejected (assigner : HDFSBlockAssigner) (id : Nat) (url : String)
    (count : Nat) :
    (assigner.setRejected id url count).numWorkersAlive = assigner.numWorkersAlive := rfl

variable {assigner : HDFSBlockAssigner} {fs : Hdfs} {id : Nat} {url : String}

/-- The first request lists the directory. -/
theorem prepare_none (absent : assigner.listing id url = none) :
    (assigner.prepare fs id url).listing id url = some (Locality.browse fs url ∅) ∧
      (assigner.prepare fs id url).rejected id url = 0 ∧
      (assigner.prepare fs id url).numWorkersAlive = assigner.numWorkersAlive := by
  unfold prepare
  cases urls : assigner.filesLocality[id]? with
  | none => simp [browseHdfs, absent]
  | some _ => simp [browseHdfs, absent]

theorem prepare_some {locality : Locality} (there : assigner.listing id url = some locality) :
    assigner.prepare fs id url = assigner := by
  unfold prepare
  cases urls : assigner.filesLocality[id]? with
  | none => simp [listing, urls] at there
  | some _ => simp [there]

/-- A block is handed out and removed, or there was none on the host. -/
theorem select_spec {locality : Locality} {host : String} (some_block : locality.getD host [] ≠ [])
    (begin : Nat) : ∃ block, locality.Listed host block ∧
      assigner.select id url locality host begin =
        (assigner.setListing id url (locality.remove block), block) := by
  have bound : begin % (locality.getD host []).length < (locality.getD host []).length :=
    Nat.mod_lt _ (List.length_pos_iff.mpr some_block)
  refine ⟨_, ⟨_, List.getElem_mem bound, rfl⟩, ?_⟩
  simp only [select, List.getElem?_eq_getElem bound]

theorem listed_touch (locality : Locality) (host h : String) (b : String × Nat) :
    Locality.Listed (locality.insertIfNew host []) h b ↔ locality.Listed h b := by
  unfold Locality.Listed
  rw [Std.TreeMap.getD_insertIfNew]
  split
  · next fresh =>
      obtain ⟨same, fresh⟩ := fresh
      obtain rfl := Std.LawfulEqCmp.eq_of_compare same
      rw [Std.TreeMap.getD_eq_fallback fresh]
  · rfl

theorem distinct_touch {locality : Locality} (distinct : locality.Distinct) (host : String) :
    Locality.Distinct (locality.insertIfNew host []) := by
  intro h
  rw [Std.TreeMap.getD_insertIfNew]
  split
  · exact List.nodup_nil
  · exact distinct h

/-- What a request does: it hands out one of the listed blocks, one on the host of the
    requester if there is any, or it finds that none is left. -/
theorem answer_cases {locality : Locality} (distinct : locality.Distinct)
    (there : (assigner.prepare fs id url).listing id url = some locality) (host : String)
    (begin : Nat) {assigner' : HDFSBlockAssigner} {ret : String × Nat}
    (answered : assigner.answer (some fs) host url id begin = (assigner', ret)) :
    ((∃ h, locality.Listed h ret) ∧ ((∃ b, locality.Listed host b) → locality.Listed host ret) ∧
        (∃ locality', assigner'.listing id url = some locality' ∧ locality'.Distinct ∧
          ∀ h b, locality'.Listed h b ↔ locality.Listed h b ∧ b ≠ ret) ∧
        assigner'.rejected id url = (assigner.prepare fs id url).rejected id url) ∨
      (∀ h b, ¬ locality.Listed h b) ∧ ret = ("", 0) ∧
        assigner'.rejected id url = (assigner.prepare fs id url).rejected id url + 1 ∧
        (if assigner'.rejected id url = (assigner.prepare fs id url).numWorkersAlive then
            assigner'.listing id url = none
          else ∃ locality', assigner'.listing id url = some locality' ∧ locality'.Distinct ∧
            ∀ h b, locality'.Listed h b ↔ locality.Listed h b) := by
  have touched := fun h b => listed_touch locality host h b
  have distinct' := distinct_touch distinct host
  simp only [answer, there, Option.getD_some] at answered
  generalize Std.TreeMap.insertIfNew locality host [] = touchedLocality at *
  have selected : ∀ h, touchedLocality.getD h [] ≠ [] →
      ((assigner.prepare fs id url).setListing id url touchedLocality).select id url
        touchedLocality h begin = (assigner', ret) →
      locality.Listed h ret ∧ (∃ locality', assigner'.listing id url = some locality' ∧
        locality'.Distinct ∧ ∀ h b, locality'.Listed h b ↔ locality.Listed h b ∧ b ≠ ret) ∧
      assigner'.rejected id url = (assigner.prepare fs id url).rejected id url := by
    intro h some_block chosen
    obtain ⟨block, listed, result⟩ := select_spec some_block begin
    cases result.symm.trans chosen
    refine ⟨(touched h ret).mp listed, ⟨_, listing_setListing .., ?_, ?_⟩, rfl⟩
    · exact Locality.distinct_remove distinct' ret
    · intro h b
      rw [Locality.listed_remove distinct', touched]
  split at answered
  · next local_block =>
      obtain ⟨listed, rest⟩ := selected host local_block answered
      exact .inl ⟨⟨host, listed⟩, fun _ => listed, rest⟩
  · next no_local =>
      have no_local : ∀ b, ¬ locality.Listed host b := by
        rintro b listed
        obtain ⟨desc, member, -⟩ := (touched host b).mpr listed
        rw [not_not.mp no_local] at member
        cases member
      split at answered
      · next item found =>
          have member := List.mem_of_find?_eq_some found
          have some_block := List.find?_some found
          rw [Std.TreeMap.mem_toList_iff_getElem?_eq_some] at member
          obtain ⟨listed, rest⟩ := selected item.1
            (by simpa [Std.TreeMap.getD_eq_getD_getElem?, member] using some_block) answered
          exact .inl ⟨⟨item.1, listed⟩, fun ⟨b, here⟩ => absurd here (no_local b), rest⟩
      · next none_left =>
          have empty : ∀ h b, ¬ locality.Listed h b := by
            intro h b listed
            obtain ⟨desc, member, -⟩ := (touched h b).mpr listed
            rw [Std.TreeMap.getD_eq_getD_getElem?] at member
            cases entry : touchedLocality[h]? with
            | none => simp [entry] at member
            | some descs =>
                have there := Std.TreeMap.mem_toList_iff_getElem?_eq_some.mpr entry
                have none_here := List.find?_eq_none.mp none_left _ there
                simp only [ne_eq, decide_not, Bool.not_eq_true, Bool.not_eq_false',
                  decide_eq_true_eq] at none_here
                simp [entry, none_here] at member
          cases answered
          refine .inr ⟨empty, rfl, ?_⟩
          simp only [reject, rejected_setRejected, rejected_setListing, numWorkers_setRejected,
            numWorkers_setListing]
          split
          · next all_rejected => simp [all_rejected]
          · next some_left =>
              simp only [rejected_setRejected, some_left, if_false, listing_setRejected,
                listing_setListing, true_and]
              exact ⟨_, rfl, distinct', touched⟩

end HDFSBlockAssigner

/-! ## Requests of several workers -/

/-- `begin` tells which block `begin()` finds. -/
structure BlockRequest (n : Nat) where
  worker : Fin n
  host : String
  begin : Nat
  deriving DecidableEq, Repr

structure BlockAnswer (n : Nat) where
  worker : Fin n
  host : String
  ret : String × Nat
  deriving DecidableEq, Repr

/-- An answer that hands out nothing. -/
def BlockAnswer.isEmpty {n : Nat} (answer : BlockAnswer n) : Bool := answer.ret.1 = ""

theorem FileInfo.mem_offsets (info : FileInfo) (k : Nat) :
    k ∈ info.offsets ↔ k < info.mSize ∧ info.mBlockSize ∣ k := by
  have from_spec : ∀ fuel m, info.mSize ≤ fuel + m * info.mBlockSize →
      (k ∈ info.offsetsFrom fuel (m * info.mBlockSize) ↔
        k < info.mSize ∧ ∃ q, m ≤ q ∧ k = q * info.mBlockSize) := by
    have positive := info.blockSize_pos
    intro fuel
    induction fuel with
    | zero =>
        intro m enough
        simp only [FileInfo.offsetsFrom, List.not_mem_nil, false_iff]
        rintro ⟨inside, q, above, rfl⟩
        have := Nat.mul_le_mul_right info.mBlockSize above
        omega
    | succ fuel ih =>
        intro m enough
        have next : m * info.mBlockSize + info.mBlockSize = (m + 1) * info.mBlockSize := by ring
        unfold FileInfo.offsetsFrom
        split
        · next inside =>
            rw [List.mem_cons, next, ih (m + 1) (by omega)]
            constructor
            · rintro (rfl | ⟨inside, q, above, rfl⟩)
              · exact ⟨inside, m, le_rfl, rfl⟩
              · exact ⟨inside, q, by omega, rfl⟩
            · rintro ⟨inside, q, above, rfl⟩
              cases Nat.eq_or_lt_of_le above with
              | inl first => exact .inl (by rw [first])
              | inr later => exact .inr ⟨inside, q, later, rfl⟩
        · next outside =>
            simp only [List.not_mem_nil, false_iff]
            rintro ⟨inside, q, above, rfl⟩
            have := Nat.mul_le_mul_right info.mBlockSize above
            omega
  have all := from_spec info.mSize 0 (by omega)
  rw [Nat.zero_mul] at all
  rw [FileInfo.offsets, all]
  simp only [Nat.zero_le, true_and, dvd_iff_exists_eq_mul_left]

namespace HDFSBlockAssigner

variable {n : Nat} (fs : Hdfs) (id : Nat) (url : String)

/-- A block of a file of the directory. -/
def IsBlock (block : String × Nat) : Prop :=
  ∃ info ∈ fs.listDirectory url, info.isFile = true ∧ block.1 = info.mName ++ "\x00" ∧
    block.2 < info.mSize ∧ info.mBlockSize ∣ block.2

/-- A block with a replica on the host. -/
def OnHost (host : String) (block : String × Nat) : Prop :=
  ∃ info ∈ fs.listDirectory url, Locality.Replica fs info host block

/-- Every block has a replica. -/
def Replicated : Prop :=
  ∀ block, IsBlock fs url block → ∃ host, OnHost fs url host block

variable (n) in
/-- A worker stops after its first empty answer. -/
def Enabled (_ : HDFSBlockAssigner) (answers : List (BlockAnswer n)) (request : BlockRequest n) :
    Prop :=
  ∀ answer ∈ answers, answer.worker = request.worker → answer.isEmpty = false

variable (n) in
def step (assigner : HDFSBlockAssigner) (request : BlockRequest n) :
    Except Empty (HDFSBlockAssigner × List (BlockAnswer n)) :=
  let (assigner, ret) :=
    assigner.handleBlockRequest (some fs) request.host url n id request.begin
  .ok (assigner, [⟨request.worker, request.host, ret⟩])

/-- The blocks handed out. -/
def handedOut (answers : List (BlockAnswer n)) : List (String × Nat) :=
  (answers.filter fun answer => !answer.isEmpty).map BlockAnswer.ret

/-- What an answer promises, given the answers before it. -/
def Promised (before : List (BlockAnswer n)) (answer : BlockAnswer n) : Prop :=
  (answer.isEmpty = false → IsBlock fs url answer.ret ∧ answer.ret ∉ handedOut before ∧
      ((∃ block, OnHost fs url answer.host block ∧ block ∉ handedOut before) →
        OnHost fs url answer.host answer.ret)) ∧
    (answer.isEmpty = true → ∀ block, IsBlock fs url block → block ∈ handedOut before)

/-- The listing holds what has not been handed out. -/
def Remaining (locality : Locality) (out : List (String × Nat)) : Prop :=
  locality.Distinct ∧ ∀ h b, locality.Listed h b ↔ OnHost fs url h b ∧ b ∉ out

structure Inv (assigner : HDFSBlockAssigner) (answers : List (BlockAnswer n)) : Prop where
  promised : Machine.AtEach (Promised fs url) answers
  stopped : ((answers.filter BlockAnswer.isEmpty).map BlockAnswer.worker).Nodup
  nodup : (handedOut answers).Nodup
  blocks : ∀ block ∈ handedOut answers, IsBlock fs url block
  complete : 0 < answers.countP BlockAnswer.isEmpty →
    ∀ block, IsBlock fs url block → block ∈ handedOut answers
  fresh : answers = [] → assigner.listing id url = none
  opened : answers ≠ [] → answers.countP BlockAnswer.isEmpty < n →
    ∃ locality, assigner.listing id url = some locality ∧
      Remaining fs url locality (handedOut answers) ∧
      assigner.rejected id url = answers.countP BlockAnswer.isEmpty
  closed : answers.countP BlockAnswer.isEmpty = n → assigner.listing id url = none

variable {fs id url}

theorem handedOut_append (answers : List (BlockAnswer n)) (answer : BlockAnswer n) :
    handedOut (answers ++ [answer]) =
      handedOut answers ++ if answer.isEmpty = true then [] else [answer.ret] := by
  unfold handedOut
  cases empty : answer.isEmpty <;> simp [List.filter_append, empty]

theorem empties_append (answers : List (BlockAnswer n)) (answer : BlockAnswer n) :
    (answers ++ [answer]).countP BlockAnswer.isEmpty =
      answers.countP BlockAnswer.isEmpty + if answer.isEmpty = true then 1 else 0 := by
  rw [List.countP_append, List.countP_singleton]

theorem isBlock_of_onHost {host : String} {block : String × Nat}
    (replica : OnHost fs url host block) : IsBlock fs url block := by
  obtain ⟨info, listed, file, k, offset, -, rfl⟩ := replica
  obtain ⟨inside, multiple⟩ := (info.mem_offsets k).mp offset
  exact ⟨info, listed, file, rfl, inside, multiple⟩

theorem block_name_ne {block : String × Nat} (real : IsBlock fs url block) : block.1 ≠ "" := by
  obtain ⟨info, -, -, name, -⟩ := real
  rw [name]
  intro empty
  have := congrArg String.length empty
  simp at this

theorem init_inv (positive : 0 < n) :
    Inv fs id url init ([] : List (BlockAnswer n)) where
  promised := .nil _
  stopped := List.nodup_nil
  nodup := List.nodup_nil
  blocks _ member := absurd member List.not_mem_nil
  complete some_empty := absurd some_empty (Nat.lt_irrefl 0)
  fresh _ := by simp [init, listing]
  opened not_fresh := absurd rfl not_fresh
  closed all_empty := absurd all_empty (Nat.ne_of_lt positive)

/-- A worker that goes on is not among those that stopped. -/
theorem not_stopped {assigner : HDFSBlockAssigner} {answers : List (BlockAnswer n)}
    {request : BlockRequest n} (enabled : Enabled n assigner answers request) :
    request.worker ∉ (answers.filter BlockAnswer.isEmpty).map BlockAnswer.worker := by
  intro stopped
  obtain ⟨answer, member, same⟩ := List.mem_map.mp stopped
  obtain ⟨member, empty⟩ := List.mem_filter.mp member
  have := enabled answer member same
  simp [empty] at this

theorem Inv.some_go_on {assigner : HDFSBlockAssigner} {answers : List (BlockAnswer n)}
    (inv : Inv fs id url assigner answers) {request : BlockRequest n}
    (enabled : Enabled n assigner answers request) : answers.countP BlockAnswer.isEmpty < n := by
  have few := (List.nodup_cons.mpr ⟨not_stopped enabled, inv.stopped⟩).length_le_card
  rw [List.length_cons, List.length_map, ← List.countP_eq_length_filter, Fintype.card_fin] at few
  exact few

/-- After the tests at the head of `answer`, the listing is there. -/
theorem Inv.prepared {assigner : HDFSBlockAssigner} {answers : List (BlockAnswer n)}
    (inv : Inv fs id url assigner answers) (some_left : answers.countP BlockAnswer.isEmpty < n) :
    ∃ locality,
      (({ assigner with numWorkersAlive := n } : HDFSBlockAssigner).prepare fs id url).listing
        id url = some locality ∧
      Remaining fs url locality (handedOut answers) ∧
      (({ assigner with numWorkersAlive := n } : HDFSBlockAssigner).prepare fs id url).rejected
        id url = answers.countP BlockAnswer.isEmpty ∧
      (({ assigner with numWorkersAlive := n } : HDFSBlockAssigner).prepare fs
        id url).numWorkersAlive = n := by
  cases answers with
  | nil =>
      have absent : ({ assigner with numWorkersAlive := n } : HDFSBlockAssigner).listing id url = none :=
        inv.fresh rfl
      obtain ⟨listing, rejected, workers⟩ := prepare_none absent
      refine ⟨_, listing, ⟨Locality.distinct_browse fs url, ?_⟩, rejected, workers⟩
      intro h b
      rw [Locality.listed_browse]
      simp [handedOut, OnHost]
  | cons answer answers =>
      obtain ⟨locality, there, remaining, rejected⟩ := inv.opened (List.cons_ne_nil _ _) some_left
      have listed : ({ assigner with numWorkersAlive := n } : HDFSBlockAssigner).listing id url =
          some locality := there
      rw [prepare_some listed]
      exact ⟨locality, there, remaining, rejected, rfl⟩

theorem step_inv (replicated : Replicated fs url) {assigner assigner' : HDFSBlockAssigner}
    {answers out : List (BlockAnswer n)} {request : BlockRequest n}
    (inv : Inv fs id url assigner answers) (enabled : Enabled n assigner answers request)
    (stepped : step n fs id url assigner request = .ok (assigner', out)) :
    Inv fs id url assigner' (answers ++ out) := by
  have some_left := inv.some_go_on enabled
  obtain ⟨locality, there, ⟨distinct, listed⟩, rejected, workers⟩ := inv.prepared some_left
  cases result : assigner.handleBlockRequest (some fs) request.host url n id request.begin with
  | mk assigner'' ret =>
      simp only [step, result] at stepped
      cases stepped
      cases answer_cases distinct there request.host request.begin result with
      | inl handed =>
          obtain ⟨⟨h, here⟩, preferred, ⟨locality', there', distinct', listed'⟩, rejected'⟩ := handed
          obtain ⟨replica, new⟩ := (listed h ret).mp here
          have real := isBlock_of_onHost replica
          have full : BlockAnswer.isEmpty ⟨request.worker, request.host, ret⟩ = false := by
            simpa [BlockAnswer.isEmpty] using block_name_ne real
          have out_append := handedOut_append answers ⟨request.worker, request.host, ret⟩
          have empties_same := empties_append answers ⟨request.worker, request.host, ret⟩
          simp only [full, Bool.false_eq_true, if_false, Nat.add_zero] at out_append empties_same
          constructor
          case promised =>
            apply inv.promised.append
            refine ⟨fun _ => ⟨real, new, ?_⟩, fun empty => by simp [full] at empty⟩
            rintro ⟨block, replica', remaining⟩
            exact ((listed _ _).mp (preferred ⟨block, (listed _ _).mpr ⟨replica', remaining⟩⟩)).1
          case stopped => simpa [List.filter_append, full] using inv.stopped
          case nodup =>
            rw [out_append]
            exact List.nodup_append.mpr ⟨inv.nodup, List.nodup_singleton _, by grind⟩
          case blocks =>
            intro block member
            rw [out_append] at member
            cases List.mem_append.mp member with
            | inl old => exact inv.blocks block old
            | inr last => cases List.mem_singleton.mp last; exact real
          case complete =>
            rw [empties_same, out_append]
            exact fun some_empty block real =>
              List.mem_append_left _ (inv.complete some_empty block real)
          case fresh => exact fun none => absurd none (by simp)
          case opened =>
            rw [empties_same, out_append]
            refine fun _ _ => ⟨locality', there', ⟨distinct', ?_⟩, rejected'.trans rejected⟩
            intro h b
            rw [listed', listed]
            grind
          case closed =>
            rw [empties_same]
            exact fun all_empty => absurd all_empty (Nat.ne_of_lt some_left)
      | inr none_left =>
          obtain ⟨none_listed, rfl, rejected', listing'⟩ := none_left
          have empty : BlockAnswer.isEmpty ⟨request.worker, request.host, ("", 0)⟩ = true := rfl
          have all_out : ∀ block, IsBlock fs url block → block ∈ handedOut answers := by
            intro block real
            obtain ⟨host, replica⟩ := replicated block real
            cases Classical.em (block ∈ handedOut answers) with
            | inl out => exact out
            | inr remaining =>
                exact absurd ((listed host block).mpr ⟨replica, remaining⟩) (none_listed _ _)
          have out_append := handedOut_append answers ⟨request.worker, request.host, ("", 0)⟩
          have one_more := empties_append answers ⟨request.worker, request.host, ("", 0)⟩
          simp only [empty, if_true, List.append_nil] at out_append one_more
          rw [rejected, ← one_more] at rejected'
          rw [rejected', workers] at listing'
          constructor
          case promised =>
            apply inv.promised.append
            exact ⟨fun full => by simp [empty] at full, fun _ => all_out⟩
          case stopped =>
            rw [List.filter_append, List.map_append]
            apply List.nodup_append.mpr
            refine ⟨inv.stopped, by simp [empty], ?_⟩
            rintro worker stopped other last rfl
            obtain rfl : worker = request.worker := by simpa [empty] using last
            exact not_stopped enabled stopped
          case nodup => exact out_append ▸ inv.nodup
          case blocks => exact out_append ▸ inv.blocks
          case complete => exact fun _ => out_append ▸ all_out
          case fresh => exact fun none => absurd none (by simp)
          case opened =>
            intro _ still
            rw [if_neg (Nat.ne_of_lt still)] at listing'
            obtain ⟨locality', there', distinct', listed'⟩ := listing'
            rw [out_append]
            exact ⟨locality', there', ⟨distinct', fun h b => (listed' h b).trans (listed h b)⟩,
              rejected'⟩
          case closed =>
            intro all_empty
            rwa [if_pos all_empty] at listing'

theorem run_inv (replicated : Replicated fs url) (positive : 0 < n) {requests : List (BlockRequest n)}
    {assigner : HDFSBlockAssigner} {answers : List (BlockAnswer n)}
    (run : Machine.Runs (step n fs id url) (Enabled n) init requests assigner answers) :
    Inv fs id url assigner answers := by
  refine run.invariant (P := fun _ => Inv fs id url) (init_inv positive) ?_
  intro _ assigner answers request assigner' out _ inv enabled stepped
  exact step_inv replicated inv enabled stepped

/-- Each block is handed out once. -/
theorem blocks_handed_out_once (replicated : Replicated fs url) (positive : 0 < n)
    {requests : List (BlockRequest n)} {assigner : HDFSBlockAssigner}
    {answers : List (BlockAnswer n)}
    (run : Machine.Runs (step n fs id url) (Enabled n) init requests assigner answers) :
    Machine.AtEach (Promised fs url) answers ∧
      (answers.countP BlockAnswer.isEmpty = n →
        (handedOut answers).Nodup ∧ (∀ block, block ∈ handedOut answers ↔ IsBlock fs url block) ∧
          assigner.listing id url = none) := by
  have inv := run_inv replicated positive run
  refine ⟨inv.promised, fun all_empty => ⟨inv.nodup, fun block => ⟨inv.blocks block, ?_⟩,
    inv.closed all_empty⟩⟩
  exact inv.complete (positive.trans_eq all_empty.symm) block

instance (assigner : HDFSBlockAssigner) (answers : List (BlockAnswer n))
    (request : BlockRequest n) : Decidable (Enabled n assigner answers request) :=
  inferInstanceAs (Decidable (∀ answer ∈ answers, answer.worker = request.worker →
    answer.isEmpty = false))

/-- A file of three blocks on two hosts. -/
def twoHosts : Hdfs :=
  ⟨fun _ => [⟨"a", true, 5, 2, by decide⟩],
    fun _ k => if k = 2 then ["h1", "h2"] else ["h2"]⟩

theorem twoHosts_replicated (url : String) : Replicated twoHosts url := by
  rintro ⟨name, k⟩ ⟨info, listed, file, named, inside, multiple⟩
  refine ⟨"h2", info, listed, file, k, (info.mem_offsets k).mpr ⟨inside, multiple⟩, ?_, ?_⟩
  · simp only [twoHosts]
    split <;> simp
  · rw [← named]

theorem blocks_handed_out_once_twoHosts :
    ∃ (assigner : HDFSBlockAssigner) (answers : List (BlockAnswer 2)),
      handedOut answers = [("a\x00", 2), ("a\x00", 4), ("a\x00", 0)] ∧
        (∀ block, block ∈ handedOut answers ↔ IsBlock twoHosts "dir" block) ∧
        assigner.listing 1 "dir" = none := by
  obtain ⟨assigner, answers, run, out, all_empty⟩ := Machine.runs_of_exec
    (step 2 twoHosts 1 "dir") (Enabled 2) init
    [⟨0, "h1", 0⟩, ⟨1, "h1", 1⟩, ⟨0, "h3", 0⟩, ⟨0, "h1", 0⟩, ⟨1, "h2", 0⟩]
    (fun _ answers => handedOut answers = [("a\x00", 2), ("a\x00", 4), ("a\x00", 0)] ∧
      answers.countP BlockAnswer.isEmpty = 2) (by decide +kernel)
  obtain ⟨-, finished⟩ := blocks_handed_out_once (twoHosts_replicated "dir") Nat.two_pos run
  obtain ⟨-, blocks, removed⟩ := finished all_empty
  exact ⟨assigner, answers, out, blocks, removed⟩

end HDFSBlockAssigner

end FlexPS
