import MiniSpark.Memory
import MiniSpark.Parquet

/-!
# The chunks of every source

The three sources cut their items (records, data lines, row groups) with the same loop. What it
keeps covers the items exactly, at least one chunk and at most as many as were asked for, and
the partitions of a read are these chunks.
-/
namespace MiniSpark

open Chunking TextLines

variable {F : Type}

/-- The number of chunks the three sources ask for. -/
def chunkCount (numPartitions : ℤ) (total : ℕ) : ℕ :=
  (max 1 (min numPartitions (if total = 0 then 1 else total))).toNat

lemma chunkCount_pos (numPartitions : ℤ) (total : ℕ) : 0 < chunkCount numPartitions total := by
  unfold chunkCount
  omega

lemma chunkCount_of_none (numPartitions : ℤ) : chunkCount numPartitions 0 = 1 := by
  simp only [chunkCount, if_true]
  omega

lemma chunkCount_le (numPartitions : ℤ) (total : ℕ) :
    (chunkCount numPartitions total : ℤ) ≤ max 1 numPartitions := by
  unfold chunkCount
  omega

lemma parquetPartitions_eq (numPartitions : ℤ) (total : ℕ) :
    parquetPartitions numPartitions total = chunkCount numPartitions total := by
  unfold parquetPartitions chunkCount
  split <;> omega

/-- The kept chunks of a loop over `total` items for `numPartitions`. -/
structure KeptChunks (numPartitions : ℤ) (total : ℕ) (cs : List Chunk) : Prop where
  covers : ExactlyCovers total cs
  once : ∀ i < total, cs.countP (fun c => c.holds i) = 1
  le : (cs.length : ℤ) ≤ max 1 numPartitions

theorem chunks_chunkCount (numPartitions : ℤ) (total : ℕ) :
    KeptChunks numPartitions total (chunks (chunkCount numPartitions total) total) := by
  have hnone : total = 0 → chunkCount numPartitions total = 1 := by
    rintro rfl
    exact chunkCount_of_none numPartitions
  obtain ⟨hcovers, hle⟩ := chunks_exactlyCovers (chunkCount_pos numPartitions total) hnone
  refine ⟨hcovers, fun i hi => hcovers.countP_eq_one hi, ?_⟩
  have hcount := chunkCount_le numPartitions total
  omega

/-- The partitions of a dataset are the chunks of `total` items, in order: each has its number,
which is its place, and reads what `reads` says of its chunk. -/
def ReadsChunks (numPartitions : ℤ) (total : ℕ) (reads : Chunk → Partition F → Prop)
    (dataset : Dataset F) : Prop :=
  ∃ cs, KeptChunks numPartitions total cs ∧
    dataset.partitions.map Partition.partitionId = List.range dataset.numPartitions ∧
    List.Forall₂ (fun c p => p.partitionId = c.index ∧ reads c p) cs dataset.partitions

/-- Partitions made of the chunks one by one. -/
lemma ReadsChunks.of_forall₂ {numPartitions : ℤ} {total : ℕ} {cs : List Chunk}
    {reads : Chunk → Partition F → Prop} {dataset : Dataset F} (hcs : KeptChunks numPartitions total cs)
    (h : List.Forall₂ (fun c p => p.partitionId = c.index ∧ reads c p) cs dataset.partitions) :
    ReadsChunks numPartitions total reads dataset := by
  have hids : dataset.partitions.map Partition.partitionId = cs.map Chunk.index := by
    rw [← List.forall₂_eq_eq_eq, List.forall₂_map_left_iff, List.forall₂_map_right_iff]
    exact h.flip.imp fun _ _ hp => hp.1
  refine ⟨cs, hcs, ?_, h⟩
  rw [hids, hcs.covers.numbered, h.length_eq]
  rfl

section Sources

/-- The records of a memory source. -/
theorem readMemory_chunks {isPrintable : Char → Bool} {records : List (Record F)}
    {schema : Option Schema} {numPartitions : ℤ} {columns : Option (List String)}
    {dataset : Dataset F}
    (h : readMemory isPrintable records schema numPartitions columns = .ok dataset) :
    ReadsChunks numPartitions records.length
      (fun c p => p.toList = projectRecords columns (slice records c)) dataset := by
  have hkept := chunks_chunkCount numPartitions records.length
  obtain ⟨full, -, h⟩ := ExceptList.bind_eq_ok.mp h
  obtain ⟨restricted, -, h⟩ := ExceptList.bind_eq_ok.mp h
  obtain ⟨parts, hparts, h⟩ := ExceptList.bind_eq_ok.mp h
  cases h
  rw [ExceptList.mapM_eq_ok] at hparts
  refine .of_forall₂ hkept ?_
  have hne : parts.isEmpty = false := by
    rw [List.isEmpty_eq_false_iff, ← List.length_pos_iff, ← hparts.length_eq]
    exact hkept.covers.one_le
  simp only [memoryDataset, memoryPartitions, hne, Bool.false_eq_true, if_false]
  rw [List.forall₂_map_right_iff]
  refine hparts.imp (fun c part hpart => ?_)
  obtain ⟨rows, hrows, hpart⟩ := ExceptList.bind_eq_ok.mp hpart
  cases hpart
  exact ⟨rfl, hrows.symm⟩

variable [PyRuntime F]

/-- The data lines of a CSV source. -/
theorem readCsv_chunks [PyCsv F] {text : List Char} {numPartitions : ℤ}
    {columns : Option (List String)} {dataset : Dataset F}
    (h : readCsv text numPartitions columns = .ok dataset) :
    ReadsChunks numPartitions (countRows text) (fun c p => ∃ offset,
      text.drop offset = skip (c.start + 1) text ∧ p.toList = readCsvRange text
        (PyCsv.parseLine F (readline text).1) c.start c.stop offset columns) dataset := by
  have hkept := chunks_chunkCount numPartitions (countRows text)
  obtain ⟨full, -, h⟩ := ExceptList.bind_eq_ok.mp h
  obtain ⟨schema, -, h⟩ := ExceptList.bind_eq_ok.mp h
  obtain ⟨located, hlocated, h⟩ := ExceptList.bind_eq_ok.mp h
  cases h
  rw [ExceptList.mapM_eq_ok] at hlocated
  refine .of_forall₂ hkept ?_
  have hne : located.isEmpty = false := by
    rw [List.isEmpty_eq_false_iff, ← List.length_pos_iff, ← hlocated.length_eq]
    exact hkept.covers.one_le
  simp only [csvDataset, csvPartitions, hne, Bool.false_eq_true, if_false]
  rw [List.forall₂_map_right_iff, List.forall₂_iff_zip]
  refine ⟨hlocated.length_eq, fun {c l} hmem => ?_⟩
  obtain ⟨offset, hoffset, hl⟩ :=
    ExceptList.bind_eq_ok.mp ((List.forall₂_iff_zip.mp hlocated).2 hmem)
  cases hl
  obtain ⟨offset', hget, hdrop⟩ : Locates text (locatePartitionOffsets text
      ((chunks (csvPartitionCount numPartitions (countRows text)) (countRows text)).map
        Chunk.start)) c.start :=
    locatePartitionOffsets_locates text (List.mem_map_of_mem (List.of_mem_zip hmem).1)
  rw [offsetOf, hget] at hoffset
  cases hoffset
  exact ⟨rfl, offset, hdrop, rfl⟩

/-- The row groups of a Parquet source. -/
theorem readParquet_chunks [PyArrow F] {numPartitions : ℤ} {dir : Directory F} {columns : Option (List String)}
    {filter : Option (Expression F)} {dataset : Dataset F}
    (h : readParquet numPartitions dir columns filter = .ok dataset) :
    ReadsChunks numPartitions (dir.listing.flatMap PyArrow.splitByRowGroup).length
      (fun c p => p.toList = readFragments columns (filter.bind translatePredicate)
        (slice (dir.listing.flatMap PyArrow.splitByRowGroup) c)) dataset := by
  obtain ⟨full, -, h⟩ := ExceptList.bind_eq_ok.mp h
  obtain ⟨schema, -, h⟩ := ExceptList.bind_eq_ok.mp h
  cases h
  generalize dir.listing.flatMap PyArrow.splitByRowGroup = rowGroups
  have hkept := chunks_chunkCount numPartitions rowGroups.length
  refine .of_forall₂ hkept ?_
  simp only [fragmentDataset, fragmentPartitions, parquetPartitions_eq]
  have hne : ((chunks (chunkCount numPartitions rowGroups.length) rowGroups.length).map (fun c =>
      fragmentPartition schema columns (filter.bind translatePredicate) c.index
        (slice rowGroups c))).isEmpty = false := by
    rw [List.isEmpty_eq_false_iff, ← List.length_pos_iff, List.length_map]
    exact hkept.covers.one_le
  rw [if_neg (by simp [hne]), List.forall₂_map_right_iff, List.forall₂_same]
  exact fun c _ => ⟨rfl, rfl⟩

/-- Whatever number of items a source has and whatever number of partitions is asked for, its
chunks cover the items exactly, and the partitions of a read are these chunks. -/
theorem sources_cover_exactly [PyCsv F] [PyArrow F] (numPartitions : ℤ) :
    (∀ total, KeptChunks numPartitions total (chunks (memoryPartitionCount numPartitions total) total) ∧
      KeptChunks numPartitions total (chunks (csvPartitionCount numPartitions total) total) ∧
      KeptChunks numPartitions total (chunks (parquetPartitions numPartitions total) total)) ∧
    (∀ isPrintable (records : List (Record F)) schema columns dataset,
      readMemory isPrintable records schema numPartitions columns = .ok dataset →
      ReadsChunks numPartitions records.length
        (fun c p => p.toList = projectRecords columns (slice records c)) dataset) ∧
    (∀ text columns (dataset : Dataset F), readCsv text numPartitions columns = .ok dataset →
      ReadsChunks numPartitions (countRows text) (fun c p => ∃ offset,
        text.drop offset = skip (c.start + 1) text ∧ p.toList = readCsvRange text
          (PyCsv.parseLine F (readline text).1) c.start c.stop offset columns) dataset) ∧
    (∀ (dir : Directory F) columns filter dataset,
      readParquet numPartitions dir columns filter = .ok dataset →
      ReadsChunks numPartitions (dir.listing.flatMap PyArrow.splitByRowGroup).length
        (fun c p => p.toList = readFragments columns (filter.bind translatePredicate)
          (slice (dir.listing.flatMap PyArrow.splitByRowGroup) c)) dataset) := by
  refine ⟨fun total => ?_, fun _ _ _ _ _ h => readMemory_chunks h, fun _ _ _ h => readCsv_chunks h,
    fun _ _ _ _ h => readParquet_chunks h⟩
  rw [parquetPartitions_eq]
  have hkept := chunks_chunkCount numPartitions total
  exact ⟨hkept, hkept, hkept⟩

end Sources

section Examples

/-- Five records of one column. -/
def fiveRecords : List (Record ℚ) :=
  [1, 2, 3, 4, 5].map (fun i => OrderedDict.ofList [("a", .int i)])

/-- A file for each of the records. -/
def oneRecordFiles : List (PyArrow.File ℚ) :=
  fiveRecords.map (fun r => (minisparkSchemaToArrow ⟨[⟨"a", .int, true⟩], by decide⟩, [r]))

def fiveFiles : Directory ℚ := OrderedDict.ofList (((List.range 5).map partName).zip oneRecordFiles)

lemma fiveFiles_listing : fiveFiles.listing = oneRecordFiles := by
  unfold Directory.listing
  rw [List.mergeSort_of_pairwise (by decide)]
  rfl

/-- A header and three lines. -/
def threeLines : List Char := ['x', '\n', 'p', '\n', 'q', '\n', 'r']

lemma threeLines_reads : ∃ full : Dataset ℚ, readCsv threeLines 2 none = .ok full := by
  have hlines : dataLines threeLines = [['p', '\n'], ['q', '\n'], ['r']] := by
    simp [threeLines, dataLines, readline, lines_of_ne_nil]
  refine readCsv_ok (by decide) (by decide) ?_ 2
  rw [hlines]
  decide

/-- Four partitions of five records or files are asked for, and two of three lines: the chunks hold
two, two and one, and two and one. -/
theorem sources_cover_exactly_five :
    (∃ dataset, readMemory (PyRuntime.isPrintable ℚ) fiveRecords none 4 none = .ok dataset ∧
      dataset.numPartitions = 3 ∧ ReadsChunks 4 5
        (fun c p => p.toList = projectRecords none (slice fiveRecords c)) dataset) ∧
    (∃ dataset : Dataset ℚ, readCsv threeLines 2 none = .ok dataset ∧
      ReadsChunks 2 (countRows threeLines) (fun c p => ∃ offset,
        threeLines.drop offset = skip (c.start + 1) threeLines ∧ p.toList = readCsvRange threeLines
          (PyCsv.parseLine ℚ (readline threeLines).1) c.start c.stop offset none) dataset) ∧
    ∃ dataset : Dataset ℚ, readParquet 4 fiveFiles none none = .ok dataset ∧
      dataset.numPartitions = 3 ∧
      ReadsChunks 4 (fiveFiles.listing.flatMap PyArrow.splitByRowGroup).length
        (fun c p => p.toList = readFragments none (none.bind translatePredicate)
          (slice (fiveFiles.listing.flatMap PyArrow.splitByRowGroup) c)) dataset := by
  refine ⟨⟨_, rfl, rfl,
    (sources_cover_exactly 4).2.1 (PyRuntime.isPrintable ℚ) fiveRecords none none _ rfl⟩, ?_, ?_⟩
  · obtain ⟨full, hfull⟩ := threeLines_reads
    exact ⟨full, hfull, (sources_cover_exactly 2).2.2.1 threeLines none full hfull⟩
  · have hread : ∃ dataset : Dataset ℚ, readParquet 4 fiveFiles none none = .ok dataset ∧
        dataset.numPartitions = 3 := by
      simp only [readParquet, fiveFiles_listing]
      exact ⟨_, rfl, rfl⟩
    obtain ⟨dataset, hdataset, hnum⟩ := hread
    exact ⟨dataset, hdataset, hnum,
      (sources_cover_exactly 4).2.2.2 fiveFiles none none dataset hdataset⟩

end Examples

end MiniSpark
