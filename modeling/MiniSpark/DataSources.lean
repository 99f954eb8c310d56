import MiniSpark.Memory
import MiniSpark.OptimizerFields
import MiniSpark.ReadContract

/-!
# The sources of the engine answer

Records in memory, CSV files and checkpoints ignore the filter and narrow every row to exactly
the columns they are asked for, partition by partition, losing none. Memory and checkpoints raise where a row lacks
a column, so there the rows must have the fields of the schema; a CSV row that parses has them.
-/
namespace MiniSpark

open Chunking TextLines

variable {F : Type}

section Narrowing

variable {columns : Option (List String)}

lemma SchemaRestricted.narrows {s s' : Schema} (h : SchemaRestricted columns s s') :
    NarrowsSchema columns s s' := by
  cases columns with
  | none => exact h
  | some names => exact fun n hn => Schema.getField?_of_subset h.2 (h.1 ▸ hn)

/-- The values of the row under the requested columns, and no others. -/
def RestrictsRow (columns : Option (List String)) (r r' : Record F) : Prop :=
  match columns with
  | none => r' = r
  | some names => HasKeys names r' ∧ Agree (· ∈ names) r r'

lemma RowRestricted.restricts {r r' : Record F} (h : RowRestricted columns r r') :
    RestrictsRow columns r r' := by
  cases columns with
  | none => exact h
  | some names => exact ⟨fun n => by rw [OrderedDict.isSome_get?_iff, h.1], h.2⟩

lemma RestrictsRow.narrows {r r' : Record F} (h : RestrictsRow columns r r') :
    NarrowsRow columns r r' := by
  cases columns with
  | none => exact h
  | some names => exact h.2

/-- The second partition has the id of the first and yields its rows, restricted. -/
structure RestrictsPartition (columns : Option (List String)) (p q : Partition F) : Prop where
  partitionId : q.partitionId = p.partitionId
  rows : ∀ rows, p.toList = .ok rows →
    ∃ out, q.toList = .ok out ∧ List.Forall₂ (RestrictsRow columns) rows out

variable [PyRuntime F]

/-- Under every hint a source returns the partitions of its full read, each row restricted to
the requested columns and none lost. -/
structure ScanSource.AnswersInFull (source : ScanSource F) (full : Dataset F) : Prop where
  reads : source.read none none = .ok full
  restricted : ∀ columns filterExpr, (∀ names ∈ columns, names.Nodup) →
    HintsWithin full.schema.fieldNames columns filterExpr →
    ∃ d, source.read columns filterExpr = .ok d ∧ SchemaRestricted columns full.schema d.schema ∧
      List.Forall₂ (RestrictsPartition columns) full.partitions d.partitions

lemma narrowsDataset_of_partitions {full d : Dataset F}
    (hschema : SchemaRestricted columns full.schema d.schema)
    (h : List.Forall₂ (RestrictsPartition columns) full.partitions d.partitions)
    (filterExpr : Option (Expression F)) : NarrowsDataset columns filterExpr full d where
  schema := hschema.narrows
  numPartitions := h.length_eq.symm
  rows i p q hp hq rows hrows := by
    obtain ⟨hi, rfl⟩ := List.getElem?_eq_some_iff.mp hp
    obtain ⟨hi', rfl⟩ := List.getElem?_eq_some_iff.mp hq
    obtain ⟨out, hout, hrel⟩ := (h.get hi hi').rows rows hrows
    exact ⟨out, hout, rows, List.Sublist.refl rows, List.filter_sublist,
      hrel.imp (fun _ _ h => h.narrows)⟩

/-- A source that answers in full meets the contract. -/
lemma ScanSource.AnswersInFull.answers {source : ScanSource F} {full : Dataset F}
    (h : source.AnswersInFull full) : source.Answers full where
  reads := h.reads
  narrowed columns filterExpr hnodup hw := by
    obtain ⟨d, hread, hschema, hpartitions⟩ := h.restricted columns filterExpr hnodup hw
    exact ⟨d, hread, narrowsDataset_of_partitions hschema hpartitions filterExpr⟩

/-- Asking for different columns of the schema restricts the schema. -/
lemma exists_requested_of_hints {full : Schema} {filterExpr : Option (Expression F)}
    (hnodup : ∀ names ∈ columns, names.Nodup)
    (hw : HintsWithin full.fieldNames columns filterExpr) :
    ∃ s, full.requested (PyRuntime.isPrintable F) columns = .ok s ∧
      SchemaRestricted columns full s :=
  exists_requested _ (fun names hnames => ⟨hnodup names hnames, fun _ hn => hw.1 names hnames hn⟩)

end Narrowing

section Memory

/-- Rows with the fields of a schema can be narrowed to some of them. -/
lemma projectRecords_ok {columns : Option (List String)} {names : List String}
    {rows : List (Record F)} (hrows : ∀ r ∈ rows, HasKeys names r)
    (hnodup : ∀ cs ∈ columns, cs.Nodup) (hsub : ∀ cs ∈ columns, cs ⊆ names) :
    ∃ out, projectRecords columns rows = .ok out ∧ List.Forall₂ (RestrictsRow columns) rows out := by
  refine ExceptList.mapM_ok_of_exists (fun r hr => ?_)
  obtain ⟨r', hr', hrestricted⟩ := restrictRecord_ok hnodup (fun cs hcs n hn =>
    OrderedDict.isSome_get?_iff.mp ((hrows r hr n).mpr (hsub cs hcs hn)))
  exact ⟨r', hr', hrestricted.restricts⟩

variable [PyRuntime F]

/-- `MemoryDataSource(records, schema, num_partitions)`. -/
def memorySource (records : List (Record F)) (schema : Option Schema) (numPartitions : ℤ) :
    ScanSource F where
  read columns _ := readMemory (PyRuntime.isPrintable F) records schema numPartitions columns

/-- A memory source whose records have the fields of its schema answers in full. -/
theorem memorySource_answersInFull {records : List (Record F)} {schema : Option Schema}
    {numPartitions : ℤ} {full : Dataset F}
    (h : (memorySource records schema numPartitions).read none none = .ok full)
    (hkeys : ∀ r ∈ records, HasKeys full.schema.fieldNames r) :
    (memorySource records schema numPartitions).AnswersInFull full where
  reads := h
  restricted columns filterExpr hnodup hw := by
    obtain ⟨fullSchema, hschema, h⟩ := ExceptList.bind_eq_ok.mp h
    obtain ⟨requested, hrequested, h⟩ := ExceptList.bind_eq_ok.mp h
    obtain ⟨parts, hparts, h⟩ := ExceptList.bind_eq_ok.mp h
    cases hrequested
    cases h
    obtain ⟨s, hs, hrestricted⟩ := exists_requested_of_hints hnodup hw
    have hpart : ∀ c ∈ chunks (memoryPartitionCount numPartitions records.length) records.length,
        ∃ part : ℕ × List (Record F), (do
          let rows ← projectRecords columns (slice records c)
          pure (c.index, rows)) = .ok part ∧ part.1 = c.index ∧
            List.Forall₂ (RestrictsRow columns) (slice records c) part.2 := by
      intro c _
      have hslice : ∀ r ∈ slice records c, HasKeys fullSchema.fieldNames r :=
        fun r hr => hkeys r (List.mem_of_mem_drop (List.mem_of_mem_take hr))
      obtain ⟨out, hout, hrel⟩ := projectRecords_ok hslice hnodup hw.1
      exact ⟨(c.index, out), by rw [hout]; rfl, rfl, hrel⟩
    obtain ⟨parts', hparts', hrel⟩ := ExceptList.mapM_ok_of_exists hpart
    have hboth : List.Forall₂ (fun part part' : ℕ × List (Record F) =>
        part'.1 = part.1 ∧ List.Forall₂ (RestrictsRow columns) part.2 part'.2) parts parts' := by
      refine (Dealing.forall₂_through (ExceptList.mapM_eq_ok.mp hparts).flip hrel.flip).imp ?_
      rintro part part' ⟨c, hc, hid, hrestricts⟩
      obtain ⟨rows, hrows, hpart⟩ := ExceptList.bind_eq_ok.mp hc
      have hsame : slice records c = rows := by
        have hall : projectRecords none (slice records c) = .ok ((slice records c).map id) :=
          ExceptList.mapM_ok_of_forall (fun _ _ => rfl)
        rw [List.map_id] at hall
        exact Except.ok.inj (hall.symm.trans hrows)
      cases hpart
      exact ⟨hid, hsame ▸ hrestricts⟩
    refine ⟨memoryDataset s parts', ?_, hrestricted, ?_⟩
    · have hs' : fullSchema.requested (PyRuntime.isPrintable F) columns = .ok s := hs
      simp only [memorySource, readMemory, hschema, ExceptList.bind_ok, hs', hparts']
      rfl
    · simp only [memoryDataset, memoryPartitions]
      cases hboth with
      | nil => exact .cons ⟨rfl, fun rows hrows => ⟨rows, hrows, by cases hrows; exact .nil⟩⟩ .nil
      | cons hfirst hrest =>
          rw [List.isEmpty_cons, List.isEmpty_cons, if_neg (by simp), if_neg (by simp),
            List.forall₂_map_left_iff, List.forall₂_map_right_iff]
          refine List.Forall₂.imp (fun part part' hpart => ⟨hpart.1, fun rows hrows => ?_⟩)
            (.cons hfirst hrest)
          cases hrows
          exact ⟨part'.2, rfl, hpart.2⟩

end Memory

section Csv

variable [PyCsv F]

/-- The schema of a sample names the columns of the header. -/
lemma inferSchemaFromSample_names {isPrintable : Char → Bool} {text : List Char}
    {header : List String} {s : Schema}
    (h : inferSchemaFromSample F isPrintable text header = .ok s) : s.fieldNames = header := by
  unfold inferSchemaFromSample at h
  split at h
  · cases h
  · obtain ⟨t, -, h⟩ := ExceptList.bind_eq_ok.mp h
    rw [Schema.fieldNames, Schema.make_eq_ok.mp h, List.map_map]
    exact List.map_id header

/-- A line that parses is narrowed to some names of the header. -/
lemma coerceRow_restricts {header : List String} {columns : Option (List String)} {line : List Char}
    {r : Record F} (hnodup : header.Nodup) (hsub : ∀ cs ∈ columns, cs ⊆ header)
    (h : coerceRow header (PyCsv.parseLine F line) none = .ok r) :
    ∃ r', coerceRow header (PyCsv.parseLine F line) columns = .ok r' ∧ RestrictsRow columns r r' := by
  have hlength : (PyCsv.parseLine F line).length = header.length := by
    obtain ⟨cells, hcells, -⟩ := ExceptList.bind_eq_ok.mp h
    unfold zipStrict at hcells
    split at hcells
    · cases hcells
    · split at hcells
      · cases hcells
      · omega
  have hline (wanted : Option (List String)) :
      ∃ r : Record F, coerceRow header (PyCsv.parseLine F line) wanted = .ok r ∧
        LineRecord header wanted line r :=
    coerceRow_lineRecord hnodup hlength
  obtain ⟨r', hr', hline'⟩ := hline columns
  refine ⟨r', hr', ?_⟩
  obtain ⟨s, hs, hline⟩ := hline none
  obtain rfl := Except.ok.inj (hs.symm.trans h)
  cases columns with
  | none => exact Except.ok.inj (hr'.symm.trans hs)
  | some names =>
      refine ⟨fun n => ?_, fun n hn => ?_⟩
      · rw [OrderedDict.isSome_get?_iff, hline'.keys, List.mem_filter]
        simp only [wantsName, decide_eq_true_eq]
        exact ⟨And.right, fun hn => ⟨hsub names rfl hn, hn⟩⟩
      obtain ⟨i, hi, rfl⟩ := List.getElem_of_mem (hsub names rfl hn)
      have hname : header[i]? = some header[i] := List.getElem?_eq_getElem hi
      have hraw := List.getElem?_eq_getElem (l := PyCsv.parseLine F line) (hlength.symm ▸ hi)
      rw [hline'.value i _ _ hname hraw (by simpa [wantsName] using hn),
        hline.value i _ _ hname hraw rfl]

/-- The partition of a range, narrowed. -/
lemma csvPartition_restricts {text : List Char} {header : List String}
    {columns : Option (List String)} (hnodup : header.Nodup)
    (hsub : ∀ cs ∈ columns, cs ⊆ header) (s s' : Schema) (c : Chunk) (offset : ℕ) :
    RestrictsPartition (F := F) columns (csvPartition text header none s c offset)
      (csvPartition text header columns s' c offset) := by
  refine ⟨rfl, fun rows hrows => ?_⟩
  simp only [Partition.toList, csvPartition, readCsvRange, readLines_eq] at hrows ⊢
  have hrel := ExceptList.mapM_eq_ok.mp hrows
  have hline : ∀ line ∈ (lines (text.drop offset)).take (c.stop - c.start), ∃ r' : Record F,
      coerceRow header (PyCsv.parseLine F line) columns = .ok r' ∧
        ∀ r : Record F, coerceRow header (PyCsv.parseLine F line) none = .ok r →
          RestrictsRow columns r r' := by
    intro line hmem
    obtain ⟨r, -, hr⟩ := Dealing.exists_partner hrel.flip hmem
    obtain ⟨r', hr', hrestricts⟩ := coerceRow_restricts hnodup hsub hr
    refine ⟨r', hr', fun q hq => ?_⟩
    obtain rfl := Except.ok.inj (hr.symm.trans hq)
    exact hrestricts
  obtain ⟨out, hout, hrel'⟩ := ExceptList.mapM_ok_of_exists hline
  refine ⟨out, hout, (Dealing.forall₂_through hrel.flip hrel'.flip).imp ?_⟩
  rintro r r' ⟨line, hr, hrestricts⟩
  exact hrestricts r hr

variable [PyRuntime F]

/-- `CSVDataSource(path, num_partitions=n)`. -/
def csvSource (text : List Char) (numPartitions : ℤ) : ScanSource F where
  read columns _ := readCsv text numPartitions columns

/-- A CSV source that can be read answers in full. -/
theorem csvSource_answersInFull {text : List Char} {numPartitions : ℤ} {full : Dataset F}
    (h : (csvSource text numPartitions).read none none = .ok full) :
    (csvSource text numPartitions).AnswersInFull full where
  reads := h
  restricted columns filterExpr hnodup hw := by
    obtain ⟨fullSchema, hschema, h⟩ := ExceptList.bind_eq_ok.mp h
    obtain ⟨requested, hrequested, h⟩ := ExceptList.bind_eq_ok.mp h
    obtain ⟨located, hlocated, h⟩ := ExceptList.bind_eq_ok.mp h
    cases hrequested
    cases h
    have hnames := inferSchemaFromSample_names hschema
    have hsub : ∀ cs ∈ columns, cs ⊆ PyCsv.parseLine F (readline text).1 :=
      fun cs hcs => hnames ▸ hw.1 cs hcs
    obtain ⟨s, hs, hrestricted⟩ := exists_requested_of_hints hnodup hw
    have hs' : fullSchema.requested (PyRuntime.isPrintable F) columns = .ok s := hs
    refine ⟨csvDataset text (PyCsv.parseLine F (readline text).1) columns s located, ?_,
      hrestricted, ?_⟩
    · simp only [csvSource, readCsv, hschema, ExceptList.bind_ok, hs', hlocated]
      rfl
    · simp only [csvDataset, csvPartitions]
      split
      · exact .cons ⟨rfl, fun rows hrows => ⟨rows, hrows, by cases hrows; exact .nil⟩⟩ .nil
      · rw [List.forall₂_map_left_iff, List.forall₂_map_right_iff, List.forall₂_same]
        exact fun l _ => csvPartition_restricts (hnames ▸ fullSchema.fieldNames_nodup) hsub
          fullSchema s l.1 l.2

end Csv

section Checkpoints

variable [PyPickle F] [PyRuntime F] {root : String} {files : Files F} {d : Contents F}

omit [PyRuntime F] in
/-- The partitions of a stored checkpoint, read back. -/
lemma Contents.StoredIn.lists {d : Contents F} {root : String} {files : Files F}
    (h : d.StoredIn root files) (schema : Schema) :
    (CheckpointDataSource.dataset ⟨d.schema, d.parts.map (partitionMeta root)⟩ files none
      schema).partitions.mapM Partition.toList = .ok (d.parts.map Prod.snd) := by
  rw [ExceptList.mapM_eq_ok, List.forall₂_map_right_iff]
  refine (h.dataset none schema).flip.imp ?_
  rintro p part ⟨-, -, hpass⟩
  have hall : part.2.mapM (restrictRecord none) = .ok (part.2.map id) :=
    ExceptList.mapM_ok_of_forall (fun _ _ => rfl)
  rw [Partition.toList, hpass, hall, List.map_id]

omit [PyRuntime F] in
lemma Contents.StoredIn.records (h : d.StoredIn root files) :
    (CheckpointDataSource.dataset ⟨d.schema, d.parts.map (partitionMeta root)⟩ files none
      d.schema).iterRecords = .ok d.rows := by
  rw [Dataset.iterRecords, h.lists, Contents.rows, List.flatMap_def]
  rfl

/-- A checkpoint as a source. -/
def checkpointSource (source : CheckpointDataSource) (files : Files F) : ScanSource F where
  read columns _ := source.read files columns

/-- A stored checkpoint whose rows have the fields of its schema answers in full. -/
theorem checkpointSource_answersInFull (h : d.StoredIn root files)
    (hkeys : ∀ part ∈ d.parts, ∀ r ∈ part.2, HasKeys d.schema.fieldNames r) :
    (checkpointSource ⟨d.schema, d.parts.map (partitionMeta root)⟩ files).AnswersInFull
      (CheckpointDataSource.dataset ⟨d.schema, d.parts.map (partitionMeta root)⟩ files none
        d.schema) where
  reads := rfl
  restricted columns filterExpr hnodup hw := by
    obtain ⟨s, hs, hrestricted⟩ := exists_requested_of_hints hnodup hw
    have hs' : d.schema.requested (PyRuntime.isPrintable F) columns = .ok s := hs
    refine ⟨CheckpointDataSource.dataset ⟨d.schema, d.parts.map (partitionMeta root)⟩ files columns s,
      ?_, hrestricted, ?_⟩
    · simp only [checkpointSource, CheckpointDataSource.read, hs']
      rfl
    · simp only [CheckpointDataSource.dataset]
      rw [List.map_map, List.map_map, List.forall₂_map_left_iff, List.forall₂_map_right_iff,
        List.forall₂_same]
      refine fun part hpart => ⟨rfl, fun rows hrows => ?_⟩
      obtain rfl : rows = part.2 := by
        have hread := h.readPartition none hpart
        have hall : part.2.mapM (restrictRecord none) = .ok (part.2.map id) :=
          ExceptList.mapM_ok_of_forall (fun _ _ => rfl)
        rw [hall, List.map_id] at hread
        exact Except.ok.inj (hrows.symm.trans hread)
      obtain ⟨out, hout, hrel⟩ := projectRecords_ok (hkeys part hpart) hnodup hw.1
      exact ⟨out, (h.readPartition columns hpart).trans hout, hrel⟩

end Checkpoints

/-- The sources of the engine answer in full, and so meet the contract: records in memory and
stored checkpoints whose rows have the fields of their schema, and every CSV file that can be
read. -/
theorem sources_answer [PyCsv F] [PyPickle F] [PyRuntime F] :
    (∀ (records : List (Record F)) schema numPartitions full,
      (memorySource records schema numPartitions).read none none = .ok full →
      (∀ r ∈ records, HasKeys full.schema.fieldNames r) →
      (memorySource records schema numPartitions).AnswersInFull full) ∧
    (∀ text numPartitions (full : Dataset F),
      (csvSource text numPartitions).read none none = .ok full →
      (csvSource text numPartitions).AnswersInFull full) ∧
    (∀ (d : Contents F) root files, d.StoredIn root files →
      (∀ part ∈ d.parts, ∀ r ∈ part.2, HasKeys d.schema.fieldNames r) →
      ∃ source full, CheckpointDataSource.make root files = .ok source ∧
        (checkpointSource source files).read none none = .ok full ∧
        full.iterRecords = .ok d.rows ∧ (checkpointSource source files).AnswersInFull full) ∧
    ∀ (source : ScanSource F) full, source.AnswersInFull full → source.Answers full :=
  ⟨fun _ _ _ _ h hkeys => memorySource_answersInFull h hkeys,
    fun _ _ _ h => csvSource_answersInFull h,
    fun _ _ _ h hkeys => ⟨_, _, make_of_metadata h.metadata, rfl, h.records,
      checkpointSource_answersInFull h hkeys⟩, fun _ _ h => h.answers⟩

section Examples

/-- Two rows in two partitions. -/
def pairContents : Contents ℚ where
  schema := abSchema
  parts := [(0, [OrderedDict.ofList [("a", .int 1), ("b", .int 2)]]),
    (1, [OrderedDict.ofList [("a", .int 3), ("b", .int 4)]])]
  distinct := by decide

lemma pairContents_keys : ∀ part ∈ pairContents.parts, ∀ r ∈ part.2, HasKeys abSchema.fieldNames r := by
  intro part hpart r hr n
  rw [OrderedDict.isSome_get?_iff]
  simp only [pairContents, List.mem_cons, List.not_mem_nil, or_false] at hpart
  rcases hpart with rfl | rfl
  all_goals
    obtain rfl := List.mem_singleton.mp hr
    rfl

/-- Records in memory, a file whose last line has an empty field, and a stored checkpoint. -/
theorem sources_answer_pair :
    (∃ full, (memorySource pairContents.rows (some abSchema) 2).AnswersInFull full) ∧
    (∃ full, (csvSource (F := ℚ) ['x', ',', 'y', '\n', '1', ',', '2', '\n', '3', ','] 7).AnswersInFull full) ∧
    ∃ source full, CheckpointDataSource.make "dir" (Files.after (fun _ => none)
        (checkpointOps "dir" pairContents.schema pairContents.parts)) = .ok source ∧
      full.iterRecords = .ok pairContents.rows ∧ (checkpointSource source (Files.after (fun _ => none)
        (checkpointOps "dir" pairContents.schema pairContents.parts))).AnswersInFull full := by
  have hkeys := pairContents_keys
  have hlines : dataLines ['x', ',', 'y', '\n', '1', ',', '2', '\n', '3', ','] =
      [['1', ',', '2', '\n'], ['3', ',']] := by
    simp [dataLines, readline, lines_of_ne_nil]
  have hread : ∃ full : Dataset ℚ,
      (csvSource ['x', ',', 'y', '\n', '1', ',', '2', '\n', '3', ','] 7).read none none = .ok full := by
    refine readCsv_ok (by simp) (by decide) ?_ 7
    rw [hlines]
    decide
  obtain ⟨full, hfull⟩ := hread
  obtain ⟨source, dataset, hmake, -, hrecords, hanswers⟩ := sources_answer.2.2.1 pairContents "dir" _
    (storedIn_after pairContents "dir" (fun _ => none)) hkeys
  refine ⟨⟨_, sources_answer.1 pairContents.rows (some abSchema) 2 _ rfl (fun r hr => ?_)⟩,
    ⟨full, sources_answer.2.1 _ 7 full hfull⟩, source, dataset, hmake, hrecords, hanswers⟩
  obtain ⟨part, hpart, hr⟩ := List.mem_flatMap.mp hr
  exact hkeys part hpart r hr

def abRecords : List (Record ℚ) :=
  [OrderedDict.ofList [("a", .int 1), ("b", .int 2)], OrderedDict.ofList [("a", .int 30), ("b", .none)]]

lemma abRecords_keys : ∀ r ∈ abRecords, HasKeys abSchema.fieldNames r := by
  intro r hr n
  rw [OrderedDict.isSome_get?_iff]
  simp only [abRecords, List.mem_cons, List.not_mem_nil, or_false] at hr
  rcases hr with rfl | rfl <;> rfl

end Examples

end MiniSpark
