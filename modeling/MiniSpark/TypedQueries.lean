import MiniSpark.CheckpointedQueries
import MiniSpark.PartFiles
import MiniSpark.RowTypes
import MiniSpark.Session

/-!
# Typed queries and their files

A query that computes no column other than by aggregates of columns keeps to the types that its
schema declares. What it returns can then be written as Parquet and read back as it was.
-/
namespace MiniSpark

variable {F : Type} [PyRuntime F]

section Model

variable [PyHost F] [PyCsv F] [PyArrow F]

/-- `df.write.parquet(path)` to a directory with these files. -/
def DataFrame.writeParquet (df : DataFrame F) (root : String) (disk : Disk F)
    (files : Directory F) : Except ActionError Unit × Directory F :=
  match df.collectDataset root disk with
  | .error e => (.error e, files)
  | .ok dataset =>
      let (written, files') := writeParquetDataset dataset files
      (raising written, files')

end Model

/-- A query over typed tables that keeps to its types. -/
structure DataFrame.Typed (df : DataFrame F) : Prop where
  declares : df.plan.Declares
  tables : df.plan.TablesTyped

section Rows

omit [PyRuntime F] in
/-- Rows with the keys of a schema and values of its types. -/
lemma supportedRow_of_typed {schema : Schema} {r : Record F} (hkeys : HasKeys schema.fieldNames r)
    (htypes : HoldsTypes schema r) : SupportedRow schema r where
  keys := (List.perm_ext_iff_of_nodup (OrderedDict.distinct_keys_iff.mp r.distinct)
    schema.fieldNames_nodup).mpr (hasKeys_iff_keys.mp hkeys)
  typed := htypes

omit [PyRuntime F] in
/-- Equal rows have the same types. -/
lemma holdsTypes_of_drawn {schema : Schema} {rows reference : List (Record F)}
    (hequal : EqualRows rows reference) (h : ∀ r ∈ rows, HoldsTypes schema r) :
    ∀ r ∈ reference, HoldsTypes schema r := by
  intro r hr f hf v hv
  obtain ⟨q, hq, hag⟩ := hequal.drawn r hr
  rw [hag f.name trivial] at hv
  exact h q hq f hf v hv

variable [PyHost F] [PyCsv F] {df : DataFrame F} {rows : List (Record F)}

omit [PyHost F] in
/-- The rows that a typed query returns have the columns and the types of its schema. -/
lemma DataFrame.AcceptedScans.supported (h : df.AcceptedScans ScanSource.AnswersFilter)
    (ht : df.Typed) (hrun : naiveRows df.plan = .ok rows) {schema : Schema}
    (hschema : df.plan.schema = .ok schema) {reference out : List (Record F)}
    (hequal : EqualRows rows reference) (hperm : out.Perm reference) :
    ∀ r ∈ out, SupportedRow schema r := by
  intro r hr
  have ha := analyzed_of_analyze h.analyzed
  have htypes := naiveRows_holdsTypes ha ht.declares h.ready.conform ht.tables hschema hrun
  exact supportedRow_of_typed (hasKeys_of_collected ha h.ready.conform hrun hschema hequal hperm r hr)
    (holdsTypes_of_drawn hequal htypes r (hperm.mem_iff.mp hr))

/-- However a typed query is optimized, distributed and spilled, every row it returns has exactly
the columns of its schema, each with a value of its type or null. -/
theorem collect_returns_typedRows (h : df.AcceptedScans ScanSource.AnswersFilter) (ht : df.Typed)
    (hrun : naiveRows df.plan = .ok rows) (root : String) (disk : Disk F) :
    ∃ dataset out, df.collectDataset root disk = .ok dataset ∧
      df.plan.schema = .ok dataset.schema ∧ df.collect root disk = .ok out ∧
      ∀ r ∈ out, SupportedRow dataset.schema r := by
  obtain ⟨dataset, out, reference, hdataset, hschema, hcollect, -, hequal, hperm, -⟩ :=
    h.collect hrun root disk
  exact ⟨dataset, out, hdataset, hschema, hcollect, h.supported ht hrun hschema hequal hperm⟩

end Rows

section Files

variable [PyHost F] [PyCsv F] [PyArrow F] [LawfulPyArrow F] {df : DataFrame F}
  {rows : List (Record F)}

/-- A typed query whose result is written to a new directory is read back from it as the rows it
returned, and in their order as long as the names of the files have it. -/
theorem writeParquet_readParquet (h : df.AcceptedScans ScanSource.AnswersFilter) (ht : df.Typed)
    (hrun : naiveRows df.plan = .ok rows) {root : String} {disk : Disk F} {files : Directory F}
    (hwrite : df.writeParquet root disk OrderedDict.empty = (.ok (), files)) (session : Session F)
    (hworkers : ∃ n, session.config.engine.numWorkers F = .ok n) (path : String)
    (numPartitions : ℤ) :
    ∃ dataset out reference frame back, df.collectDataset root disk = .ok dataset ∧
      df.collect root disk = .ok out ∧ EqualRows rows reference ∧ out.Perm reference ∧
      session.readParquet path files numPartitions = .ok frame ∧
      (dataset.partitions ≠ [] → frame.plan.schema = df.plan.schema) ∧
      (∀ root' disk', frame.collect root' disk' = .ok back) ∧ SameDicts out back ∧
      (dataset.partitions.length ≤ 100000 → List.Forall₂ SameDict out back) := by
  obtain ⟨schema, parts, reference, hschema, hdataset, hequal, hperm, -⟩ :=
    h.collectDataset hrun root disk
  have hlength : (rowsDataset schema parts).partitions.length = parts.length := by
    rw [rowsDataset, List.length_mapIdx]
  have hnonempty : (rowsDataset schema parts).partitions ≠ [] → parts ≠ [] := by
    rintro hne rfl
    exact hne rfl
  -- the writer is handed the dataset that was collected
  obtain ⟨hraised, hfiles⟩ : raising (writeParquetDataset (rowsDataset schema parts)
      OrderedDict.empty).1 = .ok () ∧
        (writeParquetDataset (rowsDataset schema parts) OrderedDict.empty).2 = files := by
    rw [DataFrame.writeParquet, hdataset] at hwrite
    exact ⟨congrArg Prod.fst hwrite, congrArg Prod.snd hwrite⟩
  obtain ⟨read, back, hread, hback, hreadSchema, hsame, hordered⟩ :=
    read_written (h.supported ht hrun hschema hequal hperm)
      (Prod.ext (raising_eq_ok.mp hraised) hfiles) numPartitions
  refine ⟨_, parts.flatten, reference, ⟨session.config, .scan read ("parquet:" ++ path)
    (some ⟨MiniSpark.readParquet numPartitions files⟩)⟩, back.flatten, hdataset, ?_, hequal, hperm,
    ?_, fun hne => ?_, fun root' disk' => ?_, hsame, fun hfew => hordered (hlength ▸ hfew)⟩
  · rw [DataFrame.collect, hdataset, ExceptList.bind_ok, rowsDataset_iterRecords]
    rfl
  · exact congrArg (fun dataset => dataset >>= _) hread
  · rw [hschema, ← hreadSchema (hnonempty hne)]
    rfl
  · exact DataFrame.collect_scan rfl hworkers hback root' disk'

end Files

section Examples

lemma abFrame_typed : abFrame.Typed where
  declares := trivial
  tables := by
    intro d hd rows hrows r hr f hf v hv
    obtain rfl : d = _ := List.mem_singleton.mp hd
    obtain rfl : abRecords = rows := Except.ok.inj hrows
    have hf : f ∈ abSchema.fields := hf
    simp only [abRecords, abSchema, List.mem_cons, List.not_mem_nil, or_false] at hr hf
    rcases hr with rfl | rfl <;> rcases hf with rfl | rfl <;> cases hv <;> trivial

lemma abFrame_rows : naiveRows abFrame.plan = .ok [abRecords[1]] := by decide +kernel

/-- The one row that passes the filter has a number and a null. -/
theorem collect_returns_typedRows_sorted : ∃ dataset out,
    abFrame.collectDataset "root" (fun _ => none) = .ok dataset ∧
      abFrame.plan.schema = .ok dataset.schema ∧ abFrame.collect "root" (fun _ => none) = .ok out ∧
      ∀ r ∈ out, SupportedRow dataset.schema r :=
  collect_returns_typedRows (abFrame_accepted.acceptedScans abFrame_rows) abFrame_typed abFrame_rows
    "root" (fun _ => none)

/-- A table is made of any rows. -/
lemma writeParts_exact (arrowSchema : List ArrowField) {ps : List (Partition ℚ)}
    (h : ∀ p ∈ ps, ∃ rows, p.toList = .ok rows) (dir : Directory ℚ) :
    (writeParts arrowSchema ps dir).1 = .ok () := by
  induction ps generalizing dir with
  | nil => rfl
  | cons p ps ih =>
      obtain ⟨⟨rows, hrows⟩, hps⟩ := List.forall_mem_cons.mp h
      rw [writeParts, hrows]
      exact ih hps _

lemma abFrame_writes :
    ∃ files, abFrame.writeParquet "root" (fun _ => none) OrderedDict.empty = (.ok (), files) := by
  obtain ⟨schema, parts, -, -, hdataset, -⟩ :=
    abFrame_accepted.collectDataset abFrame_rows "root" (fun _ => none)
  have hwritten : (writeParquetDataset (rowsDataset schema parts) OrderedDict.empty).1 = .ok () := by
    refine writeParts_exact _ (fun p hp => ?_) _
    obtain ⟨i, hi, rfl⟩ := List.mem_mapIdx.mp hp
    exact ⟨_, rfl⟩
  refine ⟨(writeParquetDataset (rowsDataset schema parts) OrderedDict.empty).2, ?_⟩
  rw [DataFrame.writeParquet, hdataset]
  exact Prod.ext (raising_eq_ok.mpr hwritten) rfl

/-- The sorted rows, written and read in three partitions by the same session. -/
theorem writeParquet_readParquet_sorted : ∃ files dataset out reference frame back,
    abFrame.writeParquet "root" (fun _ => none) OrderedDict.empty = (.ok (), files) ∧
      abFrame.collectDataset "root" (fun _ => none) = .ok dataset ∧
      abFrame.collect "root" (fun _ => none) = .ok out ∧ EqualRows [abRecords[1]] reference ∧
      out.Perm reference ∧
      (Session.mk abFrame.config OrderedDict.empty).readParquet "dir" files 3 = .ok frame ∧
      (dataset.partitions ≠ [] → frame.plan.schema = abFrame.plan.schema) ∧
      (∀ root' disk', frame.collect root' disk' = .ok back) ∧ SameDicts out back ∧
      (dataset.partitions.length ≤ 100000 → List.Forall₂ SameDict out back) := by
  obtain ⟨files, hwrite⟩ := abFrame_writes
  obtain ⟨dataset, out, reference, frame, back, hback⟩ :=
    writeParquet_readParquet (abFrame_accepted.acceptedScans abFrame_rows) abFrame_typed
      abFrame_rows hwrite (Session.mk abFrame.config OrderedDict.empty) ⟨1, rfl⟩ "dir" 3
  exact ⟨files, dataset, out, reference, frame, back, hwrite, hback⟩

end Examples

end MiniSpark
