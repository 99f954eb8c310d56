import MiniSpark.CollectedQueries

/-!
# Checkpoints cut the lineage of a query

`checkpoint` runs a query, writes its partitions to a directory and returns a data frame whose plan
is one scan of that directory. Whatever is asked of that data frame later, with whatever is left of
the shuffle files, is answered from the files of the checkpoint.
-/
namespace MiniSpark

variable {F : Type} [PyRuntime F] [PyPickle F]

/-- `checkpoint`, into the directory `target`. -/
def DataFrame.checkpoint [PyHost F] [PyCsv F] (df : DataFrame F) (root : String) (disk : Disk F)
    (target : String) (files : Files F) : Except ActionError (DataFrame F × Files F) := do
  let dataset ← df.collectDataset root disk
  let files' ← raising (writeCheckpoint dataset.inMemory target files)
  let source ← raising (CheckpointDataSource.make target files')
  let checkpointed ← raising (source.read files' none)
  let scan := .scan checkpointed ("checkpoint:" ++ target) (some (checkpointSource source files'))
  pure ({ df with plan := scan }, files')

section Scans

omit [PyPickle F]

variable (dataset : Dataset F) (sourceName : String) (source : Option (ScanSource F))

lemma Rule.apply_scan (rule : Rule) :
    rule.apply (.scan dataset sourceName source) = .ok (.scan dataset sourceName source) := by
  cases rule <;> rfl

lemma applyRules_scan (rules : List Rule) :
    applyRules rules (.scan dataset sourceName source) = .ok (.scan dataset sourceName source) := by
  induction rules with
  | nil => rfl
  | cons rule rules ih =>
      rw [applyRules, List.foldlM_cons, Rule.apply_scan]
      exact ih

/-- A scan is as far optimized as it gets. -/
lemma optimizeLoop_scan (rules : List Rule) (n : ℕ) :
    optimizeLoop rules n (.scan dataset sourceName source) =
      .ok (.scan dataset sourceName source) := by
  cases n with
  | zero => rfl
  | succ n =>
      have hscan : (LogicalPlan.scan dataset sourceName source).Explains := trivial
      obtain ⟨-, hlast⟩ | ⟨hne, -⟩ := optimizeLoop_step n hscan
        (applyRules_scan dataset sourceName source rules) hscan
      · exact hlast
      · exact absurd rfl hne

end Scans

variable [PyHost F] [PyCsv F]

omit [PyPickle F] [PyHost F] in
/-- An accepted query over one table. -/
lemma DataFrame.Accepted.of_scan {df : DataFrame F} {dataset : Dataset F} {sourceName : String}
    {source : ScanSource F} (hplan : df.plan = .scan dataset sourceName (some source))
    (hworkers : ∃ n, df.config.engine.numWorkers F = .ok n)
    (hpartitions : 1 ≤ df.config.execution.shufflePartitions) (hanswers : source.Answers dataset)
    (hkeys : ∀ rows, dataset.iterRecords = .ok rows → ∀ r ∈ rows, HasKeys dataset.schema.fieldNames r) :
    df.Accepted where
  workers := hworkers
  partitions := hpartitions
  analyzed := by
    rw [hplan]
    rfl
  ready := by
    rw [hplan]
    refine ⟨fun d hd rows hrows r hr => ?_, trivial, List.forall_mem_nil _, List.forall_mem_nil _,
      trivial⟩
    obtain rfl := List.mem_singleton.mp hd
    exact hkeys rows hrows r hr
  sources := by
    rw [hplan]
    rintro s ⟨⟩
    exact hanswers
  distributable := by
    rw [hplan]
    trivial

omit [PyPickle F] in
/-- Collecting a scan returns the records of its dataset, partition by partition. -/
lemma DataFrame.collect_scan {df : DataFrame F} {dataset : Dataset F} {sourceName : String}
    {source : Option (ScanSource F)} {parts : List (List (Record F))}
    (hplan : df.plan = .scan dataset sourceName source)
    (hworkers : ∃ n, df.config.engine.numWorkers F = .ok n)
    (hparts : dataset.partitions.mapM Partition.toList = .ok parts) (root : String) (disk : Disk F) :
    df.collect root disk = .ok parts.flatten := by
  obtain ⟨n, hn⟩ := hworkers
  have hphysical : denotedRows (.scanExec dataset sourceName) = .ok parts :=
    denotedRows_of_dataset rfl hparts
  obtain ⟨stages, hstages, hruns⟩ :=
    runPlan_of_denotedRows hphysical df.config.engine.maxTaskRetries root disk
  have hwalk : pushdownScanReads (.scan dataset sourceName source) =
      .ok (.scan dataset sourceName source) := by
    cases source with
    | none => rfl
    | some s => rw [pushdownScanReads, walkForPushdown, if_pos ⟨rfl, rfl⟩]
  have hall : df.stages = .ok stages := by
    rw [DataFrame.stages, DataFrame.optimizedPlan, hplan]
    simp only [analyze, ExceptList.pure_eq_ok, ExceptList.bind_ok, optimize, optimizeLoop_scan,
      planPhysical, hwalk, translate, hstages]
  rw [DataFrame.collect, DataFrame.collectDataset, raising_eq_ok.mpr hn, ExceptList.bind_ok,
    raising_eq_ok.mpr hall, ExceptList.bind_ok, hruns]
  exact raising_eq_ok.mpr (rowsDataset_iterRecords _ parts)

omit [PyHost F] [PyCsv F] [PyPickle F] in
/-- The rows that come out have the fields of the query. -/
lemma hasKeys_of_collected {plan : LogicalPlan F} {rows reference out : List (Record F)}
    {schema : Schema} (ha : plan.Analyzed) (ht : plan.TablesConform)
    (hrun : naiveRows plan = .ok rows) (hschema : plan.schema = .ok schema)
    (hequal : EqualRows rows reference) (hperm : out.Perm reference) :
    ∀ r ∈ out, HasKeys schema.fieldNames r := by
  intro r hr n
  obtain ⟨q, hq, hag⟩ := hequal.drawn r (hperm.mem_iff.mp hr)
  rw [hag n trivial, LogicalPlan.schema_names hschema]
  exact naiveRows_hasKeys ha ht hrun q hq n

omit [PyRuntime F] [PyHost F] [PyCsv F] in
/-- Writing a dataset of rows always completes. -/
lemma writePartitions_rows_eq_ok (root : String) (files : Files F)
    (parts : List (ℕ × List (Record F))) :
    writePartitions root (parts.map (fun part => ⟨part.1, fun _ => .ok part.2⟩)) files =
      .ok (files.after (parts.flatMap (partitionOps root)), parts) := by
  induction parts generalizing files with
  | nil => rfl
  | cons part parts ih =>
      rw [List.map_cons, writePartitions, ExceptList.bind_ok, ih, List.flatMap_cons,
        Files.after_append]
      rfl

omit [PyRuntime F] [PyHost F] [PyCsv F] in
lemma rowsDataset_inMemory (schema : Schema) (parts : List (List (Record F))) :
    (rowsDataset schema parts).inMemory.partitions =
      (parts.mapIdx Prod.mk).map (fun part => ⟨part.1, fun _ => .ok part.2⟩) := by
  refine List.ext_getElem (by simp [Dataset.inMemory, rowsDataset]) (fun i h h' => ?_)
  simp [Dataset.inMemory, rowsDataset, rowsPartition, Partition.toList]

lemma indexed_fst {α : Type} (xs : List α) :
    (xs.mapIdx Prod.mk).map Prod.fst = List.range xs.length :=
  List.ext_getElem (by simp) (by simp)

/-- Checkpointing an accepted query returns a data frame that is one scan, is accepted again, and
has, whenever it is collected, the rows and the schema the query had. -/
theorem checkpoint_truncates_lineage {df : DataFrame F} {rows : List (Record F)} (h : df.Accepted)
    (hrun : naiveRows df.plan = .ok rows) (root : String) (disk : Disk F) (target : String)
    (files : Files F) :
    ∃ checkpointed files' dataset source out, df.collect root disk = .ok out ∧
      df.checkpoint root disk target files = .ok (checkpointed, files') ∧
      checkpointed.plan = .scan dataset ("checkpoint:" ++ target) (some source) ∧
      checkpointed.Accepted ∧ checkpointed.plan.schema = df.plan.schema ∧
      naiveRows checkpointed.plan = .ok out ∧
      ∀ root' disk', checkpointed.collect root' disk' = .ok out := by
  obtain ⟨schema, parts, reference, hschema, hdataset, hequal, hperm, -⟩ :=
    h.collectDataset hrun root disk
  have hkeys := hasKeys_of_collected (analyzed_of_analyze h.analyzed) h.ready.conform hrun hschema hequal hperm
  let d : Contents F := ⟨schema, parts.mapIdx Prod.mk, by
    rw [indexed_fst]
    exact List.nodup_range⟩
  let files' := files.after (checkpointOps target schema d.parts)
  have hstored : d.StoredIn target files' := storedIn_after d target files
  have hwrite : writeCheckpoint (rowsDataset schema parts).inMemory target files = .ok files' := by
    refine writeCheckpoint_of_loop ?_
    rw [rowsDataset_inMemory, writePartitions_rows_eq_ok]
  let source : CheckpointDataSource := ⟨d.schema, d.parts.map (partitionMeta target)⟩
  have hmake : CheckpointDataSource.make target files' = .ok source :=
    make_of_metadata hstored.metadata
  have hlists : (source.dataset files' none schema).partitions.mapM Partition.toList = .ok parts := by
    have hsnd : d.parts.map Prod.snd = parts := List.ext_getElem (by simp [d]) (by simp [d])
    exact hsnd ▸ hstored.lists schema
  have hrecords : (source.dataset files' none schema).iterRecords = .ok parts.flatten := by
    rw [Dataset.iterRecords, hlists]
    rfl
  have hanswers := checkpointSource_answersInFull hstored (fun part hpart r hr => by
    obtain ⟨i, hi, rfl⟩ := List.mem_mapIdx.mp hpart
    exact hkeys r (List.mem_flatten.mpr ⟨_, List.getElem_mem hi, hr⟩))
  let plan : LogicalPlan F := .scan (source.dataset files' none schema) ("checkpoint:" ++ target)
    (some (checkpointSource source files'))
  refine ⟨⟨df.config, plan⟩, files', _, _, parts.flatten, ?_, ?_, rfl, ?_, hschema.symm, hrecords,
    fun root' disk' => ?_⟩
  · rw [DataFrame.collect, hdataset, ExceptList.bind_ok, rowsDataset_iterRecords]
    rfl
  · rw [DataFrame.checkpoint, hdataset, ExceptList.bind_ok, raising_eq_ok.mpr hwrite,
      ExceptList.bind_ok, raising_eq_ok.mpr hmake, ExceptList.bind_ok]
    rfl
  · refine .of_scan rfl h.workers h.partitions hanswers.answers (fun rows' hrows' r hr => ?_)
    obtain rfl := Except.ok.inj (hrecords.symm.trans hrows')
    exact hkeys r hr
  · refine DataFrame.collect_scan rfl ?_ hlists root' disk'
    exact h.workers

/-- The checkpoint of a folded, filtered and sorted query over records in memory. -/
theorem checkpoint_truncates_lineage_sorted : ∃ checkpointed files' dataset source out,
    abFrame.collect "root" (fun _ => none) = .ok out ∧
      abFrame.checkpoint "root" (fun _ => none) "dir" (fun _ => none) = .ok (checkpointed, files') ∧
      checkpointed.plan = .scan dataset ("checkpoint:" ++ "dir") (some source) ∧
      checkpointed.Accepted ∧ checkpointed.plan.schema = abFrame.plan.schema ∧
      naiveRows checkpointed.plan = .ok out ∧
      ∀ root' disk', checkpointed.collect root' disk' = .ok out :=
  have hrun : naiveRows abFrame.plan = .ok [abRecords[1]] := by decide +kernel
  checkpoint_truncates_lineage abFrame_accepted hrun "root" (fun _ => none) "dir" (fun _ => none)

end MiniSpark
