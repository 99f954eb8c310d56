import MiniSpark.PhysicalPlan
import MiniSpark.Shuffle

/-!
# Executing a physical plan

`executePartition` runs the operators of one stage for one partition; `execute`
runs Scan, Filter and Project over a whole dataset. Filter, Project and the probe
side of a join run again on every iteration; aggregation, the build side of a
join, sorting and shuffle reads happen once, before the partition is returned.
A pass that raises counts as one outcome, whatever rows came before.
-/
namespace MiniSpark

variable {F : Type} [PyRuntime F]

section Partitions

/-- `_execute_filter_partition` on its parent. -/
def filterPartition (condition : Expression F) (parent : Partition F) : Partition F where
  partitionId := parent.partitionId
  schema := parent.schema
  pass := fun k => parent.pass k >>= filterRows condition
  rowCount := none

/-- `_execute_project_partition` on its parent. -/
def projectPartition (columns : List (Expression F)) (schema : Schema) (parent : Partition F) :
    Partition F where
  partitionId := parent.partitionId
  schema := schema
  pass := fun k => parent.pass k >>= projectRows schema.fieldNames columns
  rowCount := parent.rowCount

/-- `_execute_hash_aggregate_partition` on its parent. The first iteration over a
spilled table removes the spill directory, so a second one finds no file. -/
def hashAggregatePartition [PyHost F] (spec : HashAggregate F) (partitionId : ℕ)
    (parent : Partition F) : Py (Partition F) := do
  let aggs ← spec.aggregates.mapM unwrapAggregate
  let rows ← parent.toList
  let acc ← rows.foldlM (accumulate spec aggs) (Accumulation.start F)
  pure {
    partitionId := partitionId
    schema := spec.schema
    pass := fun k =>
      if acc.spilled ∧ k ≠ 0 then .error .fileNotFoundError else accumulatedRows spec aggs acc
    rowCount := if acc.spilled then none else some acc.groups.items.length }

/-- `_execute_hash_join_partition` on its parents. -/
def hashJoinPartition (leftKeys rightKeys : List (Expression F)) (on : List String)
    (schema : Schema) (partitionId : ℕ) (left right : Partition F) : Py (Partition F) := do
  let leftRows ← left.toList
  let table ← buildTable leftKeys leftRows
  let rightRows ← right.toList
  pure {
    partitionId := partitionId
    schema := schema
    pass := fun _ => probeTable table rightKeys on rightRows
    rowCount := none }

/-- `_execute_sort_partition` on its parent. The rows of an unspilled sort come from
one generator, which is empty after the first iteration; the merge of spilled runs
removes their directory. -/
def sortPartition [PyHost F] (spec : Sorting F) (partitionId : ℕ) (parent : Partition F) :
    Py (Partition F) := do
  let rows ← parent.toList
  let runs ← sortedRuns spec rows
  pure {
    partitionId := partitionId
    schema := spec.schema
    pass := fun k =>
      if k = 0 then runs.rows spec.keys
      else if runs.spilled = [] then .ok [] else .error .fileNotFoundError
    rowCount := some rows.length }

end Partitions

/-- The text of the final `NotImplementedError`. -/
def noPartitionOperator (plan : PhysicalPlan F) : PyError :=
  .notImplementedError ("No per-partition physical operator implemented for " ++ plan.className)

/-- `execute_partition`; `read` supplies the rows of an upstream stage to a shuffle read. -/
def executePartition [PyHost F] (read : ℕ → ℕ → Py (List (Record F))) :
    PhysicalPlan F → ℕ → Py (Partition F)
  | .scanExec dataset _, pid => dataset.partition pid
  | .filterExec child condition, pid => do
      let parent ← executePartition read child pid
      pure (filterPartition condition parent)
  | .projectExec child columns schema, pid => do
      let parent ← executePartition read child pid
      pure (projectPartition columns schema parent)
  | .hashAggregateExec child spec, pid => do
      let parent ← executePartition read child pid
      hashAggregatePartition spec pid parent
  | .hashJoinExec left right leftKeys rightKeys on schema, pid => do
      let leftPart ← executePartition read left pid
      let rightPart ← executePartition read right pid
      hashJoinPartition leftKeys rightKeys on schema pid leftPart rightPart
  | .sortExec child spec, pid => do
      let parent ← executePartition read child pid
      sortPartition spec pid parent
  | .shuffleReadExec stageId schema _, pid => do
      let rows ← read stageId pid
      pure (rowsPartition pid schema rows)
  | p@(.exchangeExec _ _ _ _ _), _ => .error (noPartitionOperator p)
  | p@(.shuffleWriteExec _ _ _ _), _ => .error (noPartitionOperator p)

/-- `ShuffleBlocksByStage`. -/
abbrev ShuffleBlocksByStage := OrderedDict ℕ (List ShuffleBlockMeta)

/-- The reading part of `_execute_shuffle_read_partition`. -/
def readStage [PyHost F] (disk : Disk F) (shuffleBlocks : Option ShuffleBlocksByStage)
    (stageId partitionId : ℕ) : Py (List (Record F)) :=
  match shuffleBlocks.bind (fun blocks => blocks.get? stageId) with
  | none => .error (.valueError ("ShuffleReadExec for stage " ++ toString stageId ++
      " partition " ++ toString partitionId ++ " was executed with no blocks for that stage; " ++
      "the caller must supply a shuffle_blocks[stage_id] entry for every ShuffleReadExec in " ++
      "the plan (see execution/worker.py, execution/scheduler.py)."))
  | some blocks =>
      match readShuffleBlocks disk blocks with
      | .error .fileNotFoundError => .error (.missingShuffleDataError stageId partitionId)
      | .error .shuffleChecksumError => .error (.missingShuffleDataError stageId partitionId)
      | outcome => outcome

section WholeDataset

/-- `[f(p) for p in dataset.partitions()]` under a new schema. -/
def Dataset.mapPartitions (d : Dataset F) (schema : Schema) (f : Partition F → Partition F)
    (hf : ∀ p : Partition F, p.Recomputable → (f p).Recomputable) : Dataset F where
  schema := schema
  partitions := d.partitions.map f
  recomputable := by
    intro p hp
    obtain ⟨q, hq, rfl⟩ := List.mem_map.mp hp
    exact hf q (d.recomputable q hq)

theorem filterPartition_recomputable (condition : Expression F) {p : Partition F}
    (h : p.Recomputable) : (filterPartition condition p).Recomputable := by
  intro k
  simp only [filterPartition, h k]

theorem projectPartition_recomputable (columns : List (Expression F)) (schema : Schema)
    {p : Partition F} (h : p.Recomputable) : (projectPartition columns schema p).Recomputable := by
  intro k
  simp only [projectPartition, h k]

/-- `execute`. -/
def execute : PhysicalPlan F → Py (Dataset F)
  | .scanExec dataset _ => .ok dataset
  | .filterExec child condition => do
      let d ← execute child
      pure (d.mapPartitions d.schema (filterPartition condition)
        (fun _ => filterPartition_recomputable condition))
  | .projectExec child columns schema => do
      let d ← execute child
      pure (d.mapPartitions schema (projectPartition columns schema)
        (fun _ => projectPartition_recomputable columns schema))
  | plan => .error (.notImplementedError
      ("No physical operator implemented for " ++ plan.className))

end WholeDataset

end MiniSpark
