import MiniSpark.Operators

/-!
# Tasks and the worker

A task runs one partition of one stage. Every exception becomes a failed result;
a missing shuffle block also reports the stage that wrote it. Times and process
statistics are left out of the metrics.
-/
namespace MiniSpark

variable {F : Type} [PyRuntime F]

structure Task (F : Type) where
  taskId : ℕ
  stageId : ℕ
  partitionId : ℕ
  plan : PhysicalPlan F
  shuffleRootDir : Option String
  shuffleBlocks : Option ShuffleBlocksByStage

/-- The states a result can be in. -/
inductive TaskState
  | success | failed
  deriving DecidableEq, Repr

structure TaskMetrics where
  inputRecords : Option ℕ
  outputRecords : ℕ
  outputBytes : ℕ
  shuffleBytes : ℕ
  deriving DecidableEq, Repr

/-- `TaskMetrics()`. -/
def TaskMetrics.empty : TaskMetrics := ⟨none, 0, 0, 0⟩

structure TaskResult (F : Type) where
  taskId : ℕ
  state : TaskState
  rows : List (Record F)
  metrics : TaskMetrics
  error : Option PyError
  shuffleBlocks : List ShuffleBlockMeta
  missingShuffleStageId : Option ℕ

section Metrics

/-- `_sum_known_int`. -/
def sumKnown (counts : List (Option ℕ)) : Option ℕ :=
  if counts.reduceOption = [] then none else some counts.reduceOption.sum

/-- The blocks a task carries for a leaf. -/
def Task.blocksOf (task : Task F) (stageId : ℕ) : Option (List ShuffleBlockMeta) :=
  task.shuffleBlocks.bind (fun blocks => blocks.get? stageId)

/-- `_leaf_record_count`. -/
def leafRecordCount (task : Task F) : PhysicalPlan F → Py (Option ℕ)
  | .scanExec dataset _ => Partition.rowCount <$> dataset.partition task.partitionId
  | .shuffleReadExec stageId _ _ =>
      .ok ((task.blocksOf stageId).map (fun blocks =>
        (blocks.map ShuffleBlockMeta.recordCount).sum))
  | _ => .ok none

/-- `_input_record_count`. -/
def inputRecordCount (task : Task F) : Py (Option ℕ) :=
  sumKnown <$> task.plan.leaves.mapM (leafRecordCount task)

/-- `_shuffle_read_bytes`. -/
def shuffleReadBytes (task : Task F) : ℕ :=
  (task.plan.shuffleReads.map (fun read =>
    (((task.blocksOf read.1).getD []).map ShuffleBlockMeta.byteLength).sum)).sum

/-- `_estimate_bytes`. -/
def estimateBytes [PyHost F] (rows : List (Record F)) : ℕ :=
  (rows.map (fun row => (row.items.map (fun p => PyHost.getsizeof p.2)).sum)).sum

end Metrics

/-- `(sort_key_expr,) = partition_exprs`. -/
def singleExpr : List (Expression F) → Py (Expression F)
  | [e] => .ok e
  | [] => .error (.valueError "not enough values to unpack (expected 1, got 0)")
  | _ => .error (.valueError "too many values to unpack (expected 1)")

/-- The partitioner of a shuffle write applied to the key of a row. -/
def shuffleTarget (numPartitions : ℕ) (exprs : List (Expression F))
    (rangeBoundaries : Option (List (Value F))) : Py (Record F → Py ℕ) :=
  match rangeBoundaries with
  | some boundaries => do
      let key ← singleExpr exprs
      let p ← RangePartitioner.make numPartitions boundaries
      pure (fun record => do
        let value ← key.evaluate record
        p.partitionFor value)
  | none => do
      let p ← HashPartitioner.make numPartitions
      pure (fun record => do
        let key ← tupleKey exprs record
        p.partitionFor key)

variable [PyHost F]

/-- `_execute_normal_task`. -/
def executeNormalTask (task : Task F) (disk : Disk F) : Py (TaskResult F) := do
  let part ← executePartition (readStage disk task.shuffleBlocks) task.plan task.partitionId
  let rows ← part.toList
  let inputRecords ← inputRecordCount task
  pure ⟨task.taskId, .success, rows,
    ⟨inputRecords, rows.length, estimateBytes rows, shuffleReadBytes task⟩, none, [], none⟩

/-- The part of `_execute_shuffle_write_task` before the first row is written. -/
def shuffleWriteInput (task : Task F) (child : PhysicalPlan F) (numPartitions : ℕ)
    (exprs : List (Expression F)) (rangeBoundaries : Option (List (Value F))) (disk : Disk F) :
    Py (String × List (Record F) × (Record F → Py ℕ)) :=
  match task.shuffleRootDir with
  | none => .error (.valueError ("ShuffleWriteExec task " ++ toString task.taskId ++
      " has no shuffle_root_dir (see execution/scheduler.py, which must set it on every task " ++
      "in a shuffle-write stage)"))
  | some rootDir => do
      let part ← executePartition (readStage disk task.shuffleBlocks) child task.partitionId
      let rows ← part.toList
      let target ← shuffleTarget numPartitions exprs rangeBoundaries
      pure (rootDir, rows, target)

/-- `_execute_shuffle_write_task` on the child of its write node. -/
def executeShuffleWriteTask (task : Task F) (child : PhysicalPlan F) (numPartitions : ℕ)
    (exprs : List (Expression F)) (rangeBoundaries : Option (List (Value F))) (disk : Disk F) :
    Py (TaskResult F) × Disk F :=
  match shuffleWriteInput task child numPartitions exprs rangeBoundaries disk with
  | .error e => (.error e, disk)
  | .ok (rootDir, rows, target) =>
      let (outcome, disk') :=
        writeShufflePartition rootDir task.stageId task.taskId rows target disk
      (do let blocks ← outcome
          let inputRecords ← inputRecordCount task
          pure ⟨task.taskId, .success, [],
            ⟨inputRecords, 0, 0, (blocks.map ShuffleBlockMeta.byteLength).sum⟩, none, blocks, none⟩,
        disk')

/-- The result of a task whose exception was caught. -/
def failedResult (taskId : ℕ) (e : PyError) : TaskResult F :=
  ⟨taskId, .failed, [], TaskMetrics.empty, some e, [],
    match e with
    | .missingShuffleDataError stageId _ => some stageId
    | _ => none⟩

/-- The body of the `try` in `execute_task`. -/
def runTaskBody (task : Task F) (disk : Disk F) : Py (TaskResult F) × Disk F :=
  match task.plan with
  | .shuffleWriteExec child numPartitions exprs rangeBoundaries =>
      executeShuffleWriteTask task child numPartitions exprs rangeBoundaries disk
  | _ => (executeNormalTask task disk, disk)

/-- `execute_task`; the attempt number is only reported. -/
def executeTask (task : Task F) (_attempt : ℕ) (disk : Disk F) : TaskResult F × Disk F :=
  match runTaskBody task disk with
  | (.ok result, disk') => (result, disk')
  | (.error e, disk') => (failedResult task.taskId e, disk')

end MiniSpark
