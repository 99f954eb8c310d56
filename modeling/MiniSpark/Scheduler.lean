import MiniSpark.Stages
import MiniSpark.Worker

/-!
# The scheduler

Stages run in order; the tasks of a stage run in batches until each has
succeeded or has no retry left. A result that reports a missing stage has that
stage run again first, at most once in a run. Running one task is a parameter,
with the state of the world it reads and changes. Nested recomputation and the
rounds of one stage are counted down from bounds no run exceeds.
-/
namespace MiniSpark

variable {F : Type}

/-- What `run_plan` raises, or a bound that was too small. -/
inductive RunError
  | taskExecutionError (failed total maxRetries firstTaskId : ℕ) (firstError : Option PyError)
  | assertionError
  | keyError (taskId : ℕ)
  | outOfFuel
  deriving DecidableEq, Repr

structure StageMetrics where
  stageId : ℕ
  numTasks : ℕ
  retriedTasks : ℕ
  recomputed : Bool
  totalInputRecords : Option ℕ
  totalOutputRecords : ℕ
  totalOutputBytes : ℕ
  totalShuffleBytes : ℕ
  deriving DecidableEq, Repr

/-- `StageMetrics.from_task_metrics`. -/
def StageMetrics.fromTaskMetrics (stageId : ℕ) (metrics : List TaskMetrics) (retriedTasks : ℕ)
    (recomputed : Bool) : StageMetrics where
  stageId := stageId
  numTasks := metrics.length
  retriedTasks := retriedTasks
  recomputed := recomputed
  totalInputRecords := sumKnown (metrics.map TaskMetrics.inputRecords)
  totalOutputRecords := (metrics.map TaskMetrics.outputRecords).sum
  totalOutputBytes := (metrics.map TaskMetrics.outputBytes).sum
  totalShuffleBytes := (metrics.map TaskMetrics.shuffleBytes).sum

/-- What one `run_plan` call fixes: the scheduler's settings, the scratch directory
and the stages by id. -/
structure Scheduler (F W : Type) where
  maxRetries : ℕ
  runTask : Task F → ℕ → W → TaskResult F × W
  rootDir : String
  stagesById : OrderedDict ℕ (Stage F)

/-- What one `run_plan` call changes. -/
structure RunState (W : Type) where
  manager : ShuffleManager
  nextTaskId : ℕ
  recomputedStages : List ℕ
  stageMetrics : List StageMetrics
  world : W

/-- The loop variables of `_run_to_completion`. Task ids are distinct, so the dict of
pending tasks is the list of its values. -/
structure Progress (F : Type) where
  pending : List (Task F × ℕ)
  done : OrderedDict ℕ (TaskResult F)
  retriedTaskIds : List ℕ

/-- `_resolve_shuffle_blocks`. -/
def resolveShuffleBlocks (plan : PhysicalPlan F) (partitionId : ℕ) (manager : ShuffleManager) :
    Option ShuffleBlocksByStage :=
  if plan.shuffleReads = [] then none
  else some (OrderedDict.ofList (plan.shuffleReads.map (fun read =>
    (read.1, manager.blocksFor read.1 (if read.2 then 0 else partitionId)))))

namespace Scheduler

variable {W : Type}

/-- The tasks of a stage; their ids are drawn in partition order. -/
def makeTasks (s : Scheduler F W) (stage : Stage F) (st : RunState W) : List (Task F) :=
  (List.range stage.numPartitions).map (fun pid =>
    ⟨st.nextTaskId + pid, stage.stageId, pid, stage.plan, some s.rootDir,
      resolveShuffleBlocks stage.plan pid st.manager⟩)

/-- `_run_batch`. -/
def runBatch (s : Scheduler F W) : List (Task F × ℕ) → W → List (TaskResult F) × W
  | [], w => ([], w)
  | (task, attempt) :: batch, w =>
      let (result, w') := s.runTask task attempt w
      let (results, w'') := s.runBatch batch w'
      (result :: results, w'')

/-- Ask for recovery when a failed result names a missing stage. -/
def tryRecover (recover : Task F → ℕ → RunState W → Except RunError (Option (Task F) × RunState W))
    (task : Task F) (result : TaskResult F) (st : RunState W) :
    Except RunError (Option (Task F) × RunState W) :=
  match result.state, result.missingShuffleStageId with
  | .failed, some stageId => recover task stageId st
  | _, _ => .ok (none, st)

/-- The body of the loop over one batch's results. -/
def settle (s : Scheduler F W)
    (recover : Task F → ℕ → RunState W → Except RunError (Option (Task F) × RunState W))
    (acc : Progress F × RunState W) (entry : (Task F × ℕ) × TaskResult F) :
    Except RunError (Progress F × RunState W) := do
  let (progress, st) := acc
  let ((task, attempt), result) := entry
  let (recovered, st') ← tryRecover recover task result st
  match recovered with
  | some task' => pure ({ progress with pending := progress.pending ++ [(task', attempt)] }, st')
  | none =>
      if result.state = .failed ∧ attempt < s.maxRetries then
        pure ({ progress with
          pending := progress.pending ++ [(task, attempt + 1)]
          retriedTaskIds := progress.retriedTaskIds.insert task.taskId }, st')
      else pure ({ progress with done := progress.done.set task.taskId result }, st')

/-- `while pending`. -/
def loop (s : Scheduler F W)
    (recover : Task F → ℕ → RunState W → Except RunError (Option (Task F) × RunState W)) :
    ℕ → Progress F → RunState W → Except RunError (Progress F × RunState W)
  | rounds, progress, st =>
      if progress.pending = [] then .ok (progress, st)
      else
        match rounds with
        | 0 => .error .outOfFuel
        | rounds + 1 => do
            let (results, w) := s.runBatch progress.pending st.world
            let (progress', st') ← (progress.pending.zip results).foldlM (s.settle recover)
              ({ progress with pending := [] }, { st with world := w })
            s.loop recover rounds progress' st'

/-- `done[t.task_id]`. -/
def resultOf (done : OrderedDict ℕ (TaskResult F)) (task : Task F) :
    Except RunError (TaskResult F) :=
  match done.get? task.taskId with
  | some result => .ok result
  | none => .error (.keyError task.taskId)

/-- `_run_to_completion`: the results and the number of tasks that were retried. -/
def runToCompletion (s : Scheduler F W)
    (recover : Task F → ℕ → RunState W → Except RunError (Option (Task F) × RunState W))
    (rounds : ℕ) (stage : Stage F) (st : RunState W) :
    Except RunError ((List (TaskResult F) × ℕ) × RunState W) := do
  let tasks := s.makeTasks stage st
  let (progress, st') ← s.loop recover rounds ⟨tasks.map (fun t => (t, 0)), OrderedDict.empty, []⟩
    { st with nextTaskId := st.nextTaskId + stage.numPartitions }
  let results ← tasks.mapM (resultOf progress.done)
  match results.filter (fun r => r.state = .failed) with
  | [] => pure ((results, progress.retriedTaskIds.length), st')
  | first :: rest => .error (.taskExecutionError (rest.length + 1) results.length s.maxRetries
      first.taskId first.error)

/-- What `_run_stage` records once its tasks have succeeded. -/
def finishStage (stage : Stage F) (recomputed : Bool) (results : List (TaskResult F))
    (retried : ℕ) (st : RunState W) : RunState W :=
  let metrics := StageMetrics.fromTaskMetrics stage.stageId (results.map TaskResult.metrics)
    retried recomputed
  let blocks := results.flatMap TaskResult.shuffleBlocks
  let manager :=
    if stage.plan.isShuffleWrite then st.manager.registerBlocks stage.stageId blocks else st.manager
  { st with stageMetrics := st.stageMetrics ++ [metrics], manager := manager }

/-- `_run_stage`; `depth` bounds how deep recomputations nest, `rounds` the batches of
one stage. -/
def runStage (s : Scheduler F W) (rounds : ℕ) :
    ℕ → Stage F → Bool → RunState W → Except RunError (List (TaskResult F) × RunState W)
  | 0, _, _, _ => .error .outOfFuel
  | depth + 1, stage, recomputed, st => do
      -- `_try_recover_missing_shuffle`: a stage is run again only once
      let recover := fun (task : Task F) (missing : ℕ) (st : RunState W) =>
        if missing ∈ st.recomputedStages then .ok (none, st)
        else match s.stagesById.get? missing with
          | none => .ok (none, st)
          | some missingStage => do
              let (_, st') ← s.runStage rounds depth missingStage true
                { st with recomputedStages := st.recomputedStages.insert missing }
              let fresh := resolveShuffleBlocks task.plan task.partitionId st'.manager
              pure (some { task with shuffleBlocks := fresh }, st')
      let ((results, retried), st') ← s.runToCompletion recover rounds stage st
      pure (results, finishStage stage recomputed results retried st')

/-- `_results_to_dataset`. -/
def resultsToDataset (schema : Schema) (results : List (TaskResult F)) : Dataset F where
  schema := schema
  partitions := results.mapIdx (fun i result =>
    { rowsPartition i schema result.rows with rowCount := some result.metrics.outputRecords })
  recomputable := by
    intro p hp
    obtain ⟨i, hi, rfl⟩ := List.mem_mapIdx.mp hp
    exact fun _ => rfl

/-- The body of the loop of `run_plan`: only a stage that returns rows sets the dataset. -/
def runNext (s : Scheduler F W) (rounds depth : ℕ) (acc : Option (Dataset F) × RunState W)
    (stage : Stage F) : Except RunError (Option (Dataset F) × RunState W) := do
  let (results, st') ← s.runStage rounds depth stage false acc.2
  pure (if stage.plan.isShuffleWrite then acc.1
    else some (resultsToDataset stage.plan.schema results), st')

/-- The loop of `run_plan` over its stages. -/
def runStages (s : Scheduler F W) (rounds depth : ℕ) (stages : List (Stage F))
    (st : RunState W) : Except RunError (Option (Dataset F) × RunState W) :=
  stages.foldlM (s.runNext rounds depth) (none, st)

/-- The state `run_plan` starts from. -/
def startState (w : W) : RunState W := ⟨OrderedDict.empty, 0, [], [], w⟩

end Scheduler

section RunPlan

variable {W : Type}

/-- `{stage.stage_id: stage for stage in stages}` and the settings of one call. -/
def scheduler (maxRetries : ℕ) (runTask : Task F → ℕ → W → TaskResult F × W) (rootDir : String)
    (stages : List (Stage F)) : Scheduler F W :=
  ⟨maxRetries, runTask, rootDir, OrderedDict.ofList (stages.map (fun st => (st.stageId, st)))⟩

/-- The loop of `run_plan`, with the state it ends in. A stage is recomputed at most once,
so recomputations nest no deeper than there are stages, and each round either uses up an
attempt of every pending task or follows a recomputation. -/
def runAllStages (maxRetries : ℕ) (runTask : Task F → ℕ → W → TaskResult F × W) (rootDir : String)
    (stages : List (Stage F)) (w : W) : Except RunError (Option (Dataset F) × RunState W) :=
  (scheduler maxRetries runTask rootDir stages).runStages (maxRetries + 1 + stages.length)
    (stages.length + 1) stages (Scheduler.startState w)

/-- `LocalScheduler(max_retries, run_task).run_plan(stages)`. -/
def runPlan (maxRetries : ℕ) (runTask : Task F → ℕ → W → TaskResult F × W) (rootDir : String)
    (stages : List (Stage F)) (w : W) : Except RunError (Dataset F) := do
  let (final, _) ← runAllStages maxRetries runTask rootDir stages w
  match final with
  | some dataset => pure dataset
  | none => .error .assertionError

end RunPlan

end MiniSpark
