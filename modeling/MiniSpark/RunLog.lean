import MiniSpark.Scheduler
import MiniSpark.Traced

/-!
# The log of a run

The scheduler once more, with an event for every stage it runs as a whole and for every
call of `run_task`, in the order they happen and also when the run raises. Forgetting the
events gives back the scheduler.
-/
namespace MiniSpark

open Traced

variable {F W : Type}

/-- What is counted in a run. -/
inductive Event
  | stageRun (stageId : ℕ)
  | taskCall (taskId attempt : ℕ)
  deriving DecidableEq, Repr

abbrev Logged (α : Type) := Traced RunError Event α

namespace Scheduler

/-- `runBatch`: each task is one call of `run_task`. -/
def runBatchLogged (s : Scheduler F W) :
    List (Task F × ℕ) → W → Logged (List (TaskResult F) × W)
  | [], w => pure ([], w)
  | entry :: batch, w => do
      emit (.taskCall entry.1.taskId entry.2)
      let rest ← s.runBatchLogged batch (s.runTask entry.1 entry.2 w).2
      pure ((s.runTask entry.1 entry.2 w).1 :: rest.1, rest.2)

/-- `tryRecover`. -/
def tryRecoverLogged
    (recover : Task F → ℕ → RunState W → Logged (Option (Task F) × RunState W))
    (task : Task F) (result : TaskResult F) (st : RunState W) :
    Logged (Option (Task F) × RunState W) :=
  match result.state, result.missingShuffleStageId with
  | .failed, some stageId => recover task stageId st
  | _, _ => pure (none, st)

/-- What `settle` does with one result once recovery has been tried. -/
def settleRecovered (s : Scheduler F W) (progress : Progress F)
    (entry : (Task F × ℕ) × TaskResult F) : Option (Task F) → Progress F
  | some task' => { progress with pending := progress.pending ++ [(task', entry.1.2)] }
  | none =>
      if entry.2.state = .failed ∧ entry.1.2 < s.maxRetries then
        { progress with
          pending := progress.pending ++ [(entry.1.1, entry.1.2 + 1)]
          retriedTaskIds := progress.retriedTaskIds.insert entry.1.1.taskId }
      else { progress with done := progress.done.set entry.1.1.taskId entry.2 }

/-- `settle`. -/
def settleLogged (s : Scheduler F W)
    (recover : Task F → ℕ → RunState W → Logged (Option (Task F) × RunState W))
    (acc : Progress F × RunState W) (entry : (Task F × ℕ) × TaskResult F) :
    Logged (Progress F × RunState W) := do
  let recovered ← tryRecoverLogged recover entry.1.1 entry.2 acc.2
  pure (s.settleRecovered acc.1 entry recovered.1, recovered.2)

/-- `loop`. -/
def loopLogged (s : Scheduler F W)
    (recover : Task F → ℕ → RunState W → Logged (Option (Task F) × RunState W)) :
    ℕ → Progress F → RunState W → Logged (Progress F × RunState W)
  | rounds, progress, st =>
      if progress.pending = [] then pure (progress, st)
      else
        match rounds with
        | 0 => lift (.error .outOfFuel)
        | rounds + 1 => do
            let batch ← s.runBatchLogged progress.pending st.world
            let next ← (progress.pending.zip batch.1).foldlM (s.settleLogged recover)
              ({ progress with pending := [] }, { st with world := batch.2 })
            s.loopLogged recover rounds next.1 next.2

/-- What `runToCompletion` makes of the tasks that are done. -/
def collectResults (s : Scheduler F W) (tasks : List (Task F)) (progress : Progress F) :
    Except RunError (List (TaskResult F) × ℕ) := do
  let results ← tasks.mapM (resultOf progress.done)
  match results.filter (fun r => r.state = .failed) with
  | [] => pure (results, progress.retriedTaskIds.length)
  | first :: rest => .error (.taskExecutionError (rest.length + 1) results.length s.maxRetries
      first.taskId first.error)

/-- `runToCompletion`. -/
def runToCompletionLogged (s : Scheduler F W)
    (recover : Task F → ℕ → RunState W → Logged (Option (Task F) × RunState W))
    (rounds : ℕ) (stage : Stage F) (st : RunState W) :
    Logged ((List (TaskResult F) × ℕ) × RunState W) := do
  let final ← s.loopLogged recover rounds
    ⟨(s.makeTasks stage st).map (fun t => (t, 0)), OrderedDict.empty, []⟩
    { st with nextTaskId := st.nextTaskId + stage.numPartitions }
  let results ← lift (s.collectResults (s.makeTasks stage st) final.1)
  pure (results, final.2)

/-- `_try_recover_missing_shuffle`, with the recomputation of a stage as a parameter. -/
def recoverLogged (s : Scheduler F W)
    (recompute : Stage F → RunState W → Logged (List (TaskResult F) × RunState W))
    (task : Task F) (missing : ℕ) (st : RunState W) : Logged (Option (Task F) × RunState W) :=
  if missing ∈ st.recomputedStages then pure (none, st)
  else match s.stagesById.get? missing with
    | none => pure (none, st)
    | some missingStage => do
        let run ← recompute missingStage
          { st with recomputedStages := st.recomputedStages.insert missing }
        pure (some { task with
          shuffleBlocks := resolveShuffleBlocks task.plan task.partitionId run.2.manager }, run.2)

/-- `runStage`. -/
def runStageLogged (s : Scheduler F W) (rounds : ℕ) :
    ℕ → Stage F → Bool → RunState W → Logged (List (TaskResult F) × RunState W)
  | 0, _, _, _ => lift (.error .outOfFuel)
  | depth + 1, stage, recomputed, st => do
      emit (.stageRun stage.stageId)
      let run ← s.runToCompletionLogged
        (s.recoverLogged (fun missingStage => s.runStageLogged rounds depth missingStage true))
        rounds stage st
      pure (run.1.1, finishStage stage recomputed run.1.1 run.1.2 run.2)

/-- `runNext`. -/
def runNextLogged (s : Scheduler F W) (rounds depth : ℕ) (acc : Option (Dataset F) × RunState W)
    (stage : Stage F) : Logged (Option (Dataset F) × RunState W) := do
  let run ← s.runStageLogged rounds depth stage false acc.2
  pure (if stage.plan.isShuffleWrite then acc.1
    else some (resultsToDataset stage.plan.schema run.1), run.2)

section Erasure

variable {s : Scheduler F W}
variable {recover : Task F → ℕ → RunState W → Except RunError (Option (Task F) × RunState W)}
variable {recoverL : Task F → ℕ → RunState W → Logged (Option (Task F) × RunState W)}

theorem runBatchLogged_result (batch : List (Task F × ℕ)) (w : W) :
    (s.runBatchLogged batch w).result = .ok (s.runBatch batch w) := by
  induction batch generalizing w with
  | nil => rfl
  | cons entry batch ih =>
      unfold runBatchLogged
      simp only [result_bind, result_emit, ExceptList.bind_ok, ih, result_pure]
      rfl

theorem tryRecoverLogged_result (hrec : ∀ task id st, (recoverL task id st).result = recover task id st)
    (task : Task F) (result : TaskResult F) (st : RunState W) :
    (tryRecoverLogged recoverL task result st).result = tryRecover recover task result st := by
  unfold tryRecoverLogged tryRecover
  cases result.state with
  | success => rfl
  | failed =>
      cases result.missingShuffleStageId with
      | none => rfl
      | some stageId => exact hrec task stageId st

theorem settle_eq (acc : Progress F × RunState W) (entry : (Task F × ℕ) × TaskResult F) :
    s.settle recover acc entry = (tryRecover recover entry.1.1 entry.2 acc.2 >>= fun recovered =>
      .ok (s.settleRecovered acc.1 entry recovered.1, recovered.2)) := by
  obtain ⟨progress, st⟩ := acc
  obtain ⟨⟨task, attempt⟩, result⟩ := entry
  show (tryRecover recover task result st >>= _) = (tryRecover recover task result st >>= _)
  congr 1
  funext recovered
  obtain ⟨_ | task', st'⟩ := recovered
  · simp only [settleRecovered]
    split
    · rfl
    · rfl
  · rfl

theorem settleLogged_result
    (hrec : ∀ task id st, (recoverL task id st).result = recover task id st)
    (acc : Progress F × RunState W) (entry : (Task F × ℕ) × TaskResult F) :
    (s.settleLogged recoverL acc entry).result = s.settle recover acc entry := by
  rw [settle_eq]
  unfold settleLogged
  rw [result_bind, tryRecoverLogged_result hrec]
  rfl

theorem loopLogged_result (hrec : ∀ task id st, (recoverL task id st).result = recover task id st)
    (rounds : ℕ) (progress : Progress F) (st : RunState W) :
    (s.loopLogged recoverL rounds progress st).result = s.loop recover rounds progress st := by
  induction rounds generalizing progress st with
  | zero =>
      unfold loopLogged loop
      split
      · rfl
      · rfl
  | succ rounds ih =>
      unfold loopLogged loop
      split
      · rfl
      · simp only [result_bind, runBatchLogged_result, ExceptList.bind_ok, result_foldlM,
          settleLogged_result hrec, ih]

theorem runToCompletion_eq (rounds : ℕ) (stage : Stage F) (st : RunState W) :
    s.runToCompletion recover rounds stage st =
      (s.loop recover rounds
        ⟨(s.makeTasks stage st).map (fun t => (t, 0)), OrderedDict.empty, []⟩
        { st with nextTaskId := st.nextTaskId + stage.numPartitions } >>= fun final =>
      s.collectResults (s.makeTasks stage st) final.1 >>= fun results =>
      .ok (results, final.2)) := by
  unfold runToCompletion collectResults
  show (s.loop recover rounds _ _ >>= _) = _
  congr 1
  funext final
  obtain ⟨progress, st'⟩ := final
  show ((s.makeTasks stage st).mapM (resultOf progress.done) >>= _) = _
  cases (s.makeTasks stage st).mapM (resultOf progress.done) with
  | error e => rfl
  | ok results =>
      simp only [ExceptList.bind_ok]
      cases results.filter (fun r => r.state = .failed) with
      | nil => rfl
      | cons first rest => rfl

theorem runToCompletionLogged_result
    (hrec : ∀ task id st, (recoverL task id st).result = recover task id st)
    (rounds : ℕ) (stage : Stage F) (st : RunState W) :
    (s.runToCompletionLogged recoverL rounds stage st).result
      = s.runToCompletion recover rounds stage st := by
  rw [runToCompletion_eq]
  unfold runToCompletionLogged
  simp only [result_bind, loopLogged_result hrec, result_lift, result_pure]

theorem runStageLogged_result (rounds depth : ℕ) (stage : Stage F) (recomputed : Bool)
    (st : RunState W) :
    (s.runStageLogged rounds depth stage recomputed st).result
      = s.runStage rounds depth stage recomputed st := by
  induction depth generalizing stage recomputed st with
  | zero => rfl
  | succ depth ih =>
      unfold runStageLogged runStage
      simp only [result_bind, result_emit, ExceptList.bind_ok, result_pure]
      congr 1
      refine runToCompletionLogged_result (fun task missing st' => ?_) rounds stage st
      unfold recoverLogged
      by_cases hmem : missing ∈ st'.recomputedStages
      · rw [if_pos hmem, if_pos hmem]
        rfl
      · rw [if_neg hmem, if_neg hmem]
        cases s.stagesById.get? missing with
        | none => rfl
        | some missingStage =>
            simp only [result_bind, ih, result_pure]
            rfl

theorem runNextLogged_result (rounds depth : ℕ) (acc : Option (Dataset F) × RunState W)
    (stage : Stage F) :
    (s.runNextLogged rounds depth acc stage).result = s.runNext rounds depth acc stage := by
  unfold runNextLogged runNext
  rw [result_bind, runStageLogged_result]
  rfl

end Erasure

end Scheduler

/-- `run_plan`, logged. -/
def runPlanLogged (maxRetries : ℕ) (runTask : Task F → ℕ → W → TaskResult F × W)
    (rootDir : String) (stages : List (Stage F)) (w : W) : Logged (Dataset F) := do
  let final ← stages.foldlM ((scheduler maxRetries runTask rootDir stages).runNextLogged
    (maxRetries + 1 + stages.length) (stages.length + 1)) (none, Scheduler.startState w)
  match final.1 with
  | some dataset => pure dataset
  | none => lift (.error .assertionError)

/-- The logged run is the run. -/
theorem runPlanLogged_result (maxRetries : ℕ) (runTask : Task F → ℕ → W → TaskResult F × W)
    (rootDir : String) (stages : List (Stage F)) (w : W) :
    (runPlanLogged maxRetries runTask rootDir stages w).result
      = runPlan maxRetries runTask rootDir stages w := by
  unfold runPlanLogged runPlan runAllStages Scheduler.runStages
  simp only [result_bind, result_foldlM, Scheduler.runNextLogged_result]
  congr 1
  funext final
  obtain ⟨_ | dataset, st⟩ := final
  · rfl
  · rfl

end MiniSpark
