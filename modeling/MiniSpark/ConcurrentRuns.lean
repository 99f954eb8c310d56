import MiniSpark.Outcome
import MiniSpark.RunLog
import MiniSpark.WorkerPools

/-!
# The scheduler over worker processes

The scheduler once more, with the way a batch is run as a parameter. A task is handed blocks
of tasks that have ended, and no two tasks share an id, also when a stage is run again while the
tasks that asked for it wait. So every batch of a run is isolated, and a run in worker processes
is the run without them: the same dataset or error, the same metrics, blocks and files.
-/
namespace MiniSpark

namespace Scheduler

variable {F W : Type} (s : Scheduler F W)
  (runBatch : List (Task F × ℕ) → W → List (TaskResult F) × W)

/-- `while pending`. -/
def loopWith (recover : Task F → ℕ → RunState W → Except RunError (Option (Task F) × RunState W)) :
    ℕ → Progress F → RunState W → Except RunError (Progress F × RunState W)
  | rounds, progress, st =>
      if progress.pending = [] then .ok (progress, st)
      else
        match rounds with
        | 0 => .error .outOfFuel
        | rounds + 1 => do
            let (results, w) := runBatch progress.pending st.world
            let (progress', st') ← (progress.pending.zip results).foldlM (s.settle recover)
              ({ progress with pending := [] }, { st with world := w })
            loopWith recover rounds progress' st'

/-- `_run_to_completion`. -/
def runToCompletionWith
    (recover : Task F → ℕ → RunState W → Except RunError (Option (Task F) × RunState W))
    (rounds : ℕ) (stage : Stage F) (st : RunState W) :
    Except RunError ((List (TaskResult F) × ℕ) × RunState W) := do
  let tasks := s.makeTasks stage st
  let (progress, st') ← s.loopWith runBatch recover rounds
    ⟨tasks.map (fun t => (t, 0)), OrderedDict.empty, []⟩
    { st with nextTaskId := st.nextTaskId + stage.numPartitions }
  let results ← s.collectResults tasks progress
  pure (results, st')

/-- `_try_recover_missing_shuffle`, with the recomputation of a stage as a parameter. -/
def tryRecoverMissingShuffle
    (recompute : Stage F → RunState W → Except RunError (List (TaskResult F) × RunState W))
    (task : Task F) (missing : ℕ) (st : RunState W) :
    Except RunError (Option (Task F) × RunState W) :=
  if missing ∈ st.recomputedStages then .ok (none, st)
  else match s.stagesById.get? missing with
    | none => .ok (none, st)
    | some missingStage => do
        let (_, st') ← recompute missingStage
          { st with recomputedStages := st.recomputedStages.insert missing }
        let fresh := resolveShuffleBlocks task.plan task.partitionId st'.manager
        pure (some { task with shuffleBlocks := fresh }, st')

/-- `_run_stage`. -/
def runStageWith (rounds : ℕ) :
    ℕ → Stage F → Bool → RunState W → Except RunError (List (TaskResult F) × RunState W)
  | 0, _, _, _ => .error .outOfFuel
  | depth + 1, stage, recomputed, st => do
      let ((results, retried), st') ← s.runToCompletionWith runBatch
        (s.tryRecoverMissingShuffle (fun missingStage => runStageWith rounds depth missingStage true))
        rounds stage st
      pure (results, finishStage stage recomputed results retried st')

/-- The body of the loop of `run_plan`. -/
def runNextWith (rounds depth : ℕ) (acc : Option (Dataset F) × RunState W) (stage : Stage F) :
    Except RunError (Option (Dataset F) × RunState W) := do
  let (results, st') ← s.runStageWith runBatch rounds depth stage false acc.2
  pure (if stage.plan.isShuffleWrite then acc.1
    else some (resultsToDataset stage.plan.schema results), st')

end Scheduler

variable {F : Type} [PyRuntime F] [PyHost F] {M : Type}

/-- `LocalScheduler(num_workers, max_retries).run_plan(stages)`, with the state it ends in. The
bounds are those of a run without workers. -/
def WorkerPool.runAllStages (pool : WorkerPool F M) (maxRetries : ℕ) (rootDir : String)
    (stages : List (Stage F)) (disk : Disk F) (memory : M) :
    Except RunError (Option (Dataset F) × RunState (Disk F × M)) :=
  let runHere : Task F → ℕ → Disk F × M → TaskResult F × (Disk F × M) := fun task attempt w =>
    let (result, disk') := executeTask task attempt w.1
    (result, disk', w.2)
  let s := scheduler maxRetries runHere rootDir stages
  stages.foldlM (s.runNextWith pool.runBatch (maxRetries + 1 + stages.length) (stages.length + 1))
    (none, Scheduler.startState (disk, memory))

section Settled

variable {W : Type} {root : String}

/-- Every registered block was written by a task that has ended, and every id in use has been
drawn. -/
structure Settled (root : String) (active : ℕ → Prop) (st : RunState W) : Prop where
  blocks : ∀ p ∈ st.manager.items, ∀ b ∈ p.2,
    WrittenBy root (fun id => id < st.nextTaskId ∧ ¬ active id) b.path
  drawn : ∀ id, active id → id < st.nextTaskId

variable {active : ℕ → Prop} {st : RunState W}

lemma settled_start (root : String) (w : W) :
    Settled root (fun _ => False) (Scheduler.startState w) := by
  refine ⟨fun p hp => ?_, fun _ h => h.elim⟩
  simp [Scheduler.startState] at hp

lemma mem_blocksFor {manager : ShuffleManager} {stageId target : ℕ} {b : ShuffleBlockMeta}
    (h : b ∈ manager.blocksFor stageId target) : ∃ p ∈ manager.items, b ∈ p.2 := by
  rw [ShuffleManager.blocksFor, List.mem_filter] at h
  cases hget : manager.get? stageId with
  | none => simp [hget] at h
  | some blocks =>
      refine ⟨(stageId, blocks), OrderedDict.get?_eq_some_iff.mp hget, ?_⟩
      simpa [hget] using h.1

omit [PyRuntime F] [PyHost F] in
/-- What a task is handed is registered. -/
lemma readsFile_registered {task : Task F} {manager : ShuffleManager}
    (hblocks : task.shuffleBlocks = resolveShuffleBlocks task.plan task.partitionId manager)
    {path : Path} (h : ReadsFile task path) : ∃ p ∈ manager.items, ∃ b ∈ p.2, b.path = path := by
  obtain ⟨blocks, hmem, p, hp, b, hb, hpath⟩ := h
  rw [hblocks, resolveShuffleBlocks] at hmem
  split at hmem
  · cases hmem
  · cases hmem
    have hregistered := OrderedDict.ofList_values
      (Q := fun blocks => ∀ b ∈ blocks, ∃ p ∈ manager.items, b ∈ p.2)
      (List.forall_mem_map.mpr (fun read _ b hb => mem_blocksFor hb)) p hp
    obtain ⟨q, hq, hbq⟩ := hregistered b hb
    exact ⟨q, hq, b, hbq, hpath⟩

omit [PyRuntime F] [PyHost F] in
/-- A task that is handed what is registered reads what other tasks wrote. -/
theorem Settled.isolated (h : Settled root active st) {task : Task F} (hown : active task.taskId)
    (hroot : task.shuffleRootDir = some root)
    (hblocks : task.shuffleBlocks = resolveShuffleBlocks task.plan task.partitionId st.manager) :
    Isolated root active task where
  own := hown
  rootDir := hroot
  reads := by
    intro path hpath
    obtain ⟨p, hp, b, hb, rfl⟩ := readsFile_registered hblocks hpath
    exact (h.blocks p hp b hb).imp (fun _ hid => hid.2)

/-- The ids of the tasks of a stage. -/
def StageIds (first count id : ℕ) : Prop := first ≤ id ∧ id < first + count

/-- The state in which the tasks of a stage run. -/
theorem Settled.draw (h : Settled root active st) (count : ℕ) :
    Settled root (fun id => active id ∨ StageIds st.nextTaskId count id)
      { st with nextTaskId := st.nextTaskId + count } where
  blocks := by
    intro p hp b hb
    refine (h.blocks p hp b hb).imp (fun id hid => ⟨by dsimp only; omega, ?_⟩)
    rintro (hactive | hdrawn)
    · exact hid.2 hactive
    · exact absurd hdrawn.1 (by omega)
  drawn := by
    rintro id (hactive | hdrawn)
    · have := h.drawn id hactive
      dsimp only
      omega
    · exact hdrawn.2

omit [PyRuntime F] [PyHost F] in
/-- The tasks of a stage are isolated. -/
theorem Settled.makeTasks {s : Scheduler F W} (h : Settled s.rootDir active st) (stage : Stage F) :
    IsolatedBatch s.rootDir
      (fun id => active id ∨ StageIds st.nextTaskId stage.numPartitions id)
      ((s.makeTasks stage st).map (fun t => (t, 0))) where
  isolated := by
    intro entry hentry
    obtain ⟨task, htask, rfl⟩ := List.mem_map.mp hentry
    obtain ⟨pid, hpid, rfl⟩ := List.mem_map.mp htask
    have hlt : pid < stage.numPartitions := List.mem_range.mp hpid
    refine (h.draw stage.numPartitions).isolated (.inr ⟨?_, ?_⟩) rfl rfl
    · exact Nat.le_add_right _ _
    · dsimp only
      omega
  nodup := by
    rw [List.map_map, Scheduler.makeTasks, List.map_map]
    refine List.Nodup.map ?_ List.nodup_range
    intro a b hab
    simpa using hab

end Settled

section Simulation

open Outcome

/-- The state of a run without what is kept beside the disk. -/
def RunState.onDisk (st : RunState (Disk F × M)) : RunState (Disk F) :=
  { st with world := st.world.1 }

/-- Two schedulers with the same settings. -/
structure SameSettings {W W' : Type} (s' : Scheduler F W') (s : Scheduler F W) : Prop where
  maxRetries : s'.maxRetries = s.maxRetries
  rootDir : s'.rootDir = s.rootDir
  stagesById : s'.stagesById = s.stagesById

omit [PyRuntime F] [PyHost F] in
lemma IsolatedBatch.sublist {root : String} {active : ℕ → Prop} {batch batch' : List (Task F × ℕ)}
    (h : IsolatedBatch root active batch) (hsub : batch'.Sublist batch) :
    IsolatedBatch root active batch' where
  isolated entry hentry := h.isolated entry (hsub.subset hentry)
  nodup := h.nodup.sublist (hsub.map _)

omit [PyRuntime F] [PyHost F] in
/-- A task may give way to one with the same id. -/
lemma IsolatedBatch.replace {root : String} {active : ℕ → Prop} {pre post : List (Task F × ℕ)}
    {entry entry' : Task F × ℕ} (h : IsolatedBatch root active (pre ++ entry :: post))
    (hentry : Isolated root active entry'.1) (hid : entry'.1.taskId = entry.1.taskId) :
    IsolatedBatch root active (pre ++ entry' :: post) where
  isolated := by
    intro e he
    simp only [List.mem_append, List.mem_cons] at he
    rcases he with he | rfl | he
    · exact h.isolated e (by simp [he])
    · exact hentry
    · exact h.isolated e (by simp [he])
  nodup := by
    have hnodup := h.nodup
    simp only [List.map_append, List.map_cons] at hnodup ⊢
    rwa [hid]

/-- What holds while the results of a batch are settled: the tasks waiting for the next batch and
those whose results are still to come are isolated, and every result brings blocks of tasks of
the stage only. -/
structure Running {W : Type} (root : String) (active ids : ℕ → Prop)
    (rest : List ((Task F × ℕ) × TaskResult F)) (acc : Progress F × RunState W) : Prop where
  settled : Settled root active acc.2
  batch : IsolatedBatch root active (acc.1.pending ++ rest.map Prod.fst)
  drawn : ∀ entry ∈ acc.1.pending ++ rest.map Prod.fst, ids entry.1.taskId
  done : ∀ p ∈ acc.1.done.items, ∀ b ∈ p.2.shuffleBlocks, WrittenBy root ids b.path
  results : ∀ entry ∈ rest, ∀ b ∈ entry.2.shuffleBlocks, WrittenBy root ids b.path

/-- What a recovery leaves: the run is settled, and the task it returns may take the place of the
one that failed. -/
def StandsIn {W : Type} (root : String) (active : ℕ → Prop) (task : Task F)
    (r : Option (Task F) × RunState W) : Prop :=
  Settled root active r.2 ∧ ∀ task' ∈ r.1, Isolated root active task' ∧ task'.taskId = task.taskId

/-- Both recoveries come to the same. -/
def RecoversAlike (root : String) (active : ℕ → Prop)
    (recover' : Task F → ℕ → RunState (Disk F × M) →
      Except RunError (Option (Task F) × RunState (Disk F × M)))
    (recover : Task F → ℕ → RunState (Disk F) →
      Except RunError (Option (Task F) × RunState (Disk F))) : Prop :=
  ∀ task missing st, Isolated root active task → Settled root active st →
    Mirrors (Prod.map id RunState.onDisk) (StandsIn root active task)
      (recover' task missing st) (recover task missing st.onDisk)

variable {s' : Scheduler F (Disk F × M)} {s : Scheduler F (Disk F)} {root : String}
  {active ids : ℕ → Prop}
  {recover' : Task F → ℕ → RunState (Disk F × M) →
    Except RunError (Option (Task F) × RunState (Disk F × M))}
  {recover : Task F → ℕ → RunState (Disk F) → Except RunError (Option (Task F) × RunState (Disk F))}

lemma tryRecover_mirrors (hrec : RecoversAlike root active recover' recover) {task : Task F}
    {result : TaskResult F} {st : RunState (Disk F × M)} (htask : Isolated root active task)
    (hst : Settled root active st) :
    Mirrors (Prod.map id RunState.onDisk) (StandsIn root active task)
      (Scheduler.tryRecover recover' task result st)
      (Scheduler.tryRecover recover task result st.onDisk) := by
  unfold Scheduler.tryRecover
  cases result.state with
  | success => exact ⟨rfl, hst, by simp⟩
  | failed =>
      cases result.missingShuffleStageId with
      | none => exact ⟨rfl, hst, by simp⟩
      | some missing => exact hrec task missing st htask hst

/-- One result is settled alike. -/
theorem settle_mirrors (hsame : SameSettings s' s) (hrec : RecoversAlike root active recover' recover)
    {entry : (Task F × ℕ) × TaskResult F} {rest : List ((Task F × ℕ) × TaskResult F)}
    {acc : Progress F × RunState (Disk F × M)} (h : Running root active ids (entry :: rest) acc) :
    Mirrors (Prod.map id RunState.onDisk) (Running root active ids rest)
      (s'.settle recover' acc entry) (s.settle recover (Prod.map id RunState.onDisk acc) entry) := by
  rw [Scheduler.settle_eq, Scheduler.settle_eq]
  have hbatch := h.batch
  have hdrawn := h.drawn
  rw [List.map_cons] at hbatch hdrawn
  have hentry : Isolated root active entry.1.1 := hbatch.isolated _ (by simp)
  have hid : ids entry.1.1.taskId := hdrawn _ (by simp)
  refine (tryRecover_mirrors hrec hentry h.settled).bind (fun r hr => ⟨?_, ?_⟩)
  · simp [Scheduler.settleRecovered, hsame.maxRetries]
  · have hagain : ∀ entry' : Task F × ℕ, Isolated root active entry'.1 →
        entry'.1.taskId = entry.1.1.taskId → ∀ retried,
          Running root active ids rest
            (⟨acc.1.pending ++ [entry'], acc.1.done, retried⟩, r.2) := by
      intro entry' hisolated hsameId retried
      refine ⟨hr.1, ?_, ?_, h.done, fun e he => h.results e (List.mem_cons_of_mem _ he)⟩
      · rw [List.append_assoc, List.singleton_append]
        exact hbatch.replace hisolated hsameId
      · intro e he
        simp only [List.mem_append, List.mem_singleton] at he
        rcases he with (he | rfl) | he
        · exact hdrawn e (by simp [he])
        · rwa [hsameId]
        · exact hdrawn e (by simp only [List.mem_append, List.mem_cons]; tauto)
    cases hrecovered : r.1 with
    | some task' =>
        obtain ⟨hisolated, hsameId⟩ := hr.2 task' hrecovered
        exact hagain (task', entry.1.2) hisolated hsameId _
    | none =>
        simp only [Scheduler.settleRecovered]
        split
        · exact hagain (entry.1.1, entry.1.2 + 1) hentry rfl _
        · have hsub : (acc.1.pending ++ rest.map Prod.fst).Sublist
              (acc.1.pending ++ entry.1 :: rest.map Prod.fst) := by simp
          refine ⟨hr.1, hbatch.sublist hsub, fun e he => hdrawn e (hsub.subset he), ?_,
            fun e he => h.results e (List.mem_cons_of_mem _ he)⟩
          exact OrderedDict.set_values
            (Q := fun result : TaskResult F => ∀ b ∈ result.shuffleBlocks, WrittenBy root ids b.path) h.done
            (h.results entry List.mem_cons_self)

/-- The loop over the batches of a stage comes to the same. -/
theorem loop_mirrors (pool : WorkerPool F M) (hsame : SameSettings s' s)
    (hrun : s.runTask = executeTask) (hrec : RecoversAlike root active recover' recover)
    (rounds : ℕ) {progress : Progress F} {st : RunState (Disk F × M)}
    (h : Running root active ids [] (progress, st)) :
    Mirrors (Prod.map id RunState.onDisk) (Running root active ids [])
      (s'.loopWith pool.runBatch recover' rounds progress st)
      (s.loop recover rounds progress st.onDisk) := by
  induction rounds generalizing progress st with
  | zero =>
      unfold Scheduler.loopWith Scheduler.loop
      split
      · exact ⟨rfl, h⟩
      · rfl
  | succ rounds ih =>
      unfold Scheduler.loopWith Scheduler.loop
      split
      · exact ⟨rfl, h⟩
      · have hbatch : IsolatedBatch root active progress.pending := by simpa using h.batch
        have heq : s.runBatch progress.pending st.world.1 =
            ((pool.runBatch progress.pending st.world).1,
              (pool.runBatch progress.pending st.world).2.1) :=
          (pool.runs progress.pending st.world).eq_runBatch hrun hbatch
        have hfiles := runBatch_files hrun (fun e he => (hbatch.isolated e he).rootDir) st.world.1
        simp only [heq] at hfiles
        have hfirst : (progress.pending.zip (pool.runBatch progress.pending st.world).1).map
            Prod.fst = progress.pending := List.map_fst_zip hfiles.length_eq.le
        have hstart : Running root active ids
            (progress.pending.zip (pool.runBatch progress.pending st.world).1)
            ({ progress with pending := [] },
              { st with world := (pool.runBatch progress.pending st.world).2 }) := by
          refine ⟨⟨h.settled.blocks, h.settled.drawn⟩, ?_, ?_, h.done, fun entry hentry b hb => ?_⟩
          · simpa [hfirst] using hbatch
          · simpa [hfirst] using h.drawn
          · have hown := (List.forall₂_iff_zip.mp hfiles).2 hentry b hb
            have hid : ids entry.1.1.taskId :=
              h.drawn entry.1 (by simpa using (List.of_mem_zip hentry).1)
            exact hown.imp (fun id heqId => heqId ▸ hid)
        simp only [RunState.onDisk, heq]
        exact (Mirrors.foldlM (I := Running root active ids) _
          (fun entry rest acc hacc => settle_mirrors hsame hrec hacc) hstart).bind
          (fun acc hacc => ih hacc)

omit [PyRuntime F] [PyHost F] in
/-- The results of a stage are results that are done. -/
lemma collectResults_done {W : Type} {s : Scheduler F W} {tasks : List (Task F)}
    {progress : Progress F} {r : List (TaskResult F) × ℕ}
    (h : s.collectResults tasks progress = .ok r) :
    ∀ result ∈ r.1, ∃ p ∈ progress.done.items, p.2 = result := by
  obtain ⟨results, hresults, h⟩ := ExceptList.bind_eq_ok.mp h
  have hr : r.1 = results := by
    split at h
    · cases h
      rfl
    · cases h
  have hall : Meets (fun _ => True)
      (fun results => ∀ result ∈ results, ∃ p ∈ progress.done.items, p.2 = result)
      (tasks.mapM (Scheduler.resultOf progress.done)) := by
    refine meets_mapM_all (fun task _ => ?_)
    unfold Scheduler.resultOf
    cases hget : progress.done.get? task.taskId with
    | none => trivial
    | some result => exact ⟨_, OrderedDict.get?_eq_some_iff.mp hget, rfl⟩
  rw [hr]
  exact hall.of_ok hresults

/-- The tasks of a stage come to the same. -/
theorem runToCompletion_mirrors (pool : WorkerPool F M) (hsame : SameSettings s' s)
    (hrun : s.runTask = executeTask) {stage : Stage F} {st : RunState (Disk F × M)}
    (hst : Settled s.rootDir active st)
    (hrec : RecoversAlike s.rootDir
      (fun id => active id ∨ StageIds st.nextTaskId stage.numPartitions id) recover' recover)
    (rounds : ℕ) :
    Mirrors (Prod.map id RunState.onDisk)
      (fun r => Settled s.rootDir
          (fun id => active id ∨ StageIds st.nextTaskId stage.numPartitions id) r.2 ∧
        ∀ result ∈ r.1.1, ∀ b ∈ result.shuffleBlocks,
          WrittenBy s.rootDir (StageIds st.nextTaskId stage.numPartitions) b.path)
      (s'.runToCompletionWith pool.runBatch recover' rounds stage st)
      (s.runToCompletion recover rounds stage st.onDisk) := by
  have htasks : s'.makeTasks stage st = s.makeTasks stage st.onDisk := by
    simp [Scheduler.makeTasks, hsame.rootDir, RunState.onDisk]
  have hcollect : ∀ tasks (progress : Progress F),
      s'.collectResults tasks progress = s.collectResults tasks progress := by
    intro tasks progress
    simp [Scheduler.collectResults, hsame.maxRetries]
  have hst' : Settled s'.rootDir active st := by rwa [hsame.rootDir]
  have hbatch := hst'.makeTasks stage
  rw [hsame.rootDir, htasks] at hbatch
  rw [Scheduler.runToCompletion_eq]
  unfold Scheduler.runToCompletionWith
  simp only [htasks]
  have hstart : Running s.rootDir
      (fun id => active id ∨ StageIds st.nextTaskId stage.numPartitions id)
      (StageIds st.nextTaskId stage.numPartitions) []
      ((⟨(s.makeTasks stage st.onDisk).map (fun t => (t, 0)), OrderedDict.empty, []⟩ : Progress F),
        { st with nextTaskId := st.nextTaskId + stage.numPartitions }) := by
    refine ⟨hst.draw stage.numPartitions, by simpa using hbatch, ?_, by simp, by simp⟩
    intro entry hentry
    simp only [Scheduler.makeTasks, List.map_nil, List.append_nil, List.map_map, List.mem_map,
      List.mem_range, Function.comp_apply] at hentry
    obtain ⟨pid, hpid, rfl⟩ := hentry
    exact ⟨Nat.le_add_right _ _, Nat.add_lt_add_left hpid _⟩
  refine (loop_mirrors pool hsame hrun hrec rounds hstart).bind (fun final hfinal => ?_)
  simp only [hcollect]
  refine (Mirrors.same _ (fun r hr => collectResults_done hr)).bind (fun r hr => ?_)
  refine ⟨rfl, hfinal.settled, fun result hresult b hb => ?_⟩
  obtain ⟨p, hp, rfl⟩ := hr result hresult
  exact hfinal.done p hp b hb

omit [PyRuntime F] [PyHost F] in
/-- A stage that has ended leaves the run settled. -/
lemma settled_finishStage {W : Type} {root : String} {active : ℕ → Prop} {stage : Stage F}
    {recomputed : Bool} {results : List (TaskResult F)} {retried first : ℕ} {st : RunState W}
    (hfirst : ∀ id, active id → id < first)
    (h : Settled root (fun id => active id ∨ StageIds first stage.numPartitions id) st)
    (hresults : ∀ result ∈ results, ∀ b ∈ result.shuffleBlocks,
      WrittenBy root (StageIds first stage.numPartitions) b.path) :
    Settled root active (Scheduler.finishStage stage recomputed results retried st) := by
  have hold : ∀ p ∈ st.manager.items, ∀ b ∈ p.2,
      WrittenBy root (fun id => id < st.nextTaskId ∧ ¬ active id) b.path := by
    intro p hp b hb
    exact (h.blocks p hp b hb).imp (fun id hid => ⟨hid.1, fun ha => hid.2 (.inl ha)⟩)
  refine ⟨?_, fun id hid => h.drawn id (.inl hid)⟩
  unfold Scheduler.finishStage
  split
  · refine OrderedDict.set_values
      (Q := fun blocks : List ShuffleBlockMeta => ∀ b ∈ blocks,
        WrittenBy root (fun id => id < st.nextTaskId ∧ ¬ active id) b.path) hold (fun b hb => ?_)
    obtain ⟨result, hresult, hb⟩ := List.mem_flatMap.mp hb
    refine (hresults result hresult b hb).imp (fun id hid => ⟨h.drawn id (.inr hid), fun ha => ?_⟩)
    have := hfirst id ha
    have := hid.1
    omega
  · exact hold

/-- A recovery comes to the same when the stage it runs again does. -/
theorem tryRecoverMissingShuffle_mirrors (hsame : SameSettings s' s)
    {recompute' : Stage F → RunState (Disk F × M) →
      Except RunError (List (TaskResult F) × RunState (Disk F × M))}
    {recompute : Stage F → RunState (Disk F) →
      Except RunError (List (TaskResult F) × RunState (Disk F))}
    (hrecompute : ∀ stage st, Settled root active st →
      Mirrors (Prod.map id RunState.onDisk) (fun r => Settled root active r.2)
        (recompute' stage st) (recompute stage st.onDisk)) :
    RecoversAlike root active (s'.tryRecoverMissingShuffle recompute')
      (s.tryRecoverMissingShuffle recompute) := by
  intro task missing st htask hst
  unfold Scheduler.tryRecoverMissingShuffle
  by_cases hmem : missing ∈ st.recomputedStages
  · rw [if_pos hmem, if_pos (show missing ∈ st.onDisk.recomputedStages from hmem)]
    exact ⟨rfl, hst, by simp⟩
  · rw [if_neg hmem, if_neg (show missing ∉ st.onDisk.recomputedStages from hmem), hsame.stagesById]
    cases s.stagesById.get? missing with
    | none => exact ⟨rfl, hst, by simp⟩
    | some stage =>
        have hst' : Settled root active
            { st with recomputedStages := st.recomputedStages.insert missing } :=
          ⟨hst.blocks, hst.drawn⟩
        refine (hrecompute stage _ hst').bind (fun r hr => ⟨rfl, hr, ?_⟩)
        rintro task' ⟨⟩
        exact ⟨hr.isolated htask.own htask.rootDir rfl, rfl⟩

/-- A stage comes to the same, with whatever it runs again on the way. -/
theorem runStage_mirrors (pool : WorkerPool F M) (hsame : SameSettings s' s)
    (hrun : s.runTask = executeTask) (rounds depth : ℕ) {active : ℕ → Prop} (stage : Stage F)
    (recomputed : Bool) {st : RunState (Disk F × M)} (hst : Settled s.rootDir active st) :
    Mirrors (Prod.map id RunState.onDisk) (fun r => Settled s.rootDir active r.2)
      (s'.runStageWith pool.runBatch rounds depth stage recomputed st)
      (s.runStage rounds depth stage recomputed st.onDisk) := by
  induction depth generalizing active stage recomputed st with
  | zero => rfl
  | succ depth ih =>
      have hrec : RecoversAlike s.rootDir
          (fun id => active id ∨ StageIds st.nextTaskId stage.numPartitions id)
          (s'.tryRecoverMissingShuffle
            (fun missing => s'.runStageWith pool.runBatch rounds depth missing true))
          (s.tryRecoverMissingShuffle (fun missing => s.runStage rounds depth missing true)) :=
        tryRecoverMissingShuffle_mirrors hsame (fun missing st hst => ih missing true hst)
      refine (runToCompletion_mirrors pool hsame hrun hst hrec rounds).bind (fun r hr => ⟨rfl, ?_⟩)
      exact settled_finishStage hst.drawn hr.1 hr.2

/-- The loop over the stages comes to the same. -/
theorem runNext_mirrors (pool : WorkerPool F M) (hsame : SameSettings s' s)
    (hrun : s.runTask = executeTask) (rounds depth : ℕ) (stages : List (Stage F))
    (acc : Option (Dataset F) × RunState (Disk F × M))
    (hacc : Settled s.rootDir (fun _ => False) acc.2) :
    Mirrors (Prod.map id RunState.onDisk) (fun r => Settled s.rootDir (fun _ => False) r.2)
      (stages.foldlM (s'.runNextWith pool.runBatch rounds depth) acc)
      (stages.foldlM (s.runNext rounds depth) (Prod.map id RunState.onDisk acc)) := by
  have hnext : ∀ stage (acc : Option (Dataset F) × RunState (Disk F × M)),
      Settled s.rootDir (fun _ => False) acc.2 →
      Mirrors (Prod.map id RunState.onDisk) (fun r => Settled s.rootDir (fun _ => False) r.2)
        (s'.runNextWith pool.runBatch rounds depth acc stage)
        (s.runNext rounds depth (Prod.map id RunState.onDisk acc) stage) := by
    intro stage acc h
    refine (runStage_mirrors pool hsame hrun rounds depth stage false h).bind (fun r hr => ?_)
    exact ⟨rfl, hr⟩
  exact Mirrors.foldlM
    (I := fun _ (r : Option (Dataset F) × RunState (Disk F × M)) =>
      Settled s.rootDir (fun _ => False) r.2)
    stages (fun stage _ acc h => hnext stage acc h) hacc

end Simulation

/-- Every run of a plan in worker processes, whatever order they run in and however many there are,
comes to what the plan comes to without workers: the dataset or the error, and the registered
blocks, the metrics and the files that it leaves. -/
theorem workers_change_nothing (pool : WorkerPool F M) (maxRetries : ℕ) (rootDir : String)
    (stages : List (Stage F)) (disk : Disk F) (memory : M) :
    (pool.runAllStages maxRetries rootDir stages disk memory).map
        (Prod.map id RunState.onDisk) =
      MiniSpark.runAllStages maxRetries executeTask rootDir stages disk := by
  have hstart : Settled rootDir (fun _ => False) (Scheduler.startState (disk, memory)) :=
    settled_start rootDir (disk, memory)
  exact (runNext_mirrors (s := scheduler maxRetries executeTask rootDir stages) pool
    ⟨rfl, rfl, rfl⟩ rfl (maxRetries + 1 + stages.length) (stages.length + 1) stages
    (none, Scheduler.startState (disk, memory)) hstart).map_eq

/-- The worker processes of a batch of tasks of a stage, of the first batch or of those run again,
cannot run for ever, however far they have come, and have a way to hand in the results and leave
the files that the tasks come to one after the other; they have no way to hand in or leave
anything else. -/
theorem stage_workers_complete {s : Scheduler F (Disk F)} {active : ℕ → Prop}
    {st : RunState (Disk F)} (hst : Settled s.rootDir active st) (stage : Stage F) {numWorkers : ℕ}
    (hworkers : 0 < numWorkers) :
    IsolatedBatch s.rootDir (fun id => active id ∨ StageIds st.nextTaskId stage.numPartitions id)
      ((s.makeTasks stage st).map (fun t => (t, 0))) ∧
    ∀ (batch : List (Task F × ℕ)) disk (pool : Pool Path (PyHost.Bytes F) (TaskResult F)),
      IsolatedBatch s.rootDir (fun id => active id ∨ StageIds st.nextTaskId stage.numPartitions id)
        batch →
      Relation.ReflTransGen (Pool.Step numWorkers) (Pool.start (batchPrograms batch) disk) pool →
      (∀ f : ℕ → Pool Path (PyHost.Bytes F) (TaskResult F), f 0 = pool →
        ¬ ∀ i, Pool.Step numWorkers (f i) (f (i + 1))) ∧
      ∃ results disk', Scheduler.runBatch { s with runTask := executeTask } batch disk =
          (results, disk') ∧
        Relation.ReflTransGen (Pool.Step numWorkers) pool ⟨results.map .finished, disk'⟩ ∧
        ∀ results' disk'', Relation.ReflTransGen (Pool.Step numWorkers) pool
          ⟨results'.map .finished, disk''⟩ → results' = results ∧ disk'' = disk' := by
  refine ⟨hst.makeTasks stage, fun batch disk pool hbatch hreach => ?_⟩
  refine ⟨fun f _ => Pool.not_endless f, ?_⟩
  have heach := runEach_batchPrograms (s := { s with runTask := executeTask }) rfl batch disk
  rw [batchPrograms_eq] at heach hreach
  refine ⟨_, _, heach.symm, Pool.reaches_runEach hworkers hbatch.apart hreach, ?_⟩
  intro results' disk'' hrest
  have hrun : Pool.Runs numWorkers ((batch.map taskJob).map Job.process) disk results' disk'' :=
    hreach.trans hrest
  rw [hrun.eq_runEach hbatch.apart]
  exact ⟨rfl, rfl⟩

/-- Two source partitions of one row each, one for each of two targets. -/
def pairWriter : Stage ℚ :=
  ⟨0, .shuffleWriteExec (.scanExec (rowsDataset abSchema (intRows ["a", "b"]
    [[[.int 1, .int 2]], [[.int 2, .int 3]]])) "memory") 2 [.column "a"] none, 2⟩

/-- The tasks of the stage, as the first run of a plan makes them. -/
def pairTasks : List (Task ℚ × ℕ) :=
  ((scheduler 0 executeTask "root" [pairWriter]).makeTasks pairWriter
    (Scheduler.startState (fun _ => none))).map (fun t => (t, 0))

theorem stage_workers_complete_pair : ∃ results disk,
    (scheduler 0 executeTask "root" [pairWriter]).runBatch pairTasks (fun _ => none) =
      (results, disk) ∧
    Relation.ReflTransGen (Pool.Step 2) (Pool.start (batchPrograms pairTasks) (fun _ => none))
      ⟨results.map .finished, disk⟩ := by
  have hstart : Settled (scheduler 0 executeTask "root" [pairWriter]).rootDir (fun _ => False)
      (Scheduler.startState (fun _ => none : Disk ℚ)) := settled_start "root" _
  obtain ⟨hfirst, hall⟩ := stage_workers_complete hstart pairWriter (show 0 < 2 by decide)
  obtain ⟨-, results, disk, hrun, hreach, -⟩ := hall pairTasks (fun _ => none) _ hfirst .refl
  exact ⟨results, disk, hrun, hreach⟩

end MiniSpark
