import MiniSpark.Interleaving
import MiniSpark.Scheduler
import MiniSpark.TaskPrograms

/-!
# Batches in worker processes

A batch of more than one task runs in a pool of worker processes when the scheduler has more
than one worker. The processes share the local disk and nothing else. Whatever order the
operating system runs them in, tasks with ids of their own that read blocks of other tasks hand
in the results, and leave the files, that they would one after the other.
-/
namespace MiniSpark

variable {F : Type} [PyRuntime F] [PyHost F]

/-- The processes of a batch, in the order of the batch. -/
def batchPrograms (batch : List (Task F × ℕ)) : List (FileProcess F (TaskResult F)) :=
  batch.map (fun entry => taskProgram entry.1 entry.2)

/-- What `_run_batch` may come to: with one worker or one task what the tasks come to one after
the other, otherwise what some run of the pool comes to. `pool.map` hands in the results in the
order of the batch. -/
def BatchRuns (numWorkers : ℕ) (batch : List (Task F × ℕ)) (disk : Disk F)
    (results : List (TaskResult F)) (disk' : Disk F) : Prop :=
  if numWorkers = 1 ∨ batch.length ≤ 1 then
    Process.runEach (batchPrograms batch) disk = (results, disk')
  else Pool.Runs numWorkers (batchPrograms batch) disk results disk'

/-- A way of running batches. What it chooses may depend on all that it has run before, which it
keeps beside the disk. -/
structure WorkerPool (F : Type) [PyRuntime F] [PyHost F] (M : Type) where
  numWorkers : ℕ
  runBatch : List (Task F × ℕ) → Disk F × M → List (TaskResult F) × (Disk F × M)
  runs : ∀ batch w, BatchRuns numWorkers batch w.1 (runBatch batch w).1 (runBatch batch w).2.1

section Batches

variable {root : String} {stage : ℕ}

/-- The file of a block that one of these tasks wrote. -/
def WrittenBy (root : String) (ids : ℕ → Prop) (path : Path) : Prop :=
  ∃ stage id t, path = blockPath root stage id t ∧ ids id

lemma WrittenBy.imp {ids ids' : ℕ → Prop} {path : Path} (h : WrittenBy root ids path)
    (himp : ∀ id, ids id → ids' id) : WrittenBy root ids' path := by
  obtain ⟨stage, id, t, hpath, hid⟩ := h
  exact ⟨stage, id, t, hpath, himp id hid⟩

/-- The task is one of those running, and none of those running wrote a block it reads. -/
structure Isolated (root : String) (active : ℕ → Prop) (task : Task F) : Prop where
  own : active task.taskId
  rootDir : task.shuffleRootDir = some root
  reads : ∀ path, ReadsFile task path → WrittenBy root (fun id => ¬ active id) path

variable {active : ℕ → Prop}

omit [PyRuntime F] [PyHost F] in
lemma Isolated.not_writes {task task' : Task F} (h : Isolated root active task)
    (h' : Isolated root active task') {path : Path} (hread : ReadsFile task path) :
    ¬ WritesFile task' path := by
  rintro ⟨root', hroot', t', hpath'⟩
  obtain ⟨stage, id, t, hpath, hid⟩ := h.reads path hread
  rw [h'.rootDir] at hroot'
  cases hroot'
  have hsame : id = task'.taskId := (blockPath_inj (hpath.symm.trans hpath')).2.1
  exact hid (hsame ▸ h'.own)

/-- A batch of isolated tasks with distinct ids. -/
structure IsolatedBatch (root : String) (active : ℕ → Prop) (batch : List (Task F × ℕ)) : Prop where
  isolated : ∀ entry ∈ batch, Isolated root active entry.1
  nodup : (batch.map (fun entry => entry.1.taskId)).Nodup

/-- The jobs of such a batch are apart. -/
theorem IsolatedBatch.apart {batch : List (Task F × ℕ)} (h : IsolatedBatch root active batch) :
    (batch.map taskJob).Pairwise Job.Apart := by
  have hids : batch.Pairwise (fun e e' => e.1.taskId ≠ e'.1.taskId) := List.pairwise_map.mp h.nodup
  rw [List.pairwise_map]
  refine hids.imp_of_mem (fun {e e'} he he' hne => ?_)
  have hi := h.isolated e he
  have hi' := h.isolated e' he'
  exact taskJob_apart hne (fun path => hi.not_writes hi') (fun path => hi'.not_writes hi)
    (hi.rootDir.trans hi'.rootDir.symm)

lemma batchPrograms_eq (batch : List (Task F × ℕ)) :
    batchPrograms batch = (batch.map taskJob).map Job.process := by
  rw [List.map_map]
  rfl

/-- The processes one after the other do what the scheduler does without workers. -/
lemma runEach_batchPrograms {s : Scheduler F (Disk F)} (hs : s.runTask = executeTask)
    (batch : List (Task F × ℕ)) (disk : Disk F) :
    Process.runEach (batchPrograms batch) disk = s.runBatch batch disk := by
  induction batch generalizing disk with
  | nil => rfl
  | cons entry batch ih =>
      obtain ⟨task, attempt⟩ := entry
      have hrest := ih (executeTask task attempt disk).2
      simp only [batchPrograms, List.map_cons, Process.runEach, taskProgram_run] at hrest ⊢
      rw [hrest, Scheduler.runBatch, hs]

/-- Every run of an isolated batch comes to what the batch comes to without workers. -/
theorem BatchRuns.eq_runBatch {numWorkers : ℕ} {batch : List (Task F × ℕ)} {disk disk' : Disk F}
    {results : List (TaskResult F)} {s : Scheduler F (Disk F)} (hs : s.runTask = executeTask)
    (hbatch : IsolatedBatch root active batch)
    (h : BatchRuns numWorkers batch disk results disk') :
    s.runBatch batch disk = (results, disk') := by
  rw [← runEach_batchPrograms hs]
  unfold BatchRuns at h
  split at h
  · exact h
  · rw [batchPrograms_eq] at h ⊢
    exact h.eq_runEach hbatch.apart

/-- A pool that lets each process end before the next one starts. -/
def WorkerPool.inOrder (F : Type) [PyRuntime F] [PyHost F] (numWorkers : ℕ)
    (h : 0 < numWorkers) : WorkerPool F Unit where
  numWorkers := numWorkers
  runBatch batch w :=
    ((Process.runEach (batchPrograms batch) w.1).1, (Process.runEach (batchPrograms batch) w.1).2, ())
  runs batch w := by
    unfold BatchRuns
    split
    · rfl
    · exact Pool.runs_in_order h (batchPrograms batch) w.1

lemma runTaskBody_files {task : Task F} (hroot : task.shuffleRootDir = some root) {disk : Disk F}
    {result : TaskResult F} (h : (runTaskBody task disk).1 = .ok result) :
    ∀ b ∈ result.shuffleBlocks, TaskFile root task.stageId task.taskId b.path := by
  unfold runTaskBody executeShuffleWriteTask at h
  split at h
  · split at h
    · cases h
    · next rootDir rows target hinput =>
        have hdir : rootDir = root := by
          rw [shuffleWriteInput, hroot] at hinput
          obtain ⟨part, -, hinput⟩ := ExceptList.bind_eq_ok.mp hinput
          obtain ⟨rows', -, hinput⟩ := ExceptList.bind_eq_ok.mp hinput
          obtain ⟨target', -, hinput⟩ := ExceptList.bind_eq_ok.mp hinput
          cases hinput
          rfl
        obtain ⟨blocks, hblocks, h⟩ := ExceptList.bind_eq_ok.mp h
        obtain ⟨inputRecords, -, h⟩ := ExceptList.bind_eq_ok.mp h
        obtain ⟨_, -, hblocks⟩ := ExceptList.bind_eq_ok.mp hblocks
        cases h
        cases hblocks
        intro b hb
        obtain ⟨p, -, rfl⟩ := List.mem_map.mp hb
        exact ⟨p.1, by rw [← hdir]; rfl⟩
  · obtain ⟨part, -, h⟩ := ExceptList.bind_eq_ok.mp h
    obtain ⟨rows, -, h⟩ := ExceptList.bind_eq_ok.mp h
    obtain ⟨inputRecords, -, h⟩ := ExceptList.bind_eq_ok.mp h
    cases h
    simp

/-- The blocks of a result are files of its task. -/
lemma executeTask_files {task : Task F} (hroot : task.shuffleRootDir = some root) (attempt : ℕ)
    (disk : Disk F) : ∀ b ∈ (executeTask task attempt disk).1.shuffleBlocks,
      TaskFile root task.stageId task.taskId b.path := by
  unfold executeTask
  cases h : runTaskBody task disk with
  | mk outcome disk' =>
      cases outcome with
      | ok result => exact runTaskBody_files hroot (by rw [h])
      | error e => simp [failedResult]

/-- The results of an isolated batch bring blocks of their own tasks only. -/
lemma runBatch_files {s : Scheduler F (Disk F)} (hs : s.runTask = executeTask)
    {batch : List (Task F × ℕ)} (h : ∀ entry ∈ batch, entry.1.shuffleRootDir = some root)
    (disk : Disk F) :
    List.Forall₂ (fun entry result => ∀ b ∈ result.shuffleBlocks,
      WrittenBy root (· = entry.1.taskId) b.path) batch (s.runBatch batch disk).1 := by
  induction batch generalizing disk with
  | nil => exact .nil
  | cons entry batch ih =>
      obtain ⟨hentry, hbatch⟩ := List.forall_mem_cons.mp h
      rw [Scheduler.runBatch, hs]
      refine .cons (fun b hb => ?_) (ih hbatch _)
      obtain ⟨t, ht⟩ := executeTask_files hentry entry.2 disk b hb
      exact ⟨entry.1.stageId, entry.1.taskId, t, ht, rfl⟩

end Batches

end MiniSpark
