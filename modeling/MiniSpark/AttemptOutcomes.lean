import MiniSpark.Faults

/-!
# What a successful attempt delivers

Whatever has happened to the files, a task that finds its blocks recorded either
fails or computes its share of the stage, and its own blocks then hold it.
-/
namespace MiniSpark

open ExceptList (FailsOr)

variable {F : Type} [PyRuntime F] [PyHost F] {W : Type}

section Frames

/-- An attempt changes only block files of its task. -/
lemma executeTask_unchanged {task : Task F} {attempt : ℕ} {disk : Disk F} {path : Path}
    (h : ∀ root, task.shuffleRootDir = some root →
      ¬ TaskFile root task.stageId task.taskId path) :
    (executeTask task attempt disk).2 path = disk path := by
  have hbody : (runTaskBody task disk).2 path = disk path := by
    unfold runTaskBody
    split
    · next child n exprs rb _ =>
        unfold executeShuffleWriteTask
        split
        · rfl
        · next root rows target hinput =>
            simp only [writeShufflePartition]
            refine flush_other (fun p _ hp => h root ?_ ⟨p.1, hp⟩)
            unfold shuffleWriteInput at hinput
            split at hinput
            · cases hinput
            · next rootDir hroot =>
                obtain ⟨part, -, hinput⟩ := ExceptList.bind_eq_ok.mp hinput
                obtain ⟨rows', -, hinput⟩ := ExceptList.bind_eq_ok.mp hinput
                obtain ⟨target', -, hinput⟩ := ExceptList.bind_eq_ok.mp hinput
                cases hinput
                exact hroot
    · rfl
  unfold executeTask
  split
  · next hrun => rwa [hrun] at hbody
  · next hrun => rwa [hrun] at hbody

/-- An attempt changes only files of its own. -/
lemma executeTask_frame {task : Task F} {attempt : ℕ} {disk : Disk F} {path : Path}
    (h : task.ownsFile path = false) : (executeTask task attempt disk).2 path = disk path := by
  refine executeTask_unchanged (fun root _ hfile => ?_)
  obtain ⟨target, rfl⟩ := hfile
  rw [Bool.eq_false_iff, ne_eq, ownsFile_blockPath] at h
  exact h ⟨rfl, rfl⟩

/-- Attempts that may fail at will: each changes its own files only, and one that succeeds has
executed its task on the files as they were written, less some damage. -/
def Unreliable (runTask : Task F → ℕ → W → TaskResult F × W) (disk : W → Disk F) : Prop :=
  ∀ task attempt w,
    (∀ path, task.ownsFile path = false → disk (runTask task attempt w).2 path = disk w path) ∧
    ((runTask task attempt w).1.state = .success → ∃ seen, Damaged (disk w) seen ∧
      (runTask task attempt w).1 = (executeTask task attempt seen).1 ∧
      ∀ path, task.ownsFile path = true →
        disk (runTask task attempt w).2 path = (executeTask task attempt seen).2 path)

theorem faultyTask_unreliable (faults : ℕ → Fault F) :
    Unreliable (faultyTask faults) FaultyWorld.disk := by
  intro task attempt w
  refine ⟨fun path hpath => by simp [faultyTask, hpath], fun hsuccess => ?_⟩
  cases hcrash : (faults w.attempts).crash with
  | none =>
      refine ⟨damagedDisk (faults w.attempts).files w.disk, damagedDisk_damaged _ _, ?_, ?_⟩
      · simp [faultyTask, hcrash]
      · intro path hpath
        simp [faultyTask, hcrash, hpath]
  | some crash => simp [faultyTask, hcrash, failedResult] at hsuccess

theorem executeTask_unreliable : Unreliable (executeTask (F := F)) id := by
  intro task attempt disk
  refine ⟨fun path hpath => executeTask_frame hpath, fun _ => ?_⟩
  exact ⟨disk, .refl disk, rfl, fun _ _ => rfl⟩

end Frames

section Reading

/-- Reads that fail or are right make an execution that fails or is right. -/
theorem executePartition_failsOr {read read' : ℕ → ℕ → Py (List (Record F))} {plan : PhysicalPlan F}
    {pid : ℕ} (h : ∀ i ∈ plan.readIds, FailsOr (read' i pid) (read i pid)) :
    FailsOr (executePartition read' plan pid) (executePartition read plan pid) := by
  induction plan with
  | scanExec dataset sourceName => exact .refl _
  | filterExec child condition ih => exact (ih h).bind (fun _ _ => .refl _)
  | projectExec child columns schema ih => exact (ih h).bind (fun _ _ => .refl _)
  | hashAggregateExec child spec ih => exact (ih h).bind (fun _ _ => .refl _)
  | sortExec child spec ih => exact (ih h).bind (fun _ _ => .refl _)
  | exchangeExec child n exprs bc rb ih => exact .refl _
  | shuffleWriteExec child n exprs rb ih => exact .refl _
  | shuffleReadExec stageId schema bc =>
      have hread := h stageId (by simp [PhysicalPlan.readIds])
      exact hread.bind (fun _ _ => .refl _)
  | hashJoinExec left right lk rk on schema ihl ihr =>
      have hids : ∀ i, i ∈ left.readIds ∨ i ∈ right.readIds →
          i ∈ (PhysicalPlan.hashJoinExec left right lk rk on schema).readIds := by
        intro i hi
        rwa [PhysicalPlan.readIds, PhysicalPlan.shuffleReads_hashJoinExec, List.map_append,
          List.mem_append]
      have hleft := ihl (fun i hi => h i (hids i (Or.inl hi)))
      have hright := ihr (fun i hi => h i (hids i (Or.inr hi)))
      exact hleft.bind (fun _ _ => hright.bind (fun _ _ => .refl _))

lemma taskOutput_failsOr {read read' : ℕ → ℕ → Py (List (Record F))} {plan : PhysicalPlan F}
    {pid : ℕ} (h : ∀ i ∈ plan.readIds, FailsOr (read' i pid) (read i pid)) :
    FailsOr (taskOutput read' plan pid) (taskOutput read plan pid) := by
  cases plan with
  | shuffleWriteExec child n exprs rb =>
      have hchild : ∀ i ∈ child.readIds, FailsOr (read' i pid) (read i pid) := h
      exact (executePartition_failsOr hchild).bind (fun _ _ => .refl _)
  | _ => exact (executePartition_failsOr h).bind (fun _ _ => .refl _)

/-- The blocks a task carries hold what its stage should read, in files of tasks below `next`. -/
def BlocksHold (root : String) (outs : List (Written F)) (next : ℕ) (disk : Disk F) (task : Task F) :
    Prop :=
  ∀ p ∈ task.plan.shuffleReads, ∃ w blocks chunks, outs[p.1]? = some w ∧
    task.blocksOf p.1 = some blocks ∧ List.Forall₂ (Holds NoneLost disk) blocks chunks ∧
    chunks.flatten = readTarget w (targetOf p.2 task.partitionId) ∧
    ∀ b ∈ blocks, ∃ t < next, TaskFile root p.1 t b.path

/-- Such blocks read as they should, or not at all. -/
lemma readStage_failsOr {root : String} {outs : List (Written F)} {next : ℕ} {disk seen : Disk F}
    {task : Task F} {read : ℕ → ℕ → Py (List (Record F))} (hread : ReadsFrom outs task.plan read)
    (h : BlocksHold root outs next disk task) (hseen : Damaged disk seen) {i : ℕ}
    (hi : i ∈ task.plan.readIds) :
    FailsOr (readStage seen task.shuffleBlocks i task.partitionId) (read i task.partitionId) := by
  obtain ⟨p, hp, rfl⟩ := List.mem_map.mp hi
  obtain ⟨w, blocks, chunks, hw, hblocks, hholds, hrows, -⟩ := h p hp
  obtain ⟨w', hw', hr⟩ := hread p hp
  obtain rfl : w = w' := Option.some.inj (hw.symm.trans hw')
  have hparts : FailsOr (blocks.mapM (readBlock seen)) (.ok chunks) := by
    clear hblocks hrows
    induction hholds with
    | nil => exact .refl _
    | @cons b rows blocks chunks hb _ ih =>
        rw [List.mapM_cons]
        have hall : (Except.ok (rows :: chunks) : Py (List (List (Record F)))) =
            (.ok rows >>= fun r => .ok chunks >>= fun rs => pure (r :: rs)) := rfl
        rw [hall]
        exact (readBlock_damaged hseen hb).bind (fun _ _ => ih.bind (fun _ _ => .refl _))
  have hblocks' : task.shuffleBlocks.bind (fun bs => bs.get? p.1) = some blocks := hblocks
  rw [hr task.partitionId, ← hrows, readStage, hblocks']
  obtain ⟨e, he⟩ | he := hparts
  · left
    simp only [readShuffleBlocks, he, ExceptList.bind_error]
    cases e <;> exact ⟨_, rfl⟩
  · right
    simp only [readShuffleBlocks, he, ExceptList.bind_ok]
    rfl

end Reading

section Success

/-- A task that succeeds has computed an output. -/
lemma taskOutput_of_success {root : String} {task : Task F} {attempt : ℕ} {disk : Disk F}
    (hroot : task.shuffleRootDir = some root)
    (h : (executeTask task attempt disk).1.state = .success) :
    ∃ tagged, taskOutput (readStage disk task.shuffleBlocks) task.plan task.partitionId = .ok tagged := by
  have hbody : ∃ result, (runTaskBody task disk).1 = .ok result := by
    unfold executeTask at h
    split at h
    · next result _ hrun => exact ⟨result, by rw [hrun]⟩
    · cases h
  obtain ⟨result, hbody⟩ := hbody
  unfold runTaskBody at hbody
  split at hbody
  · next child n exprs rb hplan =>
      unfold executeShuffleWriteTask at hbody
      split at hbody
      · cases hbody
      · next rootDir rows target hinput =>
          simp only [shuffleWriteInput, hroot] at hinput
          obtain ⟨part, hpart, hinput⟩ := ExceptList.bind_eq_ok.mp hinput
          obtain ⟨rows', hrows, hinput⟩ := ExceptList.bind_eq_ok.mp hinput
          obtain ⟨target', htarget, hinput⟩ := ExceptList.bind_eq_ok.mp hinput
          cases hinput
          obtain ⟨blocks, hblocks, -⟩ := ExceptList.bind_eq_ok.mp hbody
          obtain ⟨u, hloop, -⟩ := ExceptList.bind_eq_ok.mp hblocks
          obtain ⟨tagged, htagged⟩ := tagRows_of_writeLoop hloop
          refine ⟨tagged, ?_⟩
          simp only [hplan, taskOutput, hpart, ExceptList.bind_ok, exchangeRows, hrows, htarget]
          exact htagged
  · next hplan =>
      have hnot : task.plan.isShuffleWrite = false := by
        unfold PhysicalPlan.isShuffleWrite
        split
        · next heq => exact absurd heq (hplan _ _ _ _)
        · rfl
      obtain ⟨part, hpart, hbody⟩ := ExceptList.bind_eq_ok.mp hbody
      obtain ⟨rows, hrows, -⟩ := ExceptList.bind_eq_ok.mp hbody
      refine ⟨rows.map (fun r => (0, r)), ?_⟩
      rw [taskOutput_of_not_write hnot, hpart, ExceptList.bind_ok, hrows]
      rfl

/-- The result is a task's share of its stage: its rows, or blocks that hold them on the disk. -/
structure Delivers (root : String) (disk : Disk F) (stage : Stage F) (taskId : ℕ)
    (tagged : List (ℕ × Record F)) (result : TaskResult F) : Prop where
  rows : stage.plan.isShuffleWrite = false → result.rows = tagged.map Prod.snd
  outputRecords : stage.plan.isShuffleWrite = false → result.metrics.outputRecords = tagged.length
  stored : stage.plan.isShuffleWrite = true → Stored NoneLost disk result.shuffleBlocks [tagged]
  files : ∀ b ∈ result.shuffleBlocks, TaskFile root stage.stageId taskId b.path

/-- Files of other tasks do not matter. -/
lemma Delivers.frame {root : String} {disk disk' : Disk F} {stage : Stage F} {taskId : ℕ}
    {tagged : List (ℕ × Record F)} {result : TaskResult F}
    (h : Delivers root disk stage taskId tagged result)
    (hd : ∀ path, TaskFile root stage.stageId taskId path → disk' path = disk path) :
    Delivers root disk' stage taskId tagged result :=
  { h with stored := fun hw => (h.stored hw).frame (fun b hb _ => hd b.path (h.files b hb)) }

/-- A task of the stage, ready to be attempted. -/
structure StageTask (root : String) (stage : Stage F) (first : ℕ) (task : Task F) : Prop where
  root : task.shuffleRootDir = some root
  stageId : task.stageId = stage.stageId
  plan : task.plan = stage.plan
  taskId : task.taskId = first + task.partitionId
  inStage : task.partitionId < stage.numPartitions

/-- A successful attempt delivers an output; from recorded blocks, the right one. -/
theorem attempt_delivers {runTask : Task F → ℕ → W → TaskResult F × W} {disk : W → Disk F}
    {root : String} {stage : Stage F} {first : ℕ} {task : Task F} (attempt : ℕ) {w : W}
    (hrun : Unreliable runTask disk) (htask : StageTask root stage first task)
    (hsuccess : (runTask task attempt w).1.state = .success) :
    ∃ tagged, Delivers root (disk (runTask task attempt w).2) stage task.taskId tagged
        (runTask task attempt w).1 ∧
      ∀ outs next read, ReadsFrom outs stage.plan read → BlocksHold root outs next (disk w) task →
        taskOutput read stage.plan task.partitionId = .ok tagged := by
  obtain ⟨seen, hseen, hresult, hown⟩ := (hrun task attempt w).2 hsuccess
  rw [hresult] at hsuccess
  obtain ⟨tagged, htagged⟩ := taskOutput_of_success htask.root hsuccess
  have hy := executeTask_yields NoneLost attempt htask.root htagged
  refine ⟨tagged, ?_, fun outs next read hread hblocks => ?_⟩
  · have hfiles := hy.files
    rw [hresult]
    exact {
      rows := by rw [← htask.plan]; exact hy.rows
      outputRecords := by rw [← htask.plan]; exact hy.outputRecords
      stored := by
        rw [← htask.plan]
        intro hwrite
        refine (hy.stored hwrite).frame (fun b hb _ => ?_)
        obtain ⟨t, ht⟩ := hfiles b hb
        rw [ht]
        exact hown _ (ownsFile_blockPath.mpr ⟨rfl, rfl⟩)
      files := by rw [← htask.stageId]; exact hfiles }
  · rw [← htask.plan] at hread ⊢
    exact (taskOutput_failsOr (fun i hi => readStage_failsOr hread hblocks hseen hi)).ok htagged

end Success

end MiniSpark
