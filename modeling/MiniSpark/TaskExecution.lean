import MiniSpark.BlockFiles
import MiniSpark.Scheduler

/-!
# A task computes its share of the stage

A task whose blocks are where the manager says reads exactly what the upstream
stages wrote, so it yields what its stage means for that partition.
-/
namespace MiniSpark

variable {F : Type} [PyRuntime F] [PyHost F]

section Reading

/-- Execution depends only on what the shuffle reads of the plan read. -/
theorem executePartition_congr {read read' : ℕ → ℕ → Py (List (Record F))}
    {plan : PhysicalPlan F} {pid : ℕ} (h : ∀ i ∈ plan.readIds, read i pid = read' i pid) :
    executePartition read plan pid = executePartition read' plan pid := by
  induction plan with
  | scanExec dataset sourceName => rfl
  | filterExec child condition ih => rw [executePartition, ih h, executePartition]
  | projectExec child columns schema ih => rw [executePartition, ih h, executePartition]
  | hashAggregateExec child spec ih => rw [executePartition, ih h, executePartition]
  | sortExec child spec ih => rw [executePartition, ih h, executePartition]
  | exchangeExec child n exprs bc rb ih => rfl
  | shuffleWriteExec child n exprs rb ih => rfl
  | shuffleReadExec stageId schema bc =>
      rw [executePartition, executePartition, h stageId (by simp [PhysicalPlan.readIds])]
  | hashJoinExec left right lk rk on schema ihl ihr =>
      rw [executePartition, executePartition, ihl (fun i hi => h i ?_), ihr (fun i hi => h i ?_)] <;>
        simp only [PhysicalPlan.readIds, PhysicalPlan.shuffleReads_hashJoinExec, List.map_append,
          List.mem_append] <;> tauto

lemma taskOutput_congr {read read' : ℕ → ℕ → Py (List (Record F))} {plan : PhysicalPlan F}
    {pid : ℕ} (h : ∀ i ∈ plan.readIds, read i pid = read' i pid) :
    taskOutput read plan pid = taskOutput read' plan pid := by
  cases plan with
  | shuffleWriteExec child n exprs rb =>
      have hread : ∀ i ∈ child.readIds, read i pid = read' i pid := h
      rw [taskOutput, taskOutput, executePartition_congr hread]
  | _ =>
      rw [taskOutput, taskOutput, executePartition_congr h] <;> simp

omit [PyRuntime F] [PyHost F] in
lemma resolveShuffleBlocks_get? {plan : PhysicalPlan F} {pid : ℕ} {manager : ShuffleManager}
    (hnd : plan.readIds.Nodup) {p : ℕ × Bool} (hp : p ∈ plan.shuffleReads) :
    (resolveShuffleBlocks plan pid manager).bind (fun blocks => blocks.get? p.1) =
      some (manager.blocksFor p.1 (targetOf p.2 pid)) := by
  rw [resolveShuffleBlocks, if_neg (List.ne_nil_of_mem hp)]
  refine OrderedDict.get?_ofList_of_mem ?_ (List.mem_map.mpr ⟨p, hp, rfl⟩)
  rw [List.map_map]
  exact hnd

/-- What the manager has registered for each stage holds what the stage wrote. -/
def Represents (lost : Path → Prop) (disk : Disk F) (manager : ShuffleManager)
    (outs : List (Written F)) : Prop :=
  ∀ i w, outs[i]? = some w → Stored lost disk ((manager.get? i).getD []) w

/-- None of the blocks the task of a partition reads is lost. -/
def InputKept (lost : Path → Prop) (manager : ShuffleManager) (plan : PhysicalPlan F)
    (pid : ℕ) : Prop :=
  ∀ p ∈ plan.shuffleReads, ∀ b ∈ manager.blocksFor p.1 (targetOf p.2 pid), ¬ lost b.path

/-- A read whose blocks are not lost. -/
theorem readStage_of_kept {lost : Path → Prop} {disk : Disk F} {manager : ShuffleManager}
    {outs : List (Written F)} {plan : PhysicalPlan F} {pid : ℕ}
    {read : ℕ → ℕ → Py (List (Record F))} (hrep : Represents lost disk manager outs)
    {p : ℕ × Bool} (hp : p ∈ plan.shuffleReads)
    (hkept : ∀ b ∈ manager.blocksFor p.1 (targetOf p.2 pid), ¬ lost b.path)
    (hnd : plan.readIds.Nodup) (hread : ReadsFrom outs plan read) :
    readStage disk (resolveShuffleBlocks plan pid manager) p.1 pid = read p.1 pid := by
  obtain ⟨w, hw, hrows⟩ := hread p hp
  have hstored := (hrep p.1 w hw).read (t := targetOf p.2 pid) (fun b hb ht =>
    hkept b (List.mem_filter.mpr ⟨hb, by simpa using ht⟩))
  rw [readStage, resolveShuffleBlocks_get? hnd hp, hrows pid]
  simp only [ShuffleManager.blocksFor, hstored]

theorem readStage_eq {lost : Path → Prop} {disk : Disk F} {manager : ShuffleManager}
    {outs : List (Written F)} {plan : PhysicalPlan F} {pid : ℕ}
    {read : ℕ → ℕ → Py (List (Record F))} (hrep : Represents lost disk manager outs)
    (hkept : InputKept lost manager plan pid) (hnd : plan.readIds.Nodup)
    (hread : ReadsFrom outs plan read) {i : ℕ} (hi : i ∈ plan.readIds) :
    readStage disk (resolveShuffleBlocks plan pid manager) i pid = read i pid := by
  obtain ⟨p, hp, rfl⟩ := List.mem_map.mp hi
  exact readStage_of_kept hrep hp (hkept p hp) hnd hread

end Reading

section Metrics

/-- A plan that runs can count the records of its leaves. -/
lemma leafRecordCounts_ok {read : ℕ → ℕ → Py (List (Record F))} {task : Task F}
    {plan : PhysicalPlan F} {part : Partition F}
    (h : executePartition read plan task.partitionId = .ok part) :
    ∀ leaf ∈ plan.leaves, ∃ n, leafRecordCount task leaf = .ok n := by
  induction plan generalizing part with
  | scanExec dataset sourceName =>
      intro leaf hleaf
      obtain rfl := List.mem_singleton.mp hleaf
      rw [executePartition] at h
      exact ⟨_, by rw [leafRecordCount, h]; rfl⟩
  | shuffleReadExec stageId schema bc =>
      intro leaf hleaf
      obtain rfl := List.mem_singleton.mp hleaf
      exact ⟨_, rfl⟩
  | filterExec child condition ih =>
      obtain ⟨parent, hp, -⟩ := ExceptList.bind_eq_ok.mp h
      exact ih hp
  | projectExec child columns schema ih =>
      obtain ⟨parent, hp, -⟩ := ExceptList.bind_eq_ok.mp h
      exact ih hp
  | hashAggregateExec child spec ih =>
      obtain ⟨parent, hp, -⟩ := ExceptList.bind_eq_ok.mp h
      exact ih hp
  | sortExec child spec ih =>
      obtain ⟨parent, hp, -⟩ := ExceptList.bind_eq_ok.mp h
      exact ih hp
  | exchangeExec child n exprs bc rb ih => cases h
  | shuffleWriteExec child n exprs rb ih => cases h
  | hashJoinExec left right lk rk on schema ihl ihr =>
      obtain ⟨l, hl, h⟩ := ExceptList.bind_eq_ok.mp h
      obtain ⟨r, hr, -⟩ := ExceptList.bind_eq_ok.mp h
      intro leaf hleaf
      exact (List.mem_append.mp hleaf).elim (ihl hl leaf) (ihr hr leaf)

lemma inputRecordCount_ok {read : ℕ → ℕ → Py (List (Record F))} {task : Task F}
    {plan : PhysicalPlan F} {part : Partition F}
    (h : executePartition read plan task.partitionId = .ok part)
    (hleaves : task.plan.leaves = plan.leaves) : ∃ n, inputRecordCount task = .ok n := by
  obtain ⟨counts, hcounts, -⟩ := ExceptList.mapM_ok_of_exists (S := fun _ _ => True)
    (fun leaf hleaf => (leafRecordCounts_ok h leaf hleaf).imp (fun n hn => ⟨hn, trivial⟩))
  exact ⟨_, by rw [inputRecordCount, hleaves, hcounts]; rfl⟩

end Metrics

section Tasks

/-- The result and the disk a task leaves behind when it yields the given rows. -/
structure Yields (lost : Path → Prop) (root : String) (task : Task F) (tagged : List (ℕ × Record F))
    (disk : Disk F) (result : TaskResult F) (disk' : Disk F) : Prop where
  success : result.state = .success
  taskId : result.taskId = task.taskId
  rows : task.plan.isShuffleWrite = false → result.rows = tagged.map Prod.snd
  outputRecords : task.plan.isShuffleWrite = false → result.metrics.outputRecords = tagged.length
  stored : task.plan.isShuffleWrite = true → Stored lost disk' result.shuffleBlocks [tagged]
  blocks : result.shuffleBlocks =
    if task.plan.isShuffleWrite then taskBlocks root task.stageId task.taskId tagged else []
  frame : ∀ path, ¬ TaskFile root task.stageId task.taskId path → disk' path = disk path

/-- The blocks of a result are files of its task. -/
lemma Yields.files {lost : Path → Prop} {root : String} {task : Task F}
    {tagged : List (ℕ × Record F)} {disk disk' : Disk F} {result : TaskResult F}
    (h : Yields lost root task tagged disk result disk') :
    ∀ b ∈ result.shuffleBlocks, TaskFile root task.stageId task.taskId b.path := by
  rw [h.blocks]
  split
  · exact taskBlocks_file
  · simp

theorem executeNormalTask_yields (lost : Path → Prop) (root : String) {task : Task F}
    {disk : Disk F} {tagged : List (ℕ × Record F)} (hplan : task.plan.isShuffleWrite = false)
    (h : taskOutput (readStage disk task.shuffleBlocks) task.plan task.partitionId = .ok tagged) :
    ∃ result, executeNormalTask task disk = .ok result ∧
      Yields lost root task tagged disk result disk := by
  rw [taskOutput_of_not_write hplan] at h
  obtain ⟨part, hpart, h⟩ := ExceptList.bind_eq_ok.mp h
  obtain ⟨rows, hrows, h⟩ := ExceptList.bind_eq_ok.mp h
  cases h
  obtain ⟨n, hn⟩ := inputRecordCount_ok hpart rfl
  refine ⟨_, by rw [executeNormalTask, hpart, ExceptList.bind_ok, hrows, ExceptList.bind_ok, hn];
                rfl, ?_⟩
  exact {
    success := rfl
    taskId := rfl
    rows := by simp [Function.comp_def]
    outputRecords := by simp
    stored := by simp [hplan]
    blocks := by simp [hplan]
    frame := fun _ _ => rfl }

theorem executeShuffleWriteTask_yields (lost : Path → Prop) {root : String} {task : Task F}
    {child : PhysicalPlan F} {n : ℕ} {exprs : List (Expression F)}
    {rb : Option (List (Value F))} {disk : Disk F} {tagged : List (ℕ × Record F)}
    (hplan : task.plan = .shuffleWriteExec child n exprs rb)
    (hroot : task.shuffleRootDir = some root)
    (h : taskOutput (readStage disk task.shuffleBlocks) task.plan task.partitionId = .ok tagged) :
    ∃ result disk', executeShuffleWriteTask task child n exprs rb disk = (.ok result, disk') ∧
      Yields lost root task tagged disk result disk' := by
  rw [hplan, taskOutput] at h
  obtain ⟨part, hpart, h⟩ := ExceptList.bind_eq_ok.mp h
  obtain ⟨rows, hrows, h⟩ := ExceptList.bind_eq_ok.mp h
  obtain ⟨target, htarget, htag⟩ := ExceptList.bind_eq_ok.mp h
  obtain ⟨count, hcount⟩ := inputRecordCount_ok hpart (by rw [hplan]; rfl)
  cases hw : writeShufflePartition root task.stageId task.taskId rows target disk with
  | mk outcome disk' =>
      obtain ⟨rfl, hstored, hframe⟩ :=
        writeShufflePartition_stores lost htag hw
      refine ⟨_, disk', by simp only [executeShuffleWriteTask, shuffleWriteInput, hroot, hpart,
        ExceptList.bind_ok, hrows, htarget, ExceptList.pure_eq_ok, hw, hcount]; rfl, ?_⟩
      exact {
        success := rfl
        taskId := rfl
        rows := by simp [hplan, PhysicalPlan.isShuffleWrite]
        outputRecords := by simp [hplan, PhysicalPlan.isShuffleWrite]
        stored := fun _ => hstored
        blocks := by simp [hplan, PhysicalPlan.isShuffleWrite]
        frame := hframe }

theorem runTaskBody_yields (lost : Path → Prop) {root : String} {task : Task F} {disk : Disk F}
    {tagged : List (ℕ × Record F)} (hroot : task.shuffleRootDir = some root)
    (h : taskOutput (readStage disk task.shuffleBlocks) task.plan task.partitionId = .ok tagged) :
    ∃ result disk', runTaskBody task disk = (.ok result, disk') ∧
      Yields lost root task tagged disk result disk' := by
  unfold runTaskBody
  split
  · next child n exprs rb hplan => exact executeShuffleWriteTask_yields lost hplan hroot h
  · next hplan =>
      have hnot : task.plan.isShuffleWrite = false := by
        unfold PhysicalPlan.isShuffleWrite
        split
        · next heq => exact absurd heq (hplan _ _ _ _)
        · rfl
      obtain ⟨result, hrun, hy⟩ := executeNormalTask_yields lost root hnot h
      exact ⟨result, disk, by rw [hrun], hy⟩

/-- A task that reads what its stage should read yields its share of the stage. -/
theorem executeTask_yields (lost : Path → Prop) {root : String} {task : Task F} (attempt : ℕ)
    {disk : Disk F} {tagged : List (ℕ × Record F)} (hroot : task.shuffleRootDir = some root)
    (h : taskOutput (readStage disk task.shuffleBlocks) task.plan task.partitionId = .ok tagged) :
    Yields lost root task tagged disk (executeTask task attempt disk).1
      (executeTask task attempt disk).2 := by
  obtain ⟨result, disk', hrun, hy⟩ := runTaskBody_yields lost hroot h
  rw [executeTask, hrun]
  exact hy

end Tasks

end MiniSpark
