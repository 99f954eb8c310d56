import MiniSpark.BlockFiles
import MiniSpark.Interleaving
import MiniSpark.Worker

/-!
# A task as a process on the local disk

The worker once more, access by access: a block file is read as a whole, a new file is empty
when it is opened, and every row that is written adds to the file of its target. Run by itself
the process does what the worker does. It reads no file but those of the blocks it was handed
and writes no file but its own.
-/
namespace MiniSpark

open Process

variable {F : Type} [PyRuntime F] [PyHost F]

/-- What a worker process does with the files of the local disk. -/
abbrev FileProcess (F : Type) [PyRuntime F] [PyHost F] (α : Type) :=
  Process Path (PyHost.Bytes F) α

abbrev FileProgram (F : Type) [PyRuntime F] [PyHost F] (α : Type) :=
  ExceptT PyError (Process Path (PyHost.Bytes F)) α

section Reading

/-- The rows of a block whose file has these contents. -/
def blockRows (block : ShuffleBlockMeta) : Option (PyHost.Bytes F) → Py (List (Record F))
  | none => .error .fileNotFoundError
  | some raw =>
      if PyHost.md5Hex raw ≠ block.checksum then .error .shuffleChecksumError
      else PyHost.unpickle raw

/-- `_read_block`. -/
def readBlockProgram (block : ShuffleBlockMeta) : FileProgram F (List (Record F)) := do
  let raw ← Process.get block.path
  lift (blockRows block raw)

/-- `read_shuffle_blocks`. -/
def readShuffleBlocksProgram (blocks : List ShuffleBlockMeta) : FileProgram F (List (Record F)) := do
  let parts ← blocks.mapM readBlockProgram
  pure parts.flatten

/-- The `except` clauses of `_execute_shuffle_read_partition`. -/
def reportMissing {α : Type} (stageId partitionId : ℕ) : Py α → Py α
  | .error .fileNotFoundError => .error (.missingShuffleDataError stageId partitionId)
  | .error .shuffleChecksumError => .error (.missingShuffleDataError stageId partitionId)
  | outcome => outcome

/-- The text of the error for a stage the task has no blocks of. -/
def noBlocks (stageId partitionId : ℕ) : PyError :=
  .valueError ("ShuffleReadExec for stage " ++ toString stageId ++
    " partition " ++ toString partitionId ++ " was executed with no blocks for that stage; " ++
    "the caller must supply a shuffle_blocks[stage_id] entry for every ShuffleReadExec in " ++
    "the plan (see execution/worker.py, execution/scheduler.py).")

/-- The reading part of `_execute_shuffle_read_partition`. -/
def readStageProgram (shuffleBlocks : Option ShuffleBlocksByStage) (stageId partitionId : ℕ) :
    FileProgram F (List (Record F)) :=
  match shuffleBlocks.bind (fun blocks => blocks.get? stageId) with
  | none => lift (.error (noBlocks stageId partitionId))
  | some blocks => ExceptT.mk (reportMissing stageId partitionId <$> (readShuffleBlocksProgram blocks).run)

/-- `execute_partition`, with the reads of a shuffle read where they happen. -/
def partitionProgram (shuffleBlocks : Option ShuffleBlocksByStage) :
    PhysicalPlan F → ℕ → FileProgram F (Partition F)
  | .scanExec dataset _, pid => lift (dataset.partition pid)
  | .filterExec child condition, pid => do
      let parent ← partitionProgram shuffleBlocks child pid
      pure (filterPartition condition parent)
  | .projectExec child columns schema, pid => do
      let parent ← partitionProgram shuffleBlocks child pid
      pure (projectPartition columns schema parent)
  | .hashAggregateExec child spec, pid => do
      let parent ← partitionProgram shuffleBlocks child pid
      lift (hashAggregatePartition spec pid parent)
  | .hashJoinExec left right leftKeys rightKeys on schema, pid => do
      let leftPart ← partitionProgram shuffleBlocks left pid
      let rightPart ← partitionProgram shuffleBlocks right pid
      lift (hashJoinPartition leftKeys rightKeys on schema pid leftPart rightPart)
  | .sortExec child spec, pid => do
      let parent ← partitionProgram shuffleBlocks child pid
      lift (sortPartition spec pid parent)
  | .shuffleReadExec stageId schema _, pid => do
      let rows ← readStageProgram shuffleBlocks stageId pid
      pure (rowsPartition pid schema rows)
  | p@(.exchangeExec _ _ _ _ _), _ => lift (.error (noPartitionOperator p))
  | p@(.shuffleWriteExec _ _ _ _), _ => lift (.error (noPartitionOperator p))

lemma readBlock_computes (block : ShuffleBlockMeta) :
    Computes (readBlockProgram (F := F) block) (fun disk => readBlock disk block) := by
  intro disk
  have h := (computes_get (ε := PyError) (V := PyHost.Bytes F) block.path).bind
    (fun raw => computes_lift (blockRows block raw)) disk
  refine h.trans (Prod.ext ?_ rfl)
  show blockRows block (disk block.path) = readBlock disk block
  unfold blockRows readBlock
  cases disk block.path with
  | none => rfl
  | some raw => rfl

lemma readShuffleBlocks_computes (blocks : List ShuffleBlockMeta) :
    Computes (readShuffleBlocksProgram (F := F) blocks)
      (fun disk => readShuffleBlocks disk blocks) :=
  (Computes.mapM readBlock_computes blocks).bind (fun parts => computes_pure parts.flatten)

lemma readStage_computes (shuffleBlocks : Option ShuffleBlocksByStage) (stageId pid : ℕ) :
    Computes (readStageProgram (F := F) shuffleBlocks stageId pid)
      (fun disk => readStage disk shuffleBlocks stageId pid) := by
  intro disk
  unfold readStageProgram readStage
  cases shuffleBlocks.bind (fun blocks => blocks.get? stageId) with
  | none => rfl
  | some blocks =>
      have h := readShuffleBlocks_computes (F := F) blocks disk
      simp only [ExceptT.run_mk, map_eq_pure_bind, run_bind, run_pure, h]
      refine Prod.ext ?_ rfl
      unfold reportMissing
      cases readShuffleBlocks disk blocks with
      | ok rows => rfl
      | error e => cases e <;> rfl

/-- The reads of a plan, made where they happen, give the partition of the plan. -/
theorem partition_computes (shuffleBlocks : Option ShuffleBlocksByStage) (plan : PhysicalPlan F)
    (pid : ℕ) : Computes (partitionProgram shuffleBlocks plan pid)
      (fun disk => executePartition (readStage disk shuffleBlocks) plan pid) := by
  induction plan with
  | scanExec dataset sourceName => exact computes_lift _
  | filterExec child condition ih => exact ih.bind (fun parent => computes_pure _)
  | projectExec child columns schema ih => exact ih.bind (fun parent => computes_pure _)
  | hashAggregateExec child spec ih => exact ih.bind (fun parent => computes_lift _)
  | sortExec child spec ih => exact ih.bind (fun parent => computes_lift _)
  | hashJoinExec left right leftKeys rightKeys on schema ihl ihr =>
      exact ihl.bind (fun leftPart => ihr.bind (fun rightPart => computes_lift _))
  | shuffleReadExec stageId schema isBroadcast =>
      exact (readStage_computes shuffleBlocks stageId pid).bind (fun rows => computes_pure _)
  | exchangeExec child n exprs isBroadcast boundaries ih => exact computes_lift _
  | shuffleWriteExec child n exprs boundaries ih => exact computes_lift _

end Reading

section Writing

/-- A target met for the first time has its file opened, which leaves it empty. -/
def openBlock (path : Path) (taken : Option (List (Record F))) : FileProgram F Unit :=
  match taken with
  | none => put path (PyHost.pickle ([] : List (Record F)))
  | some _ => pure ()

/-- The loop of `write_shuffle_partition`; a row is written after the rows before it. -/
def writeRows (rootDir : String) (stageId sourceTaskId : ℕ) (target : Record F → Py ℕ) :
    List (Record F) → BlockWriters F → FileProgram F (BlockWriters F)
  | [], writers => pure writers
  | record :: records, writers => do
      let t ← lift (target record)
      let path := blockPath rootDir stageId sourceTaskId t
      openBlock path (writers.get? t)
      let rows := (writers.get? t).getD [] ++ [record]
      put path (PyHost.pickle rows)
      writeRows rootDir stageId sourceTaskId target records (writers.set t rows)

variable {root : String} {stage task : ℕ}

/-- Flushing leaves every other file alone. -/
lemma flushWriters_other (writers : BlockWriters F) (disk : Disk F) {path : Path}
    (h : ∀ t, path ≠ blockPath root stage task t) :
    flushWriters root stage task writers disk path = disk path :=
  flush_other (fun p _ => h p.1)

/-- The file of a target once every writer has been flushed. -/
lemma flushWriters_block (writers : BlockWriters F) (disk : Disk F) (t : ℕ) :
    flushWriters root stage task writers disk (blockPath root stage task t) =
      match writers.get? t with
      | some rows => some (PyHost.pickle rows)
      | none => disk (blockPath root stage task t) := by
  unfold flushWriters
  cases hget : writers.get? t with
  | some rows =>
      exact flush_block (OrderedDict.distinct_keys_iff.mp writers.distinct)
        (OrderedDict.get?_eq_some_iff.mp hget)
  | none =>
      refine flush_other (fun p hp hpath => ?_)
      have hkey : t ∈ writers.keys := by
        rw [(blockPath_inj hpath).2.2]
        exact List.mem_map_of_mem hp
      have hsome := OrderedDict.isSome_get?_iff.mpr hkey
      simp [hget] at hsome

/-- A writer that has taken more rows: its file is written anew. -/
lemma flushWriters_set (writers : BlockWriters F) (disk : Disk F) (t : ℕ) (rows : List (Record F)) :
    flushWriters root stage task (writers.set t rows) disk =
      Store.put (flushWriters root stage task writers disk) (blockPath root stage task t)
        (PyHost.pickle rows) := by
  ext path : 1
  by_cases hpath : ∃ t', path = blockPath root stage task t'
  · obtain ⟨t', rfl⟩ := hpath
    rw [flushWriters_block, OrderedDict.get?_set]
    by_cases ht : t' = t
    · simp [ht]
    · have hne : blockPath root stage task t' ≠ blockPath root stage task t := fun h =>
        ht (blockPath_inj h).2.2
      rw [Store.put_of_ne _ _ hne, flushWriters_block]
      simp [Ne.symm ht]
  · have hother : ∀ t', path ≠ blockPath root stage task t' := not_exists.mp hpath
    rw [Store.put_of_ne _ _ (hother t), flushWriters_other _ _ hother,
      flushWriters_other _ _ hother]

/-- The first row of a file is written whether the file was there before or not. -/
lemma openBlock_run (path : Path) (taken : Option (List (Record F))) (disk : Disk F)
    (raw : PyHost.Bytes F) :
    (openBlock path taken >>= fun _ => put path raw).run.run disk = (.ok (), Store.put disk path raw) := by
  cases taken with
  | none => simp [run_except_bind, openBlock]
  | some rows => simp [openBlock]

/-- The loop keeps on disk what its writers have taken so far. -/
theorem writeRows_run (target : Record F → Py ℕ) (rows : List (Record F)) (writers : BlockWriters F)
    (disk : Disk F) :
    (writeRows root stage task target rows writers).run.run
        (flushWriters root stage task writers disk) =
      ((writeLoop target rows writers).1.map (fun _ => (writeLoop target rows writers).2),
        flushWriters root stage task (writeLoop target rows writers).2 disk) := by
  induction rows generalizing writers with
  | nil => rfl
  | cons record rows ih =>
      rw [writeRows, writeLoop]
      cases htarget : target record with
      | error e => rfl
      | ok t =>
          have hnext := ih (writers.set t ((writers.get? t).getD [] ++ [record]))
          rw [flushWriters_set] at hnext
          have hopen := openBlock_run (blockPath root stage task t) (writers.get? t)
            (flushWriters root stage task writers disk)
            (PyHost.pickle ((writers.get? t).getD [] ++ [record]))
          rw [run_except_bind, run_lift]
          simp only [← bind_assoc]
          rw [run_except_bind, hopen]
          exact hnext

end Writing

section Tasks

/-- The text of the error for a task without a directory to write to. -/
def noShuffleRootDir (taskId : ℕ) : PyError :=
  .valueError ("ShuffleWriteExec task " ++ toString taskId ++
    " has no shuffle_root_dir (see execution/scheduler.py, which must set it on every task " ++
    "in a shuffle-write stage)")

/-- `_execute_normal_task`. -/
def normalTaskProgram (task : Task F) : FileProgram F (TaskResult F) := do
  let part ← partitionProgram task.shuffleBlocks task.plan task.partitionId
  lift (do
    let rows ← part.toList
    let inputRecords ← inputRecordCount task
    pure ⟨task.taskId, .success, rows,
      ⟨inputRecords, rows.length, estimateBytes rows, shuffleReadBytes task⟩, none, [], none⟩)

/-- `_execute_shuffle_write_task` on the child of its write node. -/
def shuffleWriteProgram (task : Task F) (child : PhysicalPlan F) (numPartitions : ℕ)
    (exprs : List (Expression F)) (rangeBoundaries : Option (List (Value F))) :
    FileProgram F (TaskResult F) :=
  match task.shuffleRootDir with
  | none => lift (.error (noShuffleRootDir task.taskId))
  | some rootDir => do
      let part ← partitionProgram task.shuffleBlocks child task.partitionId
      let rows ← lift part.toList
      let target ← lift (shuffleTarget numPartitions exprs rangeBoundaries)
      let writers ← writeRows rootDir task.stageId task.taskId target rows OrderedDict.empty
      let blocks := writers.items.map (fun p =>
        blockMeta rootDir task.stageId task.taskId p.1 p.2)
      let inputRecords ← lift (inputRecordCount task)
      pure ⟨task.taskId, .success, [],
        ⟨inputRecords, 0, 0, (blocks.map ShuffleBlockMeta.byteLength).sum⟩, none, blocks, none⟩

/-- The body of the `try` in `execute_task`. -/
def taskBodyProgram (task : Task F) : FileProgram F (TaskResult F) :=
  match task.plan with
  | .shuffleWriteExec child numPartitions exprs rangeBoundaries =>
      shuffleWriteProgram task child numPartitions exprs rangeBoundaries
  | _ => normalTaskProgram task

/-- `execute_task` as a worker process runs it. -/
def taskProgram (task : Task F) (_attempt : ℕ) : FileProcess F (TaskResult F) := do
  match ← (taskBodyProgram task).run with
  | .ok result => pure result
  | .error e => pure (failedResult task.taskId e)

lemma normalTaskProgram_run (task : Task F) (disk : Disk F) :
    (normalTaskProgram task).run.run disk = (executeNormalTask task disk, disk) :=
  ((partition_computes task.shuffleBlocks task.plan task.partitionId).bind
    (fun _ => computes_lift _)) disk

lemma shuffleWriteProgram_run (task : Task F) (child : PhysicalPlan F) (n : ℕ)
    (exprs : List (Expression F)) (boundaries : Option (List (Value F))) (disk : Disk F) :
    (shuffleWriteProgram task child n exprs boundaries).run.run disk =
      executeShuffleWriteTask task child n exprs boundaries disk := by
  unfold shuffleWriteProgram executeShuffleWriteTask shuffleWriteInput
  cases task.shuffleRootDir with
  | none => rfl
  | some rootDir =>
      have hpart := partition_computes task.shuffleBlocks child task.partitionId disk
      simp only [run_except_bind, hpart]
      cases executePartition (readStage disk task.shuffleBlocks) child task.partitionId with
      | error e => rfl
      | ok part =>
          simp only [run_lift]
          cases hrows : part.toList with
          | error e => simp [hrows]
          | ok rows =>
              cases shuffleTarget n exprs boundaries with
              | error e => simp [hrows]
              | ok target =>
                  have hwrite : (writeRows rootDir task.stageId task.taskId target rows
                      OrderedDict.empty).run.run disk =
                      ((writeLoop target rows OrderedDict.empty).1.map
                          (fun _ => (writeLoop target rows OrderedDict.empty).2),
                        flushWriters rootDir task.stageId task.taskId
                          (writeLoop target rows OrderedDict.empty).2 disk) :=
                    writeRows_run target rows OrderedDict.empty disk
                  simp only [hwrite, hrows, ExceptList.bind_ok, ExceptList.pure_eq_ok,
                    writeShufflePartition]
                  cases (writeLoop target rows OrderedDict.empty).1 with
                  | error e => rfl
                  | ok _ =>
                      simp only [Except.map]
                      cases inputRecordCount task with
                      | error e => rfl
                      | ok inputRecords => rfl

/-- A worker process that runs by itself does what the worker does. -/
theorem taskProgram_run (task : Task F) (attempt : ℕ) (disk : Disk F) :
    (taskProgram task attempt).run disk = executeTask task attempt disk := by
  have hbody : (taskBodyProgram task).run.run disk = runTaskBody task disk := by
    unfold taskBodyProgram runTaskBody
    cases task.plan with
    | shuffleWriteExec child n exprs boundaries =>
        exact shuffleWriteProgram_run task child n exprs boundaries disk
    | _ => exact normalTaskProgram_run task disk
  rw [taskProgram, run_bind, hbody, executeTask]
  cases h : runTaskBody task disk with
  | mk outcome disk' => cases outcome <;> rfl

end Tasks

section Footprints

/-- The file of a block that the task was handed. -/
def ReadsFile (task : Task F) (path : Path) : Prop :=
  ∃ blocks ∈ task.shuffleBlocks, ∃ p ∈ blocks.items, ∃ b ∈ p.2, b.path = path

/-- A file of the task under the directory it was handed. -/
def WritesFile (task : Task F) (path : Path) : Prop :=
  ∃ root ∈ task.shuffleRootDir, TaskFile root task.stageId task.taskId path

variable {reads writes : Path → Prop}

lemma readStage_within {shuffleBlocks : Option ShuffleBlocksByStage} (stageId pid : ℕ)
    (h : ∀ blocks ∈ shuffleBlocks, ∀ p ∈ blocks.items, ∀ b ∈ p.2, reads b.path) :
    (readStageProgram (F := F) shuffleBlocks stageId pid).run.Within reads writes := by
  unfold readStageProgram
  split
  · exact within_lift _
  · next blocks hblocks =>
      obtain ⟨all, hall, hget⟩ := Option.bind_eq_some_iff.mp hblocks
      have hitems : (stageId, blocks) ∈ all.items := OrderedDict.get?_eq_some_iff.mp hget
      have hread : (readShuffleBlocksProgram (F := F) blocks).run.Within reads writes := by
        refine within_except_bind (within_mapM (fun b hb => ?_)) (fun _ => trivial)
        exact within_except_bind (within_get (h all hall _ hitems b hb)) (fun _ => within_lift _)
      rw [ExceptT.run_mk, map_eq_pure_bind]
      exact hread.bind (fun _ => trivial)

lemma partition_within {shuffleBlocks : Option ShuffleBlocksByStage} (plan : PhysicalPlan F)
    (pid : ℕ) (h : ∀ blocks ∈ shuffleBlocks, ∀ p ∈ blocks.items, ∀ b ∈ p.2, reads b.path) :
    (partitionProgram shuffleBlocks plan pid).run.Within reads writes := by
  induction plan with
  | scanExec dataset sourceName => exact within_lift _
  | filterExec child condition ih => exact within_except_bind ih (fun _ => trivial)
  | projectExec child columns schema ih => exact within_except_bind ih (fun _ => trivial)
  | hashAggregateExec child spec ih => exact within_except_bind ih (fun _ => within_lift _)
  | sortExec child spec ih => exact within_except_bind ih (fun _ => within_lift _)
  | hashJoinExec left right leftKeys rightKeys on schema ihl ihr =>
      exact within_except_bind ihl (fun _ => within_except_bind ihr (fun _ => within_lift _))
  | shuffleReadExec stageId schema isBroadcast =>
      exact within_except_bind (readStage_within stageId pid h) (fun _ => trivial)
  | exchangeExec child n exprs isBroadcast boundaries ih => exact within_lift _
  | shuffleWriteExec child n exprs boundaries ih => exact within_lift _

lemma writeRows_within {root : String} {stage task : ℕ} (target : Record F → Py ℕ)
    (rows : List (Record F)) (writers : BlockWriters F)
    (h : ∀ t, writes (blockPath root stage task t)) :
    (writeRows root stage task target rows writers).run.Within reads writes := by
  induction rows generalizing writers with
  | nil => trivial
  | cons record rows ih =>
      refine within_except_bind (within_lift _) (fun t => ?_)
      refine within_except_bind ?_ (fun _ => within_except_bind (within_put _ (h t)) (fun _ => ih _))
      cases writers.get? t with
      | none => exact within_put _ (h t)
      | some taken => trivial

/-- A worker process touches the files it was handed and its own, and no others. -/
theorem taskProgram_within (task : Task F) (attempt : ℕ) :
    (taskProgram task attempt).Within (ReadsFile task) (WritesFile task) := by
  have hreads : ∀ blocks ∈ task.shuffleBlocks, ∀ p ∈ blocks.items, ∀ b ∈ p.2,
      ReadsFile task b.path := fun blocks hblocks p hp b hb => ⟨blocks, hblocks, p, hp, b, hb, rfl⟩
  have hbody : (taskBodyProgram task).run.Within (ReadsFile task) (WritesFile task) := by
    unfold taskBodyProgram
    split
    · unfold shuffleWriteProgram
      split
      · exact within_lift _
      · next rootDir hroot =>
          refine within_except_bind (partition_within _ _ hreads) (fun part => ?_)
          refine within_except_bind (within_lift _) (fun rows => ?_)
          refine within_except_bind (within_lift _) (fun target => ?_)
          refine within_except_bind (writeRows_within _ _ _ (fun t => ?_)) (fun _ => ?_)
          · exact ⟨rootDir, hroot, t, rfl⟩
          · exact within_except_bind (within_lift _) (fun _ => trivial)
    · exact within_except_bind (partition_within _ _ hreads) (fun _ => within_lift _)
  refine hbody.bind (fun outcome => ?_)
  cases outcome with
  | ok result => trivial
  | error e => trivial

/-- A task as a job of a pool. -/
def taskJob (entry : Task F × ℕ) : Job Path (PyHost.Bytes F) (TaskResult F) :=
  ⟨taskProgram entry.1 entry.2, ReadsFile entry.1, WritesFile entry.1,
    taskProgram_within entry.1 entry.2⟩

/-- Tasks with their own ids whose blocks other tasks wrote. -/
theorem taskJob_apart {entry entry' : Task F × ℕ} (hids : entry.1.taskId ≠ entry'.1.taskId)
    (h : ∀ path, ReadsFile entry.1 path → ¬ WritesFile entry'.1 path)
    (h' : ∀ path, ReadsFile entry'.1 path → ¬ WritesFile entry.1 path)
    (hroot : entry.1.shuffleRootDir = entry'.1.shuffleRootDir) :
    (taskJob entry).Apart (taskJob entry') := by
  have hwrites : ∀ path, WritesFile entry.1 path → ¬ WritesFile entry'.1 path := by
    rintro path ⟨root, hr, t, rfl⟩ ⟨root', hr', t', hpath⟩
    rw [hroot, hr'] at hr
    cases hr
    exact hids (blockPath_inj hpath).2.1
  intro path
  constructor
  · rintro hw (hr | hw')
    · exact h' path hr hw
    · exact hwrites path hw hw'
  · rintro hw (hr | hw')
    · exact h path hr hw
    · exact hwrites path hw' hw

end Footprints

end MiniSpark
