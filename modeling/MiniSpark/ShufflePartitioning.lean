import MiniSpark.Exchange

/-!
# A shuffle is a stable partition of its input

The tasks of a stage run in any order, each writing its own block files; the
blocks are registered in task order. Reading the blocks of a target gives the rows
of all tasks that map to it, task by task and in their order.
-/
namespace MiniSpark

variable {F : Type} [PyRuntime F] [PyHost F]

section Definitions

/-- A source task of a shuffle: its id and the rows it writes. -/
structure SourceTask (F : Type) where
  id : ℕ
  rows : List (Record F)

/-- The tasks write one after the other; what each returns is kept with its id. -/
def runWriters (root : String) (stage : ℕ) (target : Record F → Py ℕ) :
    List (SourceTask F) → Disk F → Py (List (ℕ × List ShuffleBlockMeta)) × Disk F
  | [], disk => (.ok [], disk)
  | task :: tasks, disk =>
      let (outcome, disk) := writeShufflePartition root stage task.id task.rows target disk
      let (results, disk) := runWriters root stage target tasks disk
      (do let blocks ← outcome
          let rest ← results
          pure ((task.id, blocks) :: rest), disk)

omit [PyRuntime F] [PyHost F] in
/-- The blocks of all tasks, in task order. -/
def blocksInOrder (tasks : List (SourceTask F)) (results : List (ℕ × List ShuffleBlockMeta)) :
    List ShuffleBlockMeta := tasks.flatMap (fun t => (results.lookup t.id).getD [])

/-- The block reads back, and its record count is the number of rows read. -/
def CountsRows (disk : Disk F) (block : ShuffleBlockMeta) : Prop :=
  ∃ rows, readBlock disk block = .ok rows ∧ block.recordCount = rows.length

end Definitions

section Files

variable {root : String} {stage : ℕ} {disk disk' : Disk F}

omit [PyHost F] in
/-- Tasks of different ids write different files. -/
lemma taskFile_unique {task task' : ℕ} {path : Path} (h : TaskFile root stage task path)
    (h' : TaskFile root stage task' path) : task = task' := by
  obtain ⟨t, rfl⟩ := h
  obtain ⟨t', heq⟩ := h'
  exact (blockPath_inj heq).2.1

lemma CountsRows.frame {block : ShuffleBlockMeta} (h : CountsRows disk block)
    (hd : disk' block.path = disk block.path) : CountsRows disk' block := by
  obtain ⟨rows, hread, hcount⟩ := h
  refine ⟨rows, ?_, hcount⟩
  rw [readBlock, hd]
  exact hread

/-- The blocks a task has just written hold as many rows as they record. -/
lemma taskBlocks_countsRows {task : ℕ} {tagged : List (ℕ × Record F)} :
    ∀ b ∈ taskBlocks root stage task tagged, CountsRows
      (flushWriters root stage task (tagged.foldl addRow OrderedDict.empty) disk) b := by
  intro b hb
  obtain ⟨⟨t, rows⟩, hp, rfl⟩ := List.mem_map.mp hb
  have hnd := OrderedDict.distinct_keys_iff.mp (tagged.foldl addRow OrderedDict.empty).distinct
  have hfile : flushWriters root stage task (tagged.foldl addRow OrderedDict.empty) disk
      (blockPath root stage task t) = some (PyHost.pickle rows) := flush_block hnd hp
  have hholds : Holds (fun _ => False) (flushWriters root stage task
      (tagged.foldl addRow OrderedDict.empty) disk) (blockMeta root stage task t rows) rows :=
    ⟨rfl, fun _ => hfile⟩
  exact ⟨rows, hholds.readBlock not_false, rfl⟩

end Files

section Runs

variable {root : String} {stage : ℕ} {place : Record F → ℕ}

/-- The rows of a task, each with its target. -/
def SourceTask.tagged (place : Record F → ℕ) (task : SourceTask F) : List (ℕ × Record F) :=
  task.rows.map (fun r => (place r, r))

/-- What the disk holds for a task that has run. -/
def OnDisk (root : String) (stage : ℕ) (place : Record F → ℕ) (disk : Disk F)
    (task : SourceTask F) : Prop :=
  Stored (fun _ => False) disk (taskBlocks root stage task.id (task.tagged place))
      [task.tagged place] ∧
    ∀ b ∈ taskBlocks root stage task.id (task.tagged place), CountsRows disk b

/-- One task writes its rows and leaves the files of other tasks alone. -/
lemma writeShufflePartition_written {task : SourceTask F} {disk disk' : Disk F}
    {outcome : Py (List ShuffleBlockMeta)}
    (h : writeShufflePartition root stage task.id task.rows (fun r => .ok (place r)) disk =
      (outcome, disk')) :
    outcome = .ok (taskBlocks root stage task.id (task.tagged place)) ∧
      OnDisk root stage place disk' task ∧
      ∀ path, ¬ TaskFile root stage task.id path → disk' path = disk path := by
  have htag : tagRows (fun r => .ok (place r)) task.rows = .ok (task.tagged place) :=
    tagRows_ok (fun _ _ => rfl)
  obtain ⟨hout, hstored, hframe⟩ := writeShufflePartition_stores (fun _ => False) htag h
  refine ⟨hout, ⟨hstored, fun b hb => ?_⟩, hframe⟩
  rw [writeShufflePartition, writeLoop_of_tagRows htag] at h
  simp only [Prod.mk.injEq] at h
  rw [← h.2]
  exact taskBlocks_countsRows b hb

/-- A task's files survive what tasks of other ids write. -/
lemma OnDisk.frame {task : SourceTask F} {disk disk' : Disk F}
    (h : OnDisk root stage place disk task)
    (hd : ∀ path, TaskFile root stage task.id path → disk' path = disk path) :
    OnDisk root stage place disk' task :=
  ⟨h.1.frame (fun b hb _ => hd b.path (taskBlocks_file b hb)),
    fun b hb => (h.2 b hb).frame (hd b.path (taskBlocks_file b hb))⟩

/-- After the tasks have run, in any order, every one of them has its rows on disk. -/
theorem runWriters_written (root : String) (stage : ℕ) (place : Record F → ℕ)
    {order : List (SourceTask F)} (hids : (order.map SourceTask.id).Nodup) (disk : Disk F) :
    ∃ disk', runWriters root stage (fun r => .ok (place r)) order disk =
        (.ok (order.map (fun t => (t.id, taskBlocks root stage t.id (t.tagged place)))), disk') ∧
      (∀ t ∈ order, OnDisk root stage place disk' t) ∧
      ∀ path, (∀ t ∈ order, ¬ TaskFile root stage t.id path) → disk' path = disk path := by
  induction order generalizing disk with
  | nil => exact ⟨disk, rfl, fun _ ht => absurd ht List.not_mem_nil, fun _ _ => rfl⟩
  | cons task order ih =>
      rw [List.map_cons, List.nodup_cons] at hids
      obtain ⟨hfresh, hids⟩ := hids
      cases hw : writeShufflePartition root stage task.id task.rows (fun r => .ok (place r)) disk with
      | mk outcome disk₁ =>
      obtain ⟨rfl, hwritten, hframe⟩ := writeShufflePartition_written hw
      obtain ⟨disk₂, hrest, hothers, hframe'⟩ := ih hids disk₁
      refine ⟨disk₂, ?_, fun t ht => ?_, fun path hpath => ?_⟩
      · simp only [runWriters, hw, hrest]
        rfl
      · rcases List.mem_cons.mp ht with rfl | ht
        · refine hwritten.frame (fun path hpath => hframe' path (fun u hu hfile => hfresh ?_))
          rw [taskFile_unique hpath hfile]
          exact List.mem_map_of_mem hu
        · exact hothers t ht
      · rw [hframe' path (fun t ht => hpath t (List.mem_cons_of_mem _ ht)),
          hframe path (hpath task List.mem_cons_self)]

omit [PyRuntime F] [PyHost F] in
/-- What a task returned is found under its id. -/
lemma lookup_result {α : Type} {order : List (SourceTask F)} (f : SourceTask F → α)
    (hids : (order.map SourceTask.id).Nodup) {task : SourceTask F} (ht : task ∈ order) :
    (order.map (fun t => (t.id, f t))).lookup task.id = some (f task) := by
  induction order with
  | nil => cases ht
  | cons u order ih =>
      rw [List.map_cons, List.nodup_cons] at hids
      rw [List.map_cons, List.lookup_cons]
      rcases List.mem_cons.mp ht with rfl | ht
      · simp
      · have hne : task.id ≠ u.id := fun heq => hids.1 (heq ▸ List.mem_map_of_mem ht)
        rw [beq_false_of_ne hne]
        exact ih hids.2 ht

/-- The blocks of tasks on disk, registered in order, store the rows in order. -/
lemma stored_inOrder {tasks : List (SourceTask F)} {disk : Disk F}
    (h : ∀ t ∈ tasks, OnDisk root stage place disk t) :
    Stored (fun _ => False) disk
      (tasks.flatMap (fun t => taskBlocks root stage t.id (t.tagged place)))
      (tasks.map (SourceTask.tagged place)) := by
  induction tasks with
  | nil => exact Stored.nil
  | cons task tasks ih =>
      exact (h task List.mem_cons_self).1.append (ih (fun t ht => h t (List.mem_cons_of_mem _ ht)))

end Runs

/-- Tasks that write in any order and register their blocks in task order: the blocks
of a target read back as the rows that map to it, task by task in their order, every
row is read at exactly one target, and every block counts its rows. -/
theorem shuffle_isStablePartition {κ : Type} {tasks order : List (SourceTask F)} {n : ℕ}
    {keyFn : Record F → κ} {partitionFor : κ → ℕ} (hids : (tasks.map SourceTask.id).Nodup)
    (horder : order.Perm tasks) (hrange : ∀ k, partitionFor k < n) (root : String) (stage : ℕ)
    (disk : Disk F) (manager : ShuffleManager) :
    ∃ results disk', runWriters root stage (fun r => .ok (partitionFor (keyFn r))) order disk =
        (.ok results, disk') ∧
      (∀ p < n, readShuffleBlocks disk'
          ((manager.registerBlocks stage (blocksInOrder tasks results)).blocksFor stage p) =
        .ok (tasks.flatMap (fun t => t.rows.filter (fun r => partitionFor (keyFn r) = p)))) ∧
      ((List.range n).flatMap (fun p =>
        tasks.flatMap (fun t => t.rows.filter (fun r => partitionFor (keyFn r) = p)))).Perm
        (tasks.flatMap SourceTask.rows) ∧
      ∀ b ∈ blocksInOrder tasks results, CountsRows disk' b := by
  have hids' : (order.map SourceTask.id).Nodup := (horder.map _).nodup_iff.mpr hids
  obtain ⟨disk', hrun, hwritten, -⟩ :=
    runWriters_written root stage (fun r => partitionFor (keyFn r)) hids' disk
  set place : Record F → ℕ := fun r => partitionFor (keyFn r) with hplace
  set results := order.map (fun t => (t.id, taskBlocks root stage t.id (t.tagged place)))
  have hblocks : blocksInOrder tasks results =
      tasks.flatMap (fun t => taskBlocks root stage t.id (t.tagged place)) := by
    refine List.flatMap_congr (fun t ht => ?_)
    rw [lookup_result (fun t => taskBlocks root stage t.id (t.tagged place)) hids'
      (horder.mem_iff.mpr ht), Option.getD_some]
  have htasks : ∀ t ∈ tasks, OnDisk root stage place disk' t :=
    fun t ht => hwritten t (horder.mem_iff.mpr ht)
  have hrows : ∀ p, tasks.flatMap (fun t => t.rows.filter (fun r => partitionFor (keyFn r) = p)) =
      (tasks.flatMap SourceTask.rows).filter (fun r => partitionFor (keyFn r) = p) := by
    intro p
    rw [List.filter_flatMap]
  refine ⟨results, disk', hrun, fun p _ => ?_, ?_, ?_⟩
  · have hread := (stored_inOrder htasks).read (t := p) (fun _ _ _ h => h)
    have hof : ShuffleManager.blocksFor (manager.registerBlocks stage (blocksInOrder tasks results))
        stage p = (tasks.flatMap (fun t => taskBlocks root stage t.id (t.tagged place))).filter
          (fun b => b.targetPartition = p) := by
      rw [ShuffleManager.blocksFor, ShuffleManager.registerBlocks, OrderedDict.get?_set,
        if_pos (beq_self_eq_true stage), Option.getD_some, hblocks]
    have hmap : tasks.map (SourceTask.tagged place) =
        (tasks.map SourceTask.rows).map (fun rows => rows.map (fun r => (place r, r))) := by
      rw [List.map_map]
      rfl
    rw [hof, hread, hmap, readTarget_map, hrows, List.flatMap_def]
  · simp only [hrows]
    exact Dealing.deal_perm (fun r _ => hrange (keyFn r))
  · intro b hb
    rw [hblocks] at hb
    obtain ⟨t, ht, hb⟩ := List.mem_flatMap.mp hb
    exact (htasks t ht).2 b hb

section Examples

/-- Two tasks with rows `{"a": 0}`, `{"a": 1}` and `{"a": 2}`, dealt to two targets by `a % 2`. -/
def twoTasks : List (SourceTask ℚ) :=
  [⟨0, [OrderedDict.ofList [("a", .int 0)], OrderedDict.ofList [("a", .int 1)]]⟩,
    ⟨1, [OrderedDict.ofList [("a", .int 2)]]⟩]

/-- The parity of an integer key. -/
def parity : Option (Value ℚ) → ℕ
  | some (.int i) => if i % 2 = 0 then 0 else 1
  | _ => 0

theorem shuffle_isStablePartition_twoTasks :
    ∃ results disk', runWriters "shuffle" 0 (fun r => .ok (parity (r.get? "a"))) twoTasks.reverse
        (fun _ => none) = (.ok results, disk') ∧
      (∀ p < 2, readShuffleBlocks disk'
          ((ShuffleManager.registerBlocks OrderedDict.empty 0
            (blocksInOrder twoTasks results)).blocksFor 0 p) =
        .ok (twoTasks.flatMap (fun t => t.rows.filter (fun r => parity (r.get? "a") = p)))) ∧
      ((List.range 2).flatMap (fun p =>
        twoTasks.flatMap (fun t => t.rows.filter (fun r => parity (r.get? "a") = p)))).Perm
        (twoTasks.flatMap SourceTask.rows) ∧
      ∀ b ∈ blocksInOrder twoTasks results, CountsRows disk' b := by
  have hrange : ∀ k, parity k < 2 := by
    intro k
    unfold parity
    split
    · split <;> decide
    · decide
  exact shuffle_isStablePartition (by decide) (List.reverse_perm twoTasks) hrange "shuffle" 0 _ _

end Examples

end MiniSpark
