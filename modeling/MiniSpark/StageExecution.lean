import Mathlib.Data.List.Zip
import MiniSpark.TaskExecution

/-!
# A stage whose inputs are intact runs in one batch

The tasks of a stage write files of their own, so each of them still finds its
inputs, and every task succeeds at its first attempt. The statements hold for any
world that contains a disk on which each task is executed; files in a given set of
lost paths may change at any moment, as long as no task of the stage reads them.
-/
namespace MiniSpark

variable {F : Type} [PyRuntime F] [PyHost F] {W : Type}

/-- Running a task executes it on the disk of the world, up to lost files. -/
def Executes (s : Scheduler F W) (disk : W → Disk F) (lost : Path → Prop) : Prop :=
  ∀ task attempt w, ∃ d : Disk F, (∀ p, ¬ lost p → d p = disk w p) ∧
    (s.runTask task attempt w).1 = (executeTask task attempt d).1 ∧
    disk (s.runTask task attempt w).2 = (executeTask task attempt d).2

/-- The files of tasks that have not started. -/
def FutureFile (root : String) (next : ℕ) (path : Path) : Prop :=
  ∃ stage task, next ≤ task ∧ TaskFile root stage task path

/-- Apart from lost files and files of tasks from `next` on, nothing has changed. -/
def AgreeBelow (root : String) (lost : Path → Prop) (next : ℕ) (d d' : Disk F) : Prop :=
  ∀ p, ¬ lost p → ¬ FutureFile root next p → d' p = d p

namespace AgreeBelow

variable {root : String} {lost : Path → Prop} {next : ℕ} {d d' d'' : Disk F}

theorem refl (d : Disk F) : AgreeBelow root lost next d d := fun _ _ _ => rfl

theorem trans (h : AgreeBelow root lost next d d') (h' : AgreeBelow root lost next d' d'') :
    AgreeBelow root lost next d d'' := fun p hp hf => (h' p hp hf).trans (h p hp hf)

end AgreeBelow

section Batch

/-- On every disk that agrees with the given one, the task yields the given rows. -/
def Ready (root : String) (lost : Path → Prop) (next : ℕ) (d : Disk F) (task : Task F)
    (tagged : List (ℕ × Record F)) : Prop :=
  task.shuffleRootDir = some root ∧ next ≤ task.taskId ∧
    ∀ d', AgreeBelow root lost next d d' →
      taskOutput (readStage d' task.shuffleBlocks) task.plan task.partitionId = .ok tagged

/-- A whole batch of successes and the disk it leaves behind. -/
structure BatchYields (lost : Path → Prop) (root : String) (write : Bool) (batch : List (Task F × ℕ))
    (written : Written F) (d : Disk F) (results : List (TaskResult F)) (d' : Disk F) : Prop where
  success : List.Forall₂ (fun e r => r.state = .success ∧ r.taskId = e.1.taskId) batch results
  rows : write = false → results.map TaskResult.rows = written.map (fun w => w.map Prod.snd)
  outputRecords : write = false →
    results.map (fun r => r.metrics.outputRecords) = written.map List.length
  stored : write = true → Stored lost d' (results.flatMap TaskResult.shuffleBlocks) written
  blocks : results.flatMap TaskResult.shuffleBlocks =
    if write then (batch.zip written).flatMap
      (fun p => taskBlocks root p.1.1.stageId p.1.1.taskId p.2) else []
  frame : ∀ p, ¬ lost p → (∀ e ∈ batch, ¬ TaskFile root e.1.stageId e.1.taskId p) → d' p = d p

omit [PyRuntime F] [PyHost F] in
lemma runBatch_cons (s : Scheduler F W) (task : Task F) (attempt : ℕ) (batch : List (Task F × ℕ))
    (w : W) : s.runBatch ((task, attempt) :: batch) w =
      ((s.runTask task attempt w).1 :: (s.runBatch batch (s.runTask task attempt w).2).1,
        (s.runBatch batch (s.runTask task attempt w).2).2) := rfl

omit [PyRuntime F] [PyHost F] in
/-- The parts of a batch run one after the other. -/
lemma runBatch_append (s : Scheduler F W) (batch batch' : List (Task F × ℕ)) (w : W) :
    s.runBatch (batch ++ batch') w = ((s.runBatch batch w).1 ++
      (s.runBatch batch' (s.runBatch batch w).2).1, (s.runBatch batch' (s.runBatch batch w).2).2) := by
  induction batch generalizing w with
  | nil => rfl
  | cons e batch ih =>
      obtain ⟨task, attempt⟩ := e
      rw [List.cons_append, runBatch_cons, runBatch_cons, ih, List.cons_append]

theorem runBatch_yields {s : Scheduler F W} {disk : W → Disk F} {lost : Path → Prop}
    {root : String} (write : Bool) {next : ℕ} {batch : List (Task F × ℕ)} {written : Written F}
    {d₀ : Disk F} {w : W} (hs : Executes s disk lost) (hw : AgreeBelow root lost next d₀ (disk w))
    (hnd : (batch.map (fun e => e.1.taskId)).Nodup)
    (hwrite : ∀ e ∈ batch, e.1.plan.isShuffleWrite = write)
    (hready : List.Forall₂ (fun e tagged => Ready root lost next d₀ e.1 tagged) batch written) :
    BatchYields lost root write batch written (disk w) (s.runBatch batch w).1
      (disk (s.runBatch batch w).2) := by
  induction hready generalizing w with
  | nil =>
      exact ⟨.nil, fun _ => rfl, fun _ => rfl, fun _ => .nil, by simp [Scheduler.runBatch],
        fun _ _ _ => rfl⟩
  | @cons e tagged batch written he hrest ih =>
      obtain ⟨task, attempt⟩ := e
      obtain ⟨d, hd, hresult, hdisk⟩ := hs task attempt w
      have hagree : AgreeBelow root lost next d₀ d := hw.trans (fun p hp _ => hd p hp)
      have hy := executeTask_yields lost attempt he.1 (he.2.2 d hagree)
      have hstep : AgreeBelow root lost next d₀ (disk (s.runTask task attempt w).2) := by
        refine hagree.trans (fun p _ hp => ?_)
        rw [hdisk]
        exact hy.frame p (fun hfile => hp ⟨task.stageId, task.taskId, he.2.1, hfile⟩)
      rw [List.map_cons, List.nodup_cons] at hnd
      have htail := ih (w := (s.runTask task attempt w).2) hstep hnd.2
        (fun e' he' => hwrite e' (List.mem_cons_of_mem _ he'))
      have hother : ∀ p, TaskFile root task.stageId task.taskId p →
          ∀ e' ∈ batch, ¬ TaskFile root e'.1.stageId e'.1.taskId p := by
        rintro p ⟨t, rfl⟩ e' he' ⟨t', hp⟩
        exact hnd.1 (List.mem_map.mpr ⟨e', he', (blockPath_inj hp).2.1.symm⟩)
      have hplan := hwrite (task, attempt) List.mem_cons_self
      rw [runBatch_cons]
      refine ⟨.cons ⟨?_, ?_⟩ htail.success, fun h => ?_, fun h => ?_, fun h => ?_, ?_, ?_⟩
      · rw [hresult]
        exact hy.success
      · rw [hresult]
        exact hy.taskId
      · rw [List.map_cons, htail.rows h, hresult, hy.rows (hplan.trans h)]
        rfl
      · rw [List.map_cons, htail.outputRecords h, hresult, hy.outputRecords (hplan.trans h)]
        rfl
      · have hhead := hy.stored (hplan.trans h)
        rw [List.flatMap_cons, hresult]
        refine Stored.append (hhead.frame (fun b hb hkept => ?_)) (htail.stored h)
        rw [htail.frame b.path hkept (hother b.path (hy.files b hb)), hdisk]
      · have hblocks := hy.blocks
        rw [hplan] at hblocks
        rw [List.flatMap_cons, hresult, hblocks, htail.blocks]
        split <;> simp [List.flatMap_cons]
      · intro p hkept hp
        rw [htail.frame p hkept (fun e' he' => hp e' (List.mem_cons_of_mem _ he')), hdisk,
          hy.frame p (hp _ List.mem_cons_self), hd p hkept]

namespace BatchYields

variable {lost : Path → Prop} {root : String} {write : Bool} {batch batch' : List (Task F × ℕ)}
  {written written' : Written F} {d d' d'' : Disk F} {results results' : List (TaskResult F)}

/-- The blocks of a batch are files of its tasks. -/
lemma files (h : BatchYields lost root write batch written d results d') :
    ∀ b ∈ results.flatMap TaskResult.shuffleBlocks,
      ∃ e ∈ batch, TaskFile root e.1.stageId e.1.taskId b.path := by
  intro b hb
  rw [h.blocks] at hb
  split at hb
  · obtain ⟨p, hp, hb⟩ := List.mem_flatMap.mp hb
    exact ⟨p.1, (List.of_mem_zip hp).1, taskBlocks_file b hb⟩
  · cases hb

/-- What a batch has yielded stays while its files stay. -/
lemma settled (h : BatchYields lost root write batch written d results d') (d'' : Disk F)
    (hd : ∀ e ∈ batch, ∀ p, TaskFile root e.1.stageId e.1.taskId p → ¬ lost p → d'' p = d' p) :
    BatchYields lost root write batch written d'' results d'' where
  success := h.success
  rows := h.rows
  outputRecords := h.outputRecords
  stored hw := (h.stored hw).frame (fun b hb hkept => by
    obtain ⟨e, he, hfile⟩ := h.files b hb
    exact hd e he b.path hfile hkept)
  blocks := h.blocks
  frame _ _ _ := rfl

/-- Batches that have yielded side by side. -/
lemma append (h : BatchYields lost root write batch written d results d)
    (h' : BatchYields lost root write batch' written' d results' d)
    (hlen : batch.length = written.length) :
    BatchYields lost root write (batch ++ batch') (written ++ written') d (results ++ results') d
    where
  success := List.rel_append h.success h'.success
  rows hw := by simp [h.rows hw, h'.rows hw]
  outputRecords hw := by simp [h.outputRecords hw, h'.outputRecords hw]
  stored hw := by
    rw [List.flatMap_append]
    exact (h.stored hw).append (h'.stored hw)
  blocks := by
    rw [List.flatMap_append, h.blocks, h'.blocks, List.zip_append hlen, List.flatMap_append]
    split <;> simp
  frame _ _ _ := rfl

/-- A batch of one task, whatever blocks it carried. -/
lemma of_yields {task : Task F} {tagged : List (ℕ × Record F)} {result : TaskResult F}
    (h : Yields lost root task tagged d result d') {e : Task F × ℕ}
    (hid : task.taskId = e.1.taskId) (hstage : task.stageId = e.1.stageId) :
    BatchYields lost root task.plan.isShuffleWrite [e] [tagged] d' [result] d' where
  success := .cons ⟨h.success, h.taskId.trans hid⟩ .nil
  rows hw := by simp [h.rows hw]
  outputRecords hw := by simp [h.outputRecords hw]
  stored hw := by
    rw [List.flatMap_singleton]
    exact h.stored hw
  blocks := by
    rw [List.flatMap_singleton, h.blocks, hid, hstage]
    simp
  frame _ _ _ := rfl

end BatchYields

end Batch

section Completion

variable {s : Scheduler F W}
  {recover : Task F → ℕ → RunState W → Except RunError (Option (Task F) × RunState W)}

omit [PyRuntime F] [PyHost F] in
lemma settle_success {progress : Progress F} {st : RunState W} {e : Task F × ℕ}
    {result : TaskResult F} (h : result.state = .success) :
    s.settle recover (progress, st) (e, result) =
      .ok ({ progress with done := progress.done.set e.1.taskId result }, st) := by
  simp [Scheduler.settle, Scheduler.tryRecover, h]

/-- Record every result under the id of its task. -/
def recordAll (entries : List ((Task F × ℕ) × TaskResult F)) (done : OrderedDict ℕ (TaskResult F)) :
    OrderedDict ℕ (TaskResult F) :=
  entries.foldl (fun done p => done.set p.1.1.taskId p.2) done

omit [PyRuntime F] [PyHost F] in
/-- Results recorded under ids of their own are found under them. -/
lemma resultOf_ofList {tasks : List (Task F)} {results : List (TaskResult F)}
    {pairs : List (ℕ × TaskResult F)} (hnd : (pairs.map Prod.fst).Nodup)
    (h : List.Forall₂ (fun task r => (task.taskId, r) ∈ pairs) tasks results) :
    tasks.mapM (Scheduler.resultOf (OrderedDict.ofList pairs)) = .ok results := by
  refine ExceptList.mapM_eq_ok.mpr (h.imp (fun task r hmem => ?_))
  rw [Scheduler.resultOf, OrderedDict.get?_ofList_of_mem hnd hmem]

omit [PyRuntime F] [PyHost F] in
lemma settle_all_success {batch : List (Task F × ℕ)} {results : List (TaskResult F)}
    {progress : Progress F} {st : RunState W} (hlen : batch.length = results.length)
    (h : ∀ r ∈ results, r.state = .success) :
    (batch.zip results).foldlM (s.settle recover) (progress, st) =
      .ok (⟨progress.pending, recordAll (batch.zip results) progress.done,
        progress.retriedTaskIds⟩, st) := by
  induction batch generalizing results progress with
  | nil => rfl
  | cons e batch ih =>
      cases results with
      | nil => cases hlen
      | cons r results =>
          rw [List.zip_cons_cons, List.foldlM_cons, settle_success (h r List.mem_cons_self),
            ExceptList.bind_ok, ih (by simpa using hlen)
              (fun r' hr' => h r' (List.mem_cons_of_mem _ hr'))]
          rfl

section Loop

omit [PyRuntime F] [PyHost F]

variable (s : Scheduler F W)
  (recover : Task F → ℕ → RunState W → Except RunError (Option (Task F) × RunState W))

lemma loop_done (rounds : ℕ) {progress : Progress F} (st : RunState W) (h : progress.pending = []) :
    s.loop recover rounds progress st = .ok (progress, st) := by
  rw [Scheduler.loop.eq_def]
  simp only [h, if_true]

lemma loop_zero {progress : Progress F} (st : RunState W) (h : progress.pending ≠ []) :
    s.loop recover 0 progress st = .error .outOfFuel := by
  rw [Scheduler.loop.eq_def]
  simp only [h, if_false]

/-- One round: a batch, its results settled one after the other, then the rest. -/
lemma loop_succ (rounds : ℕ) {progress : Progress F} (st : RunState W) (h : progress.pending ≠ []) :
    s.loop recover (rounds + 1) progress st = (do
      let (progress', st') ←
        (progress.pending.zip (s.runBatch progress.pending st.world).1).foldlM (s.settle recover)
          ({ progress with pending := [] },
            { st with world := (s.runBatch progress.pending st.world).2 })
      s.loop recover rounds progress' st') := by
  rw [Scheduler.loop.eq_def]
  simp only [h, if_false]

end Loop

omit [PyRuntime F] [PyHost F] in
/-- One task left that succeeds ends the loop. -/
lemma loop_last (s : Scheduler F W)
    (recover : Task F → ℕ → RunState W → Except RunError (Option (Task F) × RunState W))
    (rounds : ℕ) (task : Task F) {attempt : ℕ} {done : OrderedDict ℕ (TaskResult F)}
    {retried : List ℕ} {st : RunState W}
    (h : (s.runTask task attempt st.world).1.state = .success) :
    s.loop recover (rounds + 1) ⟨[(task, attempt)], done, retried⟩ st =
      .ok (⟨[], done.set task.taskId (s.runTask task attempt st.world).1, retried⟩,
        { st with world := (s.runTask task attempt st.world).2 }) := by
  rw [loop_succ s recover rounds st (by simp)]
  simp only [Scheduler.runBatch, List.zip_cons_cons, List.zip_nil_right,
    List.foldlM_cons, List.foldlM_nil, settle_success h, ExceptList.bind_ok, ExceptList.pure_eq_ok]
  exact loop_done s recover rounds _ rfl

omit [PyRuntime F] [PyHost F] in
/-- A batch of successes ends the loop. -/
lemma loop_of_success (s : Scheduler F W)
    (recover : Task F → ℕ → RunState W → Except RunError (Option (Task F) × RunState W))
    (rounds : ℕ) {batch : List (Task F × ℕ)} (st : RunState W)
    (hlen : batch.length = (s.runBatch batch st.world).1.length)
    (h : ∀ r ∈ (s.runBatch batch st.world).1, r.state = .success) :
    s.loop recover (rounds + 1) ⟨batch, OrderedDict.empty, []⟩ st =
      .ok (⟨[], recordAll (batch.zip (s.runBatch batch st.world).1) OrderedDict.empty, []⟩,
        { st with world := (s.runBatch batch st.world).2 }) := by
  by_cases hb : batch = []
  · subst hb
    rw [loop_done s recover _ st rfl]
    simp [Scheduler.runBatch, recordAll]
  · rw [loop_succ s recover rounds st hb, settle_all_success hlen h, ExceptList.bind_ok]
    exact loop_done s recover rounds _ rfl

omit [PyRuntime F] [PyHost F] in
/-- Recording results sets the entries of the dictionary one after the other. -/
lemma recordAll_ofList (entries : List ((Task F × ℕ) × TaskResult F))
    (pairs : List (ℕ × TaskResult F)) : recordAll entries (OrderedDict.ofList pairs) =
      OrderedDict.ofList (pairs ++ entries.map (fun p => (p.1.1.taskId, p.2))) := by
  rw [recordAll, OrderedDict.ofList, OrderedDict.ofList, List.foldl_append, List.foldl_map]

omit [PyRuntime F] [PyHost F] in
lemma recordAll_zip (tasks : List (Task F)) (results : List (TaskResult F))
    (pairs : List (ℕ × TaskResult F)) :
    recordAll ((tasks.map (fun t => (t, 0))).zip results) (OrderedDict.ofList pairs) =
      OrderedDict.ofList (pairs ++ (tasks.map Task.taskId).zip results) := by
  rw [recordAll_ofList, List.zip_map_left, List.zip_map_left, List.map_map]
  rfl

omit [PyRuntime F] [PyHost F] in
lemma forall₂_mem_zip {tasks : List (Task F)} {results : List (TaskResult F)}
    (hlen : tasks.length = results.length) :
    List.Forall₂ (fun t r => (t.taskId, r) ∈ (tasks.map Task.taskId).zip results) tasks results := by
  refine List.forall₂_iff_zip.mpr ⟨hlen, fun {t r} htr => ?_⟩
  rw [List.zip_map_left]
  exact List.mem_map.mpr ⟨(t, r), htr, rfl⟩

omit [PyRuntime F] [PyHost F] in
/-- The results are found under their task ids, in task order. -/
lemma resultOf_zip {tasks : List (Task F)} {results : List (TaskResult F)}
    (hnd : (tasks.map Task.taskId).Nodup) (hlen : tasks.length = results.length) :
    tasks.mapM (Scheduler.resultOf (recordAll ((tasks.map (fun t => (t, 0))).zip results)
      OrderedDict.empty)) = .ok results := by
  have hrecorded := recordAll_zip tasks results []
  rw [List.nil_append] at hrecorded
  refine (congrArg (fun done => tasks.mapM (Scheduler.resultOf done)) hrecorded).trans ?_
  exact resultOf_ofList (by rwa [List.map_fst_zip (by simp [hlen])]) (forall₂_mem_zip hlen)

omit [PyRuntime F] [PyHost F] in
/-- The same when one task is recorded after all others. -/
lemma resultOf_retried {before after : List (Task F)} {task : Task F}
    {results results' : List (TaskResult F)} {result : TaskResult F}
    (hnd : ((before ++ task :: after).map Task.taskId).Nodup) (hlen : before.length = results.length)
    (hlen' : after.length = results'.length) :
    (before ++ task :: after).mapM (Scheduler.resultOf
      ((recordAll ((after.map (fun t => (t, 0))).zip results')
        (recordAll ((before.map (fun t => (t, 0))).zip results) OrderedDict.empty)).set
          task.taskId result)) = .ok (results ++ result :: results') := by
  have hempty : (OrderedDict.empty : OrderedDict ℕ (TaskResult F)) = OrderedDict.ofList [] := rfl
  have hset : ∀ pairs : List (ℕ × TaskResult F), (OrderedDict.ofList pairs).set task.taskId result =
      OrderedDict.ofList (pairs ++ [(task.taskId, result)]) := by
    intro pairs
    rw [OrderedDict.ofList, OrderedDict.ofList, List.foldl_append]
    rfl
  rw [hempty, recordAll_zip, recordAll_zip, hset, List.nil_append]
  refine resultOf_ofList ?_ (List.rel_append ?_ (.cons (by simp) ?_))
  · rw [List.map_append, List.map_append, List.map_fst_zip (by simp [hlen]),
      List.map_fst_zip (by simp [hlen']), List.append_assoc]
    rw [List.map_append, List.map_cons] at hnd
    refine (List.Perm.nodup_iff (List.Perm.append_left _ ?_)).mp hnd
    exact (List.perm_append_singleton _ _).symm
  · exact (forall₂_mem_zip hlen).imp (fun t r h => by simp [h])
  · exact (forall₂_mem_zip hlen').imp (fun t r h => by simp [h])

omit [PyRuntime F] [PyHost F] in
theorem runToCompletion_of_success {rounds : ℕ} {stage : Stage F} {st : RunState W}
    {batch : List (Task F × ℕ)} (hbatch : batch = (s.makeTasks stage st).map (fun t => (t, 0)))
    (hok : List.Forall₂ (fun e r => r.state = .success ∧ r.taskId = e.1.taskId) batch
      (s.runBatch batch st.world).1) :
    s.runToCompletion recover (rounds + 1) stage st =
      .ok (((s.runBatch batch st.world).1, 0), { st with
        nextTaskId := st.nextTaskId + stage.numPartitions
        world := (s.runBatch batch st.world).2 }) := by
  subst hbatch
  have hlen := hok.length_eq
  have hsuccess : ∀ r ∈ (s.runBatch ((s.makeTasks stage st).map (fun t => (t, 0))) st.world).1,
      r.state = .success := by
    intro r hr
    obtain ⟨i, hi, rfl⟩ := List.mem_iff_getElem.mp hr
    exact (hok.get (by omega) hi).1
  have hnd : ((s.makeTasks stage st).map Task.taskId).Nodup := by
    rw [Scheduler.makeTasks, List.map_map]
    exact (List.nodup_range).map (fun a b hab => by simpa using hab)
  rw [Scheduler.runToCompletion]
  have hloop := loop_of_success s recover rounds
    { st with nextTaskId := st.nextTaskId + stage.numPartitions } hlen hsuccess
  simp only [hloop, ExceptList.bind_ok, resultOf_zip hnd (by simpa using hlen)]
  have hnone : ((s.runBatch ((s.makeTasks stage st).map (fun t => (t, 0))) st.world).1.filter
      (fun r => r.state = .failed)) = [] := by
    rw [List.filter_eq_nil_iff]
    intro r hr
    simp [hsuccess r hr]
  rw [hnone]
  rfl

end Completion

section Stages

/-- The blocks a stage registers when its tasks are numbered from `first`. -/
def stageBlocks (root : String) (stageId first : ℕ) (written : Written F) :
    List ShuffleBlockMeta :=
  (written.zipIdx first).flatMap (fun p => taskBlocks root stageId p.2 p.1)

lemma stageBlocks_eq (s : Scheduler F W) (stage : Stage F) (st : RunState W) {written : Written F}
    (hlen : written.length = stage.numPartitions) :
    (((s.makeTasks stage st).map (fun t => (t, 0))).zip written).flatMap
        (fun p => taskBlocks s.rootDir p.1.1.stageId p.1.1.taskId p.2) =
      stageBlocks s.rootDir stage.stageId st.nextTaskId written := by
  rw [stageBlocks, List.zipIdx_eq_zip_range', hlen, List.range'_eq_map_range, Scheduler.makeTasks,
    List.map_map, List.zip_map_left, List.zip_map_right, List.flatMap_map, List.flatMap_map,
    ← List.zip_swap (List.range stage.numPartitions), List.flatMap_map]
  rfl

/-- Blocks of a stage are files of its tasks. -/
lemma stageBlocks_file {root : String} {stageId first : ℕ} {written : Written F} :
    ∀ b ∈ stageBlocks root stageId first written, ∃ task, first ≤ task ∧
      task < first + written.length ∧ TaskFile root stageId task b.path := by
  intro b hb
  obtain ⟨p, hp, hb⟩ := List.mem_flatMap.mp hb
  have hidx := List.mem_zipIdx hp
  exact ⟨p.2, hidx.1, by omega, taskBlocks_file b hb⟩

/-- Registered blocks are files of tasks that have started. -/
def Placed (root : String) (next : ℕ) (manager : ShuffleManager) : Prop :=
  ∀ i, ∀ b ∈ (manager.get? i).getD [], ∃ task, task < next ∧ TaskFile root i task b.path

omit [PyRuntime F] [PyHost F] in
lemma Placed.not_future {root : String} {next : ℕ} {manager : ShuffleManager}
    (h : Placed root next manager) {i : ℕ} {b : ShuffleBlockMeta}
    (hb : b ∈ (manager.get? i).getD []) : ¬ FutureFile root next b.path := by
  rintro ⟨stage, task, hle, t, hpath⟩
  obtain ⟨task', hlt, t', hpath'⟩ := h i b hb
  have := (blockPath_inj (hpath.symm.trans hpath')).2.1
  omega

/-- What the stages have stored survives tasks that have not started. -/
lemma Represents.frame {root : String} {lost : Path → Prop} {next : ℕ} {d d' : Disk F}
    {manager : ShuffleManager} {outs : List (Written F)} (h : Represents lost d manager outs)
    (hp : Placed root next manager) (hd : AgreeBelow root lost next d d') :
    Represents lost d' manager outs :=
  fun i w hw => (h i w hw).frame (fun b hb hkept => hd b.path hkept (hp.not_future hb))

/-- A new task of a stage, none of whose inputs is lost. -/
lemma Represents.ready {root : String} {lost : Path → Prop} {next : ℕ} {d : Disk F}
    {manager : ShuffleManager} {outs : List (Written F)} {task : Task F}
    {read : ℕ → ℕ → Py (List (Record F))} {tagged : List (ℕ × Record F)}
    (h : Represents lost d manager outs) (hp : Placed root next manager)
    (hnd : task.plan.readIds.Nodup) (hread : ReadsFrom outs task.plan read)
    (hkept : InputKept lost manager task.plan task.partitionId)
    (htag : taskOutput read task.plan task.partitionId = .ok tagged)
    (hroot : task.shuffleRootDir = some root) (hnext : next ≤ task.taskId)
    (hblocks : task.shuffleBlocks = resolveShuffleBlocks task.plan task.partitionId manager) :
    Ready root lost next d task tagged := by
  refine ⟨hroot, hnext, fun d' hd' => (taskOutput_congr (fun i hi => ?_)).trans htag⟩
  rw [hblocks]
  exact readStage_eq (h.frame hp hd') hkept hnd hread hi

/-- A stage whose inputs are intact succeeds in one batch. -/
theorem runStage_yields {s : Scheduler F W} {disk : W → Disk F} {lost : Path → Prop}
    (rounds depth : ℕ) {stage : Stage F} (recomputed : Bool) {st : RunState W}
    {outs : List (Written F)} {written : Written F} {read : ℕ → ℕ → Py (List (Record F))}
    (hs : Executes s disk lost) (hrep : Represents lost (disk st.world) st.manager outs)
    (hplaced : Placed s.rootDir st.nextTaskId st.manager) (hnd : stage.plan.readIds.Nodup)
    (hread : ReadsFrom outs stage.plan read)
    (hkept : ∀ pid < stage.numPartitions, InputKept lost st.manager stage.plan pid)
    (htasks : (List.range stage.numPartitions).mapM (taskOutput read stage.plan) = .ok written) :
    ∃ results w', w' = (s.runBatch ((s.makeTasks stage st).map (fun t => (t, 0))) st.world).2 ∧
      s.runStage (rounds + 1) (depth + 1) stage recomputed st =
        .ok (results, Scheduler.finishStage stage recomputed results 0
          { st with nextTaskId := st.nextTaskId + stage.numPartitions, world := w' }) ∧
      BatchYields lost s.rootDir stage.plan.isShuffleWrite
        ((s.makeTasks stage st).map (fun t => (t, 0))) written (disk st.world) results (disk w') := by
  have hready : List.Forall₂ (fun (e : Task F × ℕ) tagged =>
      Ready s.rootDir lost st.nextTaskId (disk st.world) e.1 tagged)
      ((s.makeTasks stage st).map (fun t => (t, 0))) written := by
    rw [Scheduler.makeTasks, List.map_map, List.forall₂_map_left_iff]
    refine ExceptList.forall₂_imp_of_mem (ExceptList.mapM_eq_ok.mp htasks)
      (fun pid hpid tagged _ htag => ?_)
    exact hrep.ready hplaced hnd hread (hkept pid (List.mem_range.mp hpid)) htag rfl
      (Nat.le_add_right _ _) rfl
  have hids : (((s.makeTasks stage st).map (fun t => (t, 0))).map
      (fun e : Task F × ℕ => e.1.taskId)).Nodup := by
    rw [Scheduler.makeTasks, List.map_map, List.map_map]
    exact (List.nodup_range).map (fun a b hab => by simpa using hab)
  have hbatch := runBatch_yields stage.plan.isShuffleWrite hs
    (AgreeBelow.refl (disk st.world)) hids (by simp [Scheduler.makeTasks]) hready
  refine ⟨_, _, rfl, ?_, hbatch⟩
  rw [Scheduler.runStage]
  simp only [runToCompletion_of_success rfl hbatch.success, ExceptList.bind_ok]
  rfl

end Stages

end MiniSpark
