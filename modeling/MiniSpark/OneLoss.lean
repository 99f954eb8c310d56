import MiniSpark.AttemptOutcomes
import MiniSpark.StuckTasks

/-!
# A loss that happens once

Before one attempt of a run some files are deleted or overwritten, and nothing else goes
wrong. From then on a task that carries a lost block reports the stage that wrote it and
writes nothing; a task that carries none reads what it should.
-/
namespace MiniSpark

variable {F : Type} [PyRuntime F] [PyHost F]

section Worlds

/-- What a loss does to each file: nothing, or it leaves no file or other bytes there. -/
abbrev Loss (F : Type) [PyRuntime F] [PyHost F] := Path → Option (Option (PyHost.Bytes F))

def Lost (loss : Loss F) (path : Path) : Prop := ∃ content, loss path = some content

/-- The files after the loss. -/
def Disk.lose (disk : Disk F) (loss : Loss F) : Disk F := fun path => (loss path).getD (disk path)

/-- The files the next attempt finds: the loss happens before attempt number `t`. -/
def FaultyWorld.seen (t : ℕ) (loss : Loss F) (w : FaultyWorld F) : Disk F :=
  if w.attempts = t then w.disk.lose loss else w.disk

/-- `execute_task` in a run with one loss. -/
def lossyTask (t : ℕ) (loss : Loss F) (task : Task F) (attempt : ℕ) (w : FaultyWorld F) :
    TaskResult F × FaultyWorld F :=
  let outcome := executeTask task attempt (w.seen t loss)
  (outcome.1, ⟨outcome.2, w.attempts + 1⟩)

variable {t : ℕ} {loss : Loss F} {w : FaultyWorld F} {root : String}

lemma seen_of_kept {path : Path} (h : ¬ Lost loss path) : w.seen t loss path = w.disk path := by
  unfold FaultyWorld.seen
  split
  · cases hpath : loss path with
    | none => simp [Disk.lose, hpath]
    | some content => exact absurd ⟨content, hpath⟩ h
  · rfl

/-- Tasks are executed on the files as they are, up to the loss. -/
lemma executes_lossyTask {s : Scheduler F (FaultyWorld F)} (hs : s.runTask = lossyTask t loss) :
    Executes s FaultyWorld.disk (Lost loss) := by
  intro task attempt w
  exact ⟨w.seen t loss, fun p hp => seen_of_kept hp, by rw [hs]; rfl, by rw [hs]; rfl⟩

/-- After the loss the lost files are what the loss has made of them. -/
def Struck (t : ℕ) (loss : Loss F) (w : FaultyWorld F) : Prop :=
  t < w.attempts → ∀ path content, loss path = some content → w.disk path = content

lemma Struck.seen (h : Struck t loss w) (ht : t ≤ w.attempts) {path : Path}
    {content : Option (PyHost.Bytes F)} (hpath : loss path = some content) :
    w.seen t loss path = content := by
  unfold FaultyWorld.seen
  by_cases heq : w.attempts = t
  · rw [if_pos heq, Disk.lose, hpath, Option.getD_some]
  · rw [if_neg heq]
    exact h (by omega) path content hpath

/-- The lost files are files of the stage, of tasks below `n`. -/
def LosesOnly (loss : Loss F) (root : String) (missing n : ℕ) : Prop :=
  ∀ path, Lost loss path → ∃ task < n, TaskFile root missing task path

/-- No later task owns a lost file. -/
lemma LosesOnly.not_later {missing n : ℕ} (h : LosesOnly loss root missing n) {path : Path}
    (hpath : Lost loss path) {stage task : ℕ} (hn : n ≤ task) : ¬ TaskFile root stage task path := by
  rintro ⟨target, htarget⟩
  obtain ⟨task', hlt, target', htarget'⟩ := h path hpath
  have := (blockPath_inj (htarget.symm.trans htarget')).2.1
  omega

/-- No task of another stage owns a lost file. -/
lemma LosesOnly.not_other {missing n : ℕ} (h : LosesOnly loss root missing n) {path : Path}
    (hpath : Lost loss path) {stage task : ℕ} (hne : stage ≠ missing) :
    ¬ TaskFile root stage task path := by
  rintro ⟨target, htarget⟩
  obtain ⟨task', -, target', htarget'⟩ := h path hpath
  exact hne (blockPath_inj (htarget.symm.trans htarget')).1

lemma LosesOnly.mono {missing n m : ℕ} (h : LosesOnly loss root missing n) (hnm : n ≤ m) :
    LosesOnly loss root missing m := by
  intro path hpath
  obtain ⟨task, hlt, hfile⟩ := h path hpath
  exact ⟨task, by omega, hfile⟩

/-- An attempt of a later task leaves the lost files lost. -/
lemma Struck.attempt {missing n : ℕ} {task : Task F} (attempt : ℕ)
    (hloses : LosesOnly loss root missing n) (hroot : task.shuffleRootDir = some root)
    (hn : n ≤ task.taskId) (h : Struck t loss w) :
    Struck t loss (lossyTask t loss task attempt w).2 := by
  intro ht path content hpath
  have ht : t < w.attempts + 1 := ht
  show (executeTask task attempt (w.seen t loss)).2 path = content
  rw [executeTask_unchanged (fun root' hroot' => ?_)]
  · exact h.seen (by omega) hpath
  · obtain rfl := Option.some.inj (hroot.symm.trans hroot')
    exact hloses.not_later ⟨content, hpath⟩ hn

/-- Every attempt counts. -/
lemma attempts_runBatch {s : Scheduler F (FaultyWorld F)} (hs : s.runTask = lossyTask t loss)
    (batch : List (Task F × ℕ)) (w : FaultyWorld F) :
    (s.runBatch batch w).2.attempts = w.attempts + batch.length := by
  induction batch generalizing w with
  | nil => rfl
  | cons e batch ih =>
      obtain ⟨task, attempt⟩ := e
      rw [runBatch_cons, ih, hs, List.length_cons, lossyTask]
      simp only
      omega

/-- A batch of later tasks leaves the lost files lost. -/
lemma Struck.runBatch {s : Scheduler F (FaultyWorld F)} (hs : s.runTask = lossyTask t loss)
    {missing n : ℕ} (hloses : LosesOnly loss root missing n) {batch : List (Task F × ℕ)}
    (hbatch : ∀ e ∈ batch, e.1.shuffleRootDir = some root ∧ n ≤ e.1.taskId)
    (h : Struck t loss w) : Struck t loss (s.runBatch batch w).2 := by
  induction batch generalizing w with
  | nil => exact h
  | cons e batch ih =>
      obtain ⟨task, attempt⟩ := e
      obtain ⟨⟨hroot, hn⟩, hrest⟩ := List.forall_mem_cons.mp hbatch
      rw [runBatch_cons]
      refine ih hrest ?_
      rw [hs]
      exact h.attempt attempt hloses hroot hn

/-- The worlds of a run of the stage `own` with tasks numbered from `n` on: the loss is due,
lost files are lost, and all others are those of `d`, apart from files of these tasks. -/
structure AfterLoss (t : ℕ) (loss : Loss F) (root : String) (own n : ℕ) (d : Disk F)
    (w : FaultyWorld F) : Prop where
  due : t ≤ w.attempts
  struck : Struck t loss w
  agree : ∀ path, ¬ Lost loss path → (∀ task, n ≤ task → ¬ TaskFile root own task path) →
    w.disk path = d path

namespace AfterLoss

variable {own n : ℕ} {d : Disk F}

lemma seen_eq (h : AfterLoss t loss root own n d w) {path : Path} (hkept : ¬ Lost loss path)
    (hother : ∀ task, n ≤ task → ¬ TaskFile root own task path) :
    w.seen t loss path = d path := (seen_of_kept hkept).trans (h.agree path hkept hother)

lemma agreeBelow (h : AfterLoss t loss root own n d w) :
    AgreeBelow root (Lost loss) n d (w.seen t loss) :=
  fun _ hkept hfuture => h.seen_eq hkept (fun task hn hfile => hfuture ⟨own, task, hn, hfile⟩)

lemma agreeBelow_disk (h : AfterLoss t loss root own n d w) :
    AgreeBelow root (Lost loss) n d w.disk :=
  fun path hkept hfuture => h.agree path hkept (fun task hn hfile => hfuture ⟨own, task, hn, hfile⟩)

/-- Attempts of the tasks of the stage keep to these worlds. -/
lemma attempt {missing m : ℕ} {task : Task F} (attempt : ℕ) (hloses : LosesOnly loss root missing m)
    (hroot : task.shuffleRootDir = some root) (hstage : task.stageId = own) (hn : n ≤ task.taskId)
    (hm : m ≤ n) (h : AfterLoss t loss root own n d w) :
    AfterLoss t loss root own n d (lossyTask t loss task attempt w).2 where
  due := Nat.le_succ_of_le h.due
  struck := h.struck.attempt attempt hloses hroot (by omega)
  agree path hkept hother := by
    show (executeTask task attempt (w.seen t loss)).2 path = d path
    rw [executeTask_unchanged (fun root' hroot' => ?_), h.seen_eq hkept hother]
    obtain rfl := Option.some.inj (hroot.symm.trans hroot')
    rw [hstage]
    exact hother task.taskId hn

end AfterLoss

end Worlds

section Reading

variable {loss : Loss F} {disk : Disk F}

/-- Other bytes in the place of a block fail its check. -/
def FailsCheck (loss : Loss F) (blocks : List ShuffleBlockMeta) : Prop :=
  ∀ b ∈ blocks, ∀ raw, loss b.path = some (some raw) → PyHost.md5Hex raw ≠ b.checksum

/-- Blocks one of which is lost cannot be read. -/
lemma readShuffleBlocks_lost {blocks : List ShuffleBlockMeta} {chunks : List (List (Record F))}
    (hholds : List.Forall₂ (Holds (Lost loss) disk) blocks chunks)
    (hlost : ∀ b ∈ blocks, ∀ content, loss b.path = some content → disk b.path = content)
    (hfails : FailsCheck loss blocks) (h : ∃ b ∈ blocks, Lost loss b.path) :
    readShuffleBlocks disk blocks = .error .fileNotFoundError ∨
      readShuffleBlocks disk blocks = .error .shuffleChecksumError := by
  have hparts : blocks.mapM (readBlock disk) = .error .fileNotFoundError ∨
      blocks.mapM (readBlock disk) = .error .shuffleChecksumError := by
    induction hholds with
    | nil => simp at h
    | @cons b rows blocks chunks hb _ ih =>
        rw [List.mapM_cons]
        cases hloss : loss b.path with
        | some content =>
            have hdisk := hlost b List.mem_cons_self content hloss
            cases content with
            | none =>
                left
                rw [readBlock, hdisk]
                rfl
            | some raw =>
                right
                rw [readBlock, hdisk]
                simp only [if_pos (hfails b List.mem_cons_self raw hloss), ExceptList.bind_error]
        | none =>
            have hkept : ¬ Lost loss b.path := by
              rintro ⟨content, hcontent⟩
              rw [hloss] at hcontent
              cases hcontent
            rw [hb.readBlock hkept, ExceptList.bind_ok]
            have hrest := ih (fun b' hb' => hlost b' (List.mem_cons_of_mem _ hb'))
              (fun b' hb' => hfails b' (List.mem_cons_of_mem _ hb')) (by
              obtain ⟨b', hb', hlost'⟩ := h
              rcases List.mem_cons.mp hb' with rfl | hb'
              · exact absurd hlost' hkept
              · exact ⟨b', hb', hlost'⟩)
            rcases hrest with hrest | hrest
            · exact Or.inl (by rw [hrest, ExceptList.bind_error])
            · exact Or.inr (by rw [hrest, ExceptList.bind_error])
  rcases hparts with hparts | hparts
  · exact Or.inl (by rw [readShuffleBlocks, hparts, ExceptList.bind_error])
  · exact Or.inr (by rw [readShuffleBlocks, hparts, ExceptList.bind_error])

/-- An execution that would succeed fails with the error of the one read that fails. -/
theorem executePartition_error {read read' : ℕ → ℕ → Py (List (Record F))} {plan : PhysicalPlan F}
    {pid missing : ℕ} {part : Partition F} {e : PyError}
    (h : executePartition read plan pid = .ok part)
    (hothers : ∀ i ∈ plan.readIds, i ≠ missing → read' i pid = read i pid)
    (hmissing : missing ∈ plan.readIds) (herror : read' missing pid = .error e) :
    executePartition read' plan pid = .error e := by
  induction plan generalizing part with
  | scanExec dataset sourceName => simp [PhysicalPlan.readIds] at hmissing
  | filterExec child condition ih =>
      obtain ⟨parent, hp, -⟩ := ExceptList.bind_eq_ok.mp h
      rw [executePartition, ih hp hothers hmissing, ExceptList.bind_error]
  | projectExec child columns schema ih =>
      obtain ⟨parent, hp, -⟩ := ExceptList.bind_eq_ok.mp h
      rw [executePartition, ih hp hothers hmissing, ExceptList.bind_error]
  | hashAggregateExec child spec ih =>
      obtain ⟨parent, hp, -⟩ := ExceptList.bind_eq_ok.mp h
      rw [executePartition, ih hp hothers hmissing, ExceptList.bind_error]
  | sortExec child spec ih =>
      obtain ⟨parent, hp, -⟩ := ExceptList.bind_eq_ok.mp h
      rw [executePartition, ih hp hothers hmissing, ExceptList.bind_error]
  | exchangeExec child n exprs bc rb ih => cases h
  | shuffleWriteExec child n exprs rb ih => cases h
  | shuffleReadExec stageId schema bc =>
      obtain rfl : missing = stageId := by simpa [PhysicalPlan.readIds] using hmissing
      rw [executePartition, herror, ExceptList.bind_error]
  | hashJoinExec left right lk rk on schema ihl ihr =>
      obtain ⟨l, hl, h⟩ := ExceptList.bind_eq_ok.mp h
      obtain ⟨r, hr, -⟩ := ExceptList.bind_eq_ok.mp h
      have hids : (PhysicalPlan.hashJoinExec left right lk rk on schema).readIds =
          left.readIds ++ right.readIds := by
        rw [PhysicalPlan.readIds, PhysicalPlan.shuffleReads_hashJoinExec, List.map_append]
        rfl
      rw [hids] at hothers hmissing
      have hleft := fun i hi => hothers i (List.mem_append_left _ hi)
      have hright := fun i hi => hothers i (List.mem_append_right _ hi)
      by_cases hin : missing ∈ left.readIds
      · rw [executePartition, ihl hl hleft hin, ExceptList.bind_error]
      · have hsame : executePartition read' left pid = executePartition read left pid :=
          executePartition_congr (fun i hi => hleft i hi (fun heq => hin (heq ▸ hi)))
        rw [executePartition, hsame, hl, ExceptList.bind_ok,
          ihr hr hright ((List.mem_append.mp hmissing).resolve_left hin), ExceptList.bind_error]

/-- A task one of whose reads fails reports it and writes nothing. -/
theorem executeTask_error {read : ℕ → ℕ → Py (List (Record F))} (task : Task F) {missing : ℕ}
    {tagged : List (ℕ × Record F)} {root : String} {e : PyError} (attempt : ℕ)
    (hroot : task.shuffleRootDir = some root)
    (h : taskOutput read task.plan task.partitionId = .ok tagged)
    (hothers : ∀ i ∈ task.plan.readIds, i ≠ missing →
      readStage disk task.shuffleBlocks i task.partitionId = read i task.partitionId)
    (hmissing : missing ∈ task.plan.readIds)
    (herror : readStage disk task.shuffleBlocks missing task.partitionId = .error e) :
    executeTask task attempt disk = (failedResult task.taskId e, disk) := by
  have hbody : runTaskBody task disk = (.error e, disk) := by
    unfold runTaskBody
    split
    · next child n exprs rb hplan =>
        rw [hplan] at h hothers hmissing
        obtain ⟨part, hpart, -⟩ := ExceptList.bind_eq_ok.mp h
        have hchild := executePartition_error hpart hothers hmissing herror
        simp only [executeShuffleWriteTask, shuffleWriteInput, hroot, hchild,
          ExceptList.bind_error]
    · next hplan =>
        have hnot : task.plan.isShuffleWrite = false := by
          unfold PhysicalPlan.isShuffleWrite
          split
          · next heq => exact absurd heq (hplan _ _ _ _)
          · rfl
        rw [taskOutput_of_not_write hnot] at h
        obtain ⟨part, hpart, -⟩ := ExceptList.bind_eq_ok.mp h
        rw [executeNormalTask, executePartition_error hpart hothers hmissing herror,
          ExceptList.bind_error]
  rw [executeTask, hbody]

end Reading

end MiniSpark
