import Mathlib.Data.Nat.Find
import MiniSpark.Dealing
import MiniSpark.OneLoss
import MiniSpark.PlanExecution

/-!
# The stage that reads lost blocks

The tasks of the reading stage carry the blocks registered when they were made. The first
one that misses a block has the stage that wrote it run again and gets the new blocks; the
others keep theirs, and since a stage is recomputed once, no retry helps them.
-/
namespace MiniSpark

variable {F : Type} [PyRuntime F] [PyHost F]

section Recovery

variable {W : Type}

/-- The task of a partition when its stage starts. -/
def Scheduler.taskAt (s : Scheduler F W) (stage : Stage F) (st : RunState W) (pid : ℕ) : Task F :=
  ⟨st.nextTaskId + pid, stage.stageId, pid, stage.plan, some s.rootDir,
    resolveShuffleBlocks stage.plan pid st.manager⟩

/-- The first attempts of some tasks of a stage. -/
def Scheduler.firstAttempts (s : Scheduler F W) (stage : Stage F) (st : RunState W)
    (pids : List ℕ) : List (Task F × ℕ) := pids.map (fun pid => (s.taskAt stage st pid, 0))

omit [PyRuntime F] [PyHost F] in
lemma makeTasks_firstAttempts (s : Scheduler F W) (stage : Stage F) (st : RunState W) :
    (s.makeTasks stage st).map (fun t => (t, 0)) =
      s.firstAttempts stage st (List.range stage.numPartitions) := by
  rw [Scheduler.makeTasks, List.map_map]
  rfl

omit [PyRuntime F] [PyHost F] in
lemma firstAttempts_split (s : Scheduler F W) {stage : Stage F} (st : RunState W)
    {before after : List ℕ} {pid : ℕ}
    (hrange : List.range stage.numPartitions = before ++ pid :: after) :
    s.firstAttempts stage st (List.range stage.numPartitions) = s.firstAttempts stage st before ++
      (s.taskAt stage st pid, 0) :: s.firstAttempts stage st after := by
  rw [hrange, Scheduler.firstAttempts, List.map_append, List.map_cons]
  rfl

/-- `_try_recover_missing_shuffle` inside a run of a stage. -/
def Scheduler.recoverMissing (s : Scheduler F W) (rounds depth : ℕ) (task : Task F) (missing : ℕ)
    (st : RunState W) : Except RunError (Option (Task F) × RunState W) :=
  if missing ∈ st.recomputedStages then .ok (none, st)
  else match s.stagesById.get? missing with
    | none => .ok (none, st)
    | some missingStage => do
        let (_, st') ← s.runStage rounds depth missingStage true
          { st with recomputedStages := st.recomputedStages.insert missing }
        let fresh := resolveShuffleBlocks task.plan task.partitionId st'.manager
        pure (some { task with shuffleBlocks := fresh }, st')

omit [PyRuntime F] [PyHost F] in
lemma runStage_succ (s : Scheduler F W) (rounds depth : ℕ) (stage : Stage F) (recomputed : Bool)
    (st : RunState W) : s.runStage rounds (depth + 1) stage recomputed st = (do
      let ((results, retried), st') ←
        s.runToCompletion (s.recoverMissing rounds depth) rounds stage st
      pure (results, Scheduler.finishStage stage recomputed results retried st')) := rfl

omit [PyRuntime F] [PyHost F] in
/-- A stage is recomputed once. -/
lemma recoverMissing_again (s : Scheduler F W) (rounds depth missing : ℕ) (task : Task F)
    {st : RunState W} (h : missing ∈ st.recomputedStages) :
    s.recoverMissing rounds depth task missing st = .ok (none, st) := if_pos h

end Recovery

section Stricken

/-- One of the blocks that the task of a partition reads from the stage is lost. -/
def LosesInput (loss : Loss F) (manager : ShuffleManager) (missing : ℕ) (isBroadcast : Bool)
    (pid : ℕ) : Prop :=
  ∃ b ∈ manager.blocksFor missing (targetOf isBroadcast pid), Lost loss b.path

/-- A stage is about to read another one, the stage `missing`, after blocks of it are lost. -/
structure Stricken (s : Scheduler F (FaultyWorld F)) (t : ℕ) (loss : Loss F) (missing : ℕ)
    (isBroadcast : Bool) (stage : Stage F) (outs : List (Written F)) (first : ℕ → ℕ)
    (st : RunState (FaultyWorld F)) (read : ℕ → ℕ → Py (List (Record F))) (written : Written F) :
    Prop where
  runs : s.runTask = lossyTask t loss
  reached : Reached s.rootDir FaultyWorld.disk (Lost loss) outs first st
  due : t ≤ st.world.attempts
  struck : Struck t loss st.world
  loses : LosesOnly loss s.rootDir missing st.nextTaskId
  fails : FailsCheck loss ((st.manager.get? missing).getD [])
  reads : (missing, isBroadcast) ∈ stage.plan.shuffleReads
  nodup : stage.plan.readIds.Nodup
  position : stage.stageId = outs.length
  readsFrom : ReadsFrom outs stage.plan read
  tasks : (List.range stage.numPartitions).mapM (taskOutput read stage.plan) = .ok written

variable {s : Scheduler F (FaultyWorld F)} {t : ℕ} {loss : Loss F} {missing : ℕ}
  {isBroadcast : Bool} {stage : Stage F} {outs : List (Written F)} {first : ℕ → ℕ}
  {st : RunState (FaultyWorld F)} {read : ℕ → ℕ → Py (List (Record F))} {written : Written F}
  {w : FaultyWorld F} {d : Disk F}

/-- What finished stages have stored is there for the tasks of a later one. -/
lemma AfterLoss.represents {root : String} {own n next : ℕ} {manager : ShuffleManager}
    (h : AfterLoss t loss root own n d w) (hrep : Represents (Lost loss) d manager outs)
    (hplaced : Placed root next manager) (hown : outs.length ≤ own) :
    Represents (Lost loss) (w.seen t loss) manager outs := by
  intro i written hi
  have hlt := (List.getElem?_eq_some_iff.mp hi).1
  refine (hrep i written hi).frame (fun b hb hkept => ?_)
  obtain ⟨task, -, target, hfile⟩ := hplaced i b hb
  refine h.seen_eq hkept (fun task' _ hfile' => ?_)
  obtain ⟨target', hfile'⟩ := hfile'
  have := (blockPath_inj (hfile.symm.trans hfile')).1
  omega

/-- The tasks of a later stage leave what has been reached as it is. -/
lemma AfterLoss.reached {root : String} {own n : ℕ} {st : RunState (FaultyWorld F)}
    (h : AfterLoss t loss root own n st.world.disk w)
    (hr : Reached root FaultyWorld.disk (Lost loss) outs first st) (hown : outs.length ≤ own) :
    Reached root FaultyWorld.disk (Lost loss) outs first { st with world := w } where
  registered := hr.registered
  unregistered := hr.unregistered
  represents i written hi := by
    have hlt := (List.getElem?_eq_some_iff.mp hi).1
    refine (hr.represents i written hi).frame (fun b hb hkept => ?_)
    obtain ⟨task, -, target, hfile⟩ := hr.placed i b hb
    refine h.agree b.path hkept (fun task' _ hfile' => ?_)
    obtain ⟨target', hfile'⟩ := hfile'
    have := (blockPath_inj (hfile.symm.trans hfile')).1
    omega
  placed := hr.placed

namespace Stricken

variable (h : Stricken s t loss missing isBroadcast stage outs first st read written)

include h

lemma executes : Executes s FaultyWorld.disk (Lost loss) := executes_lossyTask h.runs

/-- The worlds of the run of the stage. -/
lemma start : AfterLoss t loss s.rootDir stage.stageId st.nextTaskId st.world.disk st.world :=
  ⟨h.due, h.struck, fun _ _ _ => rfl⟩

lemma missing_lt : missing < stage.stageId := by
  obtain ⟨w, hw, -⟩ := h.readsFrom _ h.reads
  rw [h.position]
  exact (List.getElem?_eq_some_iff.mp hw).1

/-- A task that loses no block of the stage loses none. -/
lemma inputKept {manager : ShuffleManager} {next pid : ℕ} (hplaced : Placed s.rootDir next manager)
    (hkept : ¬ LosesInput loss manager missing isBroadcast pid) :
    InputKept (Lost loss) manager stage.plan pid := by
  intro p hp b hb hlost
  by_cases heq : p.1 = missing
  · -- the stage is read once
    have hsame : p = (missing, isBroadcast) := by
      have hinj := List.inj_on_of_nodup_map h.nodup hp h.reads heq
      exact hinj
    rw [hsame] at hb
    exact hkept ⟨b, hb, hlost⟩
  · obtain ⟨task, -, hfile⟩ := hplaced p.1 b (List.mem_of_mem_filter hb)
    exact h.loses.not_other hlost heq hfile

lemma taskOutput_at {pid : ℕ} (hpid : pid < stage.numPartitions) :
    ∃ tagged, taskOutput read stage.plan pid = .ok tagged := by
  obtain ⟨tagged, -, htag⟩ := ExceptList.mapM_ok_mem h.tasks (List.mem_range.mpr hpid)
  exact ⟨tagged, htag⟩

/-- A task of the stage whose blocks are kept yields its share, in whatever order the tasks of
the stage run. -/
lemma yields_of_kept {manager : ShuffleManager} {next pid : ℕ} {tagged : List (ℕ × Record F)}
    (hrep : Represents (Lost loss) d manager outs) (hplaced : Placed s.rootDir next manager)
    (hw : AfterLoss t loss s.rootDir stage.stageId st.nextTaskId d w)
    (hkept : InputKept (Lost loss) manager stage.plan pid)
    (htag : taskOutput read stage.plan pid = .ok tagged) (attempt : ℕ) :
    Yields (Lost loss) s.rootDir
      { s.taskAt stage st pid with shuffleBlocks := resolveShuffleBlocks stage.plan pid manager }
      tagged (w.seen t loss)
      (s.runTask { s.taskAt stage st pid with
        shuffleBlocks := resolveShuffleBlocks stage.plan pid manager } attempt w).1
      (s.runTask { s.taskAt stage st pid with
        shuffleBlocks := resolveShuffleBlocks stage.plan pid manager } attempt w).2.disk := by
  rw [h.runs]
  refine executeTask_yields (Lost loss) attempt rfl ((taskOutput_congr (fun i hi => ?_)).trans htag)
  exact readStage_eq (hw.represents hrep hplaced h.position.ge) hkept h.nodup h.readsFrom hi

/-- A task with a lost block reports the stage that wrote it, and writes nothing. -/
lemma misses {pid : ℕ} (hrep : Represents (Lost loss) d st.manager outs)
    (hpid : pid < stage.numPartitions)
    (hloses : LosesInput loss st.manager missing isBroadcast pid)
    (hw : AfterLoss t loss s.rootDir stage.stageId st.nextTaskId d w) (attempt : ℕ) :
    s.runTask (s.taskAt stage st pid) attempt w =
      (failedResult (st.nextTaskId + pid) (.missingShuffleDataError missing pid),
        ⟨w.seen t loss, w.attempts + 1⟩) := by
  obtain ⟨tagged, htag⟩ := h.taskOutput_at hpid
  have hrep := hw.represents hrep h.reached.placed h.position.ge
  have hothers : ∀ i ∈ stage.plan.readIds, i ≠ missing →
      readStage (w.seen t loss) (resolveShuffleBlocks stage.plan pid st.manager) i pid = read i pid := by
    intro i hi hne
    obtain ⟨p, hp, rfl⟩ := List.mem_map.mp hi
    refine readStage_of_kept hrep hp (fun b hb hlost => ?_) h.nodup h.readsFrom
    obtain ⟨task, -, hfile⟩ := h.reached.placed p.1 b (List.mem_of_mem_filter hb)
    exact h.loses.not_other hlost hne hfile
  have herror : readStage (w.seen t loss) (resolveShuffleBlocks stage.plan pid st.manager) missing pid =
      .error (.missingShuffleDataError missing pid) := by
    obtain ⟨out, hout, -⟩ := h.readsFrom _ h.reads
    obtain ⟨chunks, hholds, -⟩ := hrep missing out hout (targetOf isBroadcast pid)
    have hblocks : ∀ b ∈ st.manager.blocksFor missing (targetOf isBroadcast pid),
        b ∈ (st.manager.get? missing).getD [] := fun b hb => List.mem_of_mem_filter hb
    have hlost := readShuffleBlocks_lost hholds
      (fun b _ content hcontent => hw.struck.seen hw.due hcontent)
      (fun b hb => h.fails b (hblocks b hb)) hloses
    rw [readStage, resolveShuffleBlocks_get? h.nodup h.reads]
    rcases hlost with hlost | hlost
    · simp only [ShuffleManager.blocksFor, hlost]
    · simp only [ShuffleManager.blocksFor, hlost]
  have hrun := executeTask_error (s.taskAt stage st pid) attempt rfl htag hothers
    (List.mem_map_of_mem h.reads) herror
  rw [h.runs, lossyTask, hrun]
  rfl

/-- Every task of the stage succeeds or reports the lost stage, in whatever order they run. -/
lemma calm {pid : ℕ} (hrep : Represents (Lost loss) d st.manager outs)
    (hpid : pid < stage.numPartitions) :
    Calm s (AfterLoss t loss s.rootDir stage.stageId st.nextTaskId d) missing
      (s.taskAt stage st pid) := by
  intro attempt w hw
  refine ⟨?_, ?_⟩
  · rw [h.runs]
    exact hw.attempt attempt h.loses rfl rfl (Nat.le_add_right _ _) le_rfl
  · by_cases hloses : LosesInput loss st.manager missing isBroadcast pid
    · right
      rw [h.misses hrep hpid hloses hw attempt]
      exact ⟨rfl, rfl⟩
    · left
      obtain ⟨tagged, htag⟩ := h.taskOutput_at hpid
      exact (h.yields_of_kept hrep h.reached.placed hw
        (h.inputKept h.reached.placed hloses) htag attempt).success

end Stricken

/-- The same of the first attempts of the batch. -/
lemma Stricken.calm_attempts (h : Stricken s t loss missing isBroadcast stage outs first st read
    written) {pids : List ℕ} (hpids : ∀ pid ∈ pids, pid < stage.numPartitions) :
    ∀ e ∈ s.firstAttempts stage st pids,
      Calm s (AfterLoss t loss s.rootDir stage.stageId st.nextTaskId st.world.disk) missing e.1 := by
  intro e he
  obtain ⟨pid, hpid, rfl⟩ := List.mem_map.mp he
  exact h.calm h.reached.represents (hpids pid hpid)

/-- The stage that wrote the lost blocks, which can be run again. -/
structure Recomputable (s : Scheduler F (FaultyWorld F)) (outs : List (Written F)) (missing : ℕ)
    (stage : Stage F) (read : ℕ → ℕ → Py (List (Record F))) (written : Written F) : Prop where
  known : s.stagesById.get? missing = some stage
  stageId : stage.stageId = missing
  write : stage.plan.isShuffleWrite = true
  nodup : stage.plan.readIds.Nodup
  earlier : ∀ i ∈ stage.plan.readIds, i < missing
  readsFrom : ReadsFrom outs stage.plan read
  tasks : (List.range stage.numPartitions).mapM (taskOutput read stage.plan) = .ok written
  output : outs[missing]? = some written

/-- The state after the stage `missing` has been run again. -/
structure AfterRecovery (s : Scheduler F (FaultyWorld F)) (t : ℕ) (loss : Loss F) (missing : ℕ)
    (isBroadcast : Bool) (outs : List (Written F)) (st st' : RunState (FaultyWorld F)) : Prop where
  reached : ∃ first, Reached s.rootDir FaultyWorld.disk (Lost loss) outs first st'
  fresh : ∀ pid, ¬ LosesInput loss st'.manager missing isBroadcast pid
  recomputed : missing ∈ st'.recomputedStages
  next : st.nextTaskId ≤ st'.nextTaskId
  due : t ≤ st'.world.attempts
  struck : Struck t loss st'.world
  kept : ∀ path, ¬ Lost loss path →
    (∀ task, st.nextTaskId ≤ task → ¬ TaskFile s.rootDir missing task path) →
    st'.world.disk path = st.world.disk path

/-- Running the stage again stores its output in new files. -/
theorem recoverMissing_recovers {missingStage : Stage F}
    {readMissing : ℕ → ℕ → Py (List (Record F))} {writtenMissing : Written F} {first : ℕ → ℕ}
    {st : RunState (FaultyWorld F)} (isBroadcast : Bool) (rounds depth : ℕ)
    (hs : s.runTask = lossyTask t loss)
    (hm : Recomputable s outs missing missingStage readMissing writtenMissing)
    (hreached : Reached s.rootDir FaultyWorld.disk (Lost loss) outs first st)
    (hloses : LosesOnly loss s.rootDir missing st.nextTaskId) (hdue : t ≤ st.world.attempts)
    (hstruck : Struck t loss st.world) (hnew : missing ∉ st.recomputedStages) :
    ∃ st', AfterRecovery s t loss missing isBroadcast outs st st' ∧
      ∀ task, s.recoverMissing (rounds + 1) (depth + 1) task missing st =
        .ok (some { task with
          shuffleBlocks := resolveShuffleBlocks task.plan task.partitionId st'.manager }, st') := by
  -- the run starts once the stage has been noted as recomputed
  have hnoted : Reached s.rootDir FaultyWorld.disk (Lost loss) outs first
      { st with recomputedStages := st.recomputedStages.insert missing } :=
    hreached.frame rfl le_rfl (AgreeBelow.refl _)
  have hkept : ReadsKept s.rootDir (Lost loss) [missingStage] := by
    intro stage hstage i hi task p hfile hlost
    obtain rfl := List.mem_singleton.mp hstage
    have := hm.earlier i hi
    exact hloses.not_other hlost (by omega) hfile
  obtain ⟨results, w', hw', hrun, hy⟩ := runStage_yields rounds depth true (executes_lossyTask hs)
    hnoted.represents hnoted.placed hm.nodup hm.readsFrom
    (fun pid _ => hkept.inputKept (by simp) hnoted.placed pid) hm.tasks
  have hlen : writtenMissing.length = missingStage.numPartitions := by
    simpa using ExceptList.mapM_length hm.tasks
  rw [hm.write] at hy
  have hblocks : results.flatMap TaskResult.shuffleBlocks =
      stageBlocks s.rootDir missingStage.stageId st.nextTaskId writtenMissing := by
    rw [hy.blocks, if_pos rfl, stageBlocks_eq s missingStage _ hlen]
  have hrun' : Reached s.rootDir FaultyWorld.disk (Lost loss) outs first
      ⟨st.manager, st.nextTaskId + missingStage.numPartitions, st.recomputedStages.insert missing,
        st.stageMetrics, w'⟩ := hnoted.frame rfl (Nat.le_add_right _ _) hy.agreeBelow
  have houts : ∀ i out, outs[i]? = some out → i = missingStage.stageId ∧ out = writtenMissing ∨
      i ≠ missingStage.stageId ∧ outs[i]? = some out := by
    intro i out hi
    by_cases heq : i = missingStage.stageId
    · refine Or.inl ⟨heq, ?_⟩
      rw [heq, hm.stageId, hm.output] at hi
      exact (Option.some.inj hi).symm
    · exact Or.inr ⟨heq, hi⟩
  have hpos : missingStage.stageId < outs.length := by
    rw [hm.stageId]
    exact (List.getElem?_eq_some_iff.mp hm.output).1
  have hreached' := hrun'.register true 0 hm.write hblocks (hy.stored rfl) (by simp only; omega) hpos
    le_rfl houts
  have hbatch : ∀ e ∈ (s.makeTasks missingStage
      { st with recomputedStages := st.recomputedStages.insert missing }).map (fun t => (t, 0)),
      e.1.shuffleRootDir = some s.rootDir ∧ st.nextTaskId ≤ e.1.taskId := by
    intro e he
    obtain ⟨task, htask, rfl⟩ := List.mem_map.mp he
    obtain ⟨pid, -, rfl⟩ := List.mem_map.mp htask
    exact ⟨rfl, Nat.le_add_right _ _⟩
  refine ⟨_, ⟨⟨_, hreached'⟩, ?_, ?_, ?_, ?_, ?_, ?_⟩, fun task => ?_⟩
  · -- the new blocks are of new tasks
    rintro pid ⟨b, hb, hlost⟩
    have hget := hreached'.registered missing writtenMissing hm.output
    rw [ShuffleManager.blocksFor, hget, if_pos hm.stageId.symm, Option.getD_some] at hb
    obtain ⟨task, hle, -, hfile⟩ := stageBlocks_file b (List.mem_of_mem_filter hb)
    exact hloses.not_later hlost hle hfile
  · exact List.mem_insert_self
  · exact Nat.le_add_right _ _
  · show t ≤ w'.attempts
    rw [hw', attempts_runBatch hs]
    exact Nat.le_add_right_of_le hdue
  · show Struck t loss w'
    rw [hw']
    exact hstruck.runBatch hs hloses hbatch
  · intro path hkeep hother
    refine hy.frame path hkeep (fun e he => ?_)
    obtain ⟨task, htask, rfl⟩ := List.mem_map.mp he
    obtain ⟨pid, -, rfl⟩ := List.mem_map.mp htask
    show ¬ TaskFile s.rootDir missingStage.stageId _ path
    rw [hm.stageId]
    exact hother _ (Nat.le_add_right _ _)
  · rw [Scheduler.recoverMissing, if_neg hnew, hm.known]
    simp only [hrun, ExceptList.bind_ok, ExceptList.pure_eq_ok]

namespace Stricken

variable (h : Stricken s t loss missing isBroadcast stage outs first st read written)

include h

/-- Tasks that lose no block succeed together. -/
lemma part_yields {pids : List ℕ} {part : Written F} (hnd : pids.Nodup)
    (hpids : ∀ pid ∈ pids, pid < stage.numPartitions ∧
      ¬ LosesInput loss st.manager missing isBroadcast pid)
    (htags : List.Forall₂ (fun pid tagged => taskOutput read stage.plan pid = .ok tagged) pids part)
    (hw : AfterLoss t loss s.rootDir stage.stageId st.nextTaskId st.world.disk w) :
    BatchYields (Lost loss) s.rootDir stage.plan.isShuffleWrite (s.firstAttempts stage st pids) part
        w.disk (s.runBatch (s.firstAttempts stage st pids) w).1
        (s.runBatch (s.firstAttempts stage st pids) w).2.disk ∧
      AfterLoss t loss s.rootDir stage.stageId st.nextTaskId st.world.disk
        (s.runBatch (s.firstAttempts stage st pids) w).2 := by
  refine ⟨runBatch_yields stage.plan.isShuffleWrite h.executes hw.agreeBelow_disk ?_ ?_ ?_, ?_⟩
  · rw [Scheduler.firstAttempts, List.map_map]
    exact hnd.map (fun a b hab => by simpa [Scheduler.taskAt] using hab)
  · intro e he
    obtain ⟨pid, -, rfl⟩ := List.mem_map.mp he
    rfl
  · rw [Scheduler.firstAttempts, List.forall₂_map_left_iff]
    refine ExceptList.forall₂_imp_of_mem htags (fun pid hpid tagged _ htag => ?_)
    exact h.reached.represents.ready h.reached.placed h.nodup h.readsFrom
      (h.inputKept h.reached.placed (hpids pid hpid).2) htag rfl (Nat.le_add_right _ _) rfl
  · exact (runBatch_calm hw (h.calm_attempts (fun pid hpid => (hpids pid hpid).1))).1

/-- The stage has run to its end. -/
structure Completed (s : Scheduler F (FaultyWorld F)) (loss : Loss F) (stage : Stage F)
    (outs : List (Written F)) (written : Written F) (st st' : RunState (FaultyWorld F))
    (results : List (TaskResult F)) : Prop where
  reached : ∃ first, Reached s.rootDir FaultyWorld.disk (Lost loss) outs first st'
  next : st.nextTaskId + stage.numPartitions ≤ st'.nextTaskId
  yields : BatchYields (Lost loss) s.rootDir stage.plan.isShuffleWrite
    (s.firstAttempts stage st (List.range stage.numPartitions)) written st'.world.disk results
    st'.world.disk

/-- The stage is run again for the first task that has lost a block. The results of the tasks
after it are settled with the stage recomputed. -/
theorem first_miss {missingStage : Stage F} {readMissing : ℕ → ℕ → Py (List (Record F))}
    {writtenMissing : Written F} (rounds depth : ℕ)
    (hm : Recomputable s outs missing missingStage readMissing writtenMissing)
    (hnew : missing ∉ st.recomputedStages) {before after : List ℕ} {pid : ℕ}
    (hrange : List.range stage.numPartitions = before ++ pid :: after)
    (hbefore : ∀ pid' ∈ before, ¬ LosesInput loss st.manager missing isBroadcast pid')
    (hloses : LosesInput loss st.manager missing isBroadcast pid) {part : Written F}
    (htags : List.Forall₂ (fun pid' tagged => taskOutput read stage.plan pid' = .ok tagged)
      before part) :
    ∃ results wMissed st',
      BatchYields (Lost loss) s.rootDir stage.plan.isShuffleWrite (s.firstAttempts stage st before)
        part wMissed.disk results wMissed.disk ∧
      AfterLoss t loss s.rootDir stage.stageId st.nextTaskId st.world.disk wMissed ∧
      AfterRecovery s t loss missing isBroadcast outs
        { st with
          nextTaskId := st.nextTaskId + stage.numPartitions
          world := (s.runBatch (s.firstAttempts stage st after) wMissed).2 } st' ∧
      s.loop (s.recoverMissing (rounds + 1) (depth + 1)) (rounds + 1)
          ⟨s.firstAttempts stage st (List.range stage.numPartitions), OrderedDict.empty, []⟩
          { st with nextTaskId := st.nextTaskId + stage.numPartitions } = (do
        let (progress, st'') ← ((s.firstAttempts stage st after).zip
            (s.runBatch (s.firstAttempts stage st after) wMissed).1).foldlM
          (s.settle (s.recoverMissing (rounds + 1) (depth + 1)))
          (⟨[({ s.taskAt stage st pid with
            shuffleBlocks := resolveShuffleBlocks stage.plan pid st'.manager }, 0)],
            recordAll ((s.firstAttempts stage st before).zip results) OrderedDict.empty, []⟩, st')
        s.loop (s.recoverMissing (rounds + 1) (depth + 1)) rounds progress st'') := by
  have hmem : ∀ pid' ∈ before ++ pid :: after, pid' < stage.numPartitions :=
    fun pid' hmem => List.mem_range.mp (hrange ▸ hmem)
  have hnd : (before ++ pid :: after).Nodup := hrange ▸ List.nodup_range
  have hpid := hmem pid (by simp)
  obtain ⟨hyBefore, hwBefore⟩ := h.part_yields (List.nodup_append.mp hnd).1
    (fun pid' hpid' => ⟨hmem pid' (by simp [hpid']), hbefore pid' hpid'⟩) htags h.start
  have hmissed := h.misses h.reached.represents hpid hloses hwBefore 0
  have hwMissed := (h.calm h.reached.represents hpid 0 _ hwBefore).1
  rw [hmissed] at hwMissed
  obtain ⟨hwAfter, -⟩ := runBatch_calm hwMissed
    (h.calm_attempts (fun pid' (hpid' : pid' ∈ after) => hmem pid' (by simp [hpid'])))
  have hreached : Reached s.rootDir FaultyWorld.disk (Lost loss) outs first
      { st with
        nextTaskId := st.nextTaskId + stage.numPartitions
        world := (s.runBatch (s.firstAttempts stage st after)
          ⟨(s.runBatch (s.firstAttempts stage st before) st.world).2.seen t loss,
            (s.runBatch (s.firstAttempts stage st before) st.world).2.attempts + 1⟩).2 } :=
    h.reached.frame rfl (Nat.le_add_right _ _) hwAfter.agreeBelow_disk
  obtain ⟨st', hafter, hrec⟩ := recoverMissing_recovers isBroadcast rounds depth
    h.runs hm hreached (h.loses.mono (Nat.le_add_right _ _)) hwAfter.due hwAfter.struck hnew
  refine ⟨_, _, st', hyBefore.settled _ (fun e _ path _ hkept => ?_), hwMissed, hafter, ?_⟩
  · exact seen_of_kept hkept
  · have hne : s.firstAttempts stage st (List.range stage.numPartitions) ≠ [] := by
      rw [firstAttempts_split s st hrange]
      simp
    rw [loop_succ _ _ rounds _ hne]
    simp only [firstAttempts_split s st hrange, runBatch_append, runBatch_cons, hmissed]
    have hmiss : Misses missing
        (failedResult (F := F) (st.nextTaskId + pid) (.missingShuffleDataError missing pid)) :=
      ⟨rfl, rfl⟩
    rw [settleAll_recovered (e := (s.taskAt stage st pid, 0)) hyBefore.success.length_eq
      (fun r hr => ?_) hmiss (hrec _)]
    · rfl
    · obtain ⟨e, -, hsuccess, -⟩ := Dealing.exists_partner hyBefore.success hr
      exact hsuccess

omit h in
/-- What a write stage has stored is registered. -/
lemma Completed.registers {st' : RunState (FaultyWorld F)} {results : List (TaskResult F)}
    (hdone : Completed s loss stage outs written st st' results)
    (hwrite : stage.plan.isShuffleWrite = true) (hid : stage.stageId = outs.length)
    (hlen : written.length = stage.numPartitions) :
    ∃ first, Reached s.rootDir FaultyWorld.disk (Lost loss) (outs ++ [written]) first
      (Scheduler.finishStage stage false results 0 st') := by
  obtain ⟨first, hreached⟩ := hdone.reached
  have hy := hdone.yields
  rw [hwrite, ← makeTasks_firstAttempts] at hy
  have hblocks : results.flatMap TaskResult.shuffleBlocks =
      stageBlocks s.rootDir stage.stageId st.nextTaskId written := by
    rw [hy.blocks, if_pos rfl, stageBlocks_eq s stage st hlen]
  refine ⟨_, hreached.register false 0 hwrite hblocks (hy.stored rfl) (hlen ▸ hdone.next)
    (by simp [hid]) (by simp) (fun i w hi => ?_)⟩
  obtain ⟨hlt, hi⟩ | ⟨rfl, rfl⟩ := getElem?_snoc hi
  · exact Or.inr ⟨by omega, hi⟩
  · exact Or.inl ⟨hid.symm, rfl⟩

/-- One task loses blocks: it gets new ones. -/
theorem recovers_one {missingStage : Stage F} {readMissing : ℕ → ℕ → Py (List (Record F))}
    {writtenMissing : Written F} (rounds depth : ℕ)
    (hm : Recomputable s outs missing missingStage readMissing writtenMissing)
    (hnew : missing ∉ st.recomputedStages) {pid : ℕ} (hpid : pid < stage.numPartitions)
    (hloses : LosesInput loss st.manager missing isBroadcast pid)
    (honly : ∀ pid' < stage.numPartitions,
      LosesInput loss st.manager missing isBroadcast pid' → pid' = pid) :
    ∃ results st', s.runToCompletion (s.recoverMissing (rounds + 2) (depth + 1)) (rounds + 2) stage
        st = .ok ((results, 0), st') ∧ Completed s loss stage outs written st st' results := by
  obtain ⟨before, after, hrange⟩ := List.append_of_mem (List.mem_range.mpr hpid)
  have hnd : (before ++ pid :: after).Nodup := hrange ▸ List.nodup_range
  have hother : ∀ pid' ∈ before ++ pid :: after, pid' ≠ pid → pid' < stage.numPartitions ∧
      ¬ LosesInput loss st.manager missing isBroadcast pid' := by
    intro pid' hmem hne
    rw [← hrange, List.mem_range] at hmem
    exact ⟨hmem, fun hl => hne (honly pid' hmem hl)⟩
  obtain ⟨hndBefore, hndRest, hdisjoint⟩ := List.nodup_append.mp hnd
  obtain ⟨hnotAfter, hndAfter⟩ := List.nodup_cons.mp hndRest
  have hneBefore : ∀ pid' ∈ before, pid' ≠ pid :=
    fun pid' hmem => hdisjoint pid' hmem pid List.mem_cons_self
  have hneAfter : ∀ pid' ∈ after, pid' ≠ pid := by
    rintro pid' hmem rfl
    exact hnotAfter hmem
  -- what the tasks before, at and after the one that loses blocks are to yield
  have htasks := h.tasks
  rw [hrange, List.mapM_append] at htasks
  obtain ⟨partBefore, hpartBefore, htasks⟩ := ExceptList.bind_eq_ok.mp htasks
  obtain ⟨partRest, hpartRest, htasks⟩ := ExceptList.bind_eq_ok.mp htasks
  cases htasks
  rw [List.mapM_cons] at hpartRest
  obtain ⟨tagged, htag, hpartRest⟩ := ExceptList.bind_eq_ok.mp hpartRest
  obtain ⟨partAfter, hpartAfter, hpartRest⟩ := ExceptList.bind_eq_ok.mp hpartRest
  cases hpartRest
  obtain ⟨rBefore, wMissed, st', hyBefore, hwMissed, hafter, hfirst⟩ := h.first_miss (rounds + 1)
    depth hm hnew hrange
    (fun pid' hmem => (hother pid' (List.mem_append_left _ hmem) (hneBefore pid' hmem)).2) hloses
    (ExceptList.mapM_eq_ok.mp hpartBefore)
  obtain ⟨hyAfter, hwAfter⟩ := h.part_yields hndAfter
    (fun pid' hmem => hother pid' (by simp [hmem]) (hneAfter pid' hmem))
    (ExceptList.mapM_eq_ok.mp hpartAfter) hwMissed
  set task := s.taskAt stage st pid with htask
  set rAfter := (s.runBatch (s.firstAttempts stage st after) wMissed).1 with hrAfter
  set wAfter := (s.runBatch (s.firstAttempts stage st after) wMissed).2 with hwAfter'
  have hsplit := firstAttempts_split s st hrange
  obtain ⟨first', hreached'⟩ := hafter.reached
  -- the task with its new blocks
  have hwNew : AfterLoss t loss s.rootDir stage.stageId st.nextTaskId st'.world.disk st'.world :=
    ⟨hafter.due, hafter.struck, fun _ _ _ => rfl⟩
  have hyNew := h.yields_of_kept hreached'.represents hreached'.placed hwNew
    (h.inputKept hreached'.placed (hafter.fresh pid)) htag 0
  set newTask : Task F := { s.taskAt stage st pid with
    shuffleBlocks := resolveShuffleBlocks stage.plan pid st'.manager } with hnewTask
  set result := (s.runTask newTask 0 st'.world).1 with hresult
  set wNew := (s.runTask newTask 0 st'.world).2 with hwNew'
  have hlenBefore := hyBefore.success.length_eq
  have hlenAfter := hyAfter.success.length_eq
  have hok : ∀ {batch : List (Task F × ℕ)} {results : List (TaskResult F)},
      List.Forall₂ (fun e r => r.state = .success ∧ r.taskId = e.1.taskId) batch results →
      ∀ r ∈ results, r.state = .success := by
    intro batch results hall r hr
    obtain ⟨e, -, hsuccess, -⟩ := Dealing.exists_partner hall hr
    exact hsuccess
  have hloop : s.loop (s.recoverMissing (rounds + 2) (depth + 1)) (rounds + 2)
      ⟨s.firstAttempts stage st (List.range stage.numPartitions), OrderedDict.empty, []⟩
      { st with nextTaskId := st.nextTaskId + stage.numPartitions } =
      .ok (⟨[], (recordAll ((s.firstAttempts stage st after).zip rAfter)
        (recordAll ((s.firstAttempts stage st before).zip rBefore) OrderedDict.empty)).set
          task.taskId result, []⟩, { st' with world := wNew }) := by
    rw [hfirst, settle_all_success hlenAfter (hok hyAfter.success), ExceptList.bind_ok]
    exact loop_last s _ rounds newTask hyNew.success
  have hresults : (s.makeTasks stage st).mapM (Scheduler.resultOf
      ((recordAll ((s.firstAttempts stage st after).zip rAfter)
        (recordAll ((s.firstAttempts stage st before).zip rBefore) OrderedDict.empty)).set
          task.taskId result)) = .ok (rBefore ++ result :: rAfter) := by
    have hids : ((s.makeTasks stage st).map Task.taskId).Nodup := by
      rw [Scheduler.makeTasks, List.map_map]
      exact List.nodup_range.map (fun a b hab => by simpa using hab)
    have htasks : s.makeTasks stage st = before.map (s.taskAt stage st) ++
        task :: after.map (s.taskAt stage st) := by
      rw [Scheduler.makeTasks, hrange, List.map_append, List.map_cons]
      rfl
    have hattempts : ∀ pids, s.firstAttempts stage st pids =
        (pids.map (s.taskAt stage st)).map (fun t => (t, 0)) := by
      intro pids
      rw [List.map_map]
      rfl
    rw [htasks] at hids ⊢
    rw [hattempts] at hlenBefore hlenAfter
    rw [hattempts, hattempts]
    exact resultOf_retried hids (by simpa using hlenBefore) (by simpa using hlenAfter)
  have hnone : (rBefore ++ result :: rAfter).filter (fun r => r.state = .failed) = [] := by
    rw [List.filter_eq_nil_iff]
    intro r hr
    have hsuccess : r.state = .success := by
      rcases List.mem_append.mp hr with hr | hr
      · exact hok hyBefore.success r hr
      · rcases List.mem_cons.mp hr with rfl | hr
        · exact hyNew.success
        · exact hok hyAfter.success r hr
    simp [hsuccess]
  refine ⟨rBefore ++ result :: rAfter, { st' with world := wNew }, ?_, ?_⟩
  · rw [Scheduler.runToCompletion, makeTasks_firstAttempts]
    simp only [hloop, ExceptList.bind_ok, hresults, hnone]
    rfl
  have hwNew' : AfterLoss t loss s.rootDir stage.stageId st.nextTaskId st'.world.disk wNew := by
    rw [hwNew', h.runs]
    exact hwNew.attempt 0 h.loses rfl rfl (Nat.le_add_right _ _) le_rfl
  -- the files of the other tasks stay
  have hstay : ∀ pid' ∈ before ++ pid :: after, pid' ≠ pid → ∀ path,
      TaskFile s.rootDir stage.stageId (st.nextTaskId + pid') path → ¬ Lost loss path →
      wNew.disk path = wAfter.disk path := by
    intro pid' _ hne path hfile hkept
    have hnot : ¬ TaskFile s.rootDir stage.stageId (st.nextTaskId + pid) path := by
      rintro ⟨target, hpath⟩
      obtain ⟨target', hpath'⟩ := hfile
      have := (blockPath_inj (hpath.symm.trans hpath')).2.1
      omega
    have hmissing : ∀ task, st.nextTaskId + stage.numPartitions ≤ task →
        ¬ TaskFile s.rootDir missing task path := by
      rintro task - ⟨target, hpath⟩
      obtain ⟨target', hpath'⟩ := hfile
      have := (blockPath_inj (hpath.symm.trans hpath')).1
      have := h.missing_lt
      omega
    rw [hyNew.frame path hnot, seen_of_kept hkept]
    exact hafter.kept path hkept hmissing
  have hbatchAfter : ∀ pid' ∈ before, ∀ e ∈ s.firstAttempts stage st after, ∀ path,
      TaskFile s.rootDir stage.stageId (st.nextTaskId + pid') path →
      ¬ TaskFile s.rootDir e.1.stageId e.1.taskId path := by
    rintro pid' hmem e he path ⟨target, hpath⟩ ⟨target', hpath'⟩
    obtain ⟨pid'', hmem'', rfl⟩ := List.mem_map.mp he
    have hids := (blockPath_inj (hpath.symm.trans hpath')).2.1
    have hids : st.nextTaskId + pid' = st.nextTaskId + pid'' := hids
    exact hdisjoint pid' hmem pid'' (List.mem_cons_of_mem _ hmem'') (by omega)
  have hyBefore' := hyBefore.settled wNew.disk (fun e he path hfile hkept => by
    obtain ⟨pid', hmem, rfl⟩ := List.mem_map.mp he
    rw [hstay pid' (List.mem_append_left _ hmem) (hneBefore pid' hmem) path hfile hkept,
      hyAfter.frame path hkept (fun e he => hbatchAfter pid' hmem e he path hfile)])
  have hyAfter' := hyAfter.settled wNew.disk (fun e he path hfile hkept => by
    obtain ⟨pid', hmem, rfl⟩ := List.mem_map.mp he
    exact hstay pid' (by simp [hmem]) (hneAfter pid' hmem) path hfile hkept)
  have hyNew' := BatchYields.of_yields hyNew (e := (task, 0)) rfl rfl
  refine ⟨⟨first', hwNew'.reached hreached' h.position.ge⟩, hafter.next, ?_⟩
  rw [hsplit]
  exact hyBefore'.append (hyNew'.append hyAfter' rfl)
    (by simpa [Scheduler.firstAttempts] using (ExceptList.mapM_length hpartBefore).symm)

/-- Two tasks lose blocks: the later one keeps the ones it has. -/
theorem raises_two {missingStage : Stage F} {readMissing : ℕ → ℕ → Py (List (Record F))}
    {writtenMissing : Written F} (rounds depth : ℕ)
    (hm : Recomputable s outs missing missingStage readMissing writtenMissing)
    (hnew : missing ∉ st.recomputedStages) {pid pid' : ℕ} (hlt : pid < pid')
    (hpid' : pid' < stage.numPartitions)
    (hbefore : ∀ q < pid, ¬ LosesInput loss st.manager missing isBroadcast q)
    (hloses : LosesInput loss st.manager missing isBroadcast pid)
    (hloses' : LosesInput loss st.manager missing isBroadcast pid') :
    ∀ outcome, s.runToCompletion (s.recoverMissing (rounds + 1) (depth + 1)) (rounds + 1) stage st ≠
      .ok outcome := by
  have hrange : List.range stage.numPartitions =
      List.range pid ++ pid :: List.range' (pid + 1) (stage.numPartitions - (pid + 1)) := by
    rw [← List.range'_succ, List.range_eq_range', List.range_eq_range',
      show stage.numPartitions - (pid + 1) + 1 = stage.numPartitions - pid by omega]
    conv_lhs => rw [show stage.numPartitions = pid + (stage.numPartitions - pid) by omega]
    rw [← List.range'_append_1, Nat.zero_add]
  set after := List.range' (pid + 1) (stage.numPartitions - (pid + 1)) with hafterDef
  have hmemAfter : ∀ q ∈ after, pid < q ∧ q < stage.numPartitions := by
    intro q hq
    rw [hafterDef, List.mem_range'_1] at hq
    omega
  have hmem' : pid' ∈ after := by
    rw [hafterDef, List.mem_range'_1]
    omega
  have htasks := h.tasks
  rw [hrange, List.mapM_append] at htasks
  obtain ⟨part, hpart, -⟩ := ExceptList.bind_eq_ok.mp htasks
  obtain ⟨results, wMissed, st', -, hwMissed, hafter, hfirst⟩ := h.first_miss rounds depth hm hnew
    hrange (fun q hq => hbefore q (List.mem_range.mp hq)) hloses (ExceptList.mapM_eq_ok.mp hpart)
  obtain ⟨hwAfter, hresults⟩ := runBatch_calm hwMissed
    (h.calm_attempts (fun q (hq : q ∈ after) => (hmemAfter q hq).2))
  -- the blocks these tasks carry are still there, or still lost, when the stage has been run again
  have hrep : Represents (Lost loss) st'.world.disk st.manager outs := by
    intro i out hi
    refine (h.reached.represents i out hi).frame (fun b hb hkept => ?_)
    obtain ⟨task, htask, target, hfile⟩ := h.reached.placed i b hb
    have hnot : ∀ task', st.nextTaskId + stage.numPartitions ≤ task' →
        ¬ TaskFile s.rootDir missing task' b.path := by
      rintro task' hle ⟨target', hfile'⟩
      have := (blockPath_inj (hfile.symm.trans hfile')).2.1
      omega
    refine (hafter.kept b.path hkept hnot).trans (hwAfter.agreeBelow_disk b.path hkept ?_)
    exact h.reached.placed.not_future hb
  obtain ⟨first', hreached'⟩ := hafter.reached
  set newTask : Task F := { s.taskAt stage st pid with
    shuffleBlocks := resolveShuffleBlocks stage.plan pid st'.manager } with hnewTask
  have hcalmNew : Calm s (AfterLoss t loss s.rootDir stage.stageId st.nextTaskId st'.world.disk)
      missing newTask := by
    intro attempt w hw
    refine ⟨?_, Or.inl ?_⟩
    · rw [h.runs]
      exact hw.attempt attempt h.loses rfl rfl (Nat.le_add_right _ _) le_rfl
    · obtain ⟨tagged, htag⟩ := h.taskOutput_at (hlt.trans hpid')
      exact (h.yields_of_kept hreached'.represents hreached'.placed hw
        (h.inputKept hreached'.placed (hafter.fresh pid)) htag attempt).success
  have hentry : ∀ e ∈ (s.firstAttempts stage st after).zip
      (s.runBatch (s.firstAttempts stage st after) wMissed).1,
      (∃ q ∈ after, e.1 = (s.taskAt stage st q, 0)) ∧
        (∃ w, AfterLoss t loss s.rootDir stage.stageId st.nextTaskId st.world.disk w ∧
          e.2 = (s.runTask e.1.1 e.1.2 w).1) ∧ (e.2.state = .success ∨ Misses missing e.2) := by
    intro e he
    obtain ⟨q, hq, heq⟩ := List.mem_map.mp (List.of_mem_zip he).1
    exact ⟨⟨q, hq, heq.symm⟩, (List.forall₂_iff_zip.mp hresults).2 he⟩
  obtain ⟨progress, hsettle, hpending, hkeep⟩ := settleAll_calm (s := s)
    (fun task => recoverMissing_again s (rounds + 1) (depth + 1) missing task hafter.recomputed)
    ⟨[(newTask, 0)],
      recordAll ((s.firstAttempts stage st (List.range pid)).zip results) OrderedDict.empty, []⟩
    (fun e he => (hentry e he).2.2)
  -- a task that is tried again is the one with new blocks or a later one
  have hback : ∀ e ∈ progress.pending, e.1 = newTask ∨ ∃ q ∈ after, e.1 = s.taskAt stage st q := by
    intro e he
    rcases hpending e he with he | ⟨e', he', heq⟩
    · exact Or.inl (by rw [List.mem_singleton.mp he])
    · obtain ⟨⟨q, hq, hq'⟩, -⟩ := hentry e' he'
      exact Or.inr ⟨q, hq, by rw [heq, hq']⟩
  have hdoomed : Doomed (s.taskAt stage st pid') progress := by
    refine hkeep _ (fun e he hid => ?_) (Or.inr ?_)
    · obtain ⟨⟨q, -, hq⟩, ⟨w, hw, hresult⟩, -⟩ := hentry e he
      rw [hq] at hid hresult ⊢
      obtain rfl : q = pid' := Nat.add_left_cancel hid
      refine ⟨rfl, ?_⟩
      rw [hresult, h.misses h.reached.represents hpid' hloses' hw]
      rfl
    · have hin : (s.taskAt stage st pid', 0) ∈ s.firstAttempts stage st after :=
        List.mem_map_of_mem hmem'
      obtain ⟨i, hi, heq⟩ := List.mem_iff_getElem.mp hin
      have hlen := hresults.length_eq
      refine ⟨((s.firstAttempts stage st after)[i],
        (s.runBatch (s.firstAttempts stage st after) wMissed).1[i]), ?_, by rw [heq]⟩
      exact List.mem_iff_getElem.mpr ⟨i, by simp; omega, by simp⟩
  have htask : s.taskAt stage st pid' ∈ s.makeTasks stage st :=
    List.mem_map_of_mem (List.mem_range.mpr hpid')
  refine runToCompletion_doomed htask (fun final st'' hloop => ?_)
  rw [makeTasks_firstAttempts, hfirst, hsettle, ExceptList.bind_ok] at hloop
  refine loop_doomed (P := AfterLoss t loss s.rootDir stage.stageId st.nextTaskId st'.world.disk)
    (fun task st => recoverMissing_again s _ _ missing task) (fun attempt w hw => ?_)
    hafter.recomputed ⟨hafter.due, hafter.struck, fun _ _ _ => rfl⟩ (fun e he => ?_)
    (fun e he hid => ?_) hdoomed hloop
  · rw [h.misses hrep hpid' hloses' hw]
    rfl
  · rcases hback e he with heq | ⟨q, hq, heq⟩
    · rw [heq]
      exact hcalmNew
    · rw [heq]
      exact h.calm hrep (hmemAfter q hq).2
  · rcases hback e he with heq | ⟨q, hq, heq⟩
    · rw [heq] at hid
      have := Nat.add_left_cancel (show st.nextTaskId + pid = st.nextTaskId + pid' from hid)
      omega
    · rw [heq] at hid ⊢
      rw [Nat.add_left_cancel (show st.nextTaskId + q = st.nextTaskId + pid' from hid)]

/-- The stage runs to its end when no two of its tasks lose blocks. -/
theorem recovers {missingStage : Stage F} {readMissing : ℕ → ℕ → Py (List (Record F))}
    {writtenMissing : Written F} (rounds depth : ℕ)
    (hm : Recomputable s outs missing missingStage readMissing writtenMissing)
    (hnew : missing ∉ st.recomputedStages)
    (hone : ∀ pid < stage.numPartitions, ∀ pid' < stage.numPartitions,
      LosesInput loss st.manager missing isBroadcast pid →
      LosesInput loss st.manager missing isBroadcast pid' → pid = pid') :
    ∃ results st', s.runStage (rounds + 2) (depth + 2) stage false st =
        .ok (results, Scheduler.finishStage stage false results 0 st') ∧
      Completed s loss stage outs written st st' results := by
  by_cases hsome : ∃ pid < stage.numPartitions, LosesInput loss st.manager missing isBroadcast pid
  · obtain ⟨pid, hpid, hloses⟩ := hsome
    obtain ⟨results, st', hrun, hdone⟩ := h.recovers_one rounds depth hm hnew hpid hloses
      (fun pid' hpid' hloses' => hone pid' hpid' pid hpid hloses' hloses)
    refine ⟨results, st', ?_, hdone⟩
    rw [runStage_succ, hrun, ExceptList.bind_ok]
    rfl
  · obtain ⟨results, w', -, hrun, hy⟩ := runStage_yields (rounds + 1) (depth + 1) false h.executes
      h.reached.represents h.reached.placed h.nodup h.readsFrom
      (fun pid hpid => h.inputKept h.reached.placed (fun hl => hsome ⟨pid, hpid, hl⟩)) h.tasks
    refine ⟨results, _, hrun, ⟨_, h.reached.frame rfl (Nat.le_add_right _ _) hy.agreeBelow⟩, le_rfl,
      ?_⟩
    rw [← makeTasks_firstAttempts]
    exact hy.settled _ (fun _ _ _ _ _ => rfl)

/-- The stage raises when two of its tasks lose blocks. -/
theorem raises {missingStage : Stage F} {readMissing : ℕ → ℕ → Py (List (Record F))}
    {writtenMissing : Written F} (rounds depth : ℕ)
    (hm : Recomputable s outs missing missingStage readMissing writtenMissing)
    (hnew : missing ∉ st.recomputedStages)
    (htwo : ∃ pid < stage.numPartitions, ∃ pid' < stage.numPartitions,
      LosesInput loss st.manager missing isBroadcast pid ∧
      LosesInput loss st.manager missing isBroadcast pid' ∧ pid ≠ pid') :
    ∀ outcome, s.runStage (rounds + 1) (depth + 2) stage false st ≠ .ok outcome := by
  classical
  obtain ⟨pid, hpid, pid', hpid', hloses, hloses', hne⟩ := htwo
  wlog hlt : pid < pid' generalizing pid pid'
  · exact this pid' hpid' pid hpid hloses' hloses hne.symm (by omega)
  have hex : ∃ q, LosesInput loss st.manager missing isBroadcast q := ⟨pid, hloses⟩
  have hle : Nat.find hex ≤ pid := Nat.find_min' hex hloses
  intro outcome hrun
  rw [runStage_succ] at hrun
  obtain ⟨outcome', hrun, -⟩ := ExceptList.bind_eq_ok.mp hrun
  exact h.raises_two rounds depth hm hnew (by omega) hpid' (fun q hq => Nat.find_min hex hq)
    (Nat.find_spec hex) hloses' outcome' hrun

end Stricken

end Stricken

end MiniSpark
