import MiniSpark.LossRecovery
import MiniSpark.RecoveredRuns

/-!
# Lineage recovery of a one-time loss

Each stage is read by one later stage, so a loss between the two concerns one reading stage.
The run gets over it exactly when at most one task of that stage has lost a block.
-/
namespace MiniSpark

variable {F : Type} [PyRuntime F] [PyHost F]

section ReadOnce

omit [PyRuntime F] [PyHost F] in
/-- Each stage that splitting a plan closes is read once. -/
lemma split_readIds {plan : PhysicalPlan F} {stages stages' : List (Stage F)}
    {fragment : Fragment F} (h : split plan stages = .ok (fragment, stages')) :
    ∃ added, stages' = stages ++ added ∧
      (added.flatMap (fun stage => stage.plan.readIds) ++ fragment.plan.readIds).Perm
        (List.range' stages.length added.length) := by
  induction plan generalizing stages stages' fragment with
  | scanExec dataset sourceName =>
      cases h
      exact ⟨[], by simp, by simp [PhysicalPlan.readIds]⟩
  | filterExec child condition ih =>
      obtain ⟨⟨f, s⟩, hc, h⟩ := ExceptList.bind_eq_ok.mp h
      cases h
      obtain ⟨added, hadded, hreads⟩ := ih hc
      exact ⟨added, hadded, hreads⟩
  | projectExec child columns schema ih =>
      obtain ⟨⟨f, s⟩, hc, h⟩ := ExceptList.bind_eq_ok.mp h
      cases h
      obtain ⟨added, hadded, hreads⟩ := ih hc
      exact ⟨added, hadded, hreads⟩
  | hashAggregateExec child spec ih =>
      obtain ⟨⟨f, s⟩, hc, h⟩ := ExceptList.bind_eq_ok.mp h
      cases h
      obtain ⟨added, hadded, hreads⟩ := ih hc
      exact ⟨added, hadded, hreads⟩
  | sortExec child spec ih =>
      obtain ⟨⟨f, s⟩, hc, h⟩ := ExceptList.bind_eq_ok.mp h
      cases h
      obtain ⟨added, hadded, hreads⟩ := ih hc
      exact ⟨added, hadded, hreads⟩
  | exchangeExec child n exprs bc rb ih =>
      obtain ⟨⟨f, s⟩, hc, h⟩ := ExceptList.bind_eq_ok.mp h
      cases h
      obtain ⟨added, rfl, hreads⟩ := ih hc
      set write : Stage F := ⟨(stages ++ added).length, .shuffleWriteExec f.plan n exprs rb,
        f.numPartitions⟩ with hwrite
      refine ⟨added ++ [write], List.append_assoc .., ?_⟩
      have hlength : (added ++ [write]).length = added.length + 1 := List.length_append
      have hread : (PhysicalPlan.shuffleReadExec (F := F) (stages ++ added).length child.schema
          bc).readIds = [stages.length + added.length] := by
        rw [← List.length_append]
        rfl
      rw [List.flatMap_append, List.flatMap_singleton, hlength, List.range'_1_concat, hread]
      exact hreads.append_right _
  | shuffleWriteExec child n exprs rb ih =>
      obtain ⟨⟨f, s⟩, hc, h⟩ := ExceptList.bind_eq_ok.mp h
      simp only at h
      split at h
      · cases h
        obtain ⟨added, hadded, hreads⟩ := ih hc
        exact ⟨added, hadded, hreads⟩
      · cases h
  | shuffleReadExec stageId schema bc => cases h
  | hashJoinExec left right lk rk on schema ihl ihr =>
      obtain ⟨⟨f, s⟩, hl, h⟩ := ExceptList.bind_eq_ok.mp h
      obtain ⟨⟨g, t⟩, hr, h⟩ := ExceptList.bind_eq_ok.mp h
      cases h
      obtain ⟨added, rfl, hreads⟩ := ihl hl
      obtain ⟨added', rfl, hreads'⟩ := ihr hr
      refine ⟨added ++ added', List.append_assoc .., ?_⟩
      have hids : (PhysicalPlan.hashJoinExec f.plan g.plan lk rk on schema).readIds =
          f.plan.readIds ++ g.plan.readIds := by
        rw [PhysicalPlan.readIds, PhysicalPlan.shuffleReads_hashJoinExec, List.map_append]
        rfl
      have hboth := hreads.append hreads'
      rw [List.length_append] at hboth
      rw [hids, List.flatMap_append, List.length_append, List.range'_append_1.symm]
      refine List.Perm.trans ?_ hboth
      -- the right side's stages pass the left fragment's reads
      rw [List.append_assoc, List.append_assoc]
      refine List.Perm.append_left _ ?_
      rw [← List.append_assoc, ← List.append_assoc]
      exact List.Perm.append_right _ List.perm_append_comm

omit [PyRuntime F] [PyHost F] in
/-- No other stage reads what a stage reads. -/
lemma buildStages_readOnce {plan : PhysicalPlan F} {pre post : List (Stage F)} {reader : Stage F}
    (hb : buildStages plan = .ok (pre ++ reader :: post)) {i : ℕ} (hi : i ∈ reader.plan.readIds) :
    ∀ stage ∈ pre ++ post, i ∉ stage.plan.readIds := by
  obtain ⟨⟨fragment, writes⟩, hsplit, h⟩ := ExceptList.bind_eq_ok.mp hb
  have hstages : writes ++ [⟨writes.length, fragment.plan, fragment.numPartitions⟩] =
      pre ++ reader :: post := by
    simpa only [ExceptList.pure_eq_ok, Except.ok.injEq] using h
  obtain ⟨added, hadded, hreads⟩ := split_readIds hsplit
  rw [List.nil_append] at hadded
  have hnd : ((pre ++ reader :: post).flatMap (fun stage => stage.plan.readIds)).Nodup := by
    rw [← hstages, hadded, List.flatMap_append, List.flatMap_singleton]
    exact hreads.nodup_iff.mpr List.nodup_range'
  have hperm : (pre ++ reader :: post).Perm (reader :: (pre ++ post)) := List.perm_middle
  rw [(hperm.flatMap_right _).nodup_iff, List.flatMap_cons, List.nodup_append] at hnd
  intro stage hstage hmem
  exact hnd.2.2 i hi i (List.mem_flatMap.mpr ⟨stage, hstage, hmem⟩) rfl

end ReadOnce

section Before

omit [PyRuntime F] [PyHost F] in
lemma taskCount_append (stages stages' : List (Stage F)) :
    taskCount (stages ++ stages') = taskCount stages + taskCount stages' := by
  simp [taskCount]

/-- Stages that do not read the stage with lost files read none of these. -/
lemma LosesOnly.readsKept {loss : Loss F} {root : String} {missing n : ℕ}
    (h : LosesOnly loss root missing n) {stages : List (Stage F)}
    (hnot : ∀ stage ∈ stages, missing ∉ stage.plan.readIds) :
    ReadsKept root (Lost loss) stages := by
  intro stage hstage i hi task path hfile hlost
  refine h.not_other hlost (fun heq => ?_) hfile
  rw [heq] at hi
  exact hnot stage hstage hi

/-- The stages before the reading one, with a loss that happens once the stages `done` are. -/
theorem runNext_reaches_lossy {s : Scheduler F (FaultyWorld F)} {t : ℕ} {loss : Loss F}
    {missing : ℕ} {done rest : List (Stage F)} {outs : List (Written F)} (rounds depth : ℕ)
    (disk : Disk F) (hs : s.runTask = lossyTask t loss) (hy : StagesYield [] (done ++ rest) outs)
    (hn : NumberedFrom 0 (done ++ rest))
    (hw : ∀ stage ∈ done ++ rest, stage.plan.isShuffleWrite = true)
    (hloses : LosesOnly loss s.rootDir missing (taskCount done))
    (hnot : ∀ stage ∈ done ++ rest, missing ∉ stage.plan.readIds) (hdone : taskCount done ≤ t) :
    ∃ first st, (done ++ rest).foldlM (s.runNext (rounds + 1) (depth + 1))
        (none, Scheduler.startState ⟨disk, 0⟩) = .ok (none, st) ∧
      Reached s.rootDir FaultyWorld.disk (Lost loss) outs first st ∧
      (∀ i < done.length, first i = taskCount (done.take i)) ∧
      st.nextTaskId = taskCount (done ++ rest) ∧ st.recomputedStages = [] ∧
      st.world.attempts = taskCount (done ++ rest) ∧ Struck t loss st.world := by
  obtain ⟨mid, hyDone, hyRest⟩ := hy.of_append
  obtain ⟨hnDone, hnRest⟩ := numberedFrom_append.mp hn
  obtain ⟨hwDone, hwRest⟩ := List.forall_mem_append.mp hw
  obtain ⟨hnotDone, hnotRest⟩ := List.forall_mem_append.mp hnot
  have hlen := hyDone.length_eq
  rw [List.length_nil] at hlen
  have hbatch : ∀ (stage : Stage F) (st : RunState (FaultyWorld F)),
      ((s.makeTasks stage st).map (fun task => (task, 0))).length = stage.numPartitions := by
    intro stage st
    simp [Scheduler.makeTasks]
  -- attempts are counted as tasks are
  obtain ⟨st₁, hrun₁, hreached₁, hnext₁, hrec₁, hattempts⟩ := runNext_reaches rounds depth none
    (fun n w => w.attempts = n)
    (reached_start s.rootDir FaultyWorld.disk (Lost loss) (fun _ => 0) ⟨disk, 0⟩) hyDone hnDone
    hwDone (executes_lossyTask hs) (hloses.readsKept hnotDone) rfl (fun stage _ st hst => by
      rw [attempts_runBatch hs, hst, hbatch])
  have hnext₁ : st₁.nextTaskId = taskCount done := by
    rw [hnext₁]
    exact Nat.zero_add _
  -- later tasks leave the lost files alone
  obtain ⟨st₂, hrun₂, hreached₂, hnext₂, hrec₂, hattempts₂, -, hstruck⟩ := runNext_reaches
    rounds depth none
    (fun n w => w.attempts = n ∧ taskCount done ≤ n ∧ Struck t loss w) hreached₁ hyRest
    (by rwa [hlen]) hwRest (executes_lossyTask hs) (hloses.readsKept hnotRest)
    ⟨hattempts, hnext₁.ge, fun hlt => by omega⟩ (fun stage _ st hst => by
      obtain ⟨hst, hle, hstruck⟩ := hst
      refine ⟨by rw [attempts_runBatch hs, hst, hbatch], by omega, ?_⟩
      refine hstruck.runBatch hs hloses (fun e he => ?_)
      obtain ⟨task, htask, rfl⟩ := List.mem_map.mp he
      obtain ⟨pid, -, rfl⟩ := List.mem_map.mp htask
      exact ⟨rfl, hle.trans (Nat.le_add_right _ _)⟩)
  refine ⟨_, st₂, ?_, hreached₂, fun i hi => ?_, ?_, hrec₂.trans hrec₁, ?_, hstruck⟩
  · rw [List.foldlM_append, hrun₁, ExceptList.bind_ok, hrun₂]
  · rw [firstFrom, if_pos (by omega), firstFrom, if_neg (by simp)]
    simp [Scheduler.startState]
  · rw [hnext₂, hnext₁, taskCount_append]
  · rw [hattempts₂, hnext₂, hnext₁, taskCount_append]

end Before

section OneTimeLoss

/-- What the stages from a given one on have to do for the run to return a dataset. -/
inductive Remaining (schema : Schema) (dataset : Dataset F) (outs : List (Written F))
    (stage : Stage F) (written : Written F) : List (Stage F) → Prop
  | returns {parts : List (List (Record F))} (notWrite : stage.plan.isShuffleWrite = false)
      (schema_eq : stage.plan.schema = schema)
      (rows : written = parts.map (fun rows => rows.map (fun r => (0, r))))
      (result : dataset = rowsDataset schema parts) : Remaining schema dataset outs stage written []
  | writes {between : List (Stage F)} {last : Stage F} {outs' : List (Written F)}
      {read : ℕ → ℕ → Py (List (Record F))} {parts : List (List (Record F))}
      (write : stage.plan.isShuffleWrite = true)
      (between_write : ∀ stage ∈ between, stage.plan.isShuffleWrite = true)
      (yields : StagesYield (outs ++ [written]) between outs') (nodup : last.plan.readIds.Nodup)
      (notWrite : last.plan.isShuffleWrite = false) (schema_eq : last.plan.schema = schema)
      (readsFrom : ReadsFrom outs' last.plan read)
      (tasks : (List.range last.numPartitions).mapM (taskOutput read last.plan) =
        .ok (parts.map (fun rows => rows.map (fun r => (0, r)))))
      (result : dataset = rowsDataset schema parts) :
      Remaining schema dataset outs stage written (between ++ [last])

/-- The stages of a list that returns a dataset, up to any one of them. -/
lemma StagesReturn.remaining {schema : Schema} {parts : List (List (Record F))}
    {pre post : List (Stage F)} {stage : Stage F}
    (h : StagesReturn (pre ++ stage :: post) schema parts) :
    ∃ outs read written, StagesYield [] pre outs ∧
      (∀ stage ∈ pre, stage.plan.isShuffleWrite = true) ∧ ReadsFrom outs stage.plan read ∧
      (List.range stage.numPartitions).mapM (taskOutput read stage.plan) = .ok written ∧
      Remaining schema (rowsDataset schema parts) outs stage written post := by
  obtain ⟨writes, last, outs, read, hstages, hw, hy, -, hnd, hnot, hschema, hread, htasks⟩ := h
  rcases List.eq_nil_or_concat post with rfl | ⟨between, last', rfl⟩
  · obtain ⟨rfl, hlast⟩ := List.append_inj' hstages rfl
    obtain rfl : stage = last := by simpa using hlast
    exact ⟨outs, read, _, hy, hw.2, hread, htasks, .returns hnot hschema rfl rfl⟩
  · rw [List.concat_eq_append, ← List.cons_append, ← List.append_assoc] at hstages
    obtain ⟨rfl, hlast⟩ := List.append_inj' hstages rfl
    obtain rfl : last' = last := by simpa using hlast
    obtain ⟨mid, hyPre, hyRest⟩ := hy.of_append
    obtain ⟨hwPre, hwRest⟩ := List.forall_mem_append.mp hw.2
    obtain ⟨hwStage, hwBetween⟩ := List.forall_mem_cons.mp hwRest
    rw [List.concat_eq_append]
    cases hyRest with
    | cons reads tasks rest =>
        exact ⟨mid, _, _, hyPre, hwPre, reads, tasks,
          .writes hwStage hwBetween rest hnd hnot hschema hread htasks rfl⟩

/-- Block files of the stage `missing` are deleted or corrupted, once, when the stage has been
run and the stage that reads it has not. `st` is the state in which the reading stage starts. -/
structure OneTimeLoss (maxRetries t : ℕ) (root : String) (plan : PhysicalPlan F)
    (pre : List (Stage F)) (reader : Stage F) (post : List (Stage F)) (missing : ℕ)
    (isBroadcast : Bool) (loss : Loss F) (disk : Disk F) (dataset : Dataset F)
    (st : RunState (Disk F)) : Prop where
  build : buildStages plan = .ok (pre ++ reader :: post)
  reads : (missing, isBroadcast) ∈ reader.plan.shuffleReads
  clean : runPlan maxRetries executeTask root (pre ++ reader :: post) disk = .ok dataset
  before : (scheduler maxRetries executeTask root (pre ++ reader :: post)).runStages
    (maxRetries + 1 + (pre ++ reader :: post).length) ((pre ++ reader :: post).length + 1) pre
    (Scheduler.startState disk) = .ok (none, st)
  files : ∀ path, Lost loss path → ∃ b ∈ (st.manager.get? missing).getD [], b.path = path
  corrupted : FailsCheck loss ((st.manager.get? missing).getD [])
  written : taskCount (pre.take (missing + 1)) ≤ t
  unread : t ≤ taskCount pre

namespace OneTimeLoss

variable {maxRetries t : ℕ} {root : String} {plan : PhysicalPlan F} {pre post : List (Stage F)}
  {reader : Stage F} {missing : ℕ} {isBroadcast : Bool} {loss : Loss F} {disk : Disk F}
  {dataset : Dataset F} {st : RunState (Disk F)} {outs : List (Written F)}
  {read : ℕ → ℕ → Py (List (Record F))} {written : Written F}

variable (h : OneTimeLoss maxRetries t root plan pre reader post missing isBroadcast loss disk
  dataset st)

include h

lemma ordered : Ordered (pre ++ reader :: post) := by
  obtain ⟨writes, last, hstages, -, hordered, -⟩ := buildStages_ordered h.build
  rwa [hstages]

/-- The lost files are of the tasks of one stage. -/
lemma losesOnly (hy : StagesYield [] pre outs)
    (hw : ∀ stage ∈ pre, stage.plan.isShuffleWrite = true) {w : Written F}
    (hmissing : outs[missing]? = some w) :
    LosesOnly loss root missing (taskCount (pre.take (missing + 1))) ∧
      st.manager.get? missing = some (stageBlocks root missing (taskCount (pre.take missing)) w) := by
  have hnumbered := (numberedFrom_append.mp h.ordered.numbered).1
  have hrounds : maxRetries + 1 + (pre ++ reader :: post).length =
      maxRetries + (pre ++ reader :: post).length + 1 := by omega
  obtain ⟨st', hrun, hreached, -⟩ := runNext_reaches
    (maxRetries + (pre ++ reader :: post).length) (pre ++ reader :: post).length
    none (fun _ _ => True) (reached_start root id (fun _ => False) (fun _ => 0) disk) hy hnumbered hw
    (executes_executeTask maxRetries root (pre ++ reader :: post)) (fun _ _ _ _ _ _ _ hl => hl)
    trivial (fun _ _ _ _ => trivial)
  have hbefore := h.before
  rw [Scheduler.runStages, hrounds, hrun, Except.ok.injEq, Prod.mk.injEq] at hbefore
  obtain ⟨-, rfl⟩ := hbefore
  have hget := hreached.registered missing w hmissing
  have hfirst : firstFrom (fun _ => 0) ([] : List (Written F)).length
      (Scheduler.startState disk).nextTaskId pre missing = taskCount (pre.take missing) := by
    rw [firstFrom, if_neg (by simp)]
    simp [Scheduler.startState]
  rw [hfirst] at hget
  refine ⟨fun path hlost => ?_, hget⟩
  obtain ⟨b, hb, rfl⟩ := h.files path hlost
  rw [hget, Option.getD_some] at hb
  obtain ⟨task, -, hlt, hfile⟩ := stageBlocks_file b hb
  refine ⟨task, ?_, hfile⟩
  have hlen := hy.length_eq
  have hpos := (List.getElem?_eq_some_iff.mp hmissing).1
  rw [List.length_nil] at hlen
  have hstage : pre[missing]? = some pre[missing] := List.getElem?_eq_getElem (by omega)
  obtain ⟨w', readMissing, hw', -, htasks⟩ := hy.finished hstage
  rw [List.length_nil, Nat.zero_add, hmissing, Option.some.injEq] at hw'
  subst hw'
  have hcount : w.length = pre[missing].numPartitions := by
    simpa using ExceptList.mapM_length htasks
  rw [List.take_add_one, hstage, taskCount_append, Option.toList_some, taskCount_cons]
  omega

/-- The reading stage is about to start, with blocks lost. -/
theorem stricken (hy : StagesYield [] pre outs)
    (hw : ∀ stage ∈ pre, stage.plan.isShuffleWrite = true) (hread : ReadsFrom outs reader.plan read)
    (htasks : (List.range reader.numPartitions).mapM (taskOutput read reader.plan) = .ok written) :
    ∃ first st' missingStage readMissing writtenMissing,
      pre.foldlM ((scheduler maxRetries (lossyTask t loss) root (pre ++ reader :: post)).runNext
          (maxRetries + 1 + (pre ++ reader :: post).length) ((pre ++ reader :: post).length + 1))
        (none, Scheduler.startState ⟨disk, 0⟩) = .ok (none, st') ∧
      Stricken (scheduler maxRetries (lossyTask t loss) root (pre ++ reader :: post)) t loss missing
        isBroadcast reader outs first st' read written ∧
      Recomputable (scheduler maxRetries (lossyTask t loss) root (pre ++ reader :: post)) outs
        missing missingStage readMissing writtenMissing ∧
      st'.recomputedStages = [] ∧ st'.manager.get? missing = st.manager.get? missing := by
  obtain ⟨hid, hnd, -⟩ := h.ordered.readsFrom hy
  have hlen := hy.length_eq
  rw [List.length_nil, Nat.zero_add] at hlen
  have hmem : missing ∈ reader.plan.readIds := List.mem_map_of_mem h.reads
  have hlt : missing < pre.length := by
    have := h.ordered.earlier reader (by simp) missing hmem
    omega
  have hstage : pre[missing]? = some pre[missing] := List.getElem?_eq_getElem hlt
  have hin : pre[missing] ∈ pre ++ reader :: post := by simp
  obtain ⟨writtenMissing, readMissing, hmissing, hreadMissing, htasksMissing⟩ := hy.finished hstage
  rw [List.length_nil, Nat.zero_add] at hmissing
  obtain ⟨hloses, hget⟩ := h.losesOnly hy hw hmissing
  have hnumbered := (numberedFrom_append.mp h.ordered.numbered).1
  obtain ⟨hidMissing, hndMissing⟩ := hnumbered.getElem? hstage
  rw [Nat.zero_add] at hidMissing
  have hnot : ∀ stage ∈ pre, missing ∉ stage.plan.readIds :=
    fun stage hpre => buildStages_readOnce h.build hmem stage (List.mem_append_left _ hpre)
  have hpre := List.take_append_drop (missing + 1) pre
  have hrounds : maxRetries + 1 + (pre ++ reader :: post).length =
      maxRetries + (pre ++ reader :: post).length + 1 := by omega
  obtain ⟨first, st', hrun, hreached, hfirst, hnext, hrec, hattempts, hstruck⟩ :=
    runNext_reaches_lossy (maxRetries + (pre ++ reader :: post).length)
      (pre ++ reader :: post).length disk
      (s := scheduler maxRetries (lossyTask t loss) root (pre ++ reader :: post)) rfl
      (by rwa [hpre]) (by rwa [hpre]) (by rwa [hpre]) hloses (by rwa [hpre]) h.written
  rw [hpre] at hrun hnext hattempts
  have hget' : st'.manager.get? missing = st.manager.get? missing := by
    rw [hreached.registered missing writtenMissing hmissing, hget, hfirst missing (by simp; omega),
      List.take_take, min_eq_left (Nat.le_succ missing)]
    rfl
  refine ⟨first, st', pre[missing], readMissing, writtenMissing, ?_, ?_, ?_, hrec, hget'⟩
  · rw [hrounds]
    exact hrun
  · have hmono : taskCount (pre.take (missing + 1)) ≤ taskCount pre := by
      conv_rhs => rw [← hpre, taskCount_append]
      exact Nat.le_add_right _ _
    exact {
      runs := rfl
      reached := hreached
      due := by
        rw [hattempts]
        exact h.unread
      struck := hstruck
      loses := hloses.mono (by omega)
      fails := by
        rw [hget']
        exact h.corrupted
      reads := h.reads
      nodup := hnd
      position := hid
      readsFrom := hread
      tasks := htasks }
  · have hknown := OrderedDict.get?_ofList_of_mem h.ordered.ids_nodup
      (List.mem_map_of_mem (f := fun st : Stage F => (st.stageId, st)) hin)
    rw [hidMissing] at hknown
    exact {
      known := hknown
      stageId := hidMissing
      write := hw _ (List.getElem_mem hlt)
      nodup := hndMissing
      earlier := by
        intro i hi
        have := h.ordered.earlier _ hin i hi
        omega
      readsFrom := hreadMissing
      tasks := htasksMissing
      output := hmissing }

/-- What the stages of the run have to do. -/
lemma remaining : ∃ outs read written, StagesYield [] pre outs ∧
    (∀ stage ∈ pre, stage.plan.isShuffleWrite = true) ∧ ReadsFrom outs reader.plan read ∧
    (List.range reader.numPartitions).mapM (taskOutput read reader.plan) = .ok written ∧
    Remaining plan.schema dataset outs reader written post := by
  obtain ⟨parts, hreturn, rfl⟩ := runPlan_safe executeTask_unreliable h.build h.clean
  exact hreturn.remaining

/-- If no two tasks of the reading stage lose blocks, the run returns what it returns without
the loss. -/
theorem returns (hone : ∀ pid < reader.numPartitions, ∀ pid' < reader.numPartitions,
      LosesInput loss st.manager missing isBroadcast pid →
      LosesInput loss st.manager missing isBroadcast pid' → pid = pid') :
    runPlan maxRetries (lossyTask t loss) root (pre ++ reader :: post) ⟨disk, 0⟩ = .ok dataset := by
  obtain ⟨outs, read, written, hy, hw, hread, htasks, hremaining⟩ := h.remaining
  obtain ⟨first, st', missingStage, readMissing, writtenMissing, hpre, hstricken, hm, hrec, hget⟩ :=
    h.stricken hy hw hread htasks
  have hrounds : maxRetries + 1 + (pre ++ reader :: post).length =
      maxRetries + pre.length + post.length + 2 := by
    simp
    omega
  have hdepth : (pre ++ reader :: post).length + 1 = pre.length + post.length + 2 := by
    simp
    omega
  have hblocks : ∀ pid, LosesInput loss st'.manager missing isBroadcast pid ↔
      LosesInput loss st.manager missing isBroadcast pid := by
    intro pid
    rw [LosesInput, LosesInput, ShuffleManager.blocksFor, ShuffleManager.blocksFor, hget]
  obtain ⟨results, st₁, hstage, hdone⟩ := hstricken.recovers (maxRetries + pre.length + post.length)
    (pre.length + post.length) hm (by simp [hrec]) (by simpa only [hblocks] using hone)
  rw [runPlan, runAllStages, Scheduler.runStages, List.foldlM_append, hpre, ExceptList.bind_ok,
    List.foldlM_cons, Scheduler.runNext, hrounds, hdepth]
  simp only [hstage, ExceptList.bind_ok, ExceptList.pure_eq_ok]
  cases hremaining with
  | @returns parts hnot hschema hrows hresult =>
      have hyields := hdone.yields
      rw [hnot] at hyields
      have hrowsEq := hyields.rows rfl
      have hcounts := hyields.outputRecords rfl
      rw [hrows] at hrowsEq hcounts
      simp only [List.map_map, Function.comp_def, List.map_id', List.length_map] at hrowsEq hcounts
      rw [hnot, hresult, ← hschema]
      simp only [Bool.false_eq_true, if_false, List.foldlM_nil, ExceptList.pure_eq_ok,
        ExceptList.bind_ok, resultsToDataset_eq hrowsEq hcounts]
  | @writes between last outs' read' parts hwrite hbetween hyields hnd hnotWrite hschema hreadLast
      htasksLast hresult =>
      obtain ⟨first', hreached⟩ := hdone.registers hwrite hstricken.position
        (by simpa using ExceptList.mapM_length htasks)
      have hnot : ∀ stage ∈ between ++ [last], missing ∉ stage.plan.readIds :=
        fun stage hpost => buildStages_readOnce h.build (List.mem_map_of_mem h.reads) stage
          (List.mem_append_right _ hpost)
      obtain ⟨hnotBetween, hnotLast⟩ := List.forall_mem_append.mp hnot
      have hnumbered := (numberedFrom_append.mp
        (numberedFrom_append.mp h.ordered.numbered).2.2.2).1
      have hlen := hy.length_eq
      obtain ⟨st₂, hrun, hreached₂, -⟩ := runNext_reaches
        (maxRetries + pre.length + (between ++ [last]).length + 1)
        (pre.length + (between ++ [last]).length + 1) none (fun _ _ => True) hreached
        hyields (by rwa [List.length_append, hlen, List.length_nil]) hbetween
        (executes_lossyTask hstricken.runs) (hstricken.loses.readsKept hnotBetween) trivial
        (fun _ _ _ _ => trivial)
      obtain ⟨st₃, hlast⟩ := runNext_returns
        (maxRetries + pre.length + (between ++ [last]).length + 1)
        (pre.length + (between ++ [last]).length + 1) none hreached₂
        (executes_lossyTask hstricken.runs) hnd hnotWrite hreadLast
        (hstricken.loses.readsKept hnotLast) htasksLast
      rw [if_pos hwrite, List.foldlM_append, hrun, ExceptList.bind_ok, List.foldlM_cons, hlast,
        hresult, hschema]
      rfl

/-- If two tasks of the reading stage lose blocks, the run raises. -/
theorem raises (htwo : ∃ pid < reader.numPartitions, ∃ pid' < reader.numPartitions,
      LosesInput loss st.manager missing isBroadcast pid ∧
      LosesInput loss st.manager missing isBroadcast pid' ∧ pid ≠ pid') :
    ∀ recovered, runPlan maxRetries (lossyTask t loss) root (pre ++ reader :: post) ⟨disk, 0⟩ ≠
      .ok recovered := by
  intro recovered hrun
  obtain ⟨outs, read, written, hy, hw, hread, htasks, -⟩ := h.remaining
  obtain ⟨first, st', missingStage, readMissing, writtenMissing, hpre, hstricken, hm, hrec, hget⟩ :=
    h.stricken hy hw hread htasks
  have hrounds : maxRetries + 1 + (pre ++ reader :: post).length =
      maxRetries + (pre ++ reader :: post).length + 1 := by omega
  have hdepth : (pre ++ reader :: post).length + 1 = pre.length + post.length + 2 := by
    simp
    omega
  rw [runPlan, runAllStages, Scheduler.runStages, List.foldlM_append, hpre, ExceptList.bind_ok,
    List.foldlM_cons] at hrun
  obtain ⟨⟨final, st₁⟩, hrest, -⟩ := ExceptList.bind_eq_ok.mp hrun
  obtain ⟨⟨final', st₂⟩, hreader, -⟩ := ExceptList.bind_eq_ok.mp hrest
  obtain ⟨⟨results, st₃⟩, hstage, -⟩ := ExceptList.bind_eq_ok.mp hreader
  have hblocks : ∀ pid, LosesInput loss st'.manager missing isBroadcast pid ↔
      LosesInput loss st.manager missing isBroadcast pid := by
    intro pid
    rw [LosesInput, LosesInput, ShuffleManager.blocksFor, ShuffleManager.blocksFor, hget]
  rw [hrounds, hdepth] at hstage
  refine hstricken.raises _ _ hm (by simp [hrec]) ?_ _ hstage
  simpa only [hblocks] using htwo

end OneTimeLoss

/-- A run gets over a one-time loss of block files exactly when they are read by at most one
task: the stage is run again for the first task that misses a block, and no other task gets
the new blocks. -/
theorem lossyRun_returns_iff {maxRetries t : ℕ} {root : String} {plan : PhysicalPlan F}
    {pre post : List (Stage F)} {reader : Stage F} {missing : ℕ} {isBroadcast : Bool}
    {loss : Loss F} {disk : Disk F} {dataset : Dataset F} {st : RunState (Disk F)}
    (h : OneTimeLoss maxRetries t root plan pre reader post missing isBroadcast loss disk
      dataset st) :
    (∃ recovered,
      runPlan maxRetries (lossyTask t loss) root (pre ++ reader :: post) ⟨disk, 0⟩ = .ok recovered ∧
      recovered.iterRecords = dataset.iterRecords) ↔
      ∀ pid < reader.numPartitions, ∀ pid' < reader.numPartitions,
        LosesInput loss st.manager missing isBroadcast pid →
        LosesInput loss st.manager missing isBroadcast pid' → pid = pid' := by
  constructor
  · rintro ⟨recovered, hrun, -⟩
    by_contra hone
    push Not at hone
    obtain ⟨pid, hpid, pid', hpid', hloses, hloses', hne⟩ := hone
    exact h.raises ⟨pid, hpid, pid', hpid', hloses, hloses', hne⟩ recovered hrun
  · intro hone
    exact ⟨dataset, h.returns hone, rfl⟩

end OneTimeLoss

section Examples

/-- Two source partitions of one row each, one for each of two targets. -/
def crossedTable : PhysicalPlan ℚ :=
  .exchangeExec (.scanExec (rowsDataset abSchema (intRows ["a", "b"]
    [[[.int 1, .int 2]], [[.int 2, .int 3]]])) "memory") 2 [.column "a"] false none

def crossedWriter : Stage ℚ :=
  ⟨0, .shuffleWriteExec (.scanExec (rowsDataset abSchema (intRows ["a", "b"]
    [[[.int 1, .int 2]], [[.int 2, .int 3]]])) "memory") 2 [.column "a"] none, 2⟩

def crossedReader : Stage ℚ := ⟨1, .shuffleReadExec 0 abSchema false, 2⟩

/-- The block files of these targets are deleted. -/
def deletedTargets (targets : List ℕ) : Loss ℚ := fun path =>
  if 1 ∈ targets ∧ path = blockPath "root" 0 0 1 ∨ 0 ∈ targets ∧ path = blockPath "root" 0 1 0 then
    some none
  else none

lemma crossed_oneTimeLoss (targets : List ℕ) : ∃ dataset st,
    OneTimeLoss 2 2 "root" crossedTable [crossedWriter] crossedReader [] 0 false
      (deletedTargets targets) (fun _ => none) dataset st ∧
    ((st.manager.get? 0).getD []).map (fun b => (b.path, b.targetPartition)) =
      [(blockPath "root" 0 0 1, 1), (blockPath "root" 0 1 0, 0)] := by
  have hclean : (runPlan 2 executeTask "root" [crossedWriter, crossedReader]
      (fun _ => none)).toOption.isSome = true := by decide +kernel
  have hbefore : ((scheduler 2 executeTask "root" [crossedWriter, crossedReader]).runStages 5 3
      [crossedWriter] (Scheduler.startState (fun _ => none))).toOption.map (fun r =>
        (r.1.isNone, ((r.2.manager.get? 0).getD []).map (fun b => (b.path, b.targetPartition)))) =
      some (true, [(blockPath "root" 0 0 1, 1), (blockPath "root" 0 1 0, 0)]) := by decide +kernel
  cases hrun : runPlan 2 executeTask "root" [crossedWriter, crossedReader] (fun _ => none) with
  | error e => simp [hrun, Except.toOption] at hclean
  | ok dataset =>
      cases hpre : (scheduler 2 executeTask "root" [crossedWriter, crossedReader]).runStages 5 3
          [crossedWriter] (Scheduler.startState (fun _ => none)) with
      | error e => simp [hpre, Except.toOption] at hbefore
      | ok outcome =>
          obtain ⟨final, st⟩ := outcome
          simp only [hpre, Except.toOption, Option.map_some, Option.some.injEq, Prod.mk.injEq,
            Option.isNone_iff_eq_none] at hbefore
          obtain ⟨rfl, hblocks⟩ := hbefore
          refine ⟨dataset, st, ⟨rfl, List.mem_singleton.mpr rfl, hrun, hpre, ?_, ?_, le_rfl, le_rfl⟩,
            hblocks⟩
          · rintro path ⟨content, hcontent⟩
            have hmem : ∃ target, (path, target) ∈
                ((st.manager.get? 0).getD []).map (fun b => (b.path, b.targetPartition)) := by
              rw [hblocks]
              unfold deletedTargets at hcontent
              split at hcontent
              · next hpath =>
                  rcases hpath with ⟨-, rfl⟩ | ⟨-, rfl⟩
                  · exact ⟨1, by simp⟩
                  · exact ⟨0, by simp⟩
              · cases hcontent
            obtain ⟨target, hmem⟩ := hmem
            obtain ⟨b, hb, heq⟩ := List.mem_map.mp hmem
            exact ⟨b, hb, congrArg Prod.fst heq⟩
          · intro b _ raw hraw
            unfold deletedTargets at hraw
            split at hraw <;> cases hraw

/-- The blocks of one target are deleted: the run returns its rows all the same. -/
theorem lossyRun_returns_crossed : ∃ dataset st,
    OneTimeLoss 2 2 "root" crossedTable [crossedWriter] crossedReader [] 0 false
      (deletedTargets [1]) (fun _ => none) dataset st ∧
    ∃ recovered, runPlan 2 (lossyTask 2 (deletedTargets [1])) "root"
        ([crossedWriter] ++ crossedReader :: []) ⟨fun _ => none, 0⟩ = .ok recovered ∧
      recovered.iterRecords = dataset.iterRecords := by
  obtain ⟨dataset, st, h, hblocks⟩ := crossed_oneTimeLoss [1]
  have hone : ∀ pid, LosesInput (deletedTargets [1]) st.manager 0 false pid → pid = 1 := by
    rintro pid ⟨b, hb, content, hcontent⟩
    obtain ⟨hb, htarget⟩ := List.mem_filter.mp hb
    have hmem := List.mem_map_of_mem (f := fun b => (b.path, b.targetPartition)) hb
    rw [hblocks] at hmem
    have htarget : b.targetPartition = pid := by simpa [targetOf] using htarget
    rcases List.mem_cons.mp hmem with heq | hmem
    · rw [← htarget]
      exact congrArg Prod.snd heq
    · have hpath : b.path = blockPath "root" 0 1 0 :=
        congrArg Prod.fst (List.mem_singleton.mp hmem)
      rw [hpath] at hcontent
      have hkept : deletedTargets [1] (blockPath "root" 0 1 0) = none := by decide +kernel
      rw [hkept] at hcontent
      cases hcontent
  refine ⟨dataset, st, h, (lossyRun_returns_iff h).mpr (fun pid _ pid' _ hloses hloses' => ?_)⟩
  rw [hone pid hloses, hone pid' hloses']

/-- The blocks of both targets are deleted: the task of the second one is given up. -/
theorem lossyRun_raises_crossed : ∃ dataset st,
    OneTimeLoss 2 2 "root" crossedTable [crossedWriter] crossedReader [] 0 false
      (deletedTargets [0, 1]) (fun _ => none) dataset st ∧
    runPlan 2 (lossyTask 2 (deletedTargets [0, 1])) "root"
        ([crossedWriter] ++ crossedReader :: []) ⟨fun _ => none, 0⟩ =
      .error (.taskExecutionError 1 2 2 3 (some (.missingShuffleDataError 0 1))) := by
  obtain ⟨dataset, st, h, -⟩ := crossed_oneTimeLoss [0, 1]
  refine ⟨dataset, st, h, ?_⟩
  have herror : (match runPlan 2 (lossyTask 2 (deletedTargets [0, 1])) "root"
      ([crossedWriter] ++ crossedReader :: []) ⟨fun _ => none, 0⟩ with
      | .error e => some e
      | .ok _ => none) = some (.taskExecutionError 1 2 2 3 (some (.missingShuffleDataError 0 1))) := by
    decide +kernel
  cases hrun : runPlan 2 (lossyTask 2 (deletedTargets [0, 1])) "root"
      ([crossedWriter] ++ crossedReader :: []) ⟨fun _ => none, 0⟩ with
  | error e =>
      rw [hrun] at herror
      rw [Option.some.inj herror]
  | ok recovered =>
      rw [hrun] at herror
      cases herror

end Examples

end MiniSpark
