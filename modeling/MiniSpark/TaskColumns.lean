import MiniSpark.OperatorColumns

/-!
# The columns a task reads and writes

What the finished stages of a run have written has the columns they declare. A task reads
nothing else, so whatever the attempt, it finds every column its expressions mention.
-/
namespace MiniSpark

open Outcome

variable {F : Type} [PyRuntime F] {B : String → Prop}

section Written

omit [PyRuntime F]

/-- The rows of every stage that has run have the columns of its plan. -/
def OutsConform (stages : List (Stage F)) (outs : List (Written F)) : Prop :=
  ∀ (i : ℕ) (stage : Stage F) (w : Written F), stages[i]? = some stage → outs[i]? = some w →
    ∀ tagged ∈ w, ∀ p ∈ tagged, HasKeys stage.plan.schema.fieldNames p.2

variable {stages : List (Stage F)} {outs : List (Written F)}

/-- The rows of one target are rows that were written. -/
lemma allHaveKeys_readTarget {names : List String} {w : Written F}
    (h : ∀ tagged ∈ w, ∀ p ∈ tagged, HasKeys names p.2) (target : ℕ) :
    AllHaveKeys names (readTarget w target) := by
  intro r hr
  obtain ⟨p, hp, rfl⟩ := List.mem_map.mp hr
  obtain ⟨tagged, htagged, hp⟩ := List.mem_flatten.mp (List.mem_of_mem_filter hp)
  exact h tagged htagged p hp

/-- A plan that reads finished stages reads their columns. -/
theorem readsConform_of_written {plan : PhysicalPlan F} {read : ℕ → ℕ → Py (List (Record F))}
    (pid : ℕ) (hread : ReadsFrom outs plan read) (hleaves : LeavesWritten stages plan)
    (houts : OutsConform stages outs) : ReadsConform B read pid plan := by
  induction plan with
  | scanExec dataset sourceName => trivial
  | shuffleReadExec stageId schema bc =>
      obtain ⟨stage, hstage, hnames⟩ := hleaves
      obtain ⟨w, hw, hrows⟩ := hread (stageId, bc) (by simp)
      show Meets _ _ (read stageId pid)
      rw [hrows pid, meets_ok, ← hnames]
      exact allHaveKeys_readTarget (houts stageId stage w hstage hw) _
  | hashJoinExec left right lk rk on schema ihl ihr =>
      exact ⟨ihl (fun p hp => hread p (by simp [hp])) hleaves.1,
        ihr (fun p hp => hread p (by simp [hp])) hleaves.2⟩
  | _ =>
      rename_i ih
      exact ih hread hleaves

/-- One more stage has run. -/
lemma OutsConform.snoc {w : Written F} (h : OutsConform stages outs)
    (hw : ∀ stage, stages[outs.length]? = some stage →
      ∀ tagged ∈ w, ∀ p ∈ tagged, HasKeys stage.plan.schema.fieldNames p.2) :
    OutsConform stages (outs ++ [w]) := by
  intro i stage v hstage hv
  obtain ⟨-, hv⟩ | ⟨rfl, rfl⟩ := getElem?_snoc hv
  · exact h i stage v hstage hv
  · exact hw stage hstage

/-- Stages that find their columns write the columns they declare. -/
theorem OutsConform.of_yield [PyRuntime F] [PyHost F] {datasets : List (Dataset F)}
    (pre : List (Stage F)) {run : List (Stage F)} {outs' : List (Written F)} (hscans : ScansConform B datasets)
    (hfound : ∀ stage ∈ stages, StagePlanFound datasets stages stage.plan)
    (hpre : pre ++ run <+: stages) (hlen : outs.length = pre.length)
    (houts : OutsConform stages outs) (h : StagesYield outs run outs') :
    OutsConform stages outs' := by
  induction h generalizing pre with
  | nil outs => exact houts
  | @cons outs outs' stage run w read reads tasks rest ih =>
      have hat : stages[outs.length]? = some stage := by
        obtain ⟨post, rfl⟩ := hpre
        simp [hlen]
      have hstage := hfound stage (List.mem_of_getElem? hat)
      refine ih (pre ++ [stage]) (by simpa using hpre) (by simp [hlen]) (houts.snoc ?_)
      rw [hat]
      rintro _ ⟨rfl⟩ tagged htagged
      obtain ⟨pid, -, hpid⟩ := Dealing.exists_partner (ExceptList.mapM_eq_ok.mp tasks) htagged
      exact (taskOutput_conforms (B := B) hstage.columns (hscans.mono hstage.scans)
        (readsConform_of_written pid reads hstage.leaves houts)).of_ok hpid

end Written

section Tasks

omit [PyRuntime F] in
/-- The count of the input records is metadata. -/
lemma inputRecordCount_safe (task : Task F) : Safe B (inputRecordCount task) := by
  refine (meets_mapM_all (R := fun _ => True) (fun leaf _ => ?_)).map (fun _ _ => trivial)
  unfold leafRecordCount
  split
  · next dataset sourceName _ =>
      unfold Dataset.partition
      cases dataset.partitions[task.partitionId]? with
      | none => exact nofun
      | some p => trivial
  · trivial
  · trivial

omit [PyRuntime F] in
/-- The loop over the rows raises what their targets raise. -/
lemma writeLoop_safe {target : Record F → Py ℕ} {rows : List (Record F)}
    (h : ∀ r ∈ rows, Safe B (target r)) (writers : BlockWriters F) :
    Safe B (writeLoop target rows writers).1 := by
  induction rows generalizing writers with
  | nil => trivial
  | cons r rows ih =>
      obtain ⟨hr, hrows⟩ := List.forall_mem_cons.mp h
      unfold writeLoop
      split
      · next e he => exact hr.of_error he
      · exact ih hrows _

variable [PyHost F] {task : Task F} {disk : Disk F}

lemma writeShufflePartition_safe {root : String} {stageId taskId : ℕ}
    {target : Record F → Py ℕ} {rows : List (Record F)} {disk : Disk F}
    (h : ∀ r ∈ rows, Safe B (target r)) :
    Safe B (writeShufflePartition root stageId taskId rows target disk).1 :=
  (writeLoop_safe h OrderedDict.empty).bind (fun _ _ => trivial)

lemma executeNormalTask_meets (h : task.plan.ColumnsFound) (hscans : ScansConform B task.plan.scans)
    (hread : ReadsConform B (readStage disk task.shuffleBlocks) task.partitionId task.plan) :
    Meets (Blames B) (fun result => result.error = none) (executeNormalTask task disk) := by
  refine (executePartition_conforms h hscans hread).bind (fun part hpart => ?_)
  refine (hpart 0).bind (fun rows _ => ?_)
  exact (inputRecordCount_safe task).bind (fun _ _ => rfl)

lemma executeShuffleWriteTask_meets {child : PhysicalPlan F} {n : ℕ} {exprs : List (Expression F)}
    (rb : Option (List (Value F))) (h : child.ColumnsFound) (hscans : ScansConform B child.scans)
    (hread : ReadsConform B (readStage disk task.shuffleBlocks) task.partitionId child)
    (hexprs : ∀ e ∈ exprs, ReadsFromNames child.schema.fieldNames e) :
    Meets (Blames B) (fun result => result.error = none)
      (executeShuffleWriteTask task child n exprs rb disk).1 := by
  have hinput : Meets (Blames B) (fun input => ∀ r ∈ input.2.1, Safe B (input.2.2 r))
      (shuffleWriteInput task child n exprs rb disk) := by
    unfold shuffleWriteInput
    split
    · exact nofun
    · refine (executePartition_conforms h hscans hread).bind (fun part hpart => ?_)
      refine (hpart 0).bind (fun rows hrows => ?_)
      exact (shuffleTarget_meets n rb hexprs).bind (fun target htarget r hr =>
        htarget r (hrows r hr))
  unfold executeShuffleWriteTask
  split
  · next e he => exact hinput.of_error he
  · next rootDir rows target hok =>
      refine (writeShufflePartition_safe (hinput.of_ok hok)).bind (fun blocks _ => ?_)
      exact (inputRecordCount_safe task).bind (fun _ _ => rfl)

/-- An attempt that reads the columns it declares raises no missing column. -/
theorem executeTask_safe (attempt : ℕ) (h : task.plan.ColumnsFound)
    (hscans : ScansConform B task.plan.scans)
    (hread : ReadsConform B (readStage disk task.shuffleBlocks) task.partitionId task.plan)
    {m : String} (he : (executeTask task attempt disk).1.error = some (.keyError m)) : B m := by
  have hbody : Meets (Blames B) (fun result => result.error = none) (runTaskBody task disk).1 := by
    unfold runTaskBody
    split
    · next child n exprs rb hplan =>
        rw [hplan] at h hscans hread
        exact executeShuffleWriteTask_meets rb h.1 hscans hread h.2
    · exact executeNormalTask_meets h hscans hread
  unfold executeTask at he
  split at he
  · next result disk' hrun =>
      have hnone : result.error = none := hbody.of_ok (congrArg Prod.fst hrun)
      rw [hnone] at he
      cases he
  · next e disk' hrun =>
      have hblames : Blames B e := hbody.of_error (congrArg Prod.fst hrun)
      exact hblames m (Option.some.inj he)

end Tasks

section Attempts

variable [PyHost F]

/-- The disk after these attempts, one after the other. -/
def afterAttempts (tried : List (Task F × ℕ)) (disk : Disk F) : Disk F :=
  tried.foldl (fun d entry => (executeTask entry.1 entry.2 d).2) disk

/-- Tasks change no files of tasks with smaller ids. -/
lemma afterAttempts_keepsBlocks (root : String) {next : ℕ} {tried : List (Task F × ℕ)}
    (h : ∀ entry ∈ tried, next ≤ entry.1.taskId) (disk : Disk F) :
    KeepsBlocks root next disk (afterAttempts tried disk) := by
  induction tried generalizing disk with
  | nil => exact fun _ _ _ _ => rfl
  | cons entry tried ih =>
      obtain ⟨hhead, htail⟩ := List.forall_mem_cons.mp h
      intro stageId t target ht
      refine (ih htail _ stageId t target ht).trans (executeTask_frame ?_)
      rw [Bool.eq_false_iff, ne_eq, ownsFile_blockPath]
      omega

variable {root : String} {disk' : Disk F} {outs : List (Written F)}

/-- A stage that comes after finished stages, and the state it starts in. -/
structure StageStart (root : String) (stages : List (Stage F)) (outs : List (Written F))
    (stage : Stage F) (st : RunState (Disk F)) : Prop where
  listed : stage ∈ stages
  inv : RunInv root id outs st
  conforms : OutsConform stages outs
  readIds : stage.plan.readIds.Nodup
  reads : ∃ read, ReadsFrom outs stage.plan read

variable {stages : List (Stage F)} {stage : Stage F} {st : RunState (Disk F)}

/-- A run that has come to a stage. -/
theorem stageStart_of_run {plan : PhysicalPlan F} {pre post : List (Stage F)}
    {maxRetries rounds depth : ℕ} {disk : Disk F} {final : Option (Dataset F)}
    (hb : buildStages plan = .ok (pre ++ stage :: post)) (hplan : plan.ColumnsFound)
    (hscans : ScansConform B plan.scans)
    (hrun : (scheduler maxRetries executeTask root (pre ++ stage :: post)).runStages rounds depth pre
      (Scheduler.startState disk) = .ok (final, st)) :
    (∀ stage' ∈ pre ++ stage :: post,
      StagePlanFound plan.scans (pre ++ stage :: post) stage'.plan) ∧
      ∃ outs, StageStart root (pre ++ stage :: post) outs stage st := by
  have hfound := buildStages_columnsFound hb hplan
  obtain ⟨writes, last, hlist, hw, hall, -⟩ := buildStages_ordered hb
  rw [← hlist] at hall
  -- the stages before are write stages
  have hpre : writes = pre ++ (stage :: post).dropLast := by
    have hdrop := congrArg List.dropLast hlist
    rwa [List.dropLast_concat, List.dropLast_append_of_ne_nil (List.cons_ne_nil _ _), eq_comm]
      at hdrop
  have hwrite : ∀ stage' ∈ pre, stage'.plan.isShuffleWrite = true := by
    intro stage' hmem
    exact hw.2 stage' (hpre ▸ List.mem_append_left _ hmem)
  have hstart : RunInv root id ([] : List (Written F)) (Scheduler.startState disk) :=
    ⟨fun i w hi => by simp at hi, fun i b hb => by simp [Scheduler.startState] at hb⟩
  have hfromNone : Ordered ([] ++ pre ++ stage :: post) := hall
  obtain ⟨-, outs, hy, hinv⟩ :=
    runWrites_safe executeTask_unreliable rfl hfromNone hwrite (.nil _) hstart hrun
  obtain ⟨-, hnd, hread⟩ := hall.readsFrom hy
  have houts : OutsConform (pre ++ stage :: post) outs :=
    OutsConform.of_yield [] hscans hfound (List.prefix_append pre _) rfl
      (fun i stage' w _ hw => by simp at hw) hy
  exact ⟨hfound, outs, by simp, hinv, houts, hnd, hread⟩

/-- Whatever the attempts of the stage have done to files of their own, its tasks read what the
finished stages have written. -/
theorem StageStart.readsConform (h : StageStart root stages outs stage st)
    (hleaves : LeavesWritten stages stage.plan) (pid : ℕ)
    (hkept : KeepsBlocks root st.nextTaskId st.world disk') :
    ReadsConform B (readStage disk' (resolveShuffleBlocks stage.plan pid st.manager)) pid
      stage.plan := by
  obtain ⟨read, hread⟩ := h.reads
  have hrep : Represents NoneLost disk' st.manager outs := by
    intro i w hw
    refine (h.inv.represents i w hw).frame (fun b hb _ => ?_)
    obtain ⟨t, ht, target, hpath⟩ := h.inv.placed i b hb
    rw [hpath]
    exact hkept i t target ht
  have hwritten : ReadsConform B read pid stage.plan :=
    readsConform_of_written pid hread hleaves h.conforms
  refine hwritten.congr (fun i hi => ?_)
  exact readStage_eq hrep (fun _ _ _ _ hlost => hlost) h.readIds hread hi

end Attempts

end MiniSpark
