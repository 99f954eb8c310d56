import MiniSpark.ColumnSafety
import MiniSpark.RecoveredRuns
import MiniSpark.SplitRefinement

/-!
# The columns of every operator

A physical plan whose expressions read columns of their input yields, at every operator,
rows with exactly the columns of its schema. Splitting keeps this, so it holds of every
task: what a stage reads back are the rows an earlier stage wrote.
-/
namespace MiniSpark

open Outcome

variable {F : Type} [PyRuntime F] {B : String → Prop}

section Plans

/-- Each node evaluates its expressions on columns of its input, and declares what it yields. -/
def PhysicalPlan.ColumnsFound : PhysicalPlan F → Prop
  | .scanExec _ _ => True
  | .filterExec child condition =>
      child.ColumnsFound ∧ ReadsFromNames child.schema.fieldNames condition
  | .projectExec child columns schema =>
      child.ColumnsFound ∧ (∀ e ∈ columns, ReadsFromNames child.schema.fieldNames e) ∧
        schema.fieldNames = columns.map Expression.columnName
  | .hashAggregateExec child spec =>
      child.ColumnsFound ∧ spec.ReadsInput child.schema.fieldNames ∧
        spec.schema.fieldNames = spec.outputNames
  | .exchangeExec child _ exprs _ _ =>
      child.ColumnsFound ∧ ∀ e ∈ exprs, ReadsFromNames child.schema.fieldNames e
  | .shuffleWriteExec child _ exprs _ =>
      child.ColumnsFound ∧ ∀ e ∈ exprs, ReadsFromNames child.schema.fieldNames e
  | .shuffleReadExec _ _ _ => True
  | .hashJoinExec left right leftKeys rightKeys on schema =>
      left.ColumnsFound ∧ right.ColumnsFound ∧
        (∀ e ∈ leftKeys, ReadsFromNames left.schema.fieldNames e) ∧
        (∀ e ∈ rightKeys, ReadsFromNames right.schema.fieldNames e) ∧
        schema.fieldNames =
          left.schema.fieldNames ++ right.schema.fieldNames.filter (fun n => n ∉ on)
  | .sortExec child spec =>
      child.ColumnsFound ∧ (∀ k ∈ spec.keys, ReadsFromNames child.schema.fieldNames k.1) ∧
        spec.schema.fieldNames = child.schema.fieldNames

namespace PhysicalPlan

omit [PyRuntime F]

/-- The datasets at the scans. -/
def scans : PhysicalPlan F → List (Dataset F)
  | .scanExec dataset _ => [dataset]
  | .filterExec child _ => child.scans
  | .projectExec child _ _ => child.scans
  | .hashAggregateExec child _ => child.scans
  | .exchangeExec child _ _ _ _ => child.scans
  | .shuffleWriteExec child _ _ _ => child.scans
  | .shuffleReadExec _ _ _ => []
  | .hashJoinExec left right _ _ _ _ => left.scans ++ right.scans
  | .sortExec child _ => child.scans

/-- Every node of the plan, the root first. -/
def operators : PhysicalPlan F → List (PhysicalPlan F)
  | p@(.scanExec _ _) => [p]
  | p@(.filterExec child _) => p :: child.operators
  | p@(.projectExec child _ _) => p :: child.operators
  | p@(.hashAggregateExec child _) => p :: child.operators
  | p@(.exchangeExec child _ _ _ _) => p :: child.operators
  | p@(.shuffleWriteExec child _ _ _) => p :: child.operators
  | p@(.shuffleReadExec _ _ _) => [p]
  | p@(.hashJoinExec left right _ _ _ _) => p :: (left.operators ++ right.operators)
  | p@(.sortExec child _) => p :: child.operators

/-- Nodes of a plan that finds its columns find theirs. -/
theorem ColumnsFound.operators [PyRuntime F] {plan : PhysicalPlan F} (h : plan.ColumnsFound) :
    ∀ q ∈ plan.operators, q.ColumnsFound ∧ q.scans ⊆ plan.scans := by
  induction plan with
  | scanExec dataset sourceName =>
      intro q hq
      obtain rfl := List.mem_singleton.mp hq
      exact ⟨h, List.Subset.refl _⟩
  | shuffleReadExec stageId schema bc =>
      intro q hq
      obtain rfl := List.mem_singleton.mp hq
      exact ⟨h, List.Subset.refl _⟩
  | hashJoinExec left right lk rk on schema ihl ihr =>
      intro q hq
      obtain rfl | hq := List.mem_cons.mp hq
      · exact ⟨h, List.Subset.refl _⟩
      · obtain hq | hq := List.mem_append.mp hq
        · obtain ⟨hq, hsub⟩ := ihl h.1 q hq
          exact ⟨hq, List.Subset.trans hsub (List.subset_append_left _ _)⟩
        · obtain ⟨hq, hsub⟩ := ihr h.2.1 q hq
          exact ⟨hq, List.Subset.trans hsub (List.subset_append_right _ _)⟩
  | _ =>
      rename_i ih
      intro q hq
      obtain rfl | hq := List.mem_cons.mp hq
      · exact ⟨h, List.Subset.refl _⟩
      · exact ih h.1 q hq

end PhysicalPlan

/-- Every row that is read has exactly the fields of the schema. -/
def Dataset.RowsConform (d : Dataset F) : Prop :=
  ∀ p ∈ d.partitions, ∀ rows, p.toList = .ok rows → AllHaveKeys d.schema.fieldNames rows

/-- Reading one of the datasets itself raises this `KeyError`. -/
def ReadRaises (datasets : List (Dataset F)) (m : String) : Prop :=
  ∃ d ∈ datasets, ∃ p ∈ d.partitions, p.toList = .error (.keyError m)

/-- The scans are of conforming datasets, and `B` accounts for their own errors. -/
structure ScansConform (B : String → Prop) (datasets : List (Dataset F)) : Prop where
  rows : ∀ d ∈ datasets, d.RowsConform
  errors : ∀ m, ReadRaises datasets m → B m

omit [PyRuntime F] in
theorem ScansConform.mono {datasets datasets' : List (Dataset F)} (h : ScansConform B datasets)
    (hsub : datasets' ⊆ datasets) : ScansConform B datasets' where
  rows d hd := h.rows d (hsub hd)
  errors m hm := by
    obtain ⟨d, hd, hraises⟩ := hm
    exact h.errors m ⟨d, hsub hd, hraises⟩

omit [PyRuntime F] in
/-- A partition of a scan. -/
theorem Dataset.partition_conforms {d : Dataset F} (h : ScansConform B [d]) (pid : ℕ) :
    Meets (Blames B) (Partition.Conforms B d.schema.fieldNames) (d.partition pid) := by
  unfold Dataset.partition
  cases hp : d.partitions[pid]? with
  | none => simp [Blames]
  | some p =>
      have hmem : p ∈ d.partitions := List.mem_of_getElem? hp
      intro k
      rw [d.recomputable p hmem k]
      cases hrows : p.pass 0 with
      | ok rows => exact h.rows d (List.mem_singleton_self d) p hmem rows hrows
      | error e =>
          rintro m rfl
          exact h.errors m ⟨d, List.mem_singleton_self d, p, hmem, hrows⟩

/-- Every operator of an unsplit plan yields rows with the columns of its schema. -/
theorem denote_conforms [PyHost F] {plan : PhysicalPlan F} (h : plan.ColumnsFound)
    (hscans : ScansConform B plan.scans) :
    Meets (Blames B) (fun d => ∀ pid, Meets (Blames B)
      (Partition.Conforms B plan.schema.fieldNames) (d.part pid)) (denote plan) := by
  induction plan with
  | scanExec dataset sourceName => exact fun pid => Dataset.partition_conforms hscans pid
  | filterExec child condition ih =>
      refine (ih h.1 hscans).bind (fun d hd pid => ?_)
      exact (hd pid).map (fun _ hpart => filterPartition_conforms hpart h.2)
  | projectExec child columns schema ih =>
      refine (ih h.1 hscans).bind (fun d hd pid => ?_)
      exact (hd pid).map (fun _ hpart => projectPartition_conforms hpart h.2.1 h.2.2)
  | hashAggregateExec child spec ih =>
      refine (ih h.1 hscans).bind (fun d hd pid => ?_)
      exact (hd pid).bind (fun _ hpart => hashAggregatePartition_conforms pid hpart h.2.1 h.2.2)
  | sortExec child spec ih =>
      refine (ih h.1 hscans).bind (fun d hd pid => ?_)
      exact (hd pid).bind (fun _ hpart => sortPartition_conforms pid hpart h.2.1 h.2.2)
  | exchangeExec child n exprs bc rb ih =>
      refine (ih h.1 hscans).bind (fun d hd => ?_)
      refine (meets_mapM_all (R := fun tagged : List (ℕ × Record F) =>
        ∀ p ∈ tagged, HasKeys child.schema.fieldNames p.2) (fun pid _ =>
        (hd pid).bind (fun part hpart => exchangeRows_meets n rb hpart h.2))).bind
        (fun written hwritten pid k r hr => ?_)
      obtain ⟨p, hp, rfl⟩ := List.mem_map.mp hr
      obtain ⟨tagged, htagged, hp⟩ := List.mem_flatten.mp (List.mem_of_mem_filter hp)
      exact hwritten tagged htagged p hp
  | shuffleWriteExec child n exprs rb ih => simp [denote, noPartitionOperator, Blames]
  | shuffleReadExec stageId schema bc => simp [denote, noPartitionOperator, Blames]
  | hashJoinExec left right lk rk on schema ihl ihr =>
      obtain ⟨hl, hr, hlk, hrk, hschema⟩ := h
      refine (ihl hl (hscans.mono (List.subset_append_left _ _))).bind (fun l hdl => ?_)
      refine (ihr hr (hscans.mono (List.subset_append_right _ _))).bind (fun r hdr pid => ?_)
      refine (hdl pid).bind (fun leftPart hleft => (hdr pid).bind (fun rightPart hright => ?_))
      exact hashJoinPartition_conforms pid hleft hright hlk hrk hschema

end Plans

section Stages

variable {read read' : ℕ → ℕ → Py (List (Record F))} {pid : ℕ}

/-- What the reader hands to each leaf has the columns the leaf declares. -/
def ReadsConform (B : String → Prop) (read : ℕ → ℕ → Py (List (Record F))) (pid : ℕ) :
    PhysicalPlan F → Prop
  | .scanExec _ _ => True
  | .filterExec child _ => ReadsConform B read pid child
  | .projectExec child _ _ => ReadsConform B read pid child
  | .hashAggregateExec child _ => ReadsConform B read pid child
  | .exchangeExec child _ _ _ _ => ReadsConform B read pid child
  | .shuffleWriteExec child _ _ _ => ReadsConform B read pid child
  | .shuffleReadExec stageId schema _ =>
      Meets (Blames B) (AllHaveKeys schema.fieldNames) (read stageId pid)
  | .hashJoinExec left right _ _ _ _ => ReadsConform B read pid left ∧ ReadsConform B read pid right
  | .sortExec child _ => ReadsConform B read pid child

omit [PyRuntime F] in
theorem ReadsConform.congr {plan : PhysicalPlan F} (h : ReadsConform B read pid plan)
    (hsame : ∀ i ∈ plan.readIds, read' i pid = read i pid) : ReadsConform B read' pid plan := by
  induction plan with
  | scanExec dataset sourceName => trivial
  | shuffleReadExec stageId schema bc =>
      have heq := hsame stageId (by simp [PhysicalPlan.readIds])
      rw [ReadsConform, heq]
      exact h
  | hashJoinExec left right lk rk on schema ihl ihr =>
      rw [PhysicalPlan.readIds, PhysicalPlan.shuffleReads_hashJoinExec, List.map_append] at hsame
      exact ⟨ihl h.1 (fun i hi => hsame i (List.mem_append_left _ hi)),
        ihr h.2 (fun i hi => hsame i (List.mem_append_right _ hi))⟩
  | _ =>
      rename_i ih
      exact ih h hsame

/-- Every operator of a stage yields rows with the columns of its schema. -/
theorem executePartition_conforms [PyHost F] {plan : PhysicalPlan F} (h : plan.ColumnsFound)
    (hscans : ScansConform B plan.scans) (hread : ReadsConform B read pid plan) :
    Meets (Blames B) (Partition.Conforms B plan.schema.fieldNames)
      (executePartition read plan pid) := by
  induction plan with
  | scanExec dataset sourceName => exact Dataset.partition_conforms hscans pid
  | filterExec child condition ih =>
      exact (ih h.1 hscans hread).bind (fun _ hpart => filterPartition_conforms hpart h.2)
  | projectExec child columns schema ih =>
      exact (ih h.1 hscans hread).bind (fun _ hpart => projectPartition_conforms hpart h.2.1 h.2.2)
  | hashAggregateExec child spec ih =>
      exact (ih h.1 hscans hread).bind
        (fun _ hpart => hashAggregatePartition_conforms pid hpart h.2.1 h.2.2)
  | sortExec child spec ih =>
      exact (ih h.1 hscans hread).bind
        (fun _ hpart => sortPartition_conforms pid hpart h.2.1 h.2.2)
  | exchangeExec child n exprs bc rb ih => simp [executePartition, noPartitionOperator, Blames]
  | shuffleWriteExec child n exprs rb ih => simp [executePartition, noPartitionOperator, Blames]
  | shuffleReadExec stageId schema bc =>
      have hrows : Meets (Blames B) (AllHaveKeys schema.fieldNames) (read stageId pid) := hread
      exact hrows.bind (fun rows hrows k => hrows)
  | hashJoinExec left right lk rk on schema ihl ihr =>
      obtain ⟨hl, hr, hlk, hrk, hschema⟩ := h
      refine (ihl hl (hscans.mono (List.subset_append_left _ _)) hread.1).bind (fun leftPart hleft => ?_)
      refine (ihr hr (hscans.mono (List.subset_append_right _ _)) hread.2).bind
        (fun rightPart hright => ?_)
      exact hashJoinPartition_conforms pid hleft hright hlk hrk hschema

theorem taskOutput_conforms [PyHost F] {plan : PhysicalPlan F} (h : plan.ColumnsFound)
    (hscans : ScansConform B plan.scans) (hread : ReadsConform B read pid plan) :
    Meets (Blames B) (fun tagged => ∀ p ∈ tagged, HasKeys plan.schema.fieldNames p.2)
      (taskOutput read plan pid) := by
  cases hw : plan.isShuffleWrite with
  | true =>
      cases plan with
      | shuffleWriteExec child n exprs rb =>
          exact (executePartition_conforms h.1 hscans hread).bind
            (fun part hpart => exchangeRows_meets n rb hpart h.2)
      | _ => cases hw
  | false =>
      rw [taskOutput_of_not_write hw]
      refine (executePartition_conforms h hscans hread).bind (fun part hpart => ?_)
      refine (hpart 0).bind (fun rows hrows p hp => ?_)
      obtain ⟨r, hr, rfl⟩ := List.mem_map.mp hp
      exact hrows r hr

/-- Every leaf of the plan reads a stage of the list that yields its columns. -/
def LeavesWritten (stages : List (Stage F)) : PhysicalPlan F → Prop
  | .scanExec _ _ => True
  | .filterExec child _ => LeavesWritten stages child
  | .projectExec child _ _ => LeavesWritten stages child
  | .hashAggregateExec child _ => LeavesWritten stages child
  | .exchangeExec child _ _ _ _ => LeavesWritten stages child
  | .shuffleWriteExec child _ _ _ => LeavesWritten stages child
  | .shuffleReadExec stageId schema _ => ∃ stage, stages[stageId]? = some stage ∧
      stage.plan.schema.fieldNames = schema.fieldNames
  | .hashJoinExec left right _ _ _ _ => LeavesWritten stages left ∧ LeavesWritten stages right
  | .sortExec child _ => LeavesWritten stages child

omit [PyRuntime F] in
theorem LeavesWritten.mono {stages stages' : List (Stage F)} {plan : PhysicalPlan F}
    (h : LeavesWritten stages plan) (hpre : stages <+: stages') : LeavesWritten stages' plan := by
  induction plan with
  | scanExec dataset sourceName => trivial
  | shuffleReadExec stageId schema bc =>
      obtain ⟨stage, hstage, hnames⟩ := h
      obtain ⟨t, rfl⟩ := hpre
      have hlt := (List.getElem?_eq_some_iff.mp hstage).1
      exact ⟨stage, (List.getElem?_append_left hlt).trans hstage, hnames⟩
  | hashJoinExec left right lk rk on schema ihl ihr => exact ⟨ihl h.1, ihr h.2⟩
  | _ =>
      rename_i ih
      exact ih h

/-- A plan of a stage list that finds its columns, over some of the datasets. -/
structure StagePlanFound (datasets : List (Dataset F)) (stages : List (Stage F))
    (plan : PhysicalPlan F) : Prop where
  columns : plan.ColumnsFound
  leaves : LeavesWritten stages plan
  scans : plan.scans ⊆ datasets

theorem StagePlanFound.mono {datasets : List (Dataset F)} {stages stages' : List (Stage F)}
    {plan : PhysicalPlan F} (h : StagePlanFound datasets stages plan) (hpre : stages <+: stages') :
    StagePlanFound datasets stages' plan :=
  { h with leaves := h.leaves.mono hpre }

/-- Splitting keeps finding the columns. -/
theorem split_columnsFound {plan : PhysicalPlan F} {stages stages' : List (Stage F)}
    {fragment : Fragment F} {datasets : List (Dataset F)}
    (hsplit : split plan stages = .ok (fragment, stages')) (h : plan.ColumnsFound)
    (hsub : plan.scans ⊆ datasets)
    (hstages : ∀ stage ∈ stages, StagePlanFound datasets stages stage.plan) :
    StagePlanFound datasets stages' fragment.plan ∧
      ∀ stage ∈ stages', StagePlanFound datasets stages' stage.plan := by
  induction plan generalizing stages stages' fragment with
  | scanExec dataset sourceName =>
      cases hsplit
      exact ⟨⟨trivial, trivial, hsub⟩, hstages⟩
  | filterExec child condition ih =>
      obtain ⟨⟨f, s⟩, hc, hsplit⟩ := ExceptList.bind_eq_ok.mp hsplit
      cases hsplit
      obtain ⟨hf, hs⟩ := ih hc h.1 hsub hstages
      have hschema := (split_root hc).1
      exact ⟨⟨⟨hf.columns, hschema ▸ h.2⟩, hf.leaves, hf.scans⟩, hs⟩
  | projectExec child columns schema ih =>
      obtain ⟨⟨f, s⟩, hc, hsplit⟩ := ExceptList.bind_eq_ok.mp hsplit
      cases hsplit
      obtain ⟨hf, hs⟩ := ih hc h.1 hsub hstages
      have hschema := (split_root hc).1
      exact ⟨⟨⟨hf.columns, hschema ▸ h.2⟩, hf.leaves, hf.scans⟩, hs⟩
  | hashAggregateExec child spec ih =>
      obtain ⟨⟨f, s⟩, hc, hsplit⟩ := ExceptList.bind_eq_ok.mp hsplit
      cases hsplit
      obtain ⟨hf, hs⟩ := ih hc h.1 hsub hstages
      have hschema := (split_root hc).1
      exact ⟨⟨⟨hf.columns, hschema ▸ h.2⟩, hf.leaves, hf.scans⟩, hs⟩
  | sortExec child spec ih =>
      obtain ⟨⟨f, s⟩, hc, hsplit⟩ := ExceptList.bind_eq_ok.mp hsplit
      cases hsplit
      obtain ⟨hf, hs⟩ := ih hc h.1 hsub hstages
      have hschema := (split_root hc).1
      exact ⟨⟨⟨hf.columns, hschema ▸ h.2⟩, hf.leaves, hf.scans⟩, hs⟩
  | exchangeExec child n exprs bc rb ih =>
      obtain ⟨⟨f, s⟩, hc, hsplit⟩ := ExceptList.bind_eq_ok.mp hsplit
      cases hsplit
      obtain ⟨hf, hs⟩ := ih hc h.1 hsub hstages
      have hschema := (split_root hc).1
      have hpre := List.prefix_append s
        [⟨s.length, .shuffleWriteExec f.plan n exprs rb, f.numPartitions⟩]
      refine ⟨⟨trivial, ⟨_, List.getElem?_concat_length, ?_⟩, by simp [PhysicalPlan.scans]⟩, ?_⟩
      · exact congrArg Schema.fieldNames hschema
      · intro stage hstage
        obtain hstage | hstage := List.mem_append.mp hstage
        · exact (hs stage hstage).mono hpre
        · obtain rfl := List.mem_singleton.mp hstage
          have hleaves : LeavesWritten _ f.plan := hf.leaves.mono hpre
          exact ⟨⟨hf.columns, hschema ▸ h.2⟩, hleaves, hf.scans⟩
  | shuffleWriteExec child n exprs rb ih =>
      obtain ⟨⟨f, s⟩, hc, hsplit⟩ := ExceptList.bind_eq_ok.mp hsplit
      obtain ⟨hf, hs⟩ := ih hc h.1 hsub hstages
      have hschema := (split_root hc).1
      simp only at hsplit
      split at hsplit
      · cases hsplit
        exact ⟨⟨⟨hf.columns, hschema ▸ h.2⟩, hf.leaves, hf.scans⟩, hs⟩
      · cases hsplit
  | shuffleReadExec stageId schema bc => cases hsplit
  | hashJoinExec left right lk rk on schema ihl ihr =>
      obtain ⟨⟨f, s⟩, hl, hsplit⟩ := ExceptList.bind_eq_ok.mp hsplit
      obtain ⟨⟨g, t⟩, hr, hsplit⟩ := ExceptList.bind_eq_ok.mp hsplit
      cases hsplit
      obtain ⟨hleft, hright, hlk, hrk, hschema⟩ := h
      obtain ⟨hsubl, hsubr⟩ := List.append_subset.mp hsub
      obtain ⟨hf, hs⟩ := ihl hl hleft hsubl hstages
      obtain ⟨hg, ht⟩ := ihr hr hright hsubr hs
      have hls := (split_root hl).1
      have hrs := (split_root hr).1
      have hleaves := hf.leaves.mono (split_splitsTo hr).grows
      refine ⟨⟨⟨hf.columns, hg.columns, ?_, ?_, ?_⟩, ⟨hleaves, hg.leaves⟩,
        List.append_subset.mpr ⟨hf.scans, hg.scans⟩⟩, ht⟩
      · rwa [hls]
      · rwa [hrs]
      · rwa [hls, hrs]

/-- The stages of a plan that finds its columns find theirs. -/
theorem buildStages_columnsFound {plan : PhysicalPlan F} {stages : List (Stage F)}
    (hb : buildStages plan = .ok stages) (h : plan.ColumnsFound) :
    ∀ stage ∈ stages, StagePlanFound plan.scans stages stage.plan := by
  obtain ⟨⟨fragment, writes⟩, hsplit, hb⟩ := ExceptList.bind_eq_ok.mp hb
  cases hb
  have hpre := List.prefix_append writes
    [⟨writes.length, fragment.plan, fragment.numPartitions⟩]
  obtain ⟨hf, hs⟩ := split_columnsFound hsplit h (List.Subset.refl _) (by simp)
  intro stage hstage
  obtain hstage | hstage := List.mem_append.mp hstage
  · exact (hs stage hstage).mono hpre
  · obtain rfl := List.mem_singleton.mp hstage
    exact hf.mono hpre

omit [PyRuntime F] in
/-- Nodes of a plan that reads its columns read theirs. -/
theorem ReadsConform.operators {plan : PhysicalPlan F} (h : ReadsConform B read pid plan) :
    ∀ q ∈ plan.operators, ReadsConform B read pid q := by
  induction plan with
  | scanExec dataset sourceName =>
      intro q hq
      obtain rfl := List.mem_singleton.mp hq
      exact h
  | shuffleReadExec stageId schema bc =>
      intro q hq
      obtain rfl := List.mem_singleton.mp hq
      exact h
  | hashJoinExec left right lk rk on schema ihl ihr =>
      intro q hq
      obtain rfl | hq := List.mem_cons.mp hq
      · exact h
      · exact (List.mem_append.mp hq).elim (ihl h.1 q) (ihr h.2 q)
  | _ =>
      rename_i ih
      intro q hq
      obtain rfl | hq := List.mem_cons.mp hq
      · exact h
      · exact ih h q hq

end Stages

end MiniSpark
