import MiniSpark.Stages
import MiniSpark.Worker

/-!
# Meaning of physical plans and of stage lists

A plan before splitting reads its exchanges directly: target partition `p` holds,
source partition by source partition, the rows whose key maps to `p`, and a
broadcast hands everyone target 0. A stage list is run stage by stage, each stage
reading what the earlier ones wrote. Splitting preserves the meaning.
-/
namespace MiniSpark

variable {F : Type} [PyRuntime F]

/-- The rows every task of a stage yields, each with the target it is written to. -/
abbrev Written (F : Type) := List (List (ℕ × Record F))

/-- The rows of one target, source task by source task. -/
def readTarget (written : Written F) (target : ℕ) : List (Record F) :=
  (written.flatten.filter (fun p => p.1 = target)).map Prod.snd

/-- Give every row its target. -/
def tagRows (target : Record F → Py ℕ) (rows : List (Record F)) : Py (List (ℕ × Record F)) :=
  rows.mapM (fun r => do
    let t ← target r
    pure (t, r))

/-- The target partition a task reads. -/
def targetOf (isBroadcast : Bool) (partitionId : ℕ) : ℕ := if isBroadcast then 0 else partitionId

variable [PyHost F]

/-- What one source partition writes to an exchange. -/
def exchangeRows (numPartitions : ℕ) (exprs : List (Expression F))
    (rangeBoundaries : Option (List (Value F))) (part : Partition F) : Py (List (ℕ × Record F)) := do
  let rows ← part.toList
  let target ← shuffleTarget numPartitions exprs rangeBoundaries
  tagRows target rows

section Plans

/-- The partitions a plan stands for. -/
structure PlanMeaning (F : Type) where
  numPartitions : ℕ
  part : ℕ → Py (Partition F)

/-- The meaning of a plan that has not been split. -/
def denote : PhysicalPlan F → Py (PlanMeaning F)
  | .scanExec dataset _ => .ok ⟨dataset.numPartitions, dataset.partition⟩
  | .filterExec child condition => do
      let d ← denote child
      pure ⟨d.numPartitions, fun pid => filterPartition condition <$> d.part pid⟩
  | .projectExec child columns schema => do
      let d ← denote child
      pure ⟨d.numPartitions, fun pid => projectPartition columns schema <$> d.part pid⟩
  | .hashAggregateExec child spec => do
      let d ← denote child
      pure ⟨d.numPartitions, fun pid => d.part pid >>= hashAggregatePartition spec pid⟩
  | .hashJoinExec left right leftKeys rightKeys on schema => do
      let l ← denote left
      let r ← denote right
      pure ⟨l.numPartitions, fun pid => do
        let leftPart ← l.part pid
        let rightPart ← r.part pid
        hashJoinPartition leftKeys rightKeys on schema pid leftPart rightPart⟩
  | .sortExec child spec => do
      let d ← denote child
      pure ⟨d.numPartitions, fun pid => d.part pid >>= sortPartition spec pid⟩
  | .exchangeExec child numPartitions exprs isBroadcast rangeBoundaries => do
      let d ← denote child
      let written ← (List.range d.numPartitions).mapM (fun pid => do
        let part ← d.part pid
        exchangeRows numPartitions exprs rangeBoundaries part)
      pure ⟨numPartitions, fun pid =>
        .ok (rowsPartition pid child.schema (readTarget written (targetOf isBroadcast pid)))⟩
  | p@(.shuffleWriteExec _ _ _ _) => .error (noPartitionOperator p)
  | p@(.shuffleReadExec _ _ _) => .error (noPartitionOperator p)

/-- The rows a plan stands for, partition by partition. -/
def denotedRows (plan : PhysicalPlan F) : Py (List (List (Record F))) := do
  let d ← denote plan
  (List.range d.numPartitions).mapM (fun pid => do
    let part ← d.part pid
    part.toList)

end Plans

section StageLists

/-- What a task yields, reading upstream stages with `read`. -/
def taskOutput (read : ℕ → ℕ → Py (List (Record F))) (plan : PhysicalPlan F) (partitionId : ℕ) :
    Py (List (ℕ × Record F)) :=
  match plan with
  | .shuffleWriteExec child numPartitions exprs rangeBoundaries => do
      let part ← executePartition read child partitionId
      exchangeRows numPartitions exprs rangeBoundaries part
  | plan => do
      let part ← executePartition read plan partitionId
      let rows ← part.toList
      pure (rows.map (fun r => (0, r)))

lemma taskOutput_of_not_write {read : ℕ → ℕ → Py (List (Record F))} {plan : PhysicalPlan F}
    {pid : ℕ} (h : plan.isShuffleWrite = false) : taskOutput read plan pid = (do
      let part ← executePartition read plan pid
      let rows ← part.toList
      pure (rows.map (fun r => (0, r)))) := by
  unfold taskOutput
  split
  · cases h
  · rfl

/-- A reader that hands the leaves of a plan what the stages wrote. -/
def ReadsFrom (outs : List (Written F)) (plan : PhysicalPlan F)
    (read : ℕ → ℕ → Py (List (Record F))) : Prop :=
  ∀ p ∈ plan.shuffleReads, ∃ w, outs[p.1]? = some w ∧
    ∀ pid, read p.1 pid = .ok (readTarget w (targetOf p.2 pid))

/-- Running the stages one after the other adds their outputs to the earlier ones. -/
inductive StagesYield : List (Written F) → List (Stage F) → List (Written F) → Prop
  | nil (outs : List (Written F)) : StagesYield outs [] outs
  | cons {outs outs' : List (Written F)} {stage : Stage F} {stages : List (Stage F)} {w : Written F}
      {read : ℕ → ℕ → Py (List (Record F))} (reads : ReadsFrom outs stage.plan read)
      (tasks : (List.range stage.numPartitions).mapM (taskOutput read stage.plan) = .ok w)
      (rest : StagesYield (outs ++ [w]) stages outs') : StagesYield outs (stage :: stages) outs'

namespace StagesYield

variable {outs outs' outs'' : List (Written F)} {stages stages' : List (Stage F)}

theorem append (h : StagesYield outs stages outs') (h' : StagesYield outs' stages' outs'') :
    StagesYield outs (stages ++ stages') outs'' := by
  induction h with
  | nil outs => exact h'
  | cons reads tasks _ ih => exact .cons reads tasks (ih h')

theorem of_append (h : StagesYield outs (stages ++ stages') outs'') :
    ∃ outs', StagesYield outs stages outs' ∧ StagesYield outs' stages' outs'' := by
  induction stages generalizing outs with
  | nil => exact ⟨outs, .nil outs, h⟩
  | cons stage stages ih =>
      cases h with
      | cons reads tasks rest =>
          obtain ⟨mid, hmid, hrest⟩ := ih rest
          exact ⟨mid, .cons reads tasks hmid, hrest⟩

theorem isPrefix (h : StagesYield outs stages outs') : outs <+: outs' := by
  induction h with
  | nil outs => exact List.prefix_rfl
  | cons _ _ _ ih => exact (List.prefix_append _ _).trans ih

/-- Every stage has one output. -/
theorem length_eq (h : StagesYield outs stages outs') :
    outs'.length = outs.length + stages.length := by
  induction h with
  | nil outs => rfl
  | cons _ _ _ ih =>
      rw [ih, List.length_append, List.length_singleton, List.length_cons]
      omega

end StagesYield

/-- The stages a plan reads. -/
def PhysicalPlan.readIds (plan : PhysicalPlan F) : List ℕ := plan.shuffleReads.map Prod.fst

omit [PyRuntime F] [PyHost F] in
/-- Distinct stages that have run can be read. -/
lemma exists_readsFrom (outs : List (Written F)) {plan : PhysicalPlan F} (hnd : plan.readIds.Nodup)
    (hlt : ∀ i ∈ plan.readIds, i < outs.length) : ∃ read, ReadsFrom outs plan read := by
  refine ⟨fun i pid => .ok (readTarget (outs.getD i [])
    (targetOf (decide ((i, true) ∈ plan.shuffleReads)) pid)), fun p hp => ?_⟩
  have hi := hlt p.1 (List.mem_map_of_mem hp)
  refine ⟨outs[p.1], List.getElem?_eq_getElem hi, fun pid => ?_⟩
  have hflag : decide ((p.1, true) ∈ plan.shuffleReads) = p.2 := by
    obtain ⟨i, b⟩ := p
    cases b with
    | true => simpa using hp
    | false =>
        simp only [decide_eq_false_iff_not]
        intro htrue
        have := List.inj_on_of_nodup_map hnd hp htrue rfl
        simp at this
  simp only [hflag, List.getD_eq_getElem?_getD, List.getElem?_eq_getElem hi, Option.getD_some]

omit [PyRuntime F] [PyHost F] in
lemma ReadsFrom.of_subset {outs outs' : List (Written F)} {plan plan' : PhysicalPlan F}
    {read : ℕ → ℕ → Py (List (Record F))} (h : ReadsFrom outs plan read)
    (hsub : ∀ p ∈ plan'.shuffleReads, p ∈ plan.shuffleReads)
    (hpre : outs <+: outs') : ReadsFrom outs' plan' read := by
  intro p hp
  obtain ⟨w, hw, hread⟩ := h p (hsub p hp)
  obtain ⟨t, rfl⟩ := hpre
  exact ⟨w, List.getElem?_append_left (List.getElem?_eq_some_iff.mp hw).1 ▸ hw, hread⟩

end StageLists

section Splitting

/-- What splitting a plan adds to the stages, and which of them the open fragment reads. -/
structure SplitsTo (stages : List (Stage F)) (fragment : PhysicalPlan F)
    (stages' : List (Stage F)) : Prop where
  grows : stages <+: stages'
  nodup : fragment.readIds.Nodup
  fresh : ∀ i ∈ fragment.readIds, stages.length ≤ i ∧ i < stages'.length

omit [PyRuntime F] [PyHost F] in
lemma split_splitsTo {plan : PhysicalPlan F} {stages stages' : List (Stage F)}
    {fragment : Fragment F} (h : split plan stages = .ok (fragment, stages')) :
    SplitsTo stages fragment.plan stages' := by
  induction plan generalizing stages stages' fragment with
  | scanExec dataset sourceName =>
      cases h
      exact ⟨List.prefix_rfl, List.nodup_nil, by simp [PhysicalPlan.readIds]⟩
  | filterExec child condition ih =>
      obtain ⟨⟨f, s⟩, hc, h⟩ := ExceptList.bind_eq_ok.mp h
      cases h
      have hchild := ih hc
      exact ⟨hchild.grows, hchild.nodup, hchild.fresh⟩
  | projectExec child columns schema ih =>
      obtain ⟨⟨f, s⟩, hc, h⟩ := ExceptList.bind_eq_ok.mp h
      cases h
      have hchild := ih hc
      exact ⟨hchild.grows, hchild.nodup, hchild.fresh⟩
  | hashAggregateExec child spec ih =>
      obtain ⟨⟨f, s⟩, hc, h⟩ := ExceptList.bind_eq_ok.mp h
      cases h
      have hchild := ih hc
      exact ⟨hchild.grows, hchild.nodup, hchild.fresh⟩
  | sortExec child spec ih =>
      obtain ⟨⟨f, s⟩, hc, h⟩ := ExceptList.bind_eq_ok.mp h
      cases h
      have hchild := ih hc
      exact ⟨hchild.grows, hchild.nodup, hchild.fresh⟩
  | exchangeExec child n exprs bc rb ih =>
      obtain ⟨⟨f, s⟩, hc, h⟩ := ExceptList.bind_eq_ok.mp h
      cases h
      have hchild := ih hc
      refine ⟨hchild.grows.trans (List.prefix_append _ _), by simp [PhysicalPlan.readIds], ?_⟩
      have := hchild.grows.length_le
      simp [PhysicalPlan.readIds]
      omega
  | shuffleWriteExec child n exprs rb ih =>
      obtain ⟨⟨f, s⟩, hc, h⟩ := ExceptList.bind_eq_ok.mp h
      simp only at h
      split at h
      · cases h
        have hchild := ih hc
        exact ⟨hchild.grows, hchild.nodup, hchild.fresh⟩
      · cases h
  | shuffleReadExec stageId schema bc => cases h
  | hashJoinExec left right lk rk on schema ihl ihr =>
      obtain ⟨⟨f, s⟩, hl, h⟩ := ExceptList.bind_eq_ok.mp h
      obtain ⟨⟨g, t⟩, hr, h⟩ := ExceptList.bind_eq_ok.mp h
      cases h
      have hl := ihl hl
      have hr := ihr hr
      have hle := hl.grows.length_le
      have hle' := hr.grows.length_le
      refine ⟨hl.grows.trans hr.grows, ?_, ?_⟩
      · rw [PhysicalPlan.readIds, PhysicalPlan.shuffleReads_hashJoinExec, List.map_append]
        refine List.nodup_append.mpr ⟨hl.nodup, hr.nodup, fun i hi j hj => ?_⟩
        have := (hl.fresh i hi).2
        have := (hr.fresh j hj).1
        omega
      · intro i hi
        rw [PhysicalPlan.readIds, PhysicalPlan.shuffleReads_hashJoinExec, List.map_append,
          List.mem_append] at hi
        cases hi with
        | inl hi =>
            have := hl.fresh i hi
            omega
        | inr hi =>
            have := hr.fresh i hi
            omega

/-- The open fragment, reading what the closed stages wrote, is the plan. -/
def FragmentMeans (fragment : Fragment F) (outs : List (Written F)) (d : PlanMeaning F) : Prop :=
  fragment.numPartitions = d.numPartitions ∧ ∀ outs' read, outs <+: outs' →
    ReadsFrom outs' fragment.plan read → ∀ pid, executePartition read fragment.plan pid = d.part pid

theorem split_means {plan : PhysicalPlan F} {stages stages' : List (Stage F)}
    {fragment : Fragment F} (outs : List (Written F)) {d : PlanMeaning F}
    (h : split plan stages = .ok (fragment, stages')) (hlen : outs.length = stages.length)
    (hd : denote plan = .ok d) :
    ∃ added outs', stages' = stages ++ added ∧ StagesYield outs added outs' ∧
      FragmentMeans fragment outs' d := by
  induction plan generalizing stages stages' fragment outs d with
  | scanExec dataset sourceName =>
      cases h
      cases hd
      exact ⟨[], outs, by simp, .nil outs, rfl, fun _ _ _ _ _ => rfl⟩
  | filterExec child condition ih =>
      obtain ⟨⟨f, s⟩, hc, h⟩ := ExceptList.bind_eq_ok.mp h
      obtain ⟨c, hdc, hd⟩ := ExceptList.bind_eq_ok.mp hd
      cases h
      cases hd
      obtain ⟨added, outs', hadd, hy, hn, hmeans⟩ := ih _ hc hlen hdc
      refine ⟨added, outs', hadd, hy, hn, fun o read ho hr pid => ?_⟩
      rw [executePartition, hmeans o read ho hr pid]
      rfl
  | projectExec child columns schema ih =>
      obtain ⟨⟨f, s⟩, hc, h⟩ := ExceptList.bind_eq_ok.mp h
      obtain ⟨c, hdc, hd⟩ := ExceptList.bind_eq_ok.mp hd
      cases h
      cases hd
      obtain ⟨added, outs', hadd, hy, hn, hmeans⟩ := ih _ hc hlen hdc
      refine ⟨added, outs', hadd, hy, hn, fun o read ho hr pid => ?_⟩
      rw [executePartition, hmeans o read ho hr pid]
      rfl
  | hashAggregateExec child spec ih =>
      obtain ⟨⟨f, s⟩, hc, h⟩ := ExceptList.bind_eq_ok.mp h
      obtain ⟨c, hdc, hd⟩ := ExceptList.bind_eq_ok.mp hd
      cases h
      cases hd
      obtain ⟨added, outs', hadd, hy, hn, hmeans⟩ := ih _ hc hlen hdc
      refine ⟨added, outs', hadd, hy, hn, fun o read ho hr pid => ?_⟩
      rw [executePartition, hmeans o read ho hr pid]
  | sortExec child spec ih =>
      obtain ⟨⟨f, s⟩, hc, h⟩ := ExceptList.bind_eq_ok.mp h
      obtain ⟨c, hdc, hd⟩ := ExceptList.bind_eq_ok.mp hd
      cases h
      cases hd
      obtain ⟨added, outs', hadd, hy, hn, hmeans⟩ := ih _ hc hlen hdc
      refine ⟨added, outs', hadd, hy, hn, fun o read ho hr pid => ?_⟩
      rw [executePartition, hmeans o read ho hr pid]
  | exchangeExec child n exprs bc rb ih =>
      obtain ⟨⟨f, s⟩, hc, h⟩ := ExceptList.bind_eq_ok.mp h
      obtain ⟨c, hdc, hd⟩ := ExceptList.bind_eq_ok.mp hd
      obtain ⟨written, hw, hd⟩ := ExceptList.bind_eq_ok.mp hd
      cases h
      cases hd
      obtain ⟨added, outs', rfl, hy, hn, hmeans⟩ := ih _ hc hlen hdc
      have hsplit := split_splitsTo hc
      have hlen' : outs'.length = (stages ++ added).length := by
        rw [hy.length_eq, List.length_append, hlen]
      obtain ⟨read, hread⟩ := exists_readsFrom outs' hsplit.nodup
        (fun i hi => hlen' ▸ (hsplit.fresh i hi).2)
      refine ⟨added ++ [_], outs' ++ [written], (List.append_assoc _ _ _),
        hy.append (.cons hread ?_ (.nil _)), rfl, ?_⟩
      · refine (ExceptList.mapM_congr (fun pid _ => ?_)).trans (hn ▸ hw)
        rw [taskOutput, hmeans outs' read List.prefix_rfl hread pid]
      · intro o read' ho hr pid
        obtain ⟨w, hw', hrows⟩ := hr ((stages ++ added).length, bc) (by simp)
        obtain ⟨t, rfl⟩ := ho
        obtain rfl : w = written := by
          rw [← hlen'] at hw'
          simpa using hw'.symm
        rw [executePartition, hrows pid]
        rfl
  | shuffleWriteExec child n exprs rb ih => cases hd
  | shuffleReadExec stageId schema bc => cases hd
  | hashJoinExec left right lk rk on schema ihl ihr =>
      obtain ⟨⟨f, s⟩, hl, h⟩ := ExceptList.bind_eq_ok.mp h
      obtain ⟨⟨g, t⟩, hr, h⟩ := ExceptList.bind_eq_ok.mp h
      obtain ⟨dl, hdl, hd⟩ := ExceptList.bind_eq_ok.mp hd
      obtain ⟨dr, hdr, hd⟩ := ExceptList.bind_eq_ok.mp hd
      cases h
      cases hd
      obtain ⟨added₁, outs₁, rfl, hy₁, hn₁, hmeans₁⟩ := ihl _ hl hlen hdl
      obtain ⟨added₂, outs₂, rfl, hy₂, -, hmeans₂⟩ := ihr _ hr
        (by rw [hy₁.length_eq, List.length_append, hlen]) hdr
      refine ⟨added₁ ++ added₂, outs₂, List.append_assoc _ _ _, hy₁.append hy₂, hn₁,
        fun o read ho hread pid => ?_⟩
      have hleft := hmeans₁ o read (hy₂.isPrefix.trans ho)
        (hread.of_subset (fun p hp => by simp [hp]) List.prefix_rfl) pid
      have hright := hmeans₂ o read ho
        (hread.of_subset (fun p hp => by simp [hp]) List.prefix_rfl) pid
      rw [executePartition, hleft, hright]

omit [PyRuntime F] [PyHost F] in
/-- Splitting keeps the schema, and whether the root is a shuffle write. -/
lemma split_root {plan : PhysicalPlan F} {stages stages' : List (Stage F)} {fragment : Fragment F}
    (h : split plan stages = .ok (fragment, stages')) :
    fragment.plan.schema = plan.schema ∧ fragment.plan.isShuffleWrite = plan.isShuffleWrite := by
  induction plan generalizing stages stages' fragment with
  | scanExec dataset sourceName =>
      cases h
      exact ⟨rfl, rfl⟩
  | filterExec child condition ih =>
      obtain ⟨⟨f, s⟩, hc, h⟩ := ExceptList.bind_eq_ok.mp h
      cases h
      exact ⟨(ih hc).1, rfl⟩
  | shuffleWriteExec child n exprs rb ih =>
      obtain ⟨⟨f, s⟩, hc, h⟩ := ExceptList.bind_eq_ok.mp h
      simp only at h
      split at h
      · cases h
        exact ⟨(ih hc).1, rfl⟩
      · cases h
  | shuffleReadExec stageId schema bc => cases h
  | projectExec child columns schema ih =>
      obtain ⟨⟨f, s⟩, hc, h⟩ := ExceptList.bind_eq_ok.mp h
      cases h
      exact ⟨rfl, rfl⟩
  | hashAggregateExec child spec ih =>
      obtain ⟨⟨f, s⟩, hc, h⟩ := ExceptList.bind_eq_ok.mp h
      cases h
      exact ⟨rfl, rfl⟩
  | sortExec child spec ih =>
      obtain ⟨⟨f, s⟩, hc, h⟩ := ExceptList.bind_eq_ok.mp h
      cases h
      exact ⟨rfl, rfl⟩
  | exchangeExec child n exprs bc rb ih =>
      obtain ⟨⟨f, s⟩, hc, h⟩ := ExceptList.bind_eq_ok.mp h
      cases h
      exact ⟨rfl, rfl⟩
  | hashJoinExec left right lk rk on schema ihl ihr =>
      obtain ⟨⟨f, s⟩, hl, h⟩ := ExceptList.bind_eq_ok.mp h
      obtain ⟨⟨g, t⟩, hr, h⟩ := ExceptList.bind_eq_ok.mp h
      cases h
      exact ⟨rfl, rfl⟩

end Splitting

end MiniSpark
