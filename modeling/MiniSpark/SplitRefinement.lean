import MiniSpark.Exchange
import MiniSpark.Planner
import MiniSpark.RecoveredRuns

/-!
# Splitting into stages refines the plan

Every plan of the planner splits. Its stages, run one after the other, return a
dataset exactly when the plan with its exchanges read directly has a meaning, and
then that meaning, partition by partition and in row order.
-/
namespace MiniSpark

variable {F : Type} [PyRuntime F] [PyHost F]

section Unsplit

omit [PyRuntime F] [PyHost F]

/-- No write or read node: the plan has not been split. -/
def PhysicalPlan.Unsplit : PhysicalPlan F → Prop
  | .scanExec _ _ => True
  | .filterExec child _ => child.Unsplit
  | .projectExec child _ _ => child.Unsplit
  | .hashAggregateExec child _ => child.Unsplit
  | .exchangeExec child _ _ _ _ => child.Unsplit
  | .shuffleWriteExec _ _ _ _ => False
  | .shuffleReadExec _ _ _ => False
  | .hashJoinExec left right _ _ _ _ => left.Unsplit ∧ right.Unsplit
  | .sortExec child _ => child.Unsplit

theorem translate_unsplit [PyRuntime F] {shufflePartitions : ℕ} {spillThresholdBytes : ℤ}
    {plan : LogicalPlan F} {physical : PhysicalPlan F}
    (h : translate shufflePartitions spillThresholdBytes plan = .ok physical) : physical.Unsplit := by
  induction plan generalizing physical with
  | scan dataset sourceName source =>
      cases h
      trivial
  | filter child condition ih =>
      obtain ⟨c, hc, h⟩ := ExceptList.bind_eq_ok.mp h
      cases h
      have hu : c.Unsplit := ih hc
      exact hu
  | project child columns ih =>
      obtain ⟨c, hc, h⟩ := ExceptList.bind_eq_ok.mp h
      obtain ⟨schema, -, h⟩ := ExceptList.bind_eq_ok.mp h
      cases h
      have hu : c.Unsplit := ih hc
      exact hu
  | aggregate child groupBy aggregates ih =>
      obtain ⟨c, hc, h⟩ := ExceptList.bind_eq_ok.mp h
      obtain ⟨_, -, h⟩ := ExceptList.bind_eq_ok.mp h
      obtain ⟨_, -, h⟩ := ExceptList.bind_eq_ok.mp h
      obtain ⟨_, -, h⟩ := ExceptList.bind_eq_ok.mp h
      cases h
      have hu : c.Unsplit := ih hc
      exact hu
  | join left right on how broadcast ihl ihr =>
      obtain ⟨l, hl, h⟩ := ExceptList.bind_eq_ok.mp h
      obtain ⟨r, hr, h⟩ := ExceptList.bind_eq_ok.mp h
      obtain ⟨schema, -, h⟩ := ExceptList.bind_eq_ok.mp h
      cases h
      have hu : l.Unsplit ∧ r.Unsplit := ⟨ihl hl, ihr hr⟩
      unfold planJoin
      split <;> exact hu
  | sort child keys ih =>
      obtain ⟨c, hc, h⟩ := ExceptList.bind_eq_ok.mp h
      obtain ⟨schema, -, h⟩ := ExceptList.bind_eq_ok.mp h
      have hu : c.Unsplit := ih hc
      unfold planSort at h
      split at h
      · cases h
      · obtain ⟨exchange, -, h⟩ := ExceptList.bind_eq_ok.mp h
        cases h
        exact hu
      · cases h

/-- The translation of a plan has its schema. -/
theorem translate_schema [PyRuntime F] {shufflePartitions : ℕ} {spillThresholdBytes : ℤ}
    {plan : LogicalPlan F} {physical : PhysicalPlan F}
    (h : translate shufflePartitions spillThresholdBytes plan = .ok physical) :
    plan.schema = .ok physical.schema := by
  induction plan generalizing physical with
  | scan dataset sourceName source =>
      cases h
      rfl
  | filter child condition ih =>
      obtain ⟨c, hc, h⟩ := ExceptList.bind_eq_ok.mp h
      cases h
      have hchild : child.schema = .ok c.schema := ih hc
      exact hchild
  | project child columns ih =>
      obtain ⟨c, -, h⟩ := ExceptList.bind_eq_ok.mp h
      obtain ⟨schema, hschema, h⟩ := ExceptList.bind_eq_ok.mp h
      cases h
      exact hschema
  | aggregate child groupBy aggregates ih =>
      obtain ⟨c, -, h⟩ := ExceptList.bind_eq_ok.mp h
      obtain ⟨childSchema, -, h⟩ := ExceptList.bind_eq_ok.mp h
      obtain ⟨schema, hschema, h⟩ := ExceptList.bind_eq_ok.mp h
      obtain ⟨_, -, h⟩ := ExceptList.bind_eq_ok.mp h
      cases h
      exact hschema
  | join left right on how broadcast ihl ihr =>
      obtain ⟨l, -, h⟩ := ExceptList.bind_eq_ok.mp h
      obtain ⟨r, -, h⟩ := ExceptList.bind_eq_ok.mp h
      obtain ⟨schema, hschema, h⟩ := ExceptList.bind_eq_ok.mp h
      cases h
      rw [hschema]
      cases broadcast <;> rfl
  | sort child keys ih =>
      obtain ⟨c, -, h⟩ := ExceptList.bind_eq_ok.mp h
      obtain ⟨schema, hschema, h⟩ := ExceptList.bind_eq_ok.mp h
      unfold planSort at h
      split at h
      · cases h
      · obtain ⟨exchange, -, h⟩ := ExceptList.bind_eq_ok.mp h
        cases h
        exact hschema
      · cases h

/-- Such a plan can be split. -/
lemma split_of_unsplit {plan : PhysicalPlan F} (h : plan.Unsplit) (stages : List (Stage F)) :
    ∃ fragment stages', split plan stages = .ok (fragment, stages') := by
  induction plan generalizing stages with
  | scanExec dataset sourceName => exact ⟨_, _, rfl⟩
  | filterExec child condition ih =>
      obtain ⟨f, s, hs⟩ := ih h stages
      exact ⟨_, _, by rw [split, hs]; rfl⟩
  | projectExec child columns schema ih =>
      obtain ⟨f, s, hs⟩ := ih h stages
      exact ⟨_, _, by rw [split, hs]; rfl⟩
  | hashAggregateExec child spec ih =>
      obtain ⟨f, s, hs⟩ := ih h stages
      exact ⟨_, _, by rw [split, hs]; rfl⟩
  | sortExec child spec ih =>
      obtain ⟨f, s, hs⟩ := ih h stages
      exact ⟨_, _, by rw [split, hs]; rfl⟩
  | exchangeExec child n exprs bc rb ih =>
      obtain ⟨f, s, hs⟩ := ih h stages
      exact ⟨_, _, by rw [split, hs]; rfl⟩
  | hashJoinExec left right lk rk on schema ihl ihr =>
      obtain ⟨f, s, hs⟩ := ihl h.1 stages
      obtain ⟨g, t, ht⟩ := ihr h.2 s
      exact ⟨_, _, by simp only [split, hs, ExceptList.bind_ok, ht]; rfl⟩
  | shuffleWriteExec child n exprs rb ih => exact absurd h id
  | shuffleReadExec stageId schema bc => exact absurd h id

end Unsplit

section Meaning

/-- What stages yield is determined by what they start from. -/
theorem StagesYield.functional {outs a b : List (Written F)} {stages : List (Stage F)}
    (ha : StagesYield outs stages a) (hb : StagesYield outs stages b) : a = b := by
  induction ha generalizing b with
  | nil outs =>
      cases hb
      rfl
  | @cons outs a stage stages w read reads tasks rest ih =>
      obtain _ | ⟨reads', tasks', rest'⟩ := hb
      next w' read' =>
        have hsame : ∀ i ∈ stage.plan.readIds, ∀ pid, read i pid = read' i pid := by
          intro i hi pid
          obtain ⟨p, hp, rfl⟩ := List.mem_map.mp hi
          obtain ⟨v, hv, hr⟩ := reads p hp
          obtain ⟨v', hv', hr'⟩ := reads' p hp
          obtain rfl : v = v' := Option.some.inj (hv.symm.trans hv')
          rw [hr pid, hr' pid]
        have hw : w = w' := by
          rw [ExceptList.mapM_congr (fun pid _ =>
            taskOutput_congr (fun i hi => hsame i hi pid)), tasks'] at tasks
          exact (Except.ok.inj tasks).symm
        subst hw
        exact ih rest'

/-- Stages of a plan that have all run give the plan a meaning. -/
theorem denote_of_yield {plan : PhysicalPlan F} {stages added : List (Stage F)}
    {fragment : Fragment F} {outs outs' : List (Written F)} (hu : plan.Unsplit)
    (h : split plan stages = .ok (fragment, stages ++ added)) (hlen : outs.length = stages.length)
    (hy : StagesYield outs added outs') : ∃ d, denote plan = .ok d := by
  induction plan generalizing stages added fragment outs outs' with
  | scanExec dataset sourceName => exact ⟨_, rfl⟩
  | filterExec child condition ih =>
      obtain ⟨⟨f, s⟩, hc, h⟩ := ExceptList.bind_eq_ok.mp h
      cases h
      obtain ⟨c, hd⟩ := ih hu hc hlen hy
      exact ⟨_, by rw [denote, hd]; rfl⟩
  | projectExec child columns schema ih =>
      obtain ⟨⟨f, s⟩, hc, h⟩ := ExceptList.bind_eq_ok.mp h
      cases h
      obtain ⟨c, hd⟩ := ih hu hc hlen hy
      exact ⟨_, by rw [denote, hd]; rfl⟩
  | hashAggregateExec child spec ih =>
      obtain ⟨⟨f, s⟩, hc, h⟩ := ExceptList.bind_eq_ok.mp h
      cases h
      obtain ⟨c, hd⟩ := ih hu hc hlen hy
      exact ⟨_, by rw [denote, hd]; rfl⟩
  | sortExec child spec ih =>
      obtain ⟨⟨f, s⟩, hc, h⟩ := ExceptList.bind_eq_ok.mp h
      cases h
      obtain ⟨c, hd⟩ := ih hu hc hlen hy
      exact ⟨_, by rw [denote, hd]; rfl⟩
  | exchangeExec child n exprs bc rb ih =>
      obtain ⟨⟨f, s⟩, hc, h⟩ := ExceptList.bind_eq_ok.mp h
      simp only [ExceptList.pure_eq_ok, Except.ok.injEq, Prod.mk.injEq] at h
      obtain ⟨added₁, rfl⟩ := (split_splitsTo hc).grows
      obtain ⟨-, h⟩ := h
      rw [List.append_assoc, List.append_cancel_left_eq] at h
      subst h
      obtain ⟨outs₁, hy₁, hy₂⟩ := hy.of_append
      obtain ⟨c, hd⟩ := ih hu hc hlen hy₁
      obtain ⟨added', outs₁', hadd, hy₁', hn, hmeans⟩ := split_means outs hc hlen hd
      obtain rfl := List.append_cancel_left hadd
      obtain rfl := hy₁.functional hy₁'
      obtain _ | ⟨reads, tasks, -⟩ := hy₂
      next w read =>
        have hwritten : (List.range c.numPartitions).mapM (fun pid => do
            let part ← c.part pid
            exchangeRows n exprs rb part) = .ok w := by
          rw [← hn, ← tasks]
          refine ExceptList.mapM_congr (fun pid _ => ?_)
          rw [taskOutput, hmeans outs₁ read List.prefix_rfl reads pid]
        exact ⟨_, by simp only [denote, hd, ExceptList.bind_ok, hwritten]; rfl⟩
  | shuffleWriteExec child n exprs rb ih => exact absurd hu id
  | shuffleReadExec stageId schema bc => exact absurd hu id
  | hashJoinExec left right lk rk on schema ihl ihr =>
      obtain ⟨⟨f, s⟩, hl, h⟩ := ExceptList.bind_eq_ok.mp h
      obtain ⟨⟨g, t⟩, hr, h⟩ := ExceptList.bind_eq_ok.mp h
      cases h
      obtain ⟨added₁, rfl⟩ := (split_splitsTo hl).grows
      obtain ⟨added₂, hadd⟩ := (split_splitsTo hr).grows
      rw [List.append_assoc, List.append_cancel_left_eq] at hadd
      subst hadd
      obtain ⟨outs₁, hy₁, hy₂⟩ := hy.of_append
      obtain ⟨dl, hdl⟩ := ihl hu.1 hl hlen hy₁
      rw [← List.append_assoc] at hr
      have hlen₁ := hy₁.length_eq
      obtain ⟨dr, hdr⟩ := ihr hu.2 hr (by rw [List.length_append]; omega) hy₂
      exact ⟨_, by simp only [denote, hdl, hdr, ExceptList.bind_ok]; rfl⟩

/-- Stages that return partitions do so because the plan stands for them. -/
theorem denotedRows_of_stagesReturn {plan : PhysicalPlan F} {stages : List (Stage F)}
    {parts : List (List (Record F))} (hu : plan.Unsplit) (hb : buildStages plan = .ok stages)
    (h : StagesReturn stages plan.schema parts) : denotedRows plan = .ok parts := by
  obtain ⟨⟨fragment, writes⟩, hsplit, hb⟩ := ExceptList.bind_eq_ok.mp hb
  cases hb
  obtain ⟨writes', last, outs, read, hlist, -, hy, -, -, hnot, -, hread, htasks⟩ := h
  obtain ⟨rfl, hlast⟩ := List.append_inj' hlist rfl
  obtain rfl : _ = last := List.singleton_injective hlast
  have hfromNone : split plan [] = .ok (fragment, [] ++ writes) := hsplit
  obtain ⟨d, hd⟩ := denote_of_yield hu hfromNone rfl hy
  obtain ⟨added, outs', hadd, hy', hn, hmeans⟩ := split_means [] hsplit rfl hd
  obtain rfl : writes = added := hadd
  obtain rfl := hy.functional hy'
  rw [denotedRows, hd, ExceptList.bind_ok, ← hn]
  rw [ExceptList.mapM_eq_ok, List.forall₂_map_right_iff] at htasks
  refine ExceptList.mapM_eq_ok.mpr (htasks.imp (fun pid rows hrows => ?_))
  rw [taskOutput_of_not_write hnot, hmeans outs read List.prefix_rfl hread pid] at hrows
  obtain ⟨part, hpart, hrows⟩ := ExceptList.bind_eq_ok.mp hrows
  obtain ⟨rows', hlist, hrows⟩ := ExceptList.bind_eq_ok.mp hrows
  simp only [ExceptList.pure_eq_ok, Except.ok.injEq] at hrows
  have hinj : Function.Injective (fun r : Record F => ((0, r) : ℕ × Record F)) :=
    fun a b hab => (Prod.mk.inj hab).2
  rw [hpart, ExceptList.bind_ok, hlist, List.map_injective_iff.mpr hinj hrows]

/-- The stages of an unsplit plan return a dataset exactly when the plan has a meaning, and it is
that meaning. -/
theorem runPlan_of_unsplit {physical : PhysicalPlan F} (hu : physical.Unsplit) (maxRetries : ℕ)
    (root : String) (disk : Disk F) :
    ∃ stages, buildStages physical = .ok stages ∧
      ∀ dataset, runPlan maxRetries executeTask root stages disk = .ok dataset ↔
        ∃ parts, denotedRows physical = .ok parts ∧ dataset = rowsDataset physical.schema parts := by
  obtain ⟨fragment, stages, hsplit⟩ := split_of_unsplit hu []
  have hb : buildStages physical =
      .ok (stages ++ [⟨stages.length, fragment.plan, fragment.numPartitions⟩]) := by
    rw [buildStages, hsplit]
    rfl
  refine ⟨_, hb, fun dataset => ⟨fun hrun => ?_, ?_⟩⟩
  · obtain ⟨parts, hreturn, rfl⟩ := runPlan_safe executeTask_unreliable hb hrun
    exact ⟨parts, denotedRows_of_stagesReturn hu hb hreturn, rfl⟩
  · rintro ⟨parts, hd, rfl⟩
    exact runPlan_denotes maxRetries root disk hb hd

/-- A planned query without a meaning is split, and its run returns nothing. -/
theorem runPlan_fails {logical : LogicalPlan F} {physical : PhysicalPlan F} {n : ℕ} {spill : ℤ}
    (hplan : translate n spill logical = .ok physical) (h : ∀ d, denote physical ≠ .ok d)
    (maxRetries : ℕ) (root : String) (disk : Disk F) :
    ∃ stages, buildStages physical = .ok stages ∧
      ∀ dataset, runPlan maxRetries executeTask root stages disk ≠ .ok dataset := by
  obtain ⟨stages, hstages, hmeans⟩ :=
    runPlan_of_unsplit (translate_unsplit hplan) maxRetries root disk
  refine ⟨stages, hstages, fun dataset hrun => ?_⟩
  obtain ⟨parts, hparts, -⟩ := (hmeans dataset).mp hrun
  obtain ⟨d, hd, -⟩ := ExceptList.bind_eq_ok.mp hparts
  exact h d hd

/-- The stages of a physical plan return a dataset exactly when the unsplit plan has a meaning,
and it is that meaning. -/
theorem runPlan_refines {shufflePartitions : ℕ} {spillThresholdBytes : ℤ} {plan : LogicalPlan F}
    {physical : PhysicalPlan F} (maxRetries : ℕ) (root : String) (disk : Disk F)
    (hp : planPhysical shufflePartitions spillThresholdBytes plan = .ok physical) :
    ∃ stages, buildStages physical = .ok stages ∧
      ∀ dataset, runPlan maxRetries executeTask root stages disk = .ok dataset ↔
        ∃ parts, denotedRows physical = .ok parts ∧ dataset = rowsDataset physical.schema parts := by
  obtain ⟨plan', -, htranslate⟩ := ExceptList.bind_eq_ok.mp hp
  exact runPlan_of_unsplit (translate_unsplit htranslate) maxRetries root disk

end Meaning

/-- A shuffle join, whose two sides each close a stage. -/
theorem runPlan_refines_join : ∃ physical stages,
    planPhysical 2 neverSpill (.join
      (intTable ["a", "b"] (by decide) [[[.int 1, .int 2]], [[.none, .int 3]]])
      (intTable ["a", "c"] (by decide) [[[.int 1, .int 5]]]) ["a"] "inner" false) = .ok physical ∧
    buildStages physical = .ok stages ∧
    ∀ dataset, runPlan 0 executeTask "root" stages (fun _ => none) = .ok dataset ↔
      ∃ parts, denotedRows physical = .ok parts ∧ dataset = rowsDataset physical.schema parts := by
  obtain ⟨physical, hp⟩ : ∃ physical, planPhysical 2 neverSpill (.join
      (intTable ["a", "b"] (by decide) [[[.int 1, .int 2]], [[.none, .int 3]]])
      (intTable ["a", "c"] (by decide) [[[.int 1, .int 5]]]) ["a"] "inner" false) = .ok physical :=
    ⟨_, rfl⟩
  obtain ⟨stages, hstages, hrun⟩ := runPlan_refines 0 "root" (fun _ => none) hp
  exact ⟨physical, stages, hp, hstages, hrun⟩

end MiniSpark
