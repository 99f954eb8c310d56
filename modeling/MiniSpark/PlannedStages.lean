import MiniSpark.Dag
import MiniSpark.PlanExecution
import MiniSpark.Planner

/-!
# The stages of a planned query

The planner puts every exchange where stage splitting expects it: both sides of a
shuffle join are exchanged to one number of partitions, a broadcast side to one.
Splitting such a plan closes one stage for each exchange; every closed stage is read
once, later, and the partition counts of readers, writers and scans agree.
-/
namespace MiniSpark

variable {F : Type}

section Planned

/-- The shapes `_translate` produces. -/
inductive Planned : PhysicalPlan F → Prop
  | scan (dataset : Dataset F) (sourceName : String) : Planned (.scanExec dataset sourceName)
  | filter {child : PhysicalPlan F} (h : Planned child) (condition : Expression F) :
      Planned (.filterExec child condition)
  | project {child : PhysicalPlan F} (h : Planned child) (columns : List (Expression F))
      (schema : Schema) : Planned (.projectExec child columns schema)
  | aggregate {child : PhysicalPlan F} (h : Planned child) (spec : HashAggregate F) :
      Planned (.hashAggregateExec child spec)
  | sort {child : PhysicalPlan F} (h : Planned child) (spec : Sorting F) :
      Planned (.sortExec child spec)
  | exchange {child : PhysicalPlan F} (h : Planned child) (n : ℕ) (exprs : List (Expression F))
      (rangeBoundaries : Option (List (Value F))) :
      Planned (.exchangeExec child n exprs false rangeBoundaries)
  | broadcastJoin {left right : PhysicalPlan F} (hl : Planned left) (hr : Planned right)
      (leftKeys rightKeys : List (Expression F)) (on : List String) (schema : Schema) :
      Planned (.hashJoinExec left (.exchangeExec right 1 rightKeys true none) leftKeys rightKeys on
        schema)
  | shuffleJoin {left right : PhysicalPlan F} (hl : Planned left) (hr : Planned right) (n : ℕ)
      (leftKeys rightKeys : List (Expression F)) (on : List String) (schema : Schema) :
      Planned (.hashJoinExec (.exchangeExec left n leftKeys false none)
        (.exchangeExec right n rightKeys false none) leftKeys rightKeys on schema)

/-- Every translated plan has these shapes. -/
theorem translate_planned [PyRuntime F] {shufflePartitions : ℕ} {spillThresholdBytes : ℤ}
    {plan : LogicalPlan F} {physical : PhysicalPlan F}
    (h : translate shufflePartitions spillThresholdBytes plan = .ok physical) :
    Planned physical := by
  induction plan generalizing physical with
  | scan dataset sourceName source => cases h; exact .scan dataset sourceName
  | filter child condition ih =>
      obtain ⟨c, hc, h⟩ := ExceptList.bind_eq_ok.mp h
      cases h
      exact .filter (ih hc) condition
  | project child columns ih =>
      obtain ⟨c, hc, h⟩ := ExceptList.bind_eq_ok.mp h
      obtain ⟨s, -, h⟩ := ExceptList.bind_eq_ok.mp h
      cases h
      exact .project (ih hc) columns s
  | aggregate child groupBy aggregates ih =>
      obtain ⟨c, hc, h⟩ := ExceptList.bind_eq_ok.mp h
      obtain ⟨cs, -, h⟩ := ExceptList.bind_eq_ok.mp h
      obtain ⟨s, -, h⟩ := ExceptList.bind_eq_ok.mp h
      obtain ⟨ps, -, h⟩ := ExceptList.bind_eq_ok.mp h
      cases h
      exact .aggregate (.exchange (.aggregate (ih hc) _) _ _ _) _
  | join left right on how broadcast ihl ihr =>
      obtain ⟨l, hl, h⟩ := ExceptList.bind_eq_ok.mp h
      obtain ⟨r, hr, h⟩ := ExceptList.bind_eq_ok.mp h
      obtain ⟨s, -, h⟩ := ExceptList.bind_eq_ok.mp h
      cases h
      unfold planJoin
      split
      · exact .broadcastJoin (ihl hl) (ihr hr) _ _ _ _
      · exact .shuffleJoin (ihl hl) (ihr hr) _ _ _ _ _
  | sort child keys ih =>
      obtain ⟨c, hc, h⟩ := ExceptList.bind_eq_ok.mp h
      obtain ⟨s, -, h⟩ := ExceptList.bind_eq_ok.mp h
      unfold planSort at h
      split at h
      · cases h
      · obtain ⟨exchange, -, h⟩ := ExceptList.bind_eq_ok.mp h
        cases h
        exact .sort (.exchange (.sort (ih hc) _) _ _ _) _
      · cases h

end Planned

section Consistency

/-- A fragment of a stage with this many tasks: no exchange and no write in it, its reads
deliver that many partitions or, broadcast, the one partition there is, and its scans
have that many. -/
structure Consistent (stages : List (Stage F)) (plan : PhysicalPlan F) (numPartitions : ℕ) :
    Prop where
  noExchange : ∀ node ∈ plan.nodes, node.isExchange = false
  noWrite : ∀ node ∈ plan.nodes, node.isShuffleWrite = false
  reads : ∀ p ∈ plan.shuffleReads, ∃ writer child n exprs rangeBoundaries,
    stages[p.1]? = some writer ∧
      writer.plan = .shuffleWriteExec child n exprs rangeBoundaries ∧
      n = if p.2 then 1 else numPartitions
  scans : ∀ dataset sourceName, .scanExec dataset sourceName ∈ plan.leaves →
    dataset.numPartitions = numPartitions

/-- Stages that are appended change nothing. -/
lemma Consistent.mono {stages : List (Stage F)} {plan : PhysicalPlan F} {n : ℕ}
    (h : Consistent stages plan n) (added : List (Stage F)) :
    Consistent (stages ++ added) plan n := by
  refine ⟨h.noExchange, h.noWrite, fun p hp => ?_, h.scans⟩
  obtain ⟨writer, child, m, exprs, rb, hw, hplan, hm⟩ := h.reads p hp
  have hlt := (List.getElem?_eq_some_iff.mp hw).1
  exact ⟨writer, child, m, exprs, rb, by rw [List.getElem?_append_left hlt, hw], hplan, hm⟩

/-- A node over one child that is neither an exchange nor a write. -/
lemma Consistent.unary {stages : List (Stage F)} {plan child : PhysicalPlan F} {n : ℕ}
    (h : Consistent stages child n) (hnodes : plan.nodes = plan :: child.nodes)
    (hleaves : plan.leaves = child.leaves) (hx : plan.isExchange = false)
    (hw : plan.isShuffleWrite = false) : Consistent stages plan n := by
  refine ⟨?_, ?_, fun p hp => h.reads p ?_, ?_⟩
  · rw [hnodes]
    exact List.forall_mem_cons.mpr ⟨hx, h.noExchange⟩
  · rw [hnodes]
    exact List.forall_mem_cons.mpr ⟨hw, h.noWrite⟩
  · rwa [PhysicalPlan.shuffleReads, hleaves] at hp
  · rw [hleaves]
    exact h.scans

end Consistency

section Splitting

/-- The stages closed for a plan, and the fragment left open: one stage for each
exchange, every closed stage read exactly once and by a later stage or the fragment. -/
structure Closes (plan : PhysicalPlan F) (stages added : List (Stage F)) (fragment : Fragment F) :
    Prop where
  count : added.length = plan.exchangeCount
  reads : (added.flatMap (fun st => st.plan.readIds) ++ fragment.plan.readIds).Perm
    (List.range' stages.length added.length)
  earlier : ∀ i (h : i < added.length), ∀ s ∈ added[i].plan.readIds, s < stages.length + i
  closed : ∀ st ∈ added, ∃ child n exprs rangeBoundaries,
    st.plan = .shuffleWriteExec child n exprs rangeBoundaries ∧
      Consistent (stages ++ added) child st.numPartitions
  fragment : Consistent (stages ++ added) fragment.plan fragment.numPartitions

lemma exchangeCount_unary {plan child : PhysicalPlan F} (hnodes : plan.nodes = plan :: child.nodes)
    (hx : plan.isExchange = false) : plan.exchangeCount = child.exchangeCount := by
  rw [PhysicalPlan.exchangeCount, hnodes, List.countP_cons_of_neg (by simp [hx])]
  rfl

lemma closes_scan (dataset : Dataset F) (sourceName : String) (stages : List (Stage F)) :
    Closes (.scanExec dataset sourceName) stages []
      ⟨.scanExec dataset sourceName, dataset.numPartitions⟩ := by
  refine ⟨rfl, List.Perm.nil, fun i h => absurd h (Nat.not_lt_zero i), by simp, ?_, ?_, ?_, ?_⟩
  · simp [PhysicalPlan.nodes, PhysicalPlan.isExchange]
  · simp [PhysicalPlan.nodes, PhysicalPlan.isShuffleWrite]
  · simp
  · intro d n hd
    simp only [PhysicalPlan.leaves, List.mem_singleton, PhysicalPlan.scanExec.injEq] at hd
    rw [hd.1]

/-- A narrow node over one child closes what its child closes. -/
lemma Closes.unary {plan child plan' : PhysicalPlan F} {stages added : List (Stage F)}
    {fragment : Fragment F} (h : Closes child stages added fragment)
    (hnodes : plan.nodes = plan :: child.nodes) (hx : plan.isExchange = false)
    (hnodes' : plan'.nodes = plan' :: fragment.plan.nodes)
    (hleaves' : plan'.leaves = fragment.plan.leaves) (hx' : plan'.isExchange = false)
    (hw' : plan'.isShuffleWrite = false) :
    Closes plan stages added ⟨plan', fragment.numPartitions⟩ := by
  have hreads : plan'.readIds = fragment.plan.readIds := by
    rw [PhysicalPlan.readIds, PhysicalPlan.shuffleReads, hleaves']
    rfl
  refine ⟨?_, ?_, h.earlier, h.closed, h.fragment.unary hnodes' hleaves' hx' hw'⟩
  · rw [h.count, exchangeCount_unary hnodes hx]
  · rw [hreads]
    exact h.reads

/-- An exchange closes the stage below it, which the fragment left open reads. -/
lemma Closes.exchange {child : PhysicalPlan F} {stages added : List (Stage F)}
    {fragment : Fragment F} (h : Closes child stages added fragment) (n : ℕ)
    (exprs : List (Expression F)) {isBroadcast : Bool} (hb : isBroadcast = true → n = 1)
    (rangeBoundaries : Option (List (Value F))) :
    Closes (.exchangeExec child n exprs isBroadcast rangeBoundaries) stages
      (added ++ [⟨(stages ++ added).length,
        .shuffleWriteExec fragment.plan n exprs rangeBoundaries, fragment.numPartitions⟩])
      ⟨.shuffleReadExec (stages ++ added).length child.schema isBroadcast, n⟩ := by
  set write : Stage F := ⟨(stages ++ added).length,
    .shuffleWriteExec fragment.plan n exprs rangeBoundaries, fragment.numPartitions⟩ with hwrite
  have hlt : ∀ s ∈ fragment.plan.readIds, s < stages.length + added.length := by
    intro s hs
    have hmem := h.reads.mem_iff.mp (List.mem_append_right _ hs)
    rw [List.mem_range'_1] at hmem
    exact hmem.2
  refine ⟨?_, ?_, ?_, ?_, ?_⟩
  · have hcount : (PhysicalPlan.exchangeExec child n exprs isBroadcast
        rangeBoundaries).exchangeCount = child.exchangeCount + 1 := List.countP_cons_of_pos rfl
    rw [List.length_append, h.count, hcount]
    rfl
  · have hlength : (added ++ [write]).length = added.length + 1 := List.length_append
    rw [List.flatMap_append, List.flatMap_singleton, hlength, List.range'_1_concat]
    have hread : (PhysicalPlan.shuffleReadExec (F := F) (stages ++ added).length child.schema
        isBroadcast).readIds = [stages.length + added.length] := by
      rw [← List.length_append]
      rfl
    rw [hread]
    exact h.reads.append_right _
  · intro i hi s hs
    rw [List.length_append, List.length_singleton] at hi
    by_cases hia : i < added.length
    · rw [List.getElem_append_left hia] at hs
      exact h.earlier i hia s hs
    · obtain rfl : i = added.length := by omega
      rw [List.getElem_concat_length rfl] at hs
      exact hlt s hs
  · intro st hst
    rw [← List.append_assoc]
    rcases List.mem_append.mp hst with hst | hst
    · obtain ⟨below, m, es, rb, hplan, hc⟩ := h.closed st hst
      exact ⟨below, m, es, rb, hplan, hc.mono _⟩
    · obtain rfl := List.mem_singleton.mp hst
      exact ⟨fragment.plan, n, exprs, rangeBoundaries, rfl, h.fragment.mono _⟩
  · refine ⟨by simp [PhysicalPlan.nodes, PhysicalPlan.isExchange],
      by simp [PhysicalPlan.nodes, PhysicalPlan.isShuffleWrite], ?_, ?_⟩
    · intro p hp
      obtain rfl : p = ((stages ++ added).length, isBroadcast) := by
        simpa [PhysicalPlan.shuffleReads, PhysicalPlan.leaves] using hp
      refine ⟨write, fragment.plan, n, exprs, rangeBoundaries, ?_, rfl, ?_⟩
      · rw [← List.append_assoc, List.getElem?_concat_length]
      · cases isBroadcast with
        | false => rfl
        | true => exact hb rfl
    · intro dataset sourceName hd
      simp [PhysicalPlan.leaves] at hd

/-- A join closes what its left side closes and then what its right side does, which has
to fit the tasks of the left side. -/
lemma Closes.join {left right : PhysicalPlan F} {stages addedL addedR : List (Stage F)}
    {leftFragment rightFragment : Fragment F} (hl : Closes left stages addedL leftFragment)
    (hr : Closes right (stages ++ addedL) addedR rightFragment)
    (hfit : Consistent (stages ++ addedL ++ addedR) rightFragment.plan leftFragment.numPartitions)
    (leftKeys rightKeys : List (Expression F)) (on : List String) (schema : Schema) :
    Closes (.hashJoinExec left right leftKeys rightKeys on schema) stages (addedL ++ addedR)
      ⟨.hashJoinExec leftFragment.plan rightFragment.plan leftKeys rightKeys on schema,
        leftFragment.numPartitions⟩ := by
  have hfragment := hl.fragment.mono addedR
  refine ⟨?_, ?_, ?_, ?_, ?_⟩
  · have hcount : (PhysicalPlan.hashJoinExec left right leftKeys rightKeys on schema).exchangeCount =
        left.exchangeCount + right.exchangeCount :=
      (List.countP_cons_of_neg (by simp [PhysicalPlan.isExchange])).trans List.countP_append
    rw [List.length_append, hl.count, hr.count, hcount]
  · have hids : (PhysicalPlan.hashJoinExec leftFragment.plan rightFragment.plan leftKeys rightKeys
        on schema).readIds = leftFragment.plan.readIds ++ rightFragment.plan.readIds := by
      rw [PhysicalPlan.readIds, PhysicalPlan.shuffleReads_hashJoinExec, List.map_append]
      rfl
    have hreads := hl.reads.append hr.reads
    rw [List.length_append] at hreads
    rw [hids, List.flatMap_append, List.length_append, List.range'_append_1.symm]
    refine List.Perm.trans ?_ hreads
    -- the right side's stages pass the left fragment's reads
    rw [List.append_assoc, List.append_assoc]
    refine List.Perm.append_left _ ?_
    rw [← List.append_assoc, ← List.append_assoc]
    exact List.Perm.append_right _ List.perm_append_comm
  · intro i hi s hs
    rw [List.length_append] at hi
    by_cases hia : i < addedL.length
    · rw [List.getElem_append_left hia] at hs
      exact hl.earlier i hia s hs
    · rw [List.getElem_append_right (by omega)] at hs
      have hlt := hr.earlier (i - addedL.length) (by omega) s hs
      rw [List.length_append] at hlt
      omega
  · intro st hst
    rw [← List.append_assoc]
    rcases List.mem_append.mp hst with hst | hst
    · obtain ⟨below, m, es, rb, hplan, hc⟩ := hl.closed st hst
      exact ⟨below, m, es, rb, hplan, hc.mono _⟩
    · exact hr.closed st hst
  · rw [← List.append_assoc]
    refine ⟨?_, ?_, ?_, ?_⟩
    · rw [PhysicalPlan.nodes]
      refine List.forall_mem_cons.mpr ⟨rfl, fun node hn => ?_⟩
      exact (List.mem_append.mp hn).elim (hfragment.noExchange node) (hfit.noExchange node)
    · rw [PhysicalPlan.nodes]
      refine List.forall_mem_cons.mpr ⟨rfl, fun node hn => ?_⟩
      exact (List.mem_append.mp hn).elim (hfragment.noWrite node) (hfit.noWrite node)
    · intro p hp
      rw [PhysicalPlan.shuffleReads_hashJoinExec] at hp
      exact (List.mem_append.mp hp).elim (hfragment.reads p) (hfit.reads p)
    · intro dataset sourceName hd
      exact (List.mem_append.mp hd).elim (hfragment.scans dataset sourceName)
        (hfit.scans dataset sourceName)

/-- A read leaf fits any number of tasks when it is broadcast. -/
lemma Consistent.broadcastRead {stages : List (Stage F)} {stageId n : ℕ} {schema : Schema}
    (h : Consistent stages (.shuffleReadExec stageId schema true) n) (m : ℕ) :
    Consistent stages (.shuffleReadExec stageId schema true) m := by
  refine ⟨h.noExchange, h.noWrite, fun p hp => ?_, fun d name hd => ?_⟩
  · obtain ⟨writer, child, k, exprs, rb, hw, hplan, hk⟩ := h.reads p hp
    obtain rfl : p = (stageId, true) := by simpa using hp
    exact ⟨writer, child, k, exprs, rb, hw, hplan, hk⟩
  · simp [PhysicalPlan.leaves] at hd

/-- Splitting closes stages as described. -/
def Splits (plan : PhysicalPlan F) : Prop :=
  ∀ stages, ∃ fragment added, split plan stages = .ok (fragment, stages ++ added) ∧
    Closes plan stages added fragment

/-- Splitting at an exchange leaves one read of the stage just closed. -/
lemma Splits.exchange {child : PhysicalPlan F} (h : Splits child) (n : ℕ)
    (exprs : List (Expression F)) {isBroadcast : Bool} (hb : isBroadcast = true → n = 1)
    (rangeBoundaries : Option (List (Value F))) (stages : List (Stage F)) :
    ∃ stageId added,
      split (.exchangeExec child n exprs isBroadcast rangeBoundaries) stages =
        .ok (⟨.shuffleReadExec stageId child.schema isBroadcast, n⟩, stages ++ added) ∧
      Closes (.exchangeExec child n exprs isBroadcast rangeBoundaries) stages added
        ⟨.shuffleReadExec stageId child.schema isBroadcast, n⟩ := by
  obtain ⟨fragment, added, hsplit, hcloses⟩ := h stages
  refine ⟨_, _, ?_, hcloses.exchange n exprs hb rangeBoundaries⟩
  rw [← List.append_assoc]
  exact ExceptList.bind_eq_ok.mpr ⟨_, hsplit, rfl⟩

/-- Splitting a join splits the left side, and the right one after it. -/
lemma split_hashJoinExec {left right : PhysicalPlan F} {stages stages' stages'' : List (Stage F)}
    {leftFragment rightFragment : Fragment F}
    (hl : split left stages = .ok (leftFragment, stages'))
    (hr : split right stages' = .ok (rightFragment, stages''))
    (leftKeys rightKeys : List (Expression F)) (on : List String) (schema : Schema) :
    split (.hashJoinExec left right leftKeys rightKeys on schema) stages =
      .ok (⟨.hashJoinExec leftFragment.plan rightFragment.plan leftKeys rightKeys on schema,
        leftFragment.numPartitions⟩, stages'') :=
  ExceptList.bind_eq_ok.mpr ⟨_, hl, ExceptList.bind_eq_ok.mpr ⟨_, hr, rfl⟩⟩

/-- A planned query splits. -/
theorem Planned.splits {plan : PhysicalPlan F} (h : Planned plan) : Splits plan := by
  induction h with
  | scan dataset sourceName =>
      intro stages
      exact ⟨_, [], by rw [split, List.append_nil], closes_scan dataset sourceName stages⟩
  | filter _ condition ih =>
      intro stages
      obtain ⟨fragment, added, hsplit, hcloses⟩ := ih stages
      exact ⟨⟨.filterExec fragment.plan condition, fragment.numPartitions⟩, added,
        ExceptList.bind_eq_ok.mpr ⟨_, hsplit, rfl⟩, hcloses.unary rfl rfl rfl rfl rfl rfl⟩
  | project _ columns schema ih =>
      intro stages
      obtain ⟨fragment, added, hsplit, hcloses⟩ := ih stages
      exact ⟨⟨.projectExec fragment.plan columns schema, fragment.numPartitions⟩, added,
        ExceptList.bind_eq_ok.mpr ⟨_, hsplit, rfl⟩, hcloses.unary rfl rfl rfl rfl rfl rfl⟩
  | aggregate _ spec ih =>
      intro stages
      obtain ⟨fragment, added, hsplit, hcloses⟩ := ih stages
      exact ⟨⟨.hashAggregateExec fragment.plan spec, fragment.numPartitions⟩, added,
        ExceptList.bind_eq_ok.mpr ⟨_, hsplit, rfl⟩, hcloses.unary rfl rfl rfl rfl rfl rfl⟩
  | sort _ spec ih =>
      intro stages
      obtain ⟨fragment, added, hsplit, hcloses⟩ := ih stages
      exact ⟨⟨.sortExec fragment.plan spec, fragment.numPartitions⟩, added,
        ExceptList.bind_eq_ok.mpr ⟨_, hsplit, rfl⟩, hcloses.unary rfl rfl rfl rfl rfl rfl⟩
  | exchange _ n exprs rangeBoundaries ih =>
      intro stages
      obtain ⟨stageId, added, hsplit, hcloses⟩ :=
        Splits.exchange ih n exprs (fun h => absurd h Bool.false_ne_true) rangeBoundaries stages
      exact ⟨_, added, hsplit, hcloses⟩
  | broadcastJoin _ _ leftKeys rightKeys on schema ihl ihr =>
      intro stages
      obtain ⟨fragment, addedL, hl, hclosesL⟩ := ihl stages
      obtain ⟨stageId, addedR, hr, hclosesR⟩ :=
        Splits.exchange ihr 1 rightKeys (fun _ => rfl) none (stages ++ addedL)
      refine ⟨_, addedL ++ addedR, ?_,
        hclosesL.join hclosesR (hclosesR.fragment.broadcastRead _) leftKeys rightKeys on schema⟩
      rw [← List.append_assoc]
      exact split_hashJoinExec hl hr leftKeys rightKeys on schema
  | shuffleJoin _ _ n leftKeys rightKeys on schema ihl ihr =>
      intro stages
      obtain ⟨idL, addedL, hl, hclosesL⟩ :=
        Splits.exchange ihl n leftKeys (fun h => absurd h Bool.false_ne_true) none stages
      obtain ⟨idR, addedR, hr, hclosesR⟩ :=
        Splits.exchange ihr n rightKeys (fun h => absurd h Bool.false_ne_true) none
          (stages ++ addedL)
      refine ⟨_, addedL ++ addedR, ?_,
        hclosesL.join hclosesR hclosesR.fragment leftKeys rightKeys on schema⟩
      rw [← List.append_assoc]
      exact split_hashJoinExec hl hr leftKeys rightKeys on schema

end Splitting

section WellFormed

/-- Stages that fit together: numbered by position, no exchange left, one write, at the
root, in every stage but the last, every such stage read once and later, and partition
counts that agree. -/
structure StagesWellFormed (physical : PhysicalPlan F) (stages : List (Stage F)) : Prop where
  count : stages.length = physical.exchangeCount + 1
  wide : hasWideDependency (buildDag physical) = true ↔ 1 < stages.length
  ids : ∀ i (h : i < stages.length), stages[i].stageId = i
  noExchange : ∀ stage ∈ stages, ∀ node ∈ stage.plan.nodes, node.isExchange = false
  writes : ∀ i (h : i < stages.length),
    stages[i].plan.nodes.countP PhysicalPlan.isShuffleWrite =
      if i + 1 < stages.length then 1 else 0
  writeAtRoot : ∀ i (h : i < stages.length),
    stages[i].plan.isShuffleWrite = true ↔ i + 1 < stages.length
  readOnce : ∀ i, i + 1 < stages.length →
    (stages.flatMap (fun stage => stage.plan.readIds)).count i = 1
  readLater : ∀ i (h : i < stages.length), ∀ s ∈ stages[i].plan.readIds, s < i
  shuffled : ∀ stage ∈ stages, ∀ s, (s, false) ∈ stage.plan.shuffleReads →
    ∃ writer child n exprs rangeBoundaries, stages[s]? = some writer ∧
      writer.plan = .shuffleWriteExec child n exprs rangeBoundaries ∧ stage.numPartitions = n
  broadcast : ∀ stage ∈ stages, ∀ s, (s, true) ∈ stage.plan.shuffleReads →
    ∃ writer child exprs rangeBoundaries, stages[s]? = some writer ∧
      writer.plan = .shuffleWriteExec child 1 exprs rangeBoundaries
  scans : ∀ stage ∈ stages, ∀ dataset sourceName,
    .scanExec dataset sourceName ∈ stage.plan.leaves →
      dataset.numPartitions = stage.numPartitions

/-- What a stage list says of one of its stages: the plan below its write, or all of it. -/
lemma Closes.body {plan : PhysicalPlan F} {added : List (Stage F)} {fragment : Fragment F}
    (h : Closes plan [] added fragment) (lastId : ℕ) {stage : Stage F}
    (hstage : stage ∈ added ++ [⟨lastId, fragment.plan, fragment.numPartitions⟩]) :
    ∃ body, Consistent added body stage.numPartitions ∧ stage.plan.leaves = body.leaves ∧
      (stage.plan = body ∨
        ∃ n exprs rangeBoundaries, stage.plan = .shuffleWriteExec body n exprs rangeBoundaries) := by
  rcases List.mem_append.mp hstage with hst | hst
  · obtain ⟨child, n, exprs, rb, hplan, hc⟩ := h.closed stage hst
    exact ⟨child, hc, by rw [hplan]; rfl, Or.inr ⟨n, exprs, rb, hplan⟩⟩
  · obtain rfl := List.mem_singleton.mp hst
    exact ⟨fragment.plan, h.fragment, rfl, Or.inl rfl⟩

/-- The reads of a stage of the list find the stages they name. -/
lemma Closes.reads_of_mem {plan : PhysicalPlan F} {added : List (Stage F)} {fragment : Fragment F}
    (h : Closes plan [] added fragment) (lastId : ℕ) {stage : Stage F}
    (hstage : stage ∈ added ++ [⟨lastId, fragment.plan, fragment.numPartitions⟩])
    {p : ℕ × Bool} (hp : p ∈ stage.plan.shuffleReads) :
    ∃ writer child n exprs rangeBoundaries,
      (added ++ [⟨lastId, fragment.plan, fragment.numPartitions⟩])[p.1]? = some writer ∧
      writer.plan = .shuffleWriteExec child n exprs rangeBoundaries ∧
      n = if p.2 then 1 else stage.numPartitions := by
  obtain ⟨body, hbody, hleaves, -⟩ := h.body lastId hstage
  rw [PhysicalPlan.shuffleReads, hleaves] at hp
  obtain ⟨writer, child, n, exprs, rb, hw, hplan, hn⟩ := hbody.reads p hp
  have hlt := (List.getElem?_eq_some_iff.mp hw).1
  exact ⟨writer, child, n, exprs, rb, by rw [List.getElem?_append_left hlt, hw], hplan, hn⟩

/-- The stages of a split plan, the open fragment closed as the last one. -/
lemma Closes.wellFormed {plan : PhysicalPlan F} {added : List (Stage F)} {fragment : Fragment F}
    (h : Closes plan [] added fragment)
    (hids : ∀ i (hi : i < added.length), added[i].stageId = i) :
    StagesWellFormed plan (added ++ [⟨added.length, fragment.plan, fragment.numPartitions⟩]) := by
  set last : Stage F := ⟨added.length, fragment.plan, fragment.numPartitions⟩ with hlast
  have hlength : (added ++ [last]).length = added.length + 1 := List.length_append
  have hreads : ((added ++ [last]).flatMap (fun stage => stage.plan.readIds)).Perm
      (List.range' 0 added.length) := by
    rw [List.flatMap_append, List.flatMap_singleton]
    exact h.reads
  refine ⟨?_, ?_, ?_, ?_, ?_, ?_, ?_, ?_, ?_, ?_, ?_⟩
  · rw [hlength, h.count]
  · rw [hasWideDependency_buildDag, hlength, h.count]
    omega
  · intro i hi
    by_cases hia : i < added.length
    · rw [List.getElem_append_left hia]
      exact hids i hia
    · obtain rfl : i = added.length := by omega
      rw [List.getElem_concat_length rfl]
  · intro stage hstage node hnode
    obtain ⟨body, hbody, -, hplan | ⟨n, exprs, rb, hplan⟩⟩ := h.body _ hstage
    · rw [hplan] at hnode
      exact hbody.noExchange node hnode
    · rw [hplan] at hnode
      rcases List.mem_cons.mp hnode with rfl | hnode
      · rfl
      · exact hbody.noExchange node hnode
  · intro i hi
    by_cases hia : i < added.length
    · rw [List.getElem_append_left hia, if_pos (by omega)]
      obtain ⟨child, n, exprs, rb, hplan, hc⟩ := h.closed added[i] (List.getElem_mem hia)
      rw [hplan]
      refine (List.countP_cons_of_pos rfl).trans ?_
      rw [List.countP_eq_zero.mpr
        (fun node hn => by rw [hc.noWrite node hn]; exact Bool.false_ne_true)]
    · obtain rfl : i = added.length := by omega
      rw [List.getElem_concat_length rfl, if_neg (by omega)]
      exact List.countP_eq_zero.mpr
        (fun node hn => by rw [h.fragment.noWrite node hn]; exact Bool.false_ne_true)
  · intro i hi
    by_cases hia : i < added.length
    · rw [List.getElem_append_left hia]
      obtain ⟨child, n, exprs, rb, hplan, -⟩ := h.closed added[i] (List.getElem_mem hia)
      rw [hplan]
      exact iff_of_true rfl (by omega)
    · obtain rfl : i = added.length := by omega
      rw [List.getElem_concat_length rfl]
      refine iff_of_false ?_ (by omega)
      rw [h.fragment.noWrite fragment.plan fragment.plan.mem_nodes_self]
      exact Bool.false_ne_true
  · intro i hi
    rw [hreads.count_eq]
    refine List.count_eq_one_of_mem List.nodup_range' ?_
    rw [List.mem_range'_1]
    omega
  · intro i hi s hs
    by_cases hia : i < added.length
    · rw [List.getElem_append_left hia] at hs
      have hlt := h.earlier i hia s hs
      simpa using hlt
    · obtain rfl : i = added.length := by omega
      rw [List.getElem_concat_length rfl] at hs
      have hmem := h.reads.mem_iff.mp (List.mem_append_right _ hs)
      rw [List.mem_range'_1] at hmem
      simpa using hmem.2
  · intro stage hstage s hs
    obtain ⟨writer, child, n, exprs, rb, hw, hplan, hn⟩ := h.reads_of_mem _ hstage hs
    exact ⟨writer, child, n, exprs, rb, hw, hplan, hn.symm⟩
  · intro stage hstage s hs
    obtain ⟨writer, child, n, exprs, rb, hw, hplan, hn⟩ := h.reads_of_mem _ hstage hs
    obtain rfl : n = 1 := hn
    exact ⟨writer, child, exprs, rb, hw, hplan⟩
  · intro stage hstage dataset sourceName hd
    obtain ⟨body, hbody, hleaves, -⟩ := h.body _ hstage
    rw [hleaves] at hd
    exact hbody.scans dataset sourceName hd

variable [PyRuntime F]

/-- The stages of every planned query fit together. -/
theorem buildStages_wellFormed {shufflePartitions : ℕ} {spillThresholdBytes : ℤ}
    {plan : LogicalPlan F} {physical : PhysicalPlan F}
    (h : planPhysical shufflePartitions spillThresholdBytes plan = .ok physical) :
    ∃ stages, buildStages physical = .ok stages ∧ StagesWellFormed physical stages := by
  obtain ⟨plan', -, htranslate⟩ := ExceptList.bind_eq_ok.mp h
  obtain ⟨fragment, added, hsplit, hcloses⟩ := (translate_planned htranslate).splits []
  rw [List.nil_append] at hsplit
  refine ⟨added ++ [⟨added.length, fragment.plan, fragment.numPartitions⟩],
    ExceptList.bind_eq_ok.mpr ⟨_, hsplit, rfl⟩, hcloses.wellFormed ?_⟩
  have hwrites := split_writeStages hsplit ⟨trivial, by simp⟩
  intro i hi
  have hid := hwrites.1.stageId_getElem i hi
  rwa [Nat.zero_add] at hid

end WellFormed

section Examples

/-- A table joined with its own column `a`, which is broadcast, the matches joined again and
counted by it. -/
def matchesByA : LogicalPlan ℚ :=
  .aggregate (.join (.join abTable (.project abTable [.column "a"]) ["a"] "inner" true)
    (.project abTable [.column "a"]) ["a"] "inner" false) [.column "a"]
    [.aggregate .count (.literal (.int 1))]

theorem buildStages_wellFormed_matchesByA : ∃ physical stages,
    planPhysical 4 neverSpill matchesByA = .ok physical ∧ buildStages physical = .ok stages ∧
      StagesWellFormed physical stages := by
  cases hplan : planPhysical 4 neverSpill matchesByA with
  | error e =>
      have hok : (planPhysical 4 neverSpill matchesByA).isOk = true := by decide +kernel
      rw [hplan] at hok
      cases hok
  | ok physical =>
      obtain ⟨stages, hstages, hwell⟩ := buildStages_wellFormed hplan
      exact ⟨physical, stages, rfl, hstages, hwell⟩

end Examples

end MiniSpark
