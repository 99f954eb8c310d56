import MiniSpark.AggregateGroups
import MiniSpark.Analyzer
import MiniSpark.Exchange
import MiniSpark.Planner
import MiniSpark.RowKeys
import MiniSpark.SplitRefinement

/-!
# Distributed aggregation is the group-by

Partial states of each source partition are dealt by key, so all states of a key
meet in one target partition and are merged there. The final rows are those of a
group-by over all input rows, whatever the distribution and the spill threshold.
-/
namespace MiniSpark

open Summaries

/-- `out` is the reference group-by of `input`: a row for each key, holding the key and
the aggregates over all rows with that key. -/
structure GroupsBy (names : List String) (aggregates : List (Expression ℚ))
    (input out : List (Record ℚ)) : Prop where
  columns : ∀ row ∈ out, HasKeys (names ++ aggregates.map Expression.columnName) row
  distinct : (out.map (keyOf names)).Nodup
  complete : ∀ k, k ∈ out.map (keyOf names) ↔ k ∈ input.map (keyOf names)
  values : ∀ row ∈ out, ∀ a ∈ aggregates, ∀ f, unwrapAggregate a = .ok f →
    ∃ v, row.get? a.columnName = some v ∧
      Stands v (f.reference (input.filter (fun r => keyOf names r = keyOf names row)))

variable {names : List String} {aggs : List (AggregateFunction ℚ)}

section Stages

variable [PyHost ℚ] {input : List (Record ℚ)}

/-- A final row of a group: its key and the reference values over a batch. -/
structure IsFinalRow (names : List String) (aggregates : List (Expression ℚ))
    (aggs : List (AggregateFunction ℚ)) (row : Record ℚ) (batch : List (Record ℚ)) : Prop where
  nonempty : batch ≠ []
  key : ∀ r ∈ batch, keyOf names r = keyOf names row
  columns : HasKeys (names ++ aggregates.map Expression.columnName) row
  values : List.Forall₂ (fun a (p : AggregateFunction ℚ × ℕ) => ∃ v,
    row.get? a.columnName = some v ∧ Stands v (p.1.name.reference (batch.flatMap (rowNumbers p))))
    aggregates aggs.zipIdx

omit [PyHost ℚ] in
lemma isFinalRow_of_group {aggregates : List (Expression ℚ)} {row : Record ℚ}
    {batch : List (Record ℚ)} (haggs : aggregates.mapM unwrapAggregate = .ok aggs)
    (hnd : (names ++ aggregates.map Expression.columnName).Nodup)
    (h : FinalRowOf names (aggregates.map Expression.columnName) aggs
      (GroupOf (keyOf names) rowNumbers aggs) row batch) : IsFinalRow names aggregates aggs row batch := by
  have hlen : (aggregates.map Expression.columnName).length = aggs.length := by
    rw [List.length_map, ExceptList.mapM_length haggs]
  obtain ⟨states, values, hgroup, hvalues, hcolumns, houts⟩ :=
    h.columns groupOf_keepsMeaning.lengths hlen hnd
  obtain ⟨values', hvalues', hstands⟩ := finalizeStates hgroup.states
  rw [zipIdx_fst, hvalues] at hvalues'
  obtain rfl := Except.ok.inj hvalues'
  rw [List.forall₂_map_left_iff] at houts
  exact ⟨hgroup.nonempty, hgroup.key, hcolumns, Dealing.forall₂_through houts hstands⟩

omit [PyHost ℚ] in
/-- Final rows with distinct keys that summarise the input are its group-by. -/
theorem groupsBy_of_summarise {aggregates : List (Expression ℚ)} {out : List (Record ℚ)}
    (haggs : aggregates.mapM unwrapAggregate = .ok aggs) (hnd : (out.map (keyOf names)).Nodup)
    (h : Summarise (IsFinalRow names aggregates aggs) out input) :
    GroupsBy names aggregates input out where
  columns := by
    intro row hrow
    obtain ⟨b, hb, -⟩ := h.exists_batch hrow
    exact hb.columns
  distinct := hnd
  complete := by
    intro k
    constructor
    · intro hk
      obtain ⟨row, hrow, rfl⟩ := List.mem_map.mp hk
      obtain ⟨b, hb, hsub⟩ := h.exists_batch hrow
      obtain ⟨r, hr⟩ := List.exists_mem_of_ne_nil b hb.nonempty
      rw [← hb.key r hr]
      exact List.mem_map_of_mem (hsub hr)
    · intro hk
      obtain ⟨r, hr, rfl⟩ := List.mem_map.mp hk
      obtain ⟨row, hrow, b, hb, hrb⟩ := h.exists_item hr
      rw [hb.key r hrb]
      exact List.mem_map_of_mem hrow
  values := by
    intro row hrow a ha f hf
    obtain ⟨b, hb, hperm⟩ := h.of_key (fun _ _ hb => hb.key) hnd row hrow
    have hunwrap : List.Forall₂ (fun a (p : AggregateFunction ℚ × ℕ) => unwrapAggregate a = .ok p.1)
        aggregates aggs.zipIdx := by
      rw [← List.forall₂_map_right_iff (R := fun a f => unwrapAggregate a = .ok f), zipIdx_fst]
      exact ExceptList.mapM_eq_ok.mp haggs
    have hvalues := List.Forall₂.mp (fun _ _ hu hv => And.intro hu hv) hunwrap hb.values
    obtain ⟨p, -, hp, v, hv, hstands⟩ := Dealing.exists_partner hvalues.flip ha
    obtain rfl : f = p.1 := Except.ok.inj (hf.symm.trans hp)
    refine ⟨v, hv, ?_⟩
    have hnumbers : (b.flatMap (rowNumbers p)).Perm
        ((input.filter (fun r => keyOf names r = keyOf names row)).filterMap p.1.contribution) := by
      rw [List.filterMap_eq_flatMap_toList]
      exact hperm.flatMap_right _
    rwa [AggregateFunction.reference, ← AggregateName.reference_perm hnumbers]

/-- The two aggregation stages of a plan compute the reference group-by. -/
theorem planAggregate_rows {child plan : PhysicalPlan ℚ} {aggregates : List (Expression ℚ)}
    {childSchema schema : Schema} {n : ℕ} {spill : ℤ} {parts : List (List (Record ℚ))} (hn : 1 ≤ n)
    (hd : denotedRows child = .ok parts)
    (hplan : planAggregate n spill child (names.map .column) aggregates childSchema schema = .ok plan)
    (haggs : aggregates.mapM unwrapAggregate = .ok aggs)
    (hnd : (names ++ aggregates.map Expression.columnName).Nodup)
    (hkinds : HoldKinds names parts.flatten) (hprints : ∀ r ∈ parts.flatten, KeyPrints names r)
    (hnum : ∀ r ∈ parts.flatten, ∀ a ∈ aggs, a.Numeric r) :
    ∃ outs, denotedRows plan = .ok outs ∧ GroupsBy names aggregates parts.flatten outs.flatten := by
  have hkeeps : KeepsMeaning names aggs (GroupOf (keyOf names) rowNumbers aggs) :=
    groupOf_keepsMeaning
  have hkeys : ∀ k states b, GroupOf (keyOf names) rowNumbers aggs (k, states) b →
      b ⊆ parts.flatten.flatMap (fun r => [r]) → InputKey names parts.flatten k := by
    intro k states b hgroup hsub
    rw [List.flatMap_singleton'] at hsub
    obtain ⟨r, hr⟩ := List.exists_mem_of_ne_nil b hgroup.nonempty
    exact List.mem_map.mpr ⟨r, hsub hr, hgroup.key r hr⟩
  obtain ⟨outs, houts, hdistinct, hsum⟩ := planAggregate_stages hn hd hplan haggs hnd
    (inputKey_lawful hkinds) (inputKey_prints hprints) hkeeps hkeys (fun spec hgroup hmode r hr =>
      ⟨keyOf names r, List.mem_map_of_mem hr,
        absorbs_row hmode (hgroup ▸ hkinds.tupleKey_ok hr) (hnum r hr)⟩)
  rw [List.flatMap_singleton'] at hsum
  obtain ⟨batches, hbatches, hperm⟩ := hsum
  exact ⟨outs, houts, groupsBy_of_summarise haggs hdistinct
    ⟨batches, hbatches.imp fun _ _ h => isFinalRow_of_group haggs hnd h, hperm⟩⟩

/-- The rows collected from the plan of an aggregation are the group-by of the rows its child
yields, however these are distributed and at any spill threshold. -/
theorem aggregate_collects_reference {child : LogicalPlan ℚ} {aggregates : List (Expression ℚ)}
    {shufflePartitions : ℕ} {spillThresholdBytes : ℤ} {c plan : PhysicalPlan ℚ}
    {parts : List (List (Record ℚ))} (maxRetries : ℕ) (root : String) (disk : Disk ℚ)
    (hn : 1 ≤ shufflePartitions)
    (hc : translate shufflePartitions spillThresholdBytes child = .ok c)
    (hplan : translate shufflePartitions spillThresholdBytes
      (.aggregate child (names.map .column) aggregates) = .ok plan)
    (hd : denotedRows c = .ok parts) (hkinds : HoldKinds names parts.flatten)
    (hprints : ∀ r ∈ parts.flatten, KeyPrints names r)
    (hnum : ∀ r ∈ parts.flatten, ∀ a ∈ aggregates, ∀ f, unwrapAggregate a = .ok f → f.Numeric r) :
    ∃ stages dataset rows, buildStages plan = .ok stages ∧
      runPlan maxRetries executeTask root stages disk = .ok dataset ∧
      dataset.iterRecords = .ok rows ∧ GroupsBy names aggregates parts.flatten rows := by
  rw [translate, hc, ExceptList.bind_ok] at hplan
  obtain ⟨childSchema, -, hplan⟩ := ExceptList.bind_eq_ok.mp hplan
  obtain ⟨schema, hschema, hplan⟩ := ExceptList.bind_eq_ok.mp hplan
  obtain ⟨aggs, haggs⟩ := unwrapAggregates_ok hschema
  have hnd : (names ++ aggregates.map Expression.columnName).Nodup := aggregateSchema_nodup hschema
  have hnumeric : ∀ r ∈ parts.flatten, ∀ f ∈ aggs, f.Numeric r := by
    intro r hr f hf
    obtain ⟨a, ha, hunwrap⟩ := Dealing.exists_partner (ExceptList.mapM_eq_ok.mp haggs) hf
    exact hnum r hr a ha f hunwrap
  obtain ⟨outs, houts, hgroups⟩ := planAggregate_rows hn hd hplan haggs hnd hkinds hprints hnumeric
  obtain ⟨stages, hstages, hrun⟩ := runPlan_of_denotedRows houts maxRetries root disk
  exact ⟨stages, _, _, hstages, hrun, rowsDataset_iterRecords _ outs, hgroups⟩

end Stages

/-- A null key, null values and an empty partition, for three aggregates. -/
theorem aggregate_collects_reference_table : ∃ plan stages dataset rows,
    translate 2 neverSpill (.aggregate (intTable ["a", "b"] (by decide) nullParts)
      (["a"].map .column) meanMaxCount) = .ok plan ∧
    buildStages plan = .ok stages ∧
    runPlan 0 executeTask "root" stages (fun _ => none) = .ok dataset ∧
    dataset.iterRecords = .ok rows ∧
    GroupsBy ["a"] meanMaxCount (intRows ["a", "b"] nullParts).flatten rows := by
  obtain ⟨plan, hplan⟩ : ∃ plan, translate 2 neverSpill (.aggregate
      (intTable ["a", "b"] (by decide) nullParts) (["a"].map .column) meanMaxCount) = .ok plan :=
    ⟨_, rfl⟩
  obtain ⟨stages, dataset, rows, hrun⟩ := aggregate_collects_reference 0 "root" (fun _ => none)
    (by decide) rfl hplan (denotedRows_scan _ _ _) nullParts_holdKinds nullParts_prints nullParts_numeric
  exact ⟨plan, stages, dataset, rows, hplan, hrun⟩

/-- One row whose key does not print: its partial state is not hashed, and the query fails. -/
theorem longKey_stops_aggregate : ∃ plan stages,
    translate 2 neverSpill (.aggregate (intTable ["a"] (by decide) [[[.int longInt]]])
      [.column "a"] [.countStar]) = .ok plan ∧
    buildStages plan = .ok stages ∧
    ∀ dataset, runPlan 0 executeTask "root" stages (fun _ => none) ≠ .ok dataset := by
  obtain ⟨plan, hplan⟩ : ∃ plan, translate 2 neverSpill (.aggregate
      (intTable ["a"] (by decide) [[[.int longInt]]]) [.column "a"] [.countStar]) = .ok plan :=
    ⟨_, rfl⟩
  have hfails : ∀ d, denote plan ≠ .ok d := by
    rintro d hd
    cases hplan
    obtain ⟨dx, hx, -⟩ := ExceptList.bind_eq_ok.mp hd
    let partialRow : Record ℚ := OrderedDict.ofList [("a", .int longInt), (stateColumn 0, .int 1)]
    have hprints : ∀ r ∈ [[partialRow]].flatten, KeyPrints ["a"] r := by
      refine keyPrints_of_denote ?_ ?_ hx
      · rfl
      · exact List.forall_mem_singleton.mpr (List.forall_mem_singleton.mpr ⟨.int longInt, rfl⟩)
    exact not_keyPrints_longInt rfl (hprints _ (List.mem_singleton_self _))
  obtain ⟨stages, hstages, hrun⟩ := runPlan_fails hplan hfails 0 "root" (fun _ => none)
  exact ⟨plan, stages, hplan, hstages, hrun⟩

end MiniSpark
