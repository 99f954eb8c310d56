import MiniSpark.RangeExchange
import MiniSpark.SplitRefinement

/-!
# A global sort

The plan of a sort sorts every source partition, deals the rows to targets in order, and
sorts every target. Read in target order, the result is the stable sort of all the rows the
child yields, whichever exchange the planner chooses.
-/
namespace MiniSpark

open StableSort

variable {F : Type} [PyRuntime F] [PyHost F]

/-- The sort expressions of `order_by` on columns. -/
def columnKeys (columns : List (String × Bool)) : List (Expression F × Bool) :=
  columns.map (fun c => (.column c.1, c.2))

section Plans

variable {child : PhysicalPlan F} {parts : List (List (Record F))}

/-- A sort node sorts each partition of its child. -/
theorem denotedRows_sort (spec : Sorting F) (hd : denotedRows child = .ok parts)
    (h : Sortable spec.keys parts.flatten) :
    ∃ outs, denotedRows (.sortExec child spec) = .ok outs ∧
      List.Forall₂ (IsStableSort (rowLe spec.keys)) parts outs := by
  obtain ⟨d, hden, hd⟩ := ExceptList.bind_eq_ok.mp hd
  obtain ⟨outs, hrun, hsort⟩ := Dealing.forall₂_between
    (Q := fun pid out => ∃ parent part, d.part pid = .ok parent ∧
      sortPartition spec pid parent = .ok part ∧ part.toList = .ok out)
    (T := fun out rows => IsStableSort (rowLe spec.keys) rows out) (ExceptList.mapM_eq_ok.mp hd)
    (fun pid rows hrows hread => by
      obtain ⟨parent, hparent, hlist⟩ := ExceptList.bind_eq_ok.mp hread
      obtain ⟨part, out, hpart, hout, hsort, -⟩ := sortPartition_isStableSort spec pid hlist
        (h.mono (fun r hr => List.mem_flatten_of_mem hrows hr))
      exact ⟨out, ⟨parent, part, hparent, hpart, hout⟩, hsort⟩)
  refine ⟨outs, ?_, hsort.flip⟩
  simp only [denotedRows, denote, hden, ExceptList.bind_ok, ExceptList.pure_eq_ok]
  rw [ExceptList.mapM_eq_ok]
  refine hrun.imp (fun pid out hout => ?_)
  obtain ⟨parent, part, hparent, hpart, hlist⟩ := hout
  simp only [hparent, hpart, ExceptList.bind_ok, hlist]

/-- The rows of the targets of an exchange. -/
theorem denotedRows_exchange {n : ℕ} {exprs : List (Expression F)}
    {rangeBoundaries : Option (List (Value F))} {target : Record F → Py ℕ} {t : Record F → ℕ}
    (hd : denotedRows child = .ok parts)
    (htarget : shuffleTarget n exprs rangeBoundaries = .ok target)
    (ht : ∀ r ∈ parts.flatten, target r = .ok (t r)) :
    denotedRows (.exchangeExec child n exprs false rangeBoundaries) = .ok ((List.range n).map
      (fun pid => parts.flatten.filter (fun r => t r = pid))) := by
  rw [denotedRows, denote_exchange hd htarget ht, ExceptList.bind_ok]
  exact ExceptList.mapM_ok_of_forall (fun pid _ => rfl)

/-- Source partitions sorted, dealt in order and sorted again: the global stable sort. -/
theorem planSort_rows {exchange : SortExchange F} (spec : Sorting F) {k : Expression F × Bool}
    {rest : List (Expression F × Bool)} (hkeys : spec.keys = k :: rest)
    (hd : denotedRows child = .ok parts) (h : Sortable spec.keys parts.flatten)
    (hdeals : DealsInOrder exchange k parts.flatten) :
    ∃ outs, denotedRows (.sortExec (.exchangeExec (.sortExec child spec) exchange.numPartitions
        [exchange.partitionKey] false exchange.boundaries) spec) = .ok outs ∧
      IsStableSort (rowLe spec.keys) parts.flatten outs.flatten := by
  obtain ⟨target, t, htarget, ht, hmono⟩ := hdeals
  obtain ⟨locals, hlocals, hlocal⟩ := denotedRows_sort spec hd h
  have hmem : ∀ r ∈ locals.flatten, r ∈ parts.flatten :=
    fun r hr => (locals_perm hlocal).mem_iff.mp hr
  have hexchange := denotedRows_exchange hlocals htarget (fun r hr => (ht r (hmem r hr)).1)
  have hdealt : Sortable spec.keys ((List.range exchange.numPartitions).map
      (fun pid => locals.flatten.filter (fun r => t r = pid))).flatten := by
    refine h.mono (fun r hr => ?_)
    obtain ⟨l, hl, hrl⟩ := List.mem_flatten.mp hr
    obtain ⟨pid, -, rfl⟩ := List.mem_map.mp hl
    exact hmem r (List.mem_of_mem_filter hrl)
  obtain ⟨outs, houts, hfinal⟩ := denotedRows_sort spec hexchange hdealt
  rw [List.forall₂_map_left_iff] at hfinal
  have hlen : exchange.numPartitions = outs.length := by
    simpa using hfinal.length_eq
  have hrange : outs = (List.range exchange.numPartitions).map (fun p => (outs[p]?).getD []) := by
    rw [hlen]
    refine List.ext_getElem (by simp) (fun i hi _ => ?_)
    simp [List.getElem?_eq_getElem hi]
  refine ⟨outs, houts, ?_⟩
  rw [hrange]
  refine IsStableSort.of_targets h.totalPreorder hlocal (fun a ha b hb hab => ?_)
    (fun a ha => (ht a ha).2) (fun p hp => ?_)
  · -- rows in order have their first columns in order
    rw [hkeys] at hab
    have hfirst : columnLe k a b = true := (Bool.and_eq_true_iff.mp hab).1
    exact hmono a ha b hb hfirst
  · obtain ⟨_, hget⟩ := List.forall₂_iff_get.mp hfinal
    have hsorted := hget p (by simpa using hp) (by omega)
    have hbucket : bucket t locals p = locals.flatten.filter (fun r => t r = p) :=
      (List.filter_flatten ..).symm
    rw [hbucket, List.getElem?_eq_getElem (by omega), Option.getD_some]
    simpa using hsorted

/-- The planner's sort of a child with a meaning. -/
theorem planSort_ok {columns : List (String × Bool)} {name : String} {ascending : Bool}
    {schema : Schema} (shufflePartitions : ℕ) (spillThresholdBytes : ℤ)
    (hd : denotedRows child = .ok parts)
    (h : Sortable (columnKeys ((name, ascending) :: columns)) parts.flatten)
    (hnum : ∀ field, schema.getField? name = some field →
      field.dataType = .int ∨ field.dataType = .float →
      ∃ toRat : F → ℚ, ExactFloats toRat ∧
        ∀ r ∈ parts.flatten, ∀ v, r.get? name = some v → ∃ x, v.number? toRat = some x)
    (hprints : FallsBack child name schema shufflePartitions →
      ∀ r ∈ parts.flatten, KeyPrints [name] r) :
    ∃ plan outs, planSort shufflePartitions spillThresholdBytes child
        (columnKeys ((name, ascending) :: columns)) schema = .ok plan ∧
      denotedRows plan = .ok outs ∧
      IsStableSort (rowLe (columnKeys ((name, ascending) :: columns))) parts.flatten
        outs.flatten := by
  have hkeys : ∀ r ∈ parts.flatten, ∃ v, r.get? name = some v := by
    intro r hr
    obtain ⟨v, hv⟩ := (h (.column name, ascending) List.mem_cons_self).evaluates r hr
    rw [Expression.evaluate, Expression.lookupColumn] at hv
    cases hget : r.get? name with
    | none =>
        rw [hget] at hv
        cases hv
    | some w => exact ⟨w, rfl⟩
  obtain ⟨exchange, hexchange, hdeals⟩ := sortRangeBoundaries_deals ascending
    shufflePartitions hd hkeys hnum hprints
  obtain ⟨outs, houts, hsorted⟩ := planSort_rows
    ⟨columnKeys ((name, ascending) :: columns), schema, spillThresholdBytes⟩ rfl hd h hdeals
  refine ⟨_, outs, ?_, houts, hsorted⟩
  show (sortRangeBoundaries child name ascending schema shufflePartitions >>= fun exchange => _) = _
  rw [hexchange]
  rfl

end Plans

/-- The rows collected from the plan of a sort are the stable sort of the rows its child yields,
however these are distributed and at any spill threshold. -/
theorem sort_collects_stableSort {child : LogicalPlan F} {name : String} {ascending : Bool}
    {columns : List (String × Bool)} {shufflePartitions : ℕ} {spillThresholdBytes : ℤ}
    {c : PhysicalPlan F} {schema : Schema} {parts : List (List (Record F))} (maxRetries : ℕ)
    (root : String) (disk : Disk F)
    (hc : translate shufflePartitions spillThresholdBytes child = .ok c)
    (hschema : child.schema = .ok schema) (hd : denotedRows c = .ok parts)
    (hsortable : Sortable (columnKeys ((name, ascending) :: columns)) parts.flatten)
    (hnull : ∀ r ∈ parts.flatten, ∀ v, r.get? name = some v → v.isNone = false)
    (hnum : ∀ field, schema.getField? name = some field →
      field.dataType = .int ∨ field.dataType = .float →
      ∃ toRat : F → ℚ, ExactFloats toRat ∧ ∀ r ∈ parts.flatten, ∀ v, r.get? name = some v →
        v.isNone = false → ∃ x, v.number? toRat = some x)
    (hprints : FallsBack c name schema shufflePartitions →
      ∀ r ∈ parts.flatten, KeyPrints [name] r) :
    ∃ plan stages dataset rows,
      translate shufflePartitions spillThresholdBytes
        (.sort child (columnKeys ((name, ascending) :: columns))) = .ok plan ∧
      buildStages plan = .ok stages ∧
      runPlan maxRetries executeTask root stages disk = .ok dataset ∧
      dataset.iterRecords = .ok rows ∧
      IsStableSort (rowLe (columnKeys ((name, ascending) :: columns))) parts.flatten rows := by
  obtain ⟨plan, outs, hplan, houts, hsorted⟩ := planSort_ok shufflePartitions spillThresholdBytes
    hd hsortable (fun field hfield htype => by
      obtain ⟨toRat, hexact, hvalues⟩ := hnum field hfield htype
      exact ⟨toRat, hexact, fun r hr v hv => hvalues r hr v hv (hnull r hr v hv)⟩) hprints
  obtain ⟨stages, hstages, hrun⟩ := runPlan_of_denotedRows houts maxRetries root disk
  refine ⟨plan, stages, _, _, ?_, hstages, hrun, rowsDataset_iterRecords _ outs, hsorted⟩
  rw [translate, hc, ExceptList.bind_ok, hschema, ExceptList.bind_ok, hplan]

section Examples

/-- Ties within and across source partitions, an empty partition, and a null in the second
column. -/
def tiedParts : List (List (List (Value ℚ))) :=
  [[[.int 2, .int 1], [.int 1, .none], [.int 3, .int 3]], [], [[.int 1, .int 7], [.int 2, .int 1]]]

theorem tiedParts_numbers : ∀ r ∈ (intRows ["a", "b"] tiedParts).flatten,
    (∃ x, r.get? "a" = some (.int x)) ∧ (r.get? "b" = some .none ∨ ∃ x, r.get? "b" = some (.int x)) := by
  intro r hr
  simp only [tiedParts, intRows, List.map_cons, List.map_nil, List.flatten_cons, List.flatten_nil,
    List.cons_append, List.nil_append, List.mem_cons, List.not_mem_nil, or_false] at hr
  rcases hr with rfl | rfl | rfl | rfl | rfl
  · exact ⟨⟨_, rfl⟩, Or.inr ⟨_, rfl⟩⟩
  · exact ⟨⟨_, rfl⟩, Or.inl rfl⟩
  · exact ⟨⟨_, rfl⟩, Or.inr ⟨_, rfl⟩⟩
  · exact ⟨⟨_, rfl⟩, Or.inr ⟨_, rfl⟩⟩
  · exact ⟨⟨_, rfl⟩, Or.inr ⟨_, rfl⟩⟩

/-- A descending sort in two ranges that spills every row. -/
theorem sort_collects_stableSort_ties : ∃ plan stages dataset rows,
    translate 2 0 (.sort (intTable ["a", "b"] (by decide) tiedParts)
      (columnKeys [("a", false), ("b", true)])) = .ok plan ∧
    buildStages plan = .ok stages ∧
    runPlan 0 executeTask "root" stages (fun _ => none) = .ok dataset ∧
    dataset.iterRecords = .ok rows ∧
    IsStableSort (rowLe (columnKeys [("a", false), ("b", true)]))
      (intRows ["a", "b"] tiedParts).flatten rows := by
  refine sort_collects_stableSort 0 "root" (fun _ => none) rfl rfl (denotedRows_scan _ _ _) ?_ ?_ ?_
    (fun hfalls => absurd hfalls (by decide))
  · intro k hk
    refine SortableBy.of_numbers (fun r hr => ?_)
    obtain ⟨⟨x, hx⟩, hb⟩ := tiedParts_numbers r hr
    simp only [columnKeys, List.map_cons, List.map_nil, List.mem_cons, List.not_mem_nil,
      or_false] at hk
    rcases hk with rfl | rfl
    · exact ⟨.int x, some x, by rw [Expression.evaluate, Expression.lookupColumn, hx], rfl⟩
    · rcases hb with hb | ⟨y, hb⟩
      · exact ⟨.none, none, by rw [Expression.evaluate, Expression.lookupColumn, hb], rfl⟩
      · exact ⟨.int y, some y, by rw [Expression.evaluate, Expression.lookupColumn, hb], rfl⟩
  · intro r hr v hv
    obtain ⟨⟨x, hx⟩, -⟩ := tiedParts_numbers r hr
    rw [hx] at hv
    cases hv
    rfl
  · intro field _ _
    refine ⟨id, exactFloats_rat, fun r hr v hv _ => ?_⟩
    obtain ⟨⟨x, hx⟩, -⟩ := tiedParts_numbers r hr
    rw [hx] at hv
    cases hv
    exact ⟨x, rfl⟩

/-- The exchange of a sorted row whose key does not print. -/
lemma longKey_exchange_stops (schema : Schema) (spec : Sorting ℚ)
    (hkeys : spec.keys = columnKeys [("a", true)]) (d : PlanMeaning ℚ) :
    denote (.exchangeExec (.sortExec (.scanExec (rowsDataset schema
      (intRows ["a"] [[[.int longInt]]])) "memory") spec) 1 (["a"].map .column) false none) ≠
      .ok d := by
  intro hx
  let longRow : Record ℚ := OrderedDict.ofList [("a", .int longInt)]
  have hsortable : Sortable spec.keys [[longRow]].flatten := by
    rw [hkeys]
    refine List.forall_mem_singleton.mpr (SortableBy.of_numbers (List.forall_mem_singleton.mpr ?_))
    exact ⟨.int longInt, some longInt, rfl, rfl⟩
  obtain ⟨locals, hlocals, hsorted⟩ := denotedRows_sort spec (denotedRows_scan _ _ _) hsortable
  have hmem : ∀ r, r ∈ locals.flatten ↔ r = longRow := fun r =>
    (locals_perm hsorted).mem_iff.trans List.mem_singleton
  have hprints : ∀ r ∈ locals.flatten, KeyPrints ["a"] r := by
    refine keyPrints_of_denote hlocals (fun r hr => ?_) hx
    rw [(hmem r).mp hr]
    exact List.forall_mem_singleton.mpr ⟨.int longInt, rfl⟩
  exact not_keyPrints_longInt rfl (hprints longRow ((hmem longRow).mpr rfl))

/-- One target for all rows, and one row whose key does not print. -/
theorem longKey_stops_sort : ∃ plan stages,
    translate 1 neverSpill (.sort (intTable ["a"] (by decide) [[[.int longInt]]])
      (columnKeys [("a", true)])) = .ok plan ∧
    buildStages plan = .ok stages ∧
    ∀ dataset, runPlan 0 executeTask "root" stages (fun _ => none) ≠ .ok dataset := by
  obtain ⟨plan, hplan⟩ : ∃ plan, translate 1 neverSpill (.sort
      (intTable ["a"] (by decide) [[[.int longInt]]]) (columnKeys [("a", true)])) = .ok plan :=
    ⟨_, rfl⟩
  have hfails : ∀ d, denote plan ≠ .ok d := by
    rintro d hd
    cases hplan
    obtain ⟨dx, hx, -⟩ := ExceptList.bind_eq_ok.mp hd
    exact longKey_exchange_stops _ _ rfl _ hx
  obtain ⟨stages, hstages, hrun⟩ := runPlan_fails hplan hfails 0 "root" (fun _ => none)
  exact ⟨plan, stages, hplan, hstages, hrun⟩

end Examples

end MiniSpark
