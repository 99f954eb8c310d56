import MiniSpark.Conjunctions
import MiniSpark.ExactGroups
import MiniSpark.JoinExecution
import MiniSpark.JoinPushdown
import MiniSpark.OrderBy
import MiniSpark.PlanEmulation

/-!
# Distributed queries return the rows of the query

A query of any nesting is planned operator by operator; every exchange deals the rows of its
child anew. Whatever the partitions of the tables, the width of the exchanges, the join strategies
and the spill threshold, the rows collected are those of running each operator on all the rows of
its children, in another order; a sort at the root puts them in order.
-/
namespace MiniSpark

open StableSort

variable {F : Type} [PyRuntime F]

/-- The first sort key, if its column is declared numeric, holds numbers only. -/
def RangeKey (child : LogicalPlan F) (keys : List (Expression F × Bool))
    (rows : List (Record F)) : Prop :=
  ∀ name ascending rest schema field, keys = (.column name, ascending) :: rest →
    child.schema = .ok schema → schema.getField? name = some field →
    field.dataType = .int ∨ field.dataType = .float →
    ∃ toRat : F → ℚ, ExactFloats toRat ∧
      ∀ r ∈ rows, ∀ v, r.get? name = some v → ∃ x, v.number? toRat = some x

/-- The first sort key has a text in every row. -/
def FirstKeyPrints (keys : List (Expression F × Bool)) (rows : List (Record F)) : Prop :=
  ∀ name ascending rest, keys = (.column name, ascending) :: rest → ∀ r ∈ rows, KeyPrints [name] r

/-- What dealing the rows of an operator to partitions takes: keys of one type that print, aggregates
whose states are tallies, and sort keys that compare. -/
def LogicalPlan.Distributable : LogicalPlan F → Prop
  | .scan _ _ _ => True
  | .filter child _ => child.Distributable
  | .project child _ => child.Distributable
  | .aggregate child groupBy aggregates => child.Distributable ∧
      (∀ g ∈ groupBy, ∀ i < aggregates.length, g.columnName ≠ stateColumn i) ∧
      ∀ rows, naiveRows child = .ok rows →
        HashesKeys (groupBy.map Expression.columnName) rows ∧
          ∀ a ∈ aggregates, ∀ f, unwrapAggregate a = .ok f → f.Exact rows
  | .join left right on _ _ => left.Distributable ∧ right.Distributable ∧
      ∀ lrows rrows, naiveRows left = .ok lrows → naiveRows right = .ok rrows →
        HashesKeys on (lrows ++ rrows)
  | .sort child keys => child.Distributable ∧ keys ≠ [] ∧
      ∀ rows, naiveRows child = .ok rows → Sortable keys rows ∧ RangeKey child keys rows ∧
        FirstKeyPrints keys rows

section Columns

/-- Group and sort expressions that are columns. -/
lemma exists_columns {es : List (Expression F)} (h : ∀ e ∈ es, e.isColumn = true) :
    es = (es.map Expression.columnName).map .column := by
  rw [List.map_map]
  refine (List.map_id es).symm.trans (List.map_congr_left (fun e he => ?_))
  cases e with
  | column name => rfl
  | _ => exact absurd (h _ he) (by simp [Expression.isColumn])

lemma exists_columnKeys {keys : List (Expression F × Bool)} (h : ∀ k ∈ keys, k.1.isColumn = true) :
    keys = columnKeys (keys.map (fun k => (k.1.columnName, k.2))) := by
  rw [columnKeys, List.map_map]
  refine (List.map_id keys).symm.trans (List.map_congr_left (fun k hk => ?_))
  obtain ⟨e, ascending⟩ := k
  cases e with
  | column name => rfl
  | _ => exact absurd (h _ hk) (by simp [Expression.isColumn])

end Columns

section Joins

omit [PyRuntime F] in
lemma items_injective : Function.Injective (OrderedDict.items : Record F → List (String × Value F)) := by
  intro r s h
  cases r
  cases s
  cases h
  rfl

/-- The reference join of rearranged sides. -/
lemma equiJoin_perm (on : List String) {left left' right right' : List (Record F)}
    (hl : left.Perm left') (hr : right.Perm right') :
    (equiJoin on left right).Perm (equiJoin on left' right') := by
  unfold equiJoin
  refine (hl.flatMap_right _).trans (List.Perm.flatMap_left _ (fun l _ => ?_))
  exact (hr.filter _).map _

end Joins

variable [PyHost F]

section Operators

variable {c : PhysicalPlan F} {parts : List (List (Record F))}

/-- A scan yields the records of its dataset. -/
lemma denotedRows_dataset {dataset : Dataset F} {rows : List (Record F)} (sourceName : String)
    (h : dataset.iterRecords = .ok rows) :
    ∃ parts, denotedRows (.scanExec dataset sourceName) = .ok parts ∧ parts.flatten = rows := by
  obtain ⟨parts, hparts, h⟩ := ExceptList.bind_eq_ok.mp h
  cases h
  exact ⟨parts, denotedRows_of_dataset rfl hparts, rfl⟩

lemma filterExec_rows {condition : Expression F} {rows out : List (Record F)}
    (hd : denotedRows c = .ok parts) (hperm : parts.flatten.Perm rows)
    (h : filterRows condition rows = .ok out) :
    ∃ outs, denotedRows (.filterExec c condition) = .ok outs ∧ outs.flatten.Perm out := by
  obtain ⟨out', hout', hperm'⟩ := ExceptList.filterE_perm hperm h
  obtain ⟨outs, houts, rfl⟩ := ExceptList.filterE_flatten hout'
  exact ⟨outs, denotedRows_filter.mpr ⟨parts, hd, houts⟩, hperm'⟩

/-- The rows of a projected plan, partition by partition. -/
lemma denotedRows_project {columns : List (Expression F)} {schema : Schema}
    {outs : List (List (Record F))} (hd : denotedRows c = .ok parts)
    (h : parts.mapM (projectRows schema.fieldNames columns) = .ok outs) :
    denotedRows (.projectExec c columns schema) = .ok outs := by
  obtain ⟨d, hden, hd⟩ := ExceptList.bind_eq_ok.mp hd
  have hparts : denotedRows (.projectExec c columns schema) = (List.range d.numPartitions).mapM
      (fun pid => (d.part pid >>= Partition.toList) >>= projectRows schema.fieldNames columns) := by
    simp only [denotedRows, denote, hden, ExceptList.bind_ok, ExceptList.pure_eq_ok]
    refine ExceptList.mapM_congr (fun pid _ => ?_)
    cases d.part pid with
    | error e => rfl
    | ok part => rfl
  rw [hparts, ExceptList.mapM_bind_eq_ok]
  exact ⟨parts, hd, h⟩

lemma projectExec_rows {columns : List (Expression F)} {schema : Schema}
    {rows out : List (Record F)} (hd : denotedRows c = .ok parts) (hperm : parts.flatten.Perm rows)
    (h : projectRows schema.fieldNames columns rows = .ok out) :
    ∃ outs, denotedRows (.projectExec c columns schema) = .ok outs ∧ outs.flatten.Perm out := by
  obtain ⟨out', hout', hperm'⟩ := ExceptList.mapM_perm hperm h
  obtain ⟨outs, houts, rfl⟩ := ExceptList.mapM_flatten hout'
  exact ⟨outs, denotedRows_project hd houts, hperm'⟩

/-- Either join strategy yields the rows of the join over all rows of both sides. -/
lemma planJoin_perm {l r : PhysicalPlan F} {on leftNames rightNames : List String}
    (schema : Schema) {lparts rparts : List (List (Record F))} {lrows rrows out : List (Record F)}
    {n : ℕ} (hn : 1 ≤ n) (hl : denotedRows l = .ok lparts) (hr : denotedRows r = .ok rparts)
    (hlperm : lparts.flatten.Perm lrows) (hrperm : rparts.flatten.Perm rrows)
    (hkeys : HashesKeys on (lrows ++ rrows)) (hlk : ∀ row ∈ lrows, HasKeys leftNames row)
    (hrk : ∀ row ∈ rrows, HasKeys rightNames row)
    (hclash : ∀ name ∈ leftNames, name ∈ rightNames → name ∈ on) (broadcast : Bool)
    (h : hashJoinRows (on.map .column) (on.map .column) on lrows rrows = .ok out) :
    ∃ parts, denotedRows (planJoin n l r on broadcast schema) = .ok parts ∧
      parts.flatten.Perm out := by
  obtain ⟨parts, hparts, hjoin⟩ := planJoin_rows schema hn hl hr
    (hkeys.kinds.mono (hlperm.append hrperm).subset)
    (fun row hrow => hkeys.prints row ((hlperm.append hrperm).mem_iff.mp hrow))
    (fun row hrow => hlk row (hlperm.mem_iff.mp hrow))
    (fun row hrow => hrk row (hrperm.mem_iff.mp hrow)) hclash broadcast
  obtain ⟨-, -, rfl⟩ := hashJoinRows_eq_ok.mp h
  have hnaive := nestedLoop_perm_equiJoin hkeys.kinds hlk hrk hclash
  refine ⟨parts, hparts, (List.map_perm_map_iff items_injective).mp ?_⟩
  exact hjoin.trans ((equiJoin_perm on hlperm hrperm).trans hnaive.symm)

/-- The planner's sort yields the rows in order. -/
lemma planSort_perm {child : LogicalPlan F} {schema : Schema} {columns : List (String × Bool)}
    {rows out : List (Record F)} {sorted : List (Arrival F)} (n : ℕ) (spill : ℤ)
    (hschema : child.schema = .ok schema) (hd : denotedRows c = .ok parts)
    (hperm : parts.flatten.Perm rows) (hne : columns ≠ []) (h : Sortable (columnKeys columns) rows)
    (hrange : RangeKey child (columnKeys columns) rows)
    (hprints : FirstKeyPrints (columnKeys columns) rows)
    (hsorted : sortRows (arrivals rows) (columnKeys columns) = .ok sorted)
    (hout : out = sorted.map Prod.snd) :
    ∃ plan outs, planSort n spill c (columnKeys columns) schema = .ok plan ∧
      denotedRows plan = .ok outs ∧ outs.flatten.Perm out ∧
      outs.flatten.Pairwise (fun a b => rowLe (columnKeys columns) a b = true) := by
  cases columns with
  | nil => exact absurd rfl hne
  | cons k columns =>
      obtain ⟨name, ascending⟩ := k
      obtain ⟨plan, outs, hplan, houts, hstable⟩ := planSort_ok n spill hd
        (h.mono (fun r hr => hperm.mem_iff.mp hr)) (fun field hfield htype => by
          obtain ⟨toRat, hexact, hnumbers⟩ :=
            hrange name ascending _ schema field rfl hschema hfield htype
          exact ⟨toRat, hexact, fun r hr => hnumbers r (hperm.mem_iff.mp hr)⟩)
        (fun _ r hr => hprints name ascending _ rfl r (hperm.mem_iff.mp hr))
      have harrivals : Sortable (columnKeys ((name, ascending) :: columns))
          ((arrivals rows).map Prod.snd) := by rwa [arrivals_snd]
      obtain ⟨sorted', hsorted', hstable'⟩ := sortRows_isStableSort harrivals
      obtain rfl : sorted' = sorted := Except.ok.inj (hsorted'.symm.trans hsorted)
      have hnaive : out.Perm rows := by
        rw [hout, ← arrivals_snd rows]
        exact hstable'.perm.map Prod.snd
      exact ⟨plan, outs, hplan, houts, hstable.perm.trans (hperm.trans hnaive.symm), hstable.sorted⟩

end Operators

section Queries

omit [PyHost F] in
/-- The names of the columns of partial groups are distinct. -/
lemma partialAggregateSchema_ok {names : List String} {aggregates : List (Expression F)}
    (childSchema : Schema) (hnd : names.Nodup)
    (hfresh : ∀ name ∈ names, ∀ i < aggregates.length, name ≠ stateColumn i) :
    ∃ s, partialAggregateSchema (names.map .column) aggregates childSchema = .ok s := by
  have hstates : (stateColumns aggregates.length).Nodup :=
    List.nodup_range.map (fun i j h => toString_nat_inj (by simpa [stateColumn] using h))
  have hall : (names ++ stateColumns aggregates.length).Nodup := by
    refine List.nodup_append.mpr ⟨hnd, hstates, fun name hname column hcolumn => ?_⟩
    obtain ⟨i, hi, rfl⟩ := List.mem_map.mp hcolumn
    exact hfresh name hname i (List.mem_range.mp hi)
  unfold partialAggregateSchema
  refine (Schema.make_ok_of_nodup (PyRuntime.isPrintable F) ?_).imp (fun s hs => hs.1)
  simpa [stateColumns, Function.comp_def, Expression.columnName] using hall

omit [PyHost F] in
lemma planAggregate_ok {names : List String} {aggregates : List (Expression F)}
    {childSchema partialSchema schema : Schema} {n : ℕ} {child : PhysicalPlan F} (spill : ℤ)
    (h : partialAggregateSchema (names.map .column) aggregates childSchema = .ok partialSchema) :
    planAggregate n spill child (names.map .column) aggregates childSchema schema =
      .ok (.hashAggregateExec (.exchangeExec (.hashAggregateExec child
        ⟨names.map .column, aggregates, partialSchema, true, spill⟩) n (names.map .column) false none)
        ⟨names.map .column, aggregates, schema, false, spill⟩) := by
  rw [planAggregate, h]
  rfl

/-- The plan of a query is found, and denotes the rows of the query in another order. -/
theorem translate_rows {plan : LogicalPlan F} {rows : List (Record F)} {n : ℕ} (spill : ℤ)
    (hn : 1 ≤ n) (ha : plan.Analyzed) (ht : plan.TablesConform) (hd : plan.Distributable)
    (h : naiveRows plan = .ok rows) :
    ∃ physical parts, translate n spill plan = .ok physical ∧ denotedRows physical = .ok parts ∧
      parts.flatten.Perm rows ∧
      ∀ child keys, plan = .sort child keys →
        parts.flatten.Pairwise (fun a b => rowLe keys a b = true) := by
  induction plan generalizing rows with
  | scan dataset sourceName source =>
      obtain ⟨parts, hparts, rfl⟩ := denotedRows_dataset sourceName h
      exact ⟨_, parts, rfl, hparts, .refl _, fun _ _ hsort => by cases hsort⟩
  | filter child condition ih =>
      obtain ⟨crows, hc, h⟩ := ExceptList.bind_eq_ok.mp h
      obtain ⟨c, parts, hplan, hparts, hperm, -⟩ := ih ha.1 ht hd hc
      obtain ⟨outs, houts, hperm'⟩ := filterExec_rows hparts hperm h
      refine ⟨_, outs, ?_, houts, hperm', fun _ _ hsort => by cases hsort⟩
      rw [translate, hplan]
      rfl
  | project child columns ih =>
      obtain ⟨crows, hc, h⟩ := ExceptList.bind_eq_ok.mp h
      obtain ⟨schema, hschema, h⟩ := ExceptList.bind_eq_ok.mp h
      obtain ⟨c, parts, hplan, hparts, hperm, -⟩ := ih ha.1 ht hd hc
      obtain ⟨outs, houts, hperm'⟩ := projectExec_rows hparts hperm h
      refine ⟨_, outs, ?_, houts, hperm', fun _ _ hsort => by cases hsort⟩
      rw [translate, hplan, ExceptList.bind_ok, hschema]
      rfl
  | aggregate child groupBy aggregates ih =>
      obtain ⟨crows, hc, h⟩ := ExceptList.bind_eq_ok.mp h
      obtain ⟨schema, hschema, h⟩ := ExceptList.bind_eq_ok.mp h
      obtain ⟨c, parts, hplan, hparts, hperm, -⟩ := ih ha.1 ht hd.1 hc
      obtain ⟨hkeys, hexact⟩ := hd.2.2 crows hc
      obtain ⟨childSchema, hchild⟩ := ha.1.schema_ok
      obtain ⟨aggs, haggs⟩ := unwrapAggregates_ok hschema
      obtain ⟨names, rfl⟩ : ∃ names : List String, groupBy = names.map .column :=
        ⟨_, exists_columns (fun g hg => (ha.2.1 g hg).1)⟩
      rw [outputNames_columns] at hkeys
      have hnd : (names ++ aggregates.map Expression.columnName).Nodup :=
        aggregateSchema_nodup hschema
      obtain ⟨partialSchema, hpartial⟩ := partialAggregateSchema_ok childSchema
        (List.nodup_append.mp hnd).1 (fun name hname i hi =>
          hd.2.1 (.column name) (List.mem_map_of_mem hname) i hi)
      obtain ⟨outs, houts, hperm'⟩ := planAggregate_perm hn hparts hperm
        (planAggregate_ok spill hpartial) haggs hnd hkeys.kinds hkeys.prints
        (fun f hf => by
          obtain ⟨a, ha, hunwrap⟩ := Dealing.exists_partner (ExceptList.mapM_eq_ok.mp haggs) hf
          exact hexact a ha f hunwrap) h
      refine ⟨_, outs, ?_, houts, hperm', fun _ _ hsort => by cases hsort⟩
      rw [translate, hplan, ExceptList.bind_ok, hchild, ExceptList.bind_ok, hschema,
        ExceptList.bind_ok]
      exact planAggregate_ok spill hpartial
  | join left right on how broadcast ihl ihr =>
      obtain ⟨lrows, hl, h⟩ := ExceptList.bind_eq_ok.mp h
      obtain ⟨rrows, hr, h⟩ := ExceptList.bind_eq_ok.mp h
      obtain ⟨l, lparts, hlplan, hlparts, hlperm, -⟩ :=
        ihl ha.1 (ht.mono (List.subset_append_left _ _)) hd.1 hl
      obtain ⟨r, rparts, hrplan, hrparts, hrperm, -⟩ :=
        ihr ha.2.1 (ht.mono (List.subset_append_right _ _)) hd.2.1 hr
      obtain ⟨schema, hschema⟩ := ha.schema_ok
      have hlk := naiveRows_hasKeys ha.1 (ht.mono (List.subset_append_left _ _)) hl
      have hrk := naiveRows_hasKeys ha.2.1 (ht.mono (List.subset_append_right _ _)) hr
      obtain ⟨parts, hparts, hperm⟩ := planJoin_perm schema hn hlparts hrparts hlperm hrperm
        (hd.2.2 lrows rrows hl hr) hlk hrk ha.2.2.2.2.2 broadcast h
      refine ⟨_, parts, ?_, hparts, hperm, fun _ _ hsort => by cases hsort⟩
      rw [translate, hlplan, ExceptList.bind_ok, hrplan, ExceptList.bind_ok, hschema]
      rfl
  | sort child keys ih =>
      obtain ⟨crows, hc, h⟩ := ExceptList.bind_eq_ok.mp h
      obtain ⟨sorted, hsorted, hout⟩ := ExceptList.bind_eq_ok.mp h
      obtain ⟨c, parts, hplan, hparts, hperm, -⟩ := ih ha.1 ht hd.1 hc
      obtain ⟨hsortable, hrange, hprints⟩ := hd.2.2 crows hc
      obtain ⟨schema, hschema⟩ := ha.1.schema_ok
      obtain ⟨columns, rfl⟩ : ∃ columns, keys = columnKeys columns :=
        ⟨_, exists_columnKeys (fun k hk => (ha.2 k hk).1)⟩
      have hne : columns ≠ [] := by
        rintro rfl
        exact hd.2.1 rfl
      cases hout
      obtain ⟨physical, outs, hplan', houts, hperm', hordered⟩ := planSort_perm n spill hschema hparts
        hperm hne hsortable hrange hprints hsorted rfl
      refine ⟨physical, outs, ?_, houts, hperm', fun child' keys' hsort => ?_⟩
      · rw [translate, hplan, ExceptList.bind_ok, hschema]
        exact hplan'
      · cases hsort
        exact hordered

/-- The rows collected from an accepted query, run stage by stage, are the rows of running each
operator on all the rows of its children, in another order; those of a sort are in order. -/
theorem query_collects_rows {plan analyzed : LogicalPlan F} {rows : List (Record F)} {n : ℕ}
    (spill : ℤ) (maxRetries : ℕ) (root : String) (disk : Disk F) (hn : 1 ≤ n)
    (ha : analyze plan = .ok analyzed) (ht : plan.TablesConform) (hd : plan.Distributable)
    (h : naiveRows plan = .ok rows) :
    ∃ physical stages dataset out, translate n spill analyzed = .ok physical ∧
      buildStages physical = .ok stages ∧
      runPlan maxRetries executeTask root stages disk = .ok dataset ∧
      dataset.iterRecords = .ok out ∧ out.Perm rows ∧
      ∀ child keys, plan = .sort child keys → out.Pairwise (fun a b => rowLe keys a b = true) := by
  obtain ⟨rfl, hanalyzed, -⟩ := analyze_eq_ok.mp ha
  obtain ⟨physical, parts, hplan, hparts, hperm, hordered⟩ :=
    translate_rows spill hn hanalyzed ht hd h
  obtain ⟨stages, hstages, hrun⟩ := runPlan_of_denotedRows hparts maxRetries root disk
  exact ⟨physical, stages, _, _, hplan, hstages, hrun, rowsDataset_iterRecords _ parts, hperm,
    hordered⟩

end Queries

section Examples

/-- Two tables with nulls and empty partitions, joined and filtered. -/
def joinedTables : LogicalPlan ℚ :=
  .filter (.join (intTable ["a", "b"] ab_nodup abParts) (intTable ["a", "c"] ac_nodup acParts) ["a"]
    "inner" false) (.isNotNull (.column "a"))

def joinedRows : List (Record ℚ) :=
  (intRows ["a", "b", "c"] [[[.int 1, .int 2, .int 5], [.int 1, .none, .int 5],
    [.int 1, .int 2, .int 7], [.int 1, .none, .int 7]]]).flatten

/-- The joined rows grouped, and the groups sorted. -/
def sortedGroups : LogicalPlan ℚ :=
  .sort (.aggregate joinedTables [.column "a"]
    [.aggregate .sum (.column "b"), .aliased (.aggregate .max (.column "c")) "m", .countStar])
    (columnKeys [("a", true)])

def groupRows : List (Record ℚ) :=
  [OrderedDict.ofList [("a", .int 1), ("Sum(Column('b'))", .int 4), ("m", .int 7),
    ("Count(*)", .int 4)]]

lemma joinedRows_column {n : String} (hn : n ∈ ["a", "b", "c"]) : ∀ r ∈ joinedRows,
    ∃ v : Option ℤ, r.get? n = some (v.elim .none .int) := by
  simp only [joinedRows, intRows, List.map_cons, List.map_nil, List.flatten_cons, List.flatten_nil,
    List.append_nil, List.forall_mem_cons]
  simp only [List.mem_cons, List.not_mem_nil, or_false] at hn
  rcases hn with rfl | rfl | rfl
  · exact ⟨⟨some 1, rfl⟩, ⟨some 1, rfl⟩, ⟨some 1, rfl⟩, ⟨some 1, rfl⟩, by simp⟩
  · exact ⟨⟨some 2, rfl⟩, ⟨none, rfl⟩, ⟨some 2, rfl⟩, ⟨none, rfl⟩, by simp⟩
  · exact ⟨⟨some 5, rfl⟩, ⟨some 5, rfl⟩, ⟨some 7, rfl⟩, ⟨some 7, rfl⟩, by simp⟩

lemma joinedRows_isColumn {n : String} (hn : n ∈ ["a", "b", "c"]) :
    IsColumn (F := ℚ) Value.int (.column n) joinedRows := by
  intro r hr
  obtain ⟨v, hv⟩ := joinedRows_column hn r hr
  exact ⟨v, by rw [Expression.evaluate, Expression.lookupColumn, hv]⟩

lemma joinedTables_distributable : joinedTables.Distributable := by
  refine ⟨trivial, trivial, fun lrows rrows hl hr => ?_⟩
  obtain rfl : _ = lrows := Except.ok.inj ((rowsDataset_iterRecords _ _).symm.trans hl)
  obtain rfl : _ = rrows := Except.ok.inj ((rowsDataset_iterRecords _ _).symm.trans hr)
  exact ⟨joinParts_holdKinds, joinParts_print⟩

lemma joinedTables_rows : naiveRows joinedTables = .ok joinedRows := by decide +kernel

lemma groups_rows : naiveRows (.aggregate joinedTables [.column "a"]
    [.aggregate .sum (.column "b"), .aliased (.aggregate .max (.column "c")) "m", .countStar]) =
      .ok groupRows := by decide +kernel

lemma sortedGroups_distributable : sortedGroups.Distributable := by
  refine ⟨⟨joinedTables_distributable, ?_, fun rows hrows => ⟨?_, ?_⟩⟩, by simp [columnKeys],
    fun rows hrows => ⟨?_, ?_, ?_⟩⟩
  · intro g hg i hi
    obtain rfl := List.mem_singleton.mp hg
    have hfresh : ∀ i < 3, "a" ≠ stateColumn i := by decide
    exact hfresh i hi
  · obtain rfl : joinedRows = rows := Except.ok.inj (joinedTables_rows.symm.trans hrows)
    refine ⟨fun n hn => ?_, fun r hr => ?_⟩
    · obtain rfl := List.mem_singleton.mp hn
      refine ⟨.int, fun r hr => ?_⟩
      obtain ⟨v, hv⟩ := joinedRows_column (n := "a") (by simp) r hr
      exact ⟨_, hv, by cases v <;> trivial⟩
    · have hall : ∀ r ∈ joinedRows, KeyPrints ["a"] r := by decide
      exact hall r hr
  · obtain rfl : joinedRows = rows := Except.ok.inj (joinedTables_rows.symm.trans hrows)
    simp only [List.forall_mem_cons]
    refine ⟨?_, ?_, ?_, by simp⟩
    all_goals
      rintro f ⟨⟩
    · exact exact_sum adds_int (joinedRows_isColumn (by simp))
    · exact exact_max compares_int (joinedRows_isColumn (by simp))
    · exact exact_countStar _
  · obtain rfl : groupRows = rows := Except.ok.inj (groups_rows.symm.trans hrows)
    intro k hk
    obtain rfl := List.mem_singleton.mp hk
    refine SortableBy.of_numbers (fun r hr => ?_)
    obtain rfl := List.mem_singleton.mp hr
    exact ⟨.int 1, some 1, rfl, rfl⟩
  · obtain rfl : groupRows = rows := Except.ok.inj (groups_rows.symm.trans hrows)
    intro name ascending rest schema field hkeys _ _ _
    simp only [columnKeys, List.map_cons, List.map_nil, List.cons.injEq, Prod.mk.injEq,
      Expression.column.injEq] at hkeys
    obtain ⟨⟨rfl, -⟩, -⟩ := hkeys
    refine ⟨id, exactFloats_rat, fun r hr v hv => ?_⟩
    obtain rfl := List.mem_singleton.mp hr
    cases hv
    exact ⟨1, rfl⟩
  · obtain rfl : groupRows = rows := Except.ok.inj (groups_rows.symm.trans hrows)
    intro name ascending rest hkeys
    simp only [columnKeys, List.map_cons, List.map_nil, List.cons.injEq, Prod.mk.injEq,
      Expression.column.injEq] at hkeys
    obtain ⟨⟨rfl, -⟩, -⟩ := hkeys
    exact List.forall_mem_singleton.mpr (by decide)

lemma sortedGroups_conforms : sortedGroups.TablesConform := by
  have hjoin : (LogicalPlan.join (intTable ["a", "b"] ab_nodup abParts)
      (intTable ["a", "c"] ac_nodup acParts) ["a"] "inner" false).TablesConform :=
    joined_conforms (intTable_conforms ab_nodup (by decide)) (intTable_conforms ac_nodup (by decide))
  exact hjoin

/-- A join of rows with null keys, a filter, three aggregates and a sort, spilling every row. -/
theorem query_collects_rows_sortedGroups : ∃ physical stages dataset out,
    translate 2 0 sortedGroups = .ok physical ∧ buildStages physical = .ok stages ∧
      runPlan 0 executeTask "root" stages (fun _ => none) = .ok dataset ∧
      dataset.iterRecords = .ok out ∧ out.Perm groupRows ∧
      ∀ child keys, sortedGroups = .sort child keys →
        out.Pairwise (fun a b => rowLe keys a b = true) :=
  query_collects_rows 0 0 "root" (fun _ => none) (by decide) rfl sortedGroups_conforms
    sortedGroups_distributable (by decide +kernel)

end Examples

end MiniSpark
