import MiniSpark.Analyzer
import MiniSpark.SqlStatement

/-!
# The columns of a query's result

An aggregating query becomes an `Aggregate` whose columns are the `GROUP BY` list followed
by the aggregated items of the select list: the items that are not aggregated are checked
against the `GROUP BY` names and then dropped, with their places and their aliases. So the
select list gives the columns only when it starts with the grouping columns as they are.
-/
namespace MiniSpark

variable {F : Type} [PyRuntime F]

namespace Statement

/-- The query does not aggregate; or the select list names the grouping columns, all of
them and in their order, and the aggregated items come after them. -/
def ListsGroupingFirst (s : Statement F) (items : List (Expression F)) : Prop :=
  (s.groupBy = [] ∧ items.filter containsAggregate = []) ∨
  ∃ plain aggregated, items = plain ++ aggregated ∧
    (∀ e ∈ plain, containsAggregate e = false) ∧
    (∀ e ∈ aggregated, containsAggregate e = true) ∧
    plain.map Expression.columnName = s.groupBy.map Expression.columnName

end Statement

section Columns

variable {tables : OrderedDict String (LogicalPlan F)}

/-- `HAVING` keeps the columns. -/
lemma havingOf_outputNames {selected grouped : LogicalPlan F} {having : Option (Expression F)}
    (h : havingOf selected having = .ok grouped) : grouped.outputNames = selected.outputNames := by
  cases having with
  | none =>
      cases h
      rfl
  | some condition =>
      cases selected with
      | aggregate child groupBy aggregates =>
          obtain ⟨c, _, hc⟩ := ExceptList.bind_eq_ok.mp h
          cases hc
          rfl
      | scan dataset sourceName source | filter child c | project child columns
      | join left right on how broadcast | sort child keys =>
          cases h
          rfl

omit [PyRuntime F] in
/-- Lists whose elements have the same names are the same, where a name is only given once. -/
lemma eq_of_map_eq {α β : Type} {f : α → β} {as bs : List α}
    (hinj : ∀ a ∈ as, ∀ b ∈ bs, f a = f b → a = b) (h : as.map f = bs.map f) :
    as = bs := by
  have hlength : as.length = bs.length := by
    simpa using congrArg List.length h
  refine List.ext_getElem hlength (fun i hi hi' => ?_)
  apply hinj _ (List.getElem_mem hi) _ (List.getElem_mem hi')
  have hget : (as.map f)[i]? = (bs.map f)[i]? := by rw [h]
  simpa [List.getElem?_map, List.getElem?_eq_getElem hi, List.getElem?_eq_getElem hi'] using hget

omit [PyRuntime F] in
/-- When the names of a list are some first names and then those of its elements with `p`,
these elements are the end of the list. -/
lemma split_of_names {α β : Type} {p : α → Bool} {name : α → β} {xs : List α} {front : List β}
    (hnodup : (front ++ (xs.filter p).map name).Nodup)
    (h : front ++ (xs.filter p).map name = xs.map name) :
    ∃ plain, xs = plain ++ xs.filter p ∧ plain.filter p = [] ∧ plain.map name = front := by
  have htail : xs.drop front.length = xs.filter p := by
    rw [h] at hnodup
    apply eq_of_map_eq (f := name)
    · intro a ha b hb hab
      exact List.inj_on_of_nodup_map hnodup (List.mem_of_mem_drop ha) (List.mem_of_mem_filter hb) hab
    · rw [List.map_drop, ← h, List.drop_left]
  have hsplit : xs = xs.take front.length ++ xs.filter p := by
    rw [← htail, List.take_append_drop]
  refine ⟨xs.take front.length, hsplit, ?_, ?_⟩
  · have hfilter : xs.filter p = (xs.take front.length).filter p ++ xs.filter p := by
      conv_lhs => rw [hsplit, List.filter_append, List.filter_filter]
      simp
    exact List.self_eq_append_left.mp hfilter
  · rw [List.map_take, ← h, List.take_left]

lemma sortBy_outputNames (plan : LogicalPlan F) (order : Option (List (Expression F × Bool))) :
    (sortBy plan order).outputNames = plan.outputNames := by
  cases order <;> rfl

/-- The result columns are the select list's exactly when the list starts with the
grouping columns. -/
theorem selectList_columns_iff {query : String} {plan : LogicalPlan F} {schema : Schema}
    [PyText F] (hplan : parseSql query tables = .ok plan) (hschema : plan.schema = .ok schema) :
    ∃ s : Statement F, readQuery query = .ok s ∧ ∀ items, s.selectItems = some items →
      (schema.fieldNames = items.map Expression.columnName ↔ s.ListsGroupingFirst items) := by
  obtain ⟨s, hread, htoPlan⟩ := parseSql_reads hplan
  refine ⟨s, hread, fun items hitems => ?_⟩
  obtain ⟨table, joined, selected, grouped, -, -, hselected, hgrouped, rfl⟩ :=
    Statement.toPlan_eq_ok htoPlan
  have hnames : schema.fieldNames = selected.outputNames := by
    rw [LogicalPlan.schema_names hschema, sortBy_outputNames, havingOf_outputNames hgrouped]
  have hnodup : selected.outputNames.Nodup := hnames ▸ schema.fieldNames_nodup
  rw [hnames]
  obtain ⟨hnone, -⟩ | ⟨es, hes, hgroup, hagg, rfl⟩ | ⟨es, hes, hsome, rfl⟩ :=
    applySelect_eq_ok hselected
  · cases hitems.symm.trans hnone
  · cases hitems.symm.trans hes
    exact iff_of_true rfl (Or.inl ⟨hgroup, hagg⟩)
  · cases hitems.symm.trans hes
    simp only [LogicalPlan.outputNames, List.map_append] at hnodup ⊢
    constructor
    · intro h
      obtain ⟨plain, hsplit, hplain, hfront⟩ := split_of_names hnodup h
      refine Or.inr ⟨plain, items.filter containsAggregate, hsplit, ?_, ?_, hfront⟩
      · intro e he
        simpa using List.filter_eq_nil_iff.mp hplain e he
      · exact fun e he => (List.mem_filter.mp he).2
    · rintro (hneither | ⟨plain, aggregated, rfl, hplain, haggregated, hfront⟩)
      · exact absurd hneither hsome
      · rw [List.filter_append, List.filter_eq_nil_iff.mpr (by simpa using hplain),
          List.filter_eq_self.mpr haggregated, List.nil_append, List.map_append, hfront]

end Columns

section Examples

/-- The aggregate stands first in the select list. -/
def countFirst : String := "SELECT COUNT(*) AS n, a FROM t GROUP BY a"

/-- The query is accepted, its schema is defined, and the names pass the test. -/
def columnsPass (test : List String → List String → Bool) (query : String)
    (tables : OrderedDict String (LogicalPlan ℚ)) : Bool :=
  match parseSql query tables, readQuery (F := ℚ) query with
  | .ok plan, .ok s =>
      match plan.schema, s.selectItems with
      | .ok schema, some items => test schema.fieldNames (items.map Expression.columnName)
      | _, _ => false
  | _, _ => false

lemma exists_of_columnsPass {test : List String → List String → Bool} {query : String}
    {tables : OrderedDict String (LogicalPlan ℚ)} (h : columnsPass test query tables = true) :
    ∃ (plan : LogicalPlan ℚ) (schema : Schema) (s : Statement ℚ) (items : List (Expression ℚ)),
      parseSql query tables = .ok plan ∧ plan.schema = .ok schema ∧
      readQuery query = .ok s ∧ s.selectItems = some items ∧
      test schema.fieldNames (items.map Expression.columnName) = true := by
  unfold columnsPass at h
  split at h
  · next plan s hplan hs =>
      split at h
      · next schema items hschema hitems =>
          exact ⟨plan, schema, s, items, hplan, hschema, hs, hitems, h⟩
      · cases h
  · cases h

lemma countFirst_columns :
    columnsPass (fun names listed => names == ["a", "n"] && listed == ["n", "a"])
      countFirst tableT = true := by
  decide +kernel

/-- `SELECT COUNT(*) AS n, a FROM t GROUP BY a` has the columns `a`, `n`. -/
theorem selectList_columns_iff_countFirst : ∃ (plan : LogicalPlan ℚ) (schema : Schema),
    parseSql countFirst tableT = .ok plan ∧ plan.schema = .ok schema ∧
    ∃ s : Statement ℚ, readQuery countFirst = .ok s ∧ ∀ items, s.selectItems = some items →
      (schema.fieldNames = items.map Expression.columnName ↔ s.ListsGroupingFirst items) := by
  obtain ⟨plan, schema, s, items, hplan, hschema, -⟩ := exists_of_columnsPass countFirst_columns
  exact ⟨plan, schema, hplan, hschema, selectList_columns_iff hplan hschema⟩

theorem selectList_columns_not_listed : ¬ ∀ (query : String)
    (tables : OrderedDict String (LogicalPlan ℚ)) (plan : LogicalPlan ℚ) (schema : Schema)
    (s : Statement ℚ) (items : List (Expression ℚ)), parseSql query tables = .ok plan →
      plan.schema = .ok schema → readQuery query = .ok s → s.selectItems = some items →
      schema.fieldNames = items.map Expression.columnName := by
  intro hall
  obtain ⟨plan, schema, s, items, hplan, hschema, hs, hitems, htest⟩ :=
    exists_of_columnsPass countFirst_columns
  have hnames := hall countFirst tableT plan schema s items hplan hschema hs hitems
  rw [hnames] at htest
  simp only [Bool.and_eq_true, beq_iff_eq] at htest
  exact absurd (htest.1.symm.trans htest.2) (by decide)

end Examples

end MiniSpark
