import MiniSpark.OptimizerSemantics

/-!
# What folding, pruning and elimination keep

Three of the rules are safe on every plan. Folding keeps the value of every
expression that has one, pruning keeps names and rows, and elimination keeps the
whole schema and the rows. Rows are compared as dictionaries.
-/
namespace MiniSpark

variable {F : Type} [PyRuntime F]

section Folding

omit [PyRuntime F] in
lemma LiteralOnly.referencedColumns {e : Expression F} (h : LiteralOnly e) :
    e.referencedColumns = [] := by
  induction e with
  | binary op l m ihl ihm => rw [Expression.referencedColumns, ihl h.1, ihm h.2, List.append_nil]
  | not c ih => exact ih h
  | isNull c ih => exact ih h
  | isNotNull c ih => exact ih h
  | literal v => rfl
  | _ => exact h.elim

/-- An expression that has a value on some record has one at plan time wherever
folding looks for it: evaluation visits every operand, and an operation on
literals reads no column. -/
theorem foldSafe_of_evaluate {e : Expression F} {r : Record F} {v : Value F}
    (h : e.evaluate r = .ok v) : FoldSafe e := by
  induction e generalizing v with
  | binary op l m ihl ihm =>
      obtain ⟨a, b, ha, hb, -⟩ := Expression.evaluate_binary_ok.mp h
      refine ⟨ihl ha, ihm hb, fun hlit => ⟨v, Expression.evaluate_congr _ (fun n hn => ?_) h⟩⟩
      rw [Expression.referencedColumns, hlit.1.referencedColumns, hlit.2.referencedColumns] at hn
      exact absurd hn List.not_mem_nil
  | aliased c n ih => exact ih h
  | not c ih =>
      obtain ⟨a, ha, -⟩ := Expression.evaluate_not_ok.mp h
      exact ih ha
  | isNull c ih =>
      obtain ⟨a, ha, -⟩ := Expression.evaluate_isNull_ok.mp h
      exact ih ha
  | isNotNull c ih =>
      obtain ⟨a, ha, -⟩ := Expression.evaluate_isNotNull_ok.mp h
      exact ih ha
  | _ => trivial

/-- Folding leaves no operation whose operands are all literals. -/
theorem fold_folded {e e' : Expression F} (h : fold e = .ok e') : e'.Folded := by
  induction e generalizing e' with
  | binary op l m ihl ihm =>
      obtain ⟨l', m', hl, hm, hcase⟩ := fold_binary_ok h
      have hl' := ihl hl
      have hm' := ihm hm
      rcases hcase with ⟨a, b, v, -, -, -, rfl⟩ | ⟨rfl, hnot⟩
      · trivial
      · refine ⟨hl', hm', fun hlit => ?_⟩
        cases l' <;> cases m' <;>
          first | exact absurd hlit.1 Bool.false_ne_true | exact absurd hlit.2 Bool.false_ne_true | skip
        exact hnot _ _ rfl rfl
  | aliased c n ih =>
      obtain ⟨c', hc, h⟩ := ExceptList.bind_eq_ok.mp h
      have hc' := ih hc
      cases h
      exact hc'
  | not c ih | isNull c ih | isNotNull c ih =>
      obtain ⟨c', hc, h⟩ := ExceptList.bind_eq_ok.mp h
      have hc' := ih hc
      cases c' <;> cases h <;> first | exact ⟨hc', rfl⟩ | trivial
  | _ => cases h; trivial

/-- Folding an expression that has a value succeeds, leaves no operation on literals
only, references nothing new and keeps the value. -/
theorem fold_preserves_value {e : Expression F} {r : Record F} {v : Value F}
    (h : e.evaluate r = .ok v) :
    ∃ e', fold e = .ok e' ∧ e'.Folded ∧ e'.referencedColumns ⊆ e.referencedColumns ∧
      e'.evaluate r = .ok v := by
  obtain ⟨e', he, -⟩ := fold_ok (foldSafe_of_evaluate h)
  exact ⟨e', he, fold_folded he, fold_refs he, (fold_evaluate he r).trans h⟩

/-- `Column("a") + Literal(2) * Literal(3)` on the row `{"a": 1}`. -/
theorem fold_preserves_value_sum :
    ∃ e', fold (.binary .add (.column "a") (.binary .multiply (.literal (.int 2))
        (.literal (.int 3))) : Expression ℚ) = .ok e' ∧ e'.Folded ∧
      e'.referencedColumns ⊆ ["a"] ∧
      e'.evaluate (OrderedDict.ofList [("a", .int 1)]) = .ok (.int 7) :=
  fold_preserves_value (e := .binary .add (.column "a") (.binary .multiply (.literal (.int 2))
    (.literal (.int 3)))) (r := OrderedDict.ofList [("a", .int 1)]) (v := .int 7) rfl

end Folding

/-- The same dictionaries in the same order. -/
abbrev EqualRows : List (Record F) → List (Record F) → Prop := AgreeRows (fun _ => True)

omit [PyRuntime F] in
/-- Rows that have exactly the same names and agree on them are equal. -/
lemma AgreeRows.equal {names : List String} {rows rows' : List (Record F)}
    (hk : ∀ r ∈ rows, HasKeys names r) (hk' : ∀ r ∈ rows', HasKeys names r)
    (h : AgreeRows (· ∈ names) rows rows') : EqualRows rows rows' := by
  refine ExceptList.forall₂_imp_of_mem h (fun r hr r' hr' hag n _ => ?_)
  by_cases hn : n ∈ names
  · exact hag n hn
  · have hnone : ∀ {s : Record F}, HasKeys names s → s.get? n = none := by
      intro s hs
      rw [← Option.not_isSome_iff_eq_none, hs n]
      exact hn
    rw [hnone (hk r hr), hnone (hk' r' hr')]

/-- A refinement that keeps the names keeps every row. -/
theorem Refines.equalRows {plan plan' : LogicalPlan F} {rows : List (Record F)}
    (ha : plan.Analyzed) (ht : plan.TablesConform) (hk : plan.KeepsNames plan')
    (href : Refines plan plan') (hrun : naiveRows plan = .ok rows) :
    ∃ rows', naiveRows plan' = .ok rows' ∧ EqualRows rows rows' := by
  obtain ⟨rows', hrows', hag⟩ := href rows hrun
  have hkeys' := naiveRows_hasKeys hk.analyzed (ht.mono hk.tables) hrows'
  rw [hk.names] at hkeys'
  exact ⟨rows', hrows', hag.equal (naiveRows_hasKeys ha ht hrun) hkeys'⟩

section Pruning

/-- Pruning keeps the output names of an accepted plan, and its rows where it runs. -/
theorem projectionPruning_preserves {plan analyzed : LogicalPlan F}
    (ha : analyze plan = .ok analyzed) (ht : plan.TablesConform) :
    ∃ plan' s s', Rule.projectionPruning.apply plan = .ok plan' ∧ plan.schema = .ok s ∧
      plan'.schema = .ok s' ∧ s'.fieldNames = s.fieldNames ∧
      ∀ rows, naiveRows plan = .ok rows →
        ∃ rows', naiveRows plan' = .ok rows' ∧ EqualRows rows rows' := by
  have hplan := analyzed_of_analyze ha
  obtain ⟨plan', hp, href⟩ := prune_refines hplan ht
  have hk := prune_keepsNames hplan hp
  obtain ⟨s, hs⟩ := hplan.schema_ok
  obtain ⟨s', hs'⟩ := hk.analyzed.schema_ok
  refine ⟨plan', s, s', hp, hs, hs', ?_, fun rows => href.equalRows hplan ht hk⟩
  rw [LogicalPlan.schema_names hs, LogicalPlan.schema_names hs', hk.names]

theorem projectionPruning_preserves_ab :
    ∃ plan' s s', Rule.projectionPruning.apply (.project abTable [.column "b"]) = .ok plan' ∧
      (LogicalPlan.project abTable [.column "b"]).schema = .ok s ∧ plan'.schema = .ok s' ∧
      s'.fieldNames = s.fieldNames ∧
      ∀ rows, naiveRows (.project abTable [.column "b"]) = .ok rows →
        ∃ rows', naiveRows plan' = .ok rows' ∧ EqualRows rows rows' :=
  have hanalyzed : analyze (.project abTable [.column "b"]) =
      .ok (.project abTable [.column "b"]) := rfl
  projectionPruning_preserves hanalyzed (abTable_conforms rfl)

end Pruning

section Elimination

open LogicalPlan

lemma columnField_column {s : Schema} {n : String} {f : Field}
    (h : s.getField? n = some f) : columnField (Expression.column (F := F) n) s = f := by
  obtain rfl : f.name = n := by simpa using List.find?_some h
  simp only [columnField, Expression.unalias, Expression.columnName, h]

/-- The output field of an expression depends only on the fields it references. -/
lemma columnField_congr {e : Expression F} {s t : Schema}
    (h : ∀ n ∈ e.referencedColumns, t.getField? n = s.getField? n) :
    columnField e t = columnField e s := by
  rw [← Expression.referencedColumns_unalias] at h
  unfold columnField
  cases hu : e.unalias with
  | column n =>
      rw [hu] at h
      simp only [h n (by simp [Expression.referencedColumns])]
  | _ => rfl

lemma schema_project {child : LogicalPlan F} {s : Schema} (hs : child.schema = .ok s)
    {columns : List (Expression F)} (hprints : ∀ e ∈ columns, e.namePrints = true) :
    (project child columns).schema =
      Schema.make (PyRuntime.isPrintable F) (columns.map (fun e => columnField e s)) := by
  rw [schema, outputFields_ok hs hprints, ExceptList.bind_ok]

omit [PyRuntime F] in
/-- Plain columns are named without printing anything. -/
lemma namePrints_columns [PyRuntime F] (names : List String) :
    ∀ e ∈ names.map (Expression.column (F := F)), e.namePrints = true := by
  intro e he
  obtain ⟨n, -, rfl⟩ := List.mem_map.mp he
  rfl

/-- A projection to all columns in order has the schema of its child. -/
lemma schema_identity {child : LogicalPlan F} {s : Schema} (hs : child.schema = .ok s) :
    (project child (s.fieldNames.map Expression.column)).schema = .ok s := by
  rw [schema_project hs (namePrints_columns _), Schema.make_eq_ok, Schema.fieldNames, List.map_map, List.map_map]
  refine (List.map_id s.fields).symm.trans (List.map_congr_left (fun f hf => ?_))
  exact (columnField_column (Schema.getField?_of_mem hf)).symm

/-- A projection to plain columns keeps their fields. -/
lemma getField?_of_columns {child : LogicalPlan F} {names : List String} {s t : Schema}
    (hs : child.schema = .ok s) (ht : (project child (names.map Expression.column)).schema = .ok t)
    {n : String} (hn : n ∈ names) (hin : n ∈ s.fieldNames) : t.getField? n = s.getField? n := by
  obtain ⟨f, hf, rfl⟩ := List.mem_map.mp hin
  have hfound := Schema.getField?_of_mem hf
  rw [schema_project hs (namePrints_columns names), Schema.make_eq_ok] at ht
  have hmem : f ∈ t.fields := by
    rw [ht, List.map_map]
    exact List.mem_map.mpr ⟨f.name, hn, columnField_column hfound⟩
  rw [Schema.getField?_of_mem hmem, hfound]

theorem collapseProject_schema {child : LogicalPlan F} {columns : List (Expression F)}
    (ha : (LogicalPlan.project child columns).Analyzed) :
    (collapseProject child columns).schema = (LogicalPlan.project child columns).schema := by
  unfold collapseProject
  split
  · next grandchild inner =>
      split
      · next hplain =>
          obtain ⟨names, hnames⟩ := Option.isSome_iff_exists.mp hplain
          obtain rfl := columnNames?_eq_some.mp hnames
          obtain ⟨s, hs⟩ := ha.1.1.schema_ok
          obtain ⟨t, ht⟩ := ha.1.schema_ok
          rw [schema_project hs ha.2.2.prints, schema_project ht ha.2.2.prints]
          congr 1
          refine List.map_congr_left (fun e he => (columnField_congr (fun n hn => ?_)).symm)
          have hin := ha.2.1 e he n hn
          rw [outputNames, names_of_columns] at hin
          refine getField?_of_columns hs ht hin ?_
          rw [schema_names hs]
          exact ha.1.2.1 (.column n) (List.mem_map_of_mem hin) n
            (by simp [Expression.referencedColumns])
      · rfl
  · rfl

theorem eliminateProject_schema {child plan' : LogicalPlan F} {columns : List (Expression F)}
    (ha : (LogicalPlan.project child columns).Analyzed)
    (h : eliminateProject child columns = .ok plan') :
    plan'.schema = (LogicalPlan.project child columns).schema := by
  unfold eliminateProject at h
  split at h
  · next names hnames =>
      obtain rfl := columnNames?_eq_some.mp hnames
      obtain ⟨s, hs, h⟩ := ExceptList.bind_eq_ok.mp h
      split at h <;> cases h
      · next heq => rw [heq, schema_identity hs, hs]
      · exact collapseProject_schema ha
  · cases h
    exact collapseProject_schema ha

/-- Elimination keeps the schema: names, types, nullability and order. -/
theorem eliminate_schema {plan plan' : LogicalPlan F} (ha : plan.Analyzed)
    (h : eliminate plan = .ok plan') : plan'.schema = plan.schema := by
  induction plan generalizing plan' with
  | scan _ _ _ => cases h; rfl
  | filter child condition ih =>
      obtain ⟨child', hc, h⟩ := ExceptList.bind_eq_ok.mp h
      have hk := ih ha.1 hc
      cases h
      exact hk
  | project child columns ih =>
      obtain ⟨child', hc, h⟩ := ExceptList.bind_eq_ok.mp h
      have hk := (eliminate_keepsNames ha.1 hc).project ha
      rw [eliminateProject_schema hk.analyzed h, schema, schema, ih ha.1 hc]
  | aggregate child groupBy aggregates ih =>
      obtain ⟨child', hc, h⟩ := ExceptList.bind_eq_ok.mp h
      cases h
      rw [schema, schema, ih ha.1 hc]
  | join left right on how broadcast ihl ihr =>
      obtain ⟨left', hl, h⟩ := ExceptList.bind_eq_ok.mp h
      obtain ⟨right', hr, h⟩ := ExceptList.bind_eq_ok.mp h
      cases h
      rw [schema, schema, ihl ha.1 hl, ihr ha.2.1 hr]
  | sort child keys ih =>
      obtain ⟨child', hc, h⟩ := ExceptList.bind_eq_ok.mp h
      have hk := ih ha.1 hc
      cases h
      exact hk

/-- Elimination keeps the schema of an accepted plan, and its rows where it runs. -/
theorem redundantProjectionElimination_preserves {plan analyzed : LogicalPlan F}
    (ha : analyze plan = .ok analyzed) (ht : plan.TablesConform) :
    ∃ plan' s, Rule.redundantProjectionElimination.apply plan = .ok plan' ∧ plan.schema = .ok s ∧
      plan'.schema = .ok s ∧
      ∀ rows, naiveRows plan = .ok rows →
        ∃ rows', naiveRows plan' = .ok rows' ∧ EqualRows rows rows' := by
  have hplan := analyzed_of_analyze ha
  obtain ⟨plan', hp, href⟩ := eliminate_refines hplan ht
  obtain ⟨s, hs⟩ := hplan.schema_ok
  refine ⟨plan', s, hp, hs, (eliminate_schema hplan hp).trans hs, fun rows => ?_⟩
  exact href.equalRows hplan ht (eliminate_keepsNames hplan hp)

theorem redundantProjectionElimination_preserves_ab :
    ∃ plan' s, Rule.redundantProjectionElimination.apply
        (.project (.project abTable [.column "b", .column "a"]) [.column "b"]) = .ok plan' ∧
      (LogicalPlan.project (.project abTable [.column "b", .column "a"]) [.column "b"]).schema =
        .ok s ∧ plan'.schema = .ok s ∧
      ∀ rows, naiveRows (.project (.project abTable [.column "b", .column "a"]) [.column "b"]) =
        .ok rows → ∃ rows', naiveRows plan' = .ok rows' ∧ EqualRows rows rows' :=
  have hanalyzed : analyze (.project (.project abTable [.column "b", .column "a"]) [.column "b"]) =
      .ok (.project (.project abTable [.column "b", .column "a"]) [.column "b"]) := rfl
  redundantProjectionElimination_preserves hanalyzed (abTable_conforms rfl)

end Elimination

end MiniSpark
