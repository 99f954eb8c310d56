import MiniSpark.NaiveSemantics
import MiniSpark.Optimizer

/-!
# Pushing a filter below a projection

The rule looks only at whether the names a condition mentions exist below the
projection. What those names mean on the two sides of the projection decides
whether the rewritten plan keeps the same rows.
-/
namespace MiniSpark

variable {F : Type} [PyRuntime F]

/-- The values of a projected row, column by column. -/
theorem projectRow_eq_ok {columns : List (Expression F)} {r p : Record F}
    (h : projectRow (columns.map Expression.columnName) columns r = .ok p) :
    ∃ values, List.Forall₂ (fun e v => e.evaluate r = .ok v) columns values ∧
      p = OrderedDict.ofList ((columns.map Expression.columnName).zip values) := by
  obtain ⟨values, hvalues, hp⟩ := ExceptList.bind_eq_ok.mp h
  cases hp
  exact ⟨values, ExceptList.mapM_eq_ok.mp hvalues, rfl⟩

/-- A projected row holds the value of every column under its output name. -/
theorem projectRow_get? {columns : List (Expression F)} {r p : Record F}
    (hnd : (columns.map Expression.columnName).Nodup)
    (h : projectRow (columns.map Expression.columnName) columns r = .ok p) {e : Expression F}
    (he : e ∈ columns) : ∃ v, e.evaluate r = .ok v ∧ p.get? e.columnName = some v := by
  obtain ⟨values, hvalues, rfl⟩ := projectRow_eq_ok h
  obtain ⟨hlen, hall⟩ := List.forall₂_iff_get.mp hvalues
  obtain ⟨i, hi, rfl⟩ := List.mem_iff_getElem.mp he
  refine ⟨values[i], hall i hi (hlen ▸ hi), OrderedDict.get?_ofList_of_mem ?_ ?_⟩
  · rwa [List.map_fst_zip (by simp [hlen])]
  · refine List.mem_iff_getElem.mpr ⟨i, by simpa [hlen] using hlen ▸ hi, ?_⟩
    rw [List.getElem_zip, List.getElem_map]

/-- The condition has one truth on every row of the child and on its projection. -/
def ReadsSame (child : LogicalPlan F) (columns : List (Expression F)) (condition : Expression F) :
    Prop :=
  ∀ rows, naiveRows child = .ok rows → ∀ r ∈ rows,
    ∀ p, projectRow (columns.map Expression.columnName) columns r = .ok p →
      ∃ t, holds condition r = .ok t ∧ holds condition p = .ok t

/-- Every name of the condition is a column passed through the projection unchanged. -/
def PassesThrough (columns : List (Expression F)) (condition : Expression F) : Prop :=
  ∀ n ∈ condition.referencedColumns, ∃ e ∈ columns, e.columnName = n ∧ e.unalias = .column n

lemma evaluate_unalias (e : Expression F) (r : Record F) :
    e.unalias.evaluate r = e.evaluate r := by
  cases e <;> rfl

/-- A passed-through name means the same on a row and on its projection. -/
theorem PassesThrough.get?_eq {columns : List (Expression F)} {condition : Expression F}
    {r p : Record F} (h : PassesThrough columns condition)
    (hnd : (columns.map Expression.columnName).Nodup)
    (hp : projectRow (columns.map Expression.columnName) columns r = .ok p) :
    ∀ n ∈ condition.referencedColumns, p.get? n = r.get? n := by
  intro n hn
  obtain ⟨e, he, rfl, hcol⟩ := h n hn
  obtain ⟨v, hv, hpv⟩ := projectRow_get? hnd hp he
  rw [← evaluate_unalias, hcol, Expression.evaluate_column, Expression.lookupColumn_eq_ok] at hv
  rw [hpv, hv]

/-- A condition on passed-through columns reads the same above and below. -/
theorem readsSame_of_passesThrough {child : LogicalPlan F} {columns : List (Expression F)}
    {condition : Expression F} (h : PassesThrough columns condition)
    (hnd : (columns.map Expression.columnName).Nodup)
    (hok : ∀ rows, naiveRows child = .ok rows → ∀ r ∈ rows,
      ∀ p, projectRow (columns.map Expression.columnName) columns r = .ok p →
        ∃ t, holds condition p = .ok t) : ReadsSame child columns condition := by
  intro rows hrows r hr p hp
  obtain ⟨t, ht⟩ := hok rows hrows r hr p hp
  obtain ⟨v, hv, rfl⟩ := ExceptList.map_eq_ok.mp ht
  have hsame := h.get?_eq hnd hp
  have hvr := Expression.evaluate_congr condition (fun n hn => (hsame n hn).symm) hv
  exact ⟨_, ExceptList.map_eq_ok.mpr ⟨v, hvr, rfl⟩, ht⟩

/-- The naive meaning of a projection, once the schema of the plan is known to build. -/
theorem naiveRows_project {child : LogicalPlan F} {columns : List (Expression F)}
    (h : (LogicalPlan.project child columns).Analyzed) :
    naiveRows (.project child columns) =
      (naiveRows child >>= projectRows (columns.map Expression.columnName) columns) := by
  obtain ⟨s, hs⟩ := h.schema_ok
  have hn : s.fieldNames = columns.map Expression.columnName := LogicalPlan.schema_names hs
  simp only [naiveRows, hs, ExceptList.bind_ok, hn]

/-- A pushed filter reads columns that exist where it lands. -/
lemma pushdown_project_analyzed {child : LogicalPlan F} {columns : List (Expression F)}
    {condition : Expression F} (h : (LogicalPlan.project child columns).Analyzed)
    (hp : pushdown (.filter (.project child columns) condition) =
      .ok (.project (.filter child condition) columns)) :
    (LogicalPlan.project (.filter child condition) columns).Analyzed := by
  obtain ⟨project', hproject, hpush⟩ := ExceptList.bind_eq_ok.mp hp
  obtain ⟨child', hchild, hproject⟩ := ExceptList.bind_eq_ok.mp hproject
  cases hproject
  obtain ⟨s, hs, hpush⟩ := ExceptList.bind_eq_ok.mp hpush
  split at hpush
  · next hsub =>
      cases hpush
      refine ⟨⟨h.1, fun n hn => ?_⟩, h.2⟩
      exact LogicalPlan.schema_names hs ▸ hsub hn
  · cases hpush

/-- A filter moved below a projection keeps the rows of a query that runs exactly
where its condition reads the same on both sides of the projection. -/
theorem pushdown_project_rows_iff {child plan' : LogicalPlan F} {columns : List (Expression F)}
    {condition : Expression F} {rows : List (Record F)}
    (ha : analyze (.filter (.project child columns) condition) = .ok plan')
    (hp : pushdown (.filter (.project child columns) condition) =
      .ok (.project (.filter child condition) columns))
    (hr : naiveRows (.filter (.project child columns) condition) = .ok rows) :
    naiveRows (.project (.filter child condition) columns) = .ok rows ↔
      ReadsSame child columns condition := by
  obtain ⟨hproj, -⟩ := analyzed_of_analyze ha
  obtain ⟨prows, hprows, hfilter⟩ := ExceptList.bind_eq_ok.mp hr
  rw [naiveRows_project hproj] at hprows
  obtain ⟨crows, hcrows, hprows⟩ := ExceptList.bind_eq_ok.mp hprows
  have hpushed := pushdown_project_analyzed hproj hp
  rw [naiveRows_project hpushed]
  simp only [naiveRows, hcrows, ExceptList.bind_ok, ReadsSame, Except.ok.injEq, forall_eq']
  exact ExceptList.filterE_mapM_eq_ok_iff hprows hfilter

section Examples

/-- `Column("a") > Literal(1)`. -/
def aAboveOne : Expression ℚ := .binary .greaterThan (.column "a") (.literal (.int 1))

/-- Rows with `a` and `b`, of which the filter keeps the second and third. -/
def threeRows : LogicalPlan ℚ :=
  intTable ["a", "b"] (by decide) [[[.int 1, .int 7], [.int 2, .int 8]], [[.int 3, .none]]]

theorem pushdown_project_rows_iff_abTable :
    naiveRows (.project (.filter threeRows aAboveOne) [.column "a"]) =
        .ok [OrderedDict.ofList [("a", .int 2)], OrderedDict.ofList [("a", .int 3)]] ↔
      ReadsSame threeRows [.column "a"] aAboveOne :=
  have hanalyzed : analyze (.filter (.project threeRows [.column "a"]) aAboveOne) =
      .ok (.filter (.project threeRows [.column "a"]) aAboveOne) := rfl
  pushdown_project_rows_iff hanalyzed rfl (by decide)

/-- Renaming `b` to `a` and filtering on `a`: below the projection `a` is another column. -/
theorem pushdown_project_loses_rows :
    ¬ ∀ (child : LogicalPlan ℚ) (columns : List (Expression ℚ)) (condition : Expression ℚ)
        (plan' : LogicalPlan ℚ) (rows : List (Record ℚ)),
      analyze (.filter (.project child columns) condition) = .ok plan' →
      pushdown (.filter (.project child columns) condition) =
        .ok (.project (.filter child condition) columns) →
      naiveRows (.filter (.project child columns) condition) = .ok rows →
      naiveRows (.project (.filter child condition) columns) = .ok rows := by
  intro h
  have hlost := h abTable [.aliased (.column "b") "a"] aAboveOne _
    [OrderedDict.ofList [("a", .int 2)]] rfl rfl (by decide)
  revert hlost
  decide

end Examples

end MiniSpark
