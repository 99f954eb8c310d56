import MiniSpark.RuleRefinement

/-!
# Pushing filters below a join

The filters of a chain move below the join one by one until the first that reads
both sides. A condition that evaluates on the side it moves to filters the joined
rows as it filters that side, so the rule keeps the rows of every join whose sides it
rewrites safely.
-/
namespace MiniSpark

variable {F : Type} [PyRuntime F]

section Definitions

/-- Each condition evaluates on the side it is pushed into, as the conditions pushed
before it leave that side. -/
def EvaluateWherePushed : LogicalPlan F → LogicalPlan F → List (Expression F) → Prop
  | _, _, [] => True
  | left, right, condition :: conditions =>
      if condition.referencedColumns ⊆ left.outputNames then
        EvaluatesOn left condition ∧
          EvaluateWherePushed (.filter left condition) right conditions
      else if condition.referencedColumns ⊆ right.outputNames then
        EvaluatesOn right condition ∧
          EvaluateWherePushed left (.filter right condition) conditions
      else True

/-- Rows that the join matches hold identical values under the join columns. -/
def IdenticalOn (on : List String) (left right : LogicalPlan F) : Prop :=
  ∀ lrows rrows, naiveRows left = .ok lrows → naiveRows right = .ok rrows →
    ∀ l ∈ lrows, ∀ r ∈ rrows, keysMatch (on.map Expression.column) (on.map Expression.column) l r →
      ∀ n ∈ on, l.get? n = r.get? n

end Definitions

section Chain

variable {left right : LogicalPlan F} {on : List String} {conditions : List (Expression F)}

/-- A condition on right columns reads a joined row as its right row where the two
rows hold identical values under the join columns. -/
lemma holds_mergeRow_right {rn : List String} {condition : Expression F} {l r : Record F} {t : Bool}
    (hrk : HasKeys rn r) (hid : ∀ n ∈ on, l.get? n = r.get? n)
    (hsub : condition.referencedColumns ⊆ rn) (h : holds condition r = .ok t) :
    holds condition (mergeRow on l r) = .ok t := by
  obtain ⟨v, hv, rfl⟩ := ExceptList.map_eq_ok.mp h
  refine ExceptList.map_eq_ok.mpr ⟨v, Expression.evaluate_congr condition (fun n hn => ?_) hv, rfl⟩
  rw [mergeRow_get?]
  split
  · next hon => exact hid n hon
  · obtain ⟨w, hw⟩ := Option.isSome_iff_exists.mp ((hrk n).mpr (hsub hn))
    rw [hw, Option.some_or]

/-- Filtering a side leaves identical values. -/
lemma IdenticalOn.filter_left (h : IdenticalOn on left right) (condition : Expression F) :
    IdenticalOn on (.filter left condition) right := by
  intro lrows rrows hlrows hrrows l hl
  obtain ⟨lrows', hlrows', hf⟩ := ExceptList.bind_eq_ok.mp hlrows
  obtain ⟨-, rfl⟩ := ExceptList.filterE_eq_ok.mp hf
  exact h lrows' rrows hlrows' hrrows l (List.mem_of_mem_filter hl)

lemma IdenticalOn.filter_right (h : IdenticalOn on left right) (condition : Expression F) :
    IdenticalOn on left (.filter right condition) := by
  intro lrows rrows hlrows hrrows l hl r hr
  obtain ⟨rrows', hrrows', hf⟩ := ExceptList.bind_eq_ok.mp hrrows
  obtain ⟨-, rfl⟩ := ExceptList.filterE_eq_ok.mp hf
  exact h lrows rrows' hlrows hrrows' l hl r (List.mem_of_mem_filter hr)

/-- Over identical join values every condition that evaluates where it is pushed is moved
safely. -/
lemma EvaluateWherePushed.safeBelowJoin (har : right.Analyzed) (ht : right.TablesConform)
    (hid : IdenticalOn on left right) (h : EvaluateWherePushed left right conditions) :
    SafeBelowJoin on left right conditions := by
  induction conditions generalizing left right with
  | nil => trivial
  | cons c cs ih =>
      rw [EvaluateWherePushed] at h
      rw [SafeBelowJoin]
      split
      · next hsub =>
          rw [if_pos hsub] at h
          exact ⟨h.1, ih har ht (hid.filter_left c) h.2⟩
      · next hnsub =>
          rw [if_neg hnsub] at h
          intro hsub
          rw [if_pos hsub] at h
          refine ⟨h.1, ?_, ih ⟨har, fun _ hn => hsub hn⟩ ht (hid.filter_right c) h.2⟩
          intro lrows rrows hlrows hrrows l hl r hr hm t hholds
          have hkeys := naiveRows_hasKeys har ht hrrows r hr
          exact holds_mergeRow_right hkeys (hid lrows rrows hlrows hrrows l hl r hr hm) hsub hholds

/-- Filters above a join, whose conditions evaluate on the side they are pushed into, are
pushed down without changing the rows, when the filters inside the two sides are. -/
theorem pushdown_join_rows {how : String} {broadcast : Bool} {analyzed : LogicalPlan F}
    {rows : List (Record F)}
    (ha : analyze ((LogicalPlan.join left right on how broadcast).filters conditions) = .ok analyzed)
    (ht : (LogicalPlan.join left right on how broadcast).TablesConform)
    (hid : IdenticalOn on left right) (hev : EvaluateWherePushed left right conditions)
    (hrun : naiveRows ((LogicalPlan.join left right on how broadcast).filters conditions) = .ok rows)
    (hleft : PushdownSafe left) (hright : PushdownSafe right) :
    ∃ plan' rows', Rule.predicatePushdown.apply
        ((LogicalPlan.join left right on how broadcast).filters conditions) = .ok plan' ∧
      naiveRows plan' = .ok rows' ∧ EqualRows rows rows' := by
  have hplan := analyzed_of_analyze ha
  have htr : right.TablesConform := ht.mono (List.subset_append_right _ _)
  have hsafe : ChainSafe (.join left right on how broadcast) conditions :=
    ⟨hleft, hright, hev.safeBelowJoin (analyzed_of_filters hplan).2.1 htr hid⟩
  obtain ⟨plan', hp, href⟩ := pushdown_chain_refines conditions hplan ht hsafe
  obtain ⟨rows', hrows', hag⟩ := href.equalRows hplan (tablesConform_filters.mpr ht)
    (pushdown_keepsNames hplan hp) hrun
  exact ⟨plan', rows', hp, hrows', hag⟩

end Chain

section Examples

/-- `Column("k") > Literal(0)`. -/
def kAboveZero : Expression ℚ := .binary .greaterThan (.column "k") (.literal (.int 0))

/-- One row `{"k": 1, "a": 1, "b": 2}`. -/
def kabTable : LogicalPlan ℚ := intTable ["k", "a", "b"] (by decide) [[[.int 1, .int 1, .int 2]]]

/-- One row `{"k": 1, "c": 7}`. -/
def kcTable : LogicalPlan ℚ := intTable ["k", "c"] (by decide) [[[.int 1, .int 7]]]

/-- `b` under the name `a`, filtered on `a`. -/
def renamedAboveOne : LogicalPlan ℚ :=
  .filter (.project kabTable [.column "k", .aliased (.column "b") "a"]) aAboveOne

lemma intTable_conforms {columns : List String} (h : columns.Nodup)
    {parts : List (List (List (Value ℚ)))}
    (hlen : ∀ part ∈ parts, ∀ values ∈ part, values.length = columns.length) :
    (intTable columns h parts).TablesConform := by
  intro d hd rows hrows
  obtain rfl := List.mem_singleton.mp hd
  rw [rowsDataset_iterRecords] at hrows
  cases hrows
  have hnames : (rowsDataset ⟨columns.map (fun c => ⟨c, .int, true⟩),
      by simpa [Function.comp_def] using h⟩ (intRows columns parts)).schema.fieldNames = columns := by
    simp [Schema.fieldNames, rowsDataset, Function.comp_def]
  rw [hnames]
  exact intRows_hasKeys h hlen

lemma joined_conforms {left right : LogicalPlan ℚ} {on : List String} (hl : left.TablesConform)
    (hr : right.TablesConform) : (LogicalPlan.join left right on "inner" false).TablesConform := by
  intro d hd
  rcases List.mem_append.mp hd with hd | hd
  · exact hl d hd
  · exact hr d hd

lemma kabTable_conforms : kabTable.TablesConform := intTable_conforms _ (by decide)

lemma renamedAboveOne_conforms : renamedAboveOne.TablesConform := kabTable_conforms

lemma kcTable_conforms : kcTable.TablesConform := intTable_conforms _ (by decide)

/-- Sides of one row each, with the same key. -/
lemma identicalOn_single {left right : LogicalPlan ℚ} {l r : Record ℚ}
    (hl : naiveRows left = .ok [l]) (hr : naiveRows right = .ok [r]) (h : l.get? "k" = r.get? "k") :
    IdenticalOn ["k"] left right := by
  intro lrows rrows hlrows hrrows x hx y hy _ n hn
  rw [hl, Except.ok.injEq] at hlrows
  rw [hr, Except.ok.injEq] at hrrows
  subst hlrows hrrows
  obtain rfl := List.mem_singleton.mp hx
  obtain rfl := List.mem_singleton.mp hy
  obtain rfl := List.mem_singleton.mp hn
  exact h

lemma evaluateWherePushed_single {left right : LogicalPlan ℚ} {l : Record ℚ} {t : Bool}
    (hl : naiveRows left = .ok [l]) (hk : kAboveZero.referencedColumns ⊆ left.outputNames)
    (ht : holds kAboveZero l = .ok t) : EvaluateWherePushed left right [kAboveZero] := by
  rw [EvaluateWherePushed, if_pos hk]
  refine ⟨fun rows hrows x hx => ?_, trivial⟩
  rw [hl, Except.ok.injEq] at hrows
  subst hrows
  obtain rfl := List.mem_singleton.mp hx
  exact ⟨t, ht⟩

lemma kcTable_rows : naiveRows kcTable = .ok [OrderedDict.ofList [("k", .int 1), ("c", .int 7)]] := by
  decide +kernel

theorem pushdown_join_rows_tables :
    ∃ plan' rows', Rule.predicatePushdown.apply
        ((LogicalPlan.join kabTable kcTable ["k"] "inner" false).filters [kAboveZero]) = .ok plan' ∧
      naiveRows plan' = .ok rows' ∧
      EqualRows [OrderedDict.ofList [("k", .int 1), ("a", .int 1), ("b", .int 2), ("c", .int 7)]]
        rows' := by
  have hleft : naiveRows kabTable =
      .ok [OrderedDict.ofList [("k", .int 1), ("a", .int 1), ("b", .int 2)]] := by decide +kernel
  have hanalyzed : analyze ((LogicalPlan.join kabTable kcTable ["k"] "inner" false).filters
      [kAboveZero]) = .ok ((LogicalPlan.join kabTable kcTable ["k"] "inner" false).filters
      [kAboveZero]) := rfl
  exact pushdown_join_rows hanalyzed (joined_conforms kabTable_conforms kcTable_conforms)
    (identicalOn_single hleft kcTable_rows rfl)
    (evaluateWherePushed_single hleft (by decide) rfl) (by decide +kernel) trivial trivial

/-- A side that filters a renamed column loses its rows when it is rewritten, whatever
is filtered above the join. -/
theorem pushdown_join_loses_rows :
    ¬ ∀ (left right analyzed : LogicalPlan ℚ) (on : List String) (how : String) (broadcast : Bool)
        (conditions : List (Expression ℚ)) (rows : List (Record ℚ)), conditions ≠ [] →
      analyze ((LogicalPlan.join left right on how broadcast).filters conditions) = .ok analyzed →
      (LogicalPlan.join left right on how broadcast).TablesConform →
      IdenticalOn on left right → EvaluateWherePushed left right conditions →
      naiveRows ((LogicalPlan.join left right on how broadcast).filters conditions) = .ok rows →
      ∃ plan' rows', Rule.predicatePushdown.apply
          ((LogicalPlan.join left right on how broadcast).filters conditions) = .ok plan' ∧
        naiveRows plan' = .ok rows' ∧ EqualRows rows rows' := by
  intro h
  have hleft : naiveRows renamedAboveOne =
      .ok [OrderedDict.ofList [("k", .int 1), ("a", .int 2)]] := by decide +kernel
  have hanalyzed : analyze ((LogicalPlan.join renamedAboveOne kcTable ["k"] "inner" false).filters
      [kAboveZero]) = .ok ((LogicalPlan.join renamedAboveOne kcTable ["k"] "inner" false).filters
      [kAboveZero]) := rfl
  obtain ⟨plan', rows', hp, hrows', hag⟩ := h renamedAboveOne kcTable _ ["k"] "inner" false
    [kAboveZero] [OrderedDict.ofList [("k", .int 1), ("a", .int 2), ("c", .int 7)]] (by simp)
    hanalyzed (joined_conforms renamedAboveOne_conforms kcTable_conforms)
    (identicalOn_single hleft kcTable_rows rfl)
    (evaluateWherePushed_single hleft (by decide) rfl) (by decide +kernel)
  cases hp
  have hempty : naiveRows (.join (.filter (.project (.filter kabTable aAboveOne)
      [.column "k", .aliased (.column "b") "a"]) kAboveZero) kcTable ["k"] "inner" false) = .ok [] := by
    decide +kernel
  have hnil : rows' = [] := Except.ok.inj (hrows'.symm.trans hempty)
  subst hnil
  cases hag

end Examples

end MiniSpark
