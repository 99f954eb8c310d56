import MiniSpark.RuleRefinement

/-!
# The optimizer keeps declared fields

The loop compares printed plans, which show no types; still every rule keeps the fields of a
schema as they are. Below a pruned node some fields are gone and the others unchanged; at the root
nothing is pruned, so there the schema is the same.
-/
namespace MiniSpark

variable {F : Type} [PyRuntime F]

section Schemas

/-- Fields of a schema that come from another one are found there as well. -/
lemma Schema.getField?_of_subset {s t : Schema} (h : t.fields ⊆ s.fields) {n : String}
    (hn : n ∈ t.fieldNames) : t.getField? n = s.getField? n := by
  obtain ⟨f, hf, rfl⟩ := List.mem_map.mp hn
  rw [getField?_of_mem hf, getField?_of_mem (h hf)]

/-- A schema with the same names and no other fields is the same. -/
lemma Schema.eq_of_subset {s t : Schema} (h : t.fields ⊆ s.fields)
    (hnames : t.fieldNames = s.fieldNames) : t = s := by
  apply Schema.ext
  have hrel : List.Forall₂ Eq t.fieldNames s.fieldNames := by
    rw [hnames, List.forall₂_eq_eq_eq]
  rw [Schema.fieldNames, Schema.fieldNames, List.forall₂_map_left_iff,
    List.forall₂_map_right_iff] at hrel
  rw [← List.forall₂_eq_eq_eq]
  exact ExceptList.forall₂_imp_of_mem hrel
    (fun f hf g hg hname => List.inj_on_of_nodup_map s.distinct (h hf) hg hname)

/-- The fields of the second plan are fields of the first. -/
def KeepsFields (plan plan' : LogicalPlan F) : Prop :=
  ∀ s s', plan.schema = .ok s → plan'.schema = .ok s' → s'.fields ⊆ s.fields

lemma KeepsFields.of_schema {plan plan' : LogicalPlan F} (h : plan'.schema = plan.schema) :
    KeepsFields plan plan' := by
  intro s s' hs hs'
  rw [h, hs, Except.ok.injEq] at hs'
  exact hs' ▸ List.Subset.refl _

/-- Where the names are kept too, the schema is. -/
theorem KeepsFields.schema {plan plan' : LogicalPlan F} (ha : plan.Analyzed)
    (hk : plan.KeepsNames plan') (h : KeepsFields plan plan') : plan'.schema = plan.schema := by
  obtain ⟨s, hs⟩ := ha.schema_ok
  obtain ⟨s', hs'⟩ := hk.analyzed.schema_ok
  rw [hs, hs', Schema.eq_of_subset (h s s' hs hs')]
  rw [LogicalPlan.schema_names hs, LogicalPlan.schema_names hs', hk.names]

end Schemas

section MapExpressions

/-- A column is the only expression folded to one. -/
lemma fold_column {e : Expression F} {n : String} (h : fold e = .ok (.column n)) :
    e = .column n := by
  cases e with
  | column m => exact Except.ok.inj h
  | binary op l r =>
      obtain ⟨l', -, h⟩ := ExceptList.bind_eq_ok.mp h
      obtain ⟨r', -, h⟩ := ExceptList.bind_eq_ok.mp h
      split at h
      · obtain ⟨v, -, h⟩ := ExceptList.map_eq_ok.mp h
        cases h
      · cases h
  | aliased c m =>
      obtain ⟨c', -, h⟩ := ExceptList.bind_eq_ok.mp h
      cases h
  | not c | isNull c | isNotNull c =>
      obtain ⟨c', -, h⟩ := ExceptList.bind_eq_ok.mp h
      split at h <;> cases h
  | _ => cases h

/-- So it is for simplification where the value is read: a column is no bool. -/
lemma simplifyBool_column {e : Expression F} {n : String} (hs : SimplifySafe e true)
    (h : simplifyBool e = .column n) : e = .column n := by
  have hbool : BoolValued (simplifyBool e) → False := by
    rw [h]
    exact id
  cases e with
  | column m => exact h
  | binary op l r =>
      cases op with
      | and | or => exact (hbool (hs.2.2 rfl)).elim
      | _ => cases h
  | not c => exact (hbool (hs.2 rfl)).elim
  | _ => cases h

lemma columnField_of_not_column {e : Expression F} (h : ∀ n, e.unalias ≠ .column n) (s : Schema) :
    columnField e s = ⟨e.columnName, .string, true⟩ := by
  unfold columnField
  split
  · next n hn => exact absurd hn (h n)
  · rfl

/-- What the field of an expression depends on. -/
lemma columnField_eq {e e' : Expression F} (hname : e'.columnName = e.columnName)
    (hcolumn : ∀ n, e'.unalias = .column n ↔ e.unalias = .column n) (s : Schema) :
    columnField e' s = columnField e s := by
  by_cases h : ∃ n, e.unalias = .column n
  · obtain ⟨n, hn⟩ := h
    simp only [columnField, hn, (hcolumn n).mpr hn, hname]
  · have hplain : ∀ n, e.unalias ≠ .column n := not_exists.mp h
    have hplain' : ∀ n, e'.unalias ≠ .column n := by
      intro n hn
      exact hplain n ((hcolumn n).mp hn)
    rw [columnField_of_not_column hplain, columnField_of_not_column hplain', hname]

variable {fn : Expression F → Py (Expression F)}

/-- Under an alias, the rewriting makes no column of what was none. -/
def KeepsColumn (fn : Expression F → Py (Expression F)) (e : Expression F) : Prop :=
  ∀ n, fn e.unalias = .ok (.column n) → e.unalias = .column n

lemma RewritesInPlace.columnField (hfn : RewritesInPlace fn) {e e' : Expression F}
    (hs : e.isAlias = true ∨ e.Settled) (hcolumn : KeepsColumn fn e) (h : fn e = .ok e')
    (s : Schema) : MiniSpark.columnField e' s = MiniSpark.columnField e s := by
  refine columnField_eq (hfn.column hs h).1 (fun n => ?_) s
  rcases hs with hs | hs
  · cases e with
    | aliased c m =>
        obtain ⟨c', hc, rfl⟩ := hfn.aliased c m e' h
        constructor
        · rintro rfl
          exact hcolumn n hc
        · rintro rfl
          exact (Except.ok.inj ((hfn.settled _ (settled_column rfl)).symm.trans hc)).symm
    | _ => cases hs
  · obtain rfl : e = e' := Except.ok.inj ((hfn.settled e hs).symm.trans h)
    rfl

lemma keepsColumn_simplifyBool {e : Expression F} (hs : SimplifySafe e true) :
    KeepsColumn (fun e => pure (simplifyBool e)) e := by
  intro n hn
  refine simplifyBool_column ?_ (Except.ok.inj hn)
  cases e with
  | aliased c m => exact hs
  | _ => exact hs

/-- Rewriting expressions in place keeps the schema. -/
theorem RewritesInPlace.schema (hfn : RewritesInPlace fn) {plan plan' : LogicalPlan F}
    (ha : plan.Analyzed) (hs : plan.NamesSettled)
    (hproj : ∀ e ∈ plan.projected, KeepsColumn fn e) (h : mapExpressions fn plan = .ok plan') :
    plan'.schema = plan.schema := by
  induction plan generalizing plan' with
  | scan _ _ _ => cases h; rfl
  | filter child condition ih =>
      obtain ⟨child', hc, h⟩ := ExceptList.bind_eq_ok.mp h
      obtain ⟨condition', -, h⟩ := ExceptList.bind_eq_ok.mp h
      have hk := ih ha.1 hs hproj hc
      cases h
      exact hk
  | project child columns ih =>
      have hkeeps := (hfn.keepsNames ha hs h).analyzed
      obtain ⟨child', hc, h⟩ := ExceptList.bind_eq_ok.mp h
      obtain ⟨columns', hcols, h⟩ := ExceptList.bind_eq_ok.mp h
      cases h
      have hchild := ih ha.1 hs.1 (fun e he => hproj e (List.mem_append_right _ he)) hc
      obtain ⟨s, hsch⟩ := ha.1.schema_ok
      rw [schema_project hsch ha.2.2.prints, schema_project (hchild.trans hsch) hkeeps.2.2.prints]
      congr 1
      rw [← List.forall₂_eq_eq_eq, List.forall₂_map_left_iff, List.forall₂_map_right_iff]
      refine List.Forall₂.flip (ExceptList.forall₂_imp_of_mem (ExceptList.mapM_eq_ok.mp hcols)
        (fun e he e' _ hfe => ?_))
      exact hfn.columnField (hs.2 e he) (hproj e (List.mem_append_left _ he)) hfe s
  | aggregate child groupBy aggregates ih =>
      obtain ⟨child', hc, h⟩ := ExceptList.bind_eq_ok.mp h
      obtain ⟨groupBy', hgs, h⟩ := ExceptList.bind_eq_ok.mp h
      obtain ⟨aggregates', has, h⟩ := ExceptList.bind_eq_ok.mp h
      cases h
      obtain rfl : groupBy' = groupBy := mapM_fixed (fun e he e' hfe => (Except.ok.inj
        ((hfn.settled e (settled_column (ha.2.1 e he).1)).symm.trans hfe)).symm) hgs
      obtain rfl : aggregates' = aggregates := mapM_fixed (fun e he e' hfe => (Except.ok.inj
        ((hfn.aggregate_fixed (ha.2.2.1 e he).1).symm.trans hfe)).symm) has
      rw [LogicalPlan.schema, LogicalPlan.schema, ih ha.1 hs hproj hc]
  | join left right on how broadcast ihl ihr =>
      obtain ⟨left', hl, h⟩ := ExceptList.bind_eq_ok.mp h
      obtain ⟨right', hr, h⟩ := ExceptList.bind_eq_ok.mp h
      cases h
      rw [LogicalPlan.schema, LogicalPlan.schema,
        ihl ha.1 hs.1 (fun e he => hproj e (List.mem_append_left _ he)) hl,
        ihr ha.2.1 hs.2 (fun e he => hproj e (List.mem_append_right _ he)) hr]
  | sort child keys ih =>
      obtain ⟨child', hc, h⟩ := ExceptList.bind_eq_ok.mp h
      obtain ⟨keys', -, h⟩ := ExceptList.bind_eq_ok.mp h
      have hk := ih ha.1 hs hproj hc
      cases h
      exact hk

end MapExpressions

section Pushdown

theorem pushFilter_schema {child plan' : LogicalPlan F} {condition : Expression F}
    (h : pushFilter child condition = .ok plan') : plan'.schema = child.schema := by
  unfold pushFilter at h
  split at h
  · obtain ⟨s, -, h⟩ := ExceptList.bind_eq_ok.mp h
    split at h <;> cases h <;> rfl
  · obtain ⟨l, -, h⟩ := ExceptList.bind_eq_ok.mp h
    obtain ⟨r, -, h⟩ := ExceptList.bind_eq_ok.mp h
    split at h
    · cases h
      rfl
    · split at h <;> cases h <;> rfl
  · cases h
    rfl

/-- Pushing filters down keeps the schema. -/
theorem pushdown_schema {plan plan' : LogicalPlan F} (h : pushdown plan = .ok plan') :
    plan'.schema = plan.schema := by
  induction plan generalizing plan' with
  | scan _ _ _ => cases h; rfl
  | filter child condition ih =>
      obtain ⟨child', hc, h⟩ := ExceptList.bind_eq_ok.mp h
      exact (pushFilter_schema h).trans (ih hc)
  | project child columns ih =>
      obtain ⟨child', hc, h⟩ := ExceptList.bind_eq_ok.mp h
      cases h
      rw [LogicalPlan.schema, LogicalPlan.schema, ih hc]
  | aggregate child groupBy aggregates ih =>
      obtain ⟨child', hc, h⟩ := ExceptList.bind_eq_ok.mp h
      cases h
      rw [LogicalPlan.schema, LogicalPlan.schema, ih hc]
  | join left right on how broadcast ihl ihr =>
      obtain ⟨left', hl, h⟩ := ExceptList.bind_eq_ok.mp h
      obtain ⟨right', hr, h⟩ := ExceptList.bind_eq_ok.mp h
      cases h
      rw [LogicalPlan.schema, LogicalPlan.schema, ihl hl, ihr hr]
  | sort child keys ih =>
      obtain ⟨child', hc, h⟩ := ExceptList.bind_eq_ok.mp h
      have hk := ih hc
      cases h
      exact hk

end Pushdown

section Prune

open LogicalPlan

/-- The output field of an aggregate depends only on the fields it references. -/
lemma aggregateOutputField_congr {e : Expression F} {s t : Schema}
    (h : ∀ n ∈ e.referencedColumns, t.getField? n = s.getField? n) :
    aggregateOutputField e t = aggregateOutputField e s := by
  rw [← Expression.referencedColumns_unalias] at h
  unfold aggregateOutputField
  cases hu : e.unalias with
  | aggregate name child =>
      rw [hu] at h
      have hchild : inferChildType child t = inferChildType child s := by
        cases child with
        | column n => simp only [inferChildType, h n (by simp [Expression.referencedColumns])]
        | _ => rfl
      simp only [hchild]
  | _ => rfl

/-- Columns a pruned child provides are declared as in the child. -/
lemma KeepsFields.getField? {child child' : LogicalPlan F} {s s' : Schema}
    (h : KeepsFields child child') (hs : child.schema = .ok s) (hs' : child'.schema = .ok s')
    {e : Expression F} (he : child'.Provides e) :
    ∀ n ∈ e.referencedColumns, s'.getField? n = s.getField? n := by
  intro n hn
  refine Schema.getField?_of_subset (h s s' hs hs') ?_
  rw [schema_names hs']
  exact he n hn

lemma pruneScan_keepsFields (dataset : Dataset F) (sourceName : String)
    (source : Option (ScanSource F)) (needed : Option (List String)) :
    KeepsFields (scan dataset sourceName source) (pruneScan dataset sourceName source needed) := by
  have hsame : KeepsFields (scan dataset sourceName source) (scan dataset sourceName source) :=
    .of_schema rfl
  unfold pruneScan
  split
  · exact hsame
  · next names =>
      simp only
      split
      · intro s s' hs hs' f hf
        obtain ⟨n, hn, rfl⟩ : ∃ n ∈ s.fieldNames, f = columnField (Expression.column (F := F) n) s := by
          rw [schema_project hs (namePrints_columns _), Schema.make_eq_ok, List.map_map] at hs'
          rw [hs'] at hf
          obtain ⟨n, hn, rfl⟩ := List.mem_map.mp hf
          cases hs
          exact ⟨n, List.mem_of_mem_filter hn, rfl⟩
        obtain ⟨g, hg, rfl⟩ := List.mem_map.mp hn
        have hfield := columnField_column (F := F) (Schema.getField?_of_mem hg)
        exact hfield.symm ▸ hg
      · exact hsame

/-- Pruning changes no field it keeps. -/
theorem prune_keepsFields {plan plan' : LogicalPlan F} {needed : Option (List String)}
    (ha : plan.Analyzed) (h : prune plan needed = .ok plan') : KeepsFields plan plan' := by
  induction plan generalizing plan' needed with
  | scan dataset sourceName source => cases h; exact pruneScan_keepsFields _ _ _ _
  | filter child condition ih =>
      obtain ⟨child', hc, h⟩ := ExceptList.bind_eq_ok.mp h
      have hk := ih ha.1 hc
      cases h
      exact hk
  | project child columns ih =>
      have hpruned := (prune_prunedTo ha h).analyzed
      obtain ⟨child', hc, h⟩ := ExceptList.bind_eq_ok.mp h
      cases h
      obtain ⟨s, hs⟩ := ha.1.schema_ok
      obtain ⟨s', hs'⟩ := hpruned.1.schema_ok
      refine .of_schema ?_
      rw [schema_project hs ha.2.2.prints, schema_project hs' hpruned.2.2.prints]
      congr 1
      exact List.map_congr_left (fun e he =>
        columnField_congr ((ih ha.1 hc).getField? hs hs' (hpruned.2.1 e he)))
  | aggregate child groupBy aggregates ih =>
      have hpruned := (prune_prunedTo ha h).analyzed
      obtain ⟨child', hc, h⟩ := ExceptList.bind_eq_ok.mp h
      cases h
      obtain ⟨s, hs⟩ := ha.1.schema_ok
      obtain ⟨s', hs'⟩ := hpruned.1.schema_ok
      have hfields := fun e => (ih ha.1 hc).getField? hs hs' (e := e)
      refine .of_schema ?_
      have hgroup : groupBy.mapM (fun g => child'.schema >>= outputField g) =
          groupBy.mapM (fun g => child.schema >>= outputField g) := by
        refine ExceptList.mapM_congr (fun e he => ?_)
        rw [hs, hs', ExceptList.bind_ok, ExceptList.bind_ok, outputField_eq, outputField_eq,
          columnField_congr (hfields e (hpruned.2.1 e he).2)]
      have hagg : aggregates.mapM (fun a => child'.schema >>= aggregateOutputField a) =
          aggregates.mapM (fun a => child.schema >>= aggregateOutputField a) := by
        refine ExceptList.mapM_congr (fun e he => ?_)
        rw [hs, hs']
        exact aggregateOutputField_congr (hfields e (hpruned.2.2.1 e he).2)
      rw [LogicalPlan.schema, LogicalPlan.schema, hgroup, hagg]
  | join left right on how broadcast ihl ihr =>
      simp only [prune, ExceptList.bind_eq_ok] at h
      obtain ⟨l, -, r, -, left', hl', right', hr', h⟩ := h
      cases h
      intro s s' hs hs'
      obtain ⟨ls, hls, hs⟩ := ExceptList.bind_eq_ok.mp hs
      obtain ⟨rs, hrs, hs⟩ := ExceptList.bind_eq_ok.mp hs
      obtain ⟨ls', hls', hs'⟩ := ExceptList.bind_eq_ok.mp hs'
      obtain ⟨rs', hrs', hs'⟩ := ExceptList.bind_eq_ok.mp hs'
      rw [Schema.make_eq_ok] at hs hs'
      rw [hs, hs']
      refine append_subset_append (ihl ha.1 hl' ls ls' hls hls') (fun f hf => ?_)
      obtain ⟨hf, hname⟩ := List.mem_filter.mp hf
      exact List.mem_filter.mpr ⟨ihr ha.2.1 hr' rs rs' hrs hrs' hf, hname⟩
  | sort child keys ih =>
      obtain ⟨child', hc, h⟩ := ExceptList.bind_eq_ok.mp h
      have hk := ih ha.1 hc
      cases h
      exact hk

end Prune

section Optimize

/-- A safe step of the optimizer keeps the schema. -/
theorem Rule.schema {rule : Rule} {plan plan' : LogicalPlan F} (ha : plan.Analyzed)
    (hs : plan.NamesSettled) (hsafe : StepSafe rule plan) (h : rule.apply plan = .ok plan') :
    plan'.schema = plan.schema := by
  cases rule with
  | constantFolding =>
      exact rewritesInPlace_fold.schema ha hs (fun e _ n => fold_column) h
  | filterSimplification =>
      exact rewritesInPlace_simplifyBool.schema ha hs
        (fun e he => keepsColumn_simplifyBool (hsafe.2 e he)) h
  | predicatePushdown => exact pushdown_schema h
  | projectionPruning =>
      exact (prune_keepsFields ha h).schema ha (prune_keepsNames ha h)
  | redundantProjectionElimination => exact eliminate_schema ha h

end Optimize

end MiniSpark
