import MiniSpark.Optimizer

/-!
# Names through the optimizer

An unaliased computed column is named by its printed form, so a rule that
rewrites it renames it. Where folding and simplification leave such columns
alone, every rule keeps the output names of a plan and every column reference
keeps naming a field of its child.
-/
namespace MiniSpark

variable {F : Type} [PyRuntime F]

namespace Expression

/-- `isinstance(expr, Literal)`. -/
def isLiteral : Expression F → Bool
  | .literal _ => true
  | _ => false

/-- `isinstance(expr, Not)`. -/
def isNot : Expression F → Bool
  | .not _ => true
  | _ => false

/-- `isinstance(expr, Alias)`. -/
def isAlias : Expression F → Bool
  | .aliased _ _ => true
  | _ => false

/-- No operation has only literal operands. -/
def Folded : Expression F → Prop
  | .binary _ l r => l.Folded ∧ r.Folded ∧ ¬ (l.isLiteral = true ∧ r.isLiteral = true)
  | .aliased c _ => c.Folded
  | .not c => c.Folded ∧ c.isLiteral = false
  | .isNull c => c.Folded ∧ c.isLiteral = false
  | .isNotNull c => c.Folded ∧ c.isLiteral = false
  | _ => True

/-- No `And` or `Or` has a literal operand and no negation is double. -/
def Simplified : Expression F → Prop
  | .binary .and l r => l.Simplified ∧ r.Simplified ∧ l.isLiteral = false ∧ r.isLiteral = false
  | .binary .or l r => l.Simplified ∧ r.Simplified ∧ l.isLiteral = false ∧ r.isLiteral = false
  | .binary _ l r => l.Simplified ∧ r.Simplified
  | .not c => c.Simplified ∧ c.isNot = false
  | .aliased c _ => c.Simplified
  | _ => True

/-- Neither folding nor simplification has anything to rewrite. -/
def Settled (e : Expression F) : Prop := e.Folded ∧ e.Simplified

theorem fold_of_folded {e : Expression F} (h : e.Folded) : fold e = .ok e := by
  induction e with
  | binary op l r ihl ihr =>
      obtain ⟨hl, hr, hlit⟩ := h
      simp only [fold, ihl hl, ihr hr, ExceptList.bind_ok]
      split
      · exact absurd ⟨rfl, rfl⟩ hlit
      · rfl
  | aliased c n ih => simp [fold, ih h]
  | not c ih | isNull c ih | isNotNull c ih =>
      simp only [fold, ih h.1, ExceptList.bind_ok]
      cases c <;> first | rfl | exact absurd h.2 (by simp [isLiteral])
  | _ => rfl

lemma simplifyAnd_of_nonliteral {l r : Expression F} (hl : l.isLiteral = false)
    (hr : r.isLiteral = false) : simplifyAnd l r = .binary .and l r := by
  unfold simplifyAnd
  split
  · exact absurd hl (by simp [isLiteral])
  · exact absurd hr (by simp [isLiteral])
  · rfl

lemma simplifyOr_of_nonliteral {l r : Expression F} (hl : l.isLiteral = false)
    (hr : r.isLiteral = false) : simplifyOr l r = .binary .or l r := by
  unfold simplifyOr
  split
  · exact absurd hl (by simp [isLiteral])
  · exact absurd hr (by simp [isLiteral])
  · rfl

theorem simplifyBool_of_simplified {e : Expression F} (h : e.Simplified) : simplifyBool e = e := by
  induction e with
  | binary op l r ihl ihr =>
      cases op with
      | and =>
          obtain ⟨hl, hr, hll, hrl⟩ := h
          rw [simplifyBool, ihl hl, ihr hr, simplifyAnd_of_nonliteral hll hrl]
      | or =>
          obtain ⟨hl, hr, hll, hrl⟩ := h
          rw [simplifyBool, ihl hl, ihr hr, simplifyOr_of_nonliteral hll hrl]
      | _ => simp [simplifyBool, ihl h.1, ihr h.2]
  | not c ih =>
      rw [simplifyBool, ih h.1]
      cases c <;> first | rfl | exact absurd h.2 (by simp [isNot])
  | aliased c n ih => rw [simplifyBool, ih h]
  | _ => rfl

end Expression

/-- What the expression rules do to an expression: they reference no new column,
work inside an alias, and leave a settled expression alone. -/
structure RewritesInPlace (fn : Expression F → Py (Expression F)) : Prop where
  refs : ∀ e e', fn e = .ok e' → e'.referencedColumns ⊆ e.referencedColumns
  settled : ∀ e, e.Settled → fn e = .ok e
  aliased : ∀ c n e', fn (.aliased c n) = .ok e' → ∃ c', fn c = .ok c' ∧ e' = .aliased c' n

lemma append_subset_append {α : Type} {a b c d : List α} (h : a ⊆ b) (h' : c ⊆ d) :
    a ++ c ⊆ b ++ d :=
  List.append_subset.mpr ⟨List.Subset.trans h (List.subset_append_left _ _),
    List.Subset.trans h' (List.subset_append_right _ _)⟩

/-- What folding makes of an operation: a literal of two, otherwise the operation on what it makes
of the operands. -/
lemma fold_binary_ok {op : BinaryOp} {l m e' : Expression F} (h : fold (.binary op l m) = .ok e') :
    ∃ l' m', fold l = .ok l' ∧ fold m = .ok m' ∧
      ((∃ a b v, l' = .literal a ∧ m' = .literal b ∧ op.op a b = .ok v ∧ e' = .literal v) ∨
        e' = .binary op l' m' ∧ ∀ a b, l' = .literal a → m' ≠ .literal b) := by
  obtain ⟨l', hl, h⟩ := ExceptList.bind_eq_ok.mp h
  obtain ⟨m', hm, h⟩ := ExceptList.bind_eq_ok.mp h
  refine ⟨l', m', hl, hm, ?_⟩
  split at h
  · obtain ⟨v, hv, rfl⟩ := ExceptList.map_eq_ok.mp h
    exact Or.inl ⟨_, _, v, rfl, rfl, hv, rfl⟩
  · next hnot =>
      cases h
      exact Or.inr ⟨rfl, fun a b hl hm => hnot a b hl hm⟩

theorem fold_refs {e e' : Expression F} (h : fold e = .ok e') :
    e'.referencedColumns ⊆ e.referencedColumns := by
  induction e generalizing e' with
  | binary op l r ihl ihr =>
      obtain ⟨l', r', hl, hr, hcase⟩ := fold_binary_ok h
      rcases hcase with ⟨a, b, v, -, -, -, rfl⟩ | ⟨rfl, -⟩
      · simp [Expression.referencedColumns]
      · exact append_subset_append (ihl hl) (ihr hr)
  | aliased c n ih =>
      obtain ⟨c', hc, h⟩ := ExceptList.bind_eq_ok.mp h
      have hc' := ih hc
      cases h
      exact hc'
  | not c ih | isNull c ih | isNotNull c ih =>
      obtain ⟨c', hc, h⟩ := ExceptList.bind_eq_ok.mp h
      have hc' := ih hc
      split at h <;> cases h
      · simp [Expression.referencedColumns]
      · exact hc'
  | _ => cases h; exact List.Subset.refl _

lemma simplifyAnd_refs (l r : Expression F) : (simplifyAnd l r).referencedColumns ⊆
    l.referencedColumns ++ r.referencedColumns := by
  unfold simplifyAnd
  split
  · split <;> simp [Expression.referencedColumns]
  · split <;> simp [Expression.referencedColumns]
  · exact List.Subset.refl _

lemma simplifyOr_refs (l r : Expression F) : (simplifyOr l r).referencedColumns ⊆
    l.referencedColumns ++ r.referencedColumns := by
  unfold simplifyOr
  split
  · split <;> simp [Expression.referencedColumns]
  · split <;> simp [Expression.referencedColumns]
  · exact List.Subset.refl _

omit [PyRuntime F] in
lemma simplifyNot_refs (c : Expression F) :
    (simplifyNot c).referencedColumns = c.referencedColumns := by
  cases c <;> rfl

theorem simplifyBool_refs (e : Expression F) :
    (simplifyBool e).referencedColumns ⊆ e.referencedColumns := by
  induction e with
  | binary op l r ihl ihr =>
      cases op with
      | and => exact List.Subset.trans (simplifyAnd_refs _ _) (append_subset_append ihl ihr)
      | or => exact List.Subset.trans (simplifyOr_refs _ _) (append_subset_append ihl ihr)
      | _ => exact append_subset_append ihl ihr
  | not c ih =>
      rw [simplifyBool, simplifyNot_refs]
      exact ih
  | aliased c n ih => exact ih
  | _ => exact List.Subset.refl _

theorem rewritesInPlace_fold : RewritesInPlace (F := F) fold where
  refs _ _ h := fold_refs h
  settled _ h := Expression.fold_of_folded h.1
  aliased c n e' h := by
    obtain ⟨c', hc, h⟩ := ExceptList.bind_eq_ok.mp h
    cases h
    exact ⟨c', hc, rfl⟩

theorem rewritesInPlace_simplifyBool :
    RewritesInPlace (F := F) (fun e => pure (simplifyBool e)) where
  refs e e' h := by
    cases h
    exact simplifyBool_refs e
  settled e h := by
    rw [Expression.simplifyBool_of_simplified h.2]
    rfl
  aliased c n e' h := by
    cases h
    exact ⟨_, rfl, rfl⟩

namespace LogicalPlan

/-- Every projected column that is named by its printed form is settled. -/
def NamesSettled : LogicalPlan F → Prop
  | .scan _ _ _ => True
  | .filter child _ => child.NamesSettled
  | .project child columns =>
      child.NamesSettled ∧ ∀ e ∈ columns, e.isAlias = true ∨ e.Settled
  | .aggregate child _ _ => child.NamesSettled
  | .join left right _ _ _ => left.NamesSettled ∧ right.NamesSettled
  | .sort child _ => child.NamesSettled

/-- Every column reference names a field of the schema of the node's child. -/
def ColumnsResolve : LogicalPlan F → Prop
  | .scan _ _ _ => True
  | .filter child condition =>
      child.ColumnsResolve ∧ ∃ s, child.schema = .ok s ∧
        ∀ n ∈ condition.referencedColumns, s.hasField n = true
  | .project child columns =>
      child.ColumnsResolve ∧ ∃ s, child.schema = .ok s ∧
        ∀ n ∈ allReferenced columns, s.hasField n = true
  | .aggregate child groupBy aggregates =>
      child.ColumnsResolve ∧ ∃ s, child.schema = .ok s ∧
        ∀ n ∈ allReferenced groupBy ++ allReferenced aggregates, s.hasField n = true
  | .join left right on _ _ =>
      left.ColumnsResolve ∧ right.ColumnsResolve ∧ ∃ l r, left.schema = .ok l ∧
        right.schema = .ok r ∧ ∀ n ∈ on, l.hasField n = true ∧ r.hasField n = true
  | .sort child keys =>
      child.ColumnsResolve ∧ ∃ s, child.schema = .ok s ∧
        ∀ n ∈ allReferenced (keys.map Prod.fst), s.hasField n = true

/-- The tables a plan reads. -/
def tables : LogicalPlan F → List (Dataset F)
  | .scan dataset _ _ => [dataset]
  | .filter child _ => child.tables
  | .project child _ => child.tables
  | .aggregate child _ _ => child.tables
  | .join left right _ _ _ => left.tables ++ right.tables
  | .sort child _ => child.tables

/-- What a rule keeps: an accepted plan over the same tables, its output names, and
that its names are settled. -/
structure KeepsNames (plan plan' : LogicalPlan F) : Prop where
  analyzed : plan'.Analyzed
  settled : plan.NamesSettled → plan'.NamesSettled
  tables : plan'.tables ⊆ plan.tables
  names : plan'.outputNames = plan.outputNames

omit [PyRuntime F] in
lemma mem_allReferenced {es : List (Expression F)} {n : String} :
    n ∈ allReferenced es ↔ ∃ e ∈ es, n ∈ e.referencedColumns := List.mem_flatMap

/-- The references of an accepted plan resolve. -/
theorem Analyzed.columnsResolve {plan : LogicalPlan F} (h : plan.Analyzed) :
    plan.ColumnsResolve := by
  have hfield : ∀ {child : LogicalPlan F} {s : Schema} {n : String}, child.schema = .ok s →
      n ∈ child.outputNames → s.hasField n = true := by
    intro child s n hs hn
    rwa [Schema.hasField_iff, schema_names hs]
  induction plan with
  | scan _ _ _ => trivial
  | filter child condition ih =>
      obtain ⟨s, hs⟩ := h.1.schema_ok
      exact ⟨ih h.1, s, hs, fun n hn => hfield hs (h.2 n hn)⟩
  | project child columns ih =>
      obtain ⟨s, hs⟩ := h.1.schema_ok
      refine ⟨ih h.1, s, hs, fun n hn => ?_⟩
      obtain ⟨e, he, hne⟩ := mem_allReferenced.mp hn
      exact hfield hs (h.2.1 e he n hne)
  | aggregate child groupBy aggregates ih =>
      obtain ⟨hc, hg, ha, -⟩ := h
      obtain ⟨s, hs⟩ := hc.schema_ok
      refine ⟨ih hc, s, hs, fun n hn => ?_⟩
      rcases List.mem_append.mp hn with hn | hn
      · obtain ⟨e, he, hne⟩ := mem_allReferenced.mp hn
        exact hfield hs ((hg e he).2 n hne)
      · obtain ⟨e, he, hne⟩ := mem_allReferenced.mp hn
        exact hfield hs ((ha e he).2 n hne)
  | join left right on how broadcast ihl ihr =>
      obtain ⟨hl, hr, -, -, hon, -⟩ := h
      obtain ⟨l, hls⟩ := hl.schema_ok
      obtain ⟨r, hrs⟩ := hr.schema_ok
      exact ⟨ihl hl, ihr hr, l, r, hls, hrs,
        fun n hn => ⟨hfield hls (hon n hn).1, hfield hrs (hon n hn).2⟩⟩
  | sort child keys ih =>
      obtain ⟨s, hs⟩ := h.1.schema_ok
      refine ⟨ih h.1, s, hs, fun n hn => ?_⟩
      obtain ⟨e, he, hne⟩ := mem_allReferenced.mp hn
      obtain ⟨k, hk, rfl⟩ := List.mem_map.mp he
      exact hfield hs ((h.2 k hk).2 n hne)

end LogicalPlan

section MapExpressions

omit [PyRuntime F] in
lemma settled_column {e : Expression F} (h : e.isColumn = true) : e.Settled := by
  cases e <;> first | exact ⟨trivial, trivial⟩ | cases h

omit [PyRuntime F] in
lemma settled_aggregate {e : Expression F} (h : e.isAggregate = true) : e.Settled := by
  cases e <;> first | exact ⟨trivial, trivial⟩ | cases h

variable {fn : Expression F → Py (Expression F)} (hfn : RewritesInPlace fn)
include hfn

/-- A rewritten column keeps its name where that is an alias or it is settled. -/
lemma RewritesInPlace.column {e e' : Expression F} (h : e.isAlias = true ∨ e.Settled)
    (he : fn e = .ok e') :
    e'.columnName = e.columnName ∧ (e'.isAlias = true ∨ e'.Settled) := by
  rcases h with h | h
  · cases e with
    | aliased c n =>
        obtain ⟨c', -, rfl⟩ := hfn.aliased c n e' he
        exact ⟨rfl, Or.inl rfl⟩
    | _ => cases h
  · obtain rfl : e = e' := Except.ok.inj ((hfn.settled e h).symm.trans he)
    exact ⟨rfl, Or.inr h⟩

/-- A rewritten column whose name printed has a name that prints. -/
lemma RewritesInPlace.namePrints {e e' : Expression F} (h : e.isAlias = true ∨ e.Settled)
    (hprints : e.namePrints = true) (he : fn e = .ok e') : e'.namePrints = true := by
  rcases h with h | h
  · cases e with
    | aliased c n =>
        obtain ⟨c', -, rfl⟩ := hfn.aliased c n e' he
        rfl
    | _ => cases h
  · obtain rfl : e = e' := Except.ok.inj ((hfn.settled e h).symm.trans he)
    exact hprints

lemma RewritesInPlace.names {es es' : List (Expression F)}
    (h : ∀ e ∈ es, e.isAlias = true ∨ e.Settled) (hes : es.mapM fn = .ok es') :
    es'.map Expression.columnName = es.map Expression.columnName := by
  induction ExceptList.mapM_eq_ok.mp hes with
  | nil => rfl
  | @cons e e' es es' he hrest ih =>
      rw [List.map_cons, List.map_cons, (hfn.column (h e (by simp)) he).1,
        ih (fun a ha => h a (by simp [ha])) (ExceptList.mapM_eq_ok.mpr hrest)]

omit [PyRuntime F] in
/-- Aggregates are never rewritten, with or without an alias. -/
lemma RewritesInPlace.aggregate_fixed {e : Expression F} (h : e.unalias.isAggregate = true) :
    fn e = .ok e := by
  cases e with
  | aliased c n => exact hfn.settled _ (settled_aggregate (e := c) h)
  | _ => exact hfn.settled _ (settled_aggregate h)

omit [PyRuntime F] hfn in
lemma mapM_fixed {es es' : List (Expression F)}
    (h : ∀ e ∈ es, ∀ e', fn e = .ok e' → e' = e) (hes : es.mapM fn = .ok es') : es' = es := by
  induction ExceptList.mapM_eq_ok.mp hes with
  | nil => rfl
  | @cons e e' es es' he hrest ih =>
      rw [h e (by simp) e' he, ih (fun a ha => h a (by simp [ha])) (ExceptList.mapM_eq_ok.mpr hrest)]

/-- Rewriting expressions in place keeps names. -/
theorem RewritesInPlace.keepsNames {plan plan' : LogicalPlan F} (ha : plan.Analyzed)
    (hs : plan.NamesSettled) (h : mapExpressions fn plan = .ok plan') :
    plan.KeepsNames plan' := by
  induction plan generalizing plan' with
  | scan _ _ _ => cases h; exact ⟨trivial, fun _ => trivial, List.Subset.refl _, rfl⟩
  | filter child condition ih =>
      obtain ⟨child', hc, h⟩ := ExceptList.bind_eq_ok.mp h
      obtain ⟨condition', hcond, h⟩ := ExceptList.bind_eq_ok.mp h
      cases h
      have hk := ih ha.1 hs hc
      refine ⟨⟨hk.analyzed, fun n hn => ?_⟩, hk.settled, hk.tables, hk.names⟩
      rw [hk.names]
      exact ha.2 n (hfn.refs _ _ hcond hn)
  | project child columns ih =>
      obtain ⟨child', hc, h⟩ := ExceptList.bind_eq_ok.mp h
      obtain ⟨columns', hcols, h⟩ := ExceptList.bind_eq_ok.mp h
      cases h
      have hk := ih ha.1 hs.1 hc
      have hrel := ExceptList.mapM_eq_ok.mp hcols
      have hnames := hfn.names hs.2 hcols
      have hmem : ∀ e' ∈ columns', ∃ e ∈ columns, fn e = .ok e' := by
        intro e' he'
        obtain ⟨i, hi, rfl⟩ := List.mem_iff_getElem.mp he'
        obtain ⟨hlen, hget⟩ := List.forall₂_iff_get.mp hrel
        exact ⟨_, List.getElem_mem (hlen ▸ hi), hget i (hlen ▸ hi) hi⟩
      refine ⟨⟨hk.analyzed, fun e' he' n hn => ?_, ?_⟩,
        fun _ => ⟨hk.settled hs.1, fun e' he' => ?_⟩, hk.tables, hnames⟩
      · obtain ⟨e, he, hfe⟩ := hmem e' he'
        rw [hk.names]
        exact ha.2.1 e he n (hfn.refs _ _ hfe hn)
      · refine ⟨by rw [hnames]; exact ha.2.2.nodup, fun e' he' => ?_⟩
        obtain ⟨e, he, hfe⟩ := hmem e' he'
        exact hfn.namePrints (hs.2 e he) (ha.2.2.prints e he) hfe
      · obtain ⟨e, he, hfe⟩ := hmem e' he'
        exact (hfn.column (hs.2 e he) hfe).2
  | aggregate child groupBy aggregates ih =>
      obtain ⟨hac, hg, hagg, hnd⟩ := ha
      obtain ⟨child', hc, h⟩ := ExceptList.bind_eq_ok.mp h
      obtain ⟨groupBy', hgs, h⟩ := ExceptList.bind_eq_ok.mp h
      obtain ⟨aggregates', has, h⟩ := ExceptList.bind_eq_ok.mp h
      cases h
      have hk := ih hac hs hc
      obtain rfl : groupBy' = groupBy := mapM_fixed (fun e he e' hfe =>
        (Except.ok.inj ((hfn.settled e (settled_column (hg e he).1)).symm.trans hfe)).symm) hgs
      obtain rfl : aggregates' = aggregates :=
        mapM_fixed (fun e he e' hfe =>
        (Except.ok.inj ((hfn.aggregate_fixed (hagg e he).1).symm.trans hfe)).symm) has
      have hprov : ∀ e : Expression F, child.Provides e → child'.Provides e := by
        intro e h n hn
        rw [hk.names]
        exact h n hn
      exact ⟨⟨hk.analyzed, fun g h => ⟨(hg g h).1, hprov g (hg g h).2⟩,
        fun a h => ⟨(hagg a h).1, hprov a (hagg a h).2⟩, hnd⟩, hk.settled, hk.tables, rfl⟩
  | join left right on how broadcast ihl ihr =>
      obtain ⟨left', hl, h⟩ := ExceptList.bind_eq_ok.mp h
      obtain ⟨right', hr, h⟩ := ExceptList.bind_eq_ok.mp h
      cases h
      have hkl := ihl ha.1 hs.1 hl
      have hkr := ihr ha.2.1 hs.2 hr
      have hrest := ha.2.2
      rw [← hkl.names, ← hkr.names] at hrest
      exact ⟨⟨hkl.analyzed, hkr.analyzed, hrest⟩, fun hs => ⟨hkl.settled hs.1, hkr.settled hs.2⟩,
        append_subset_append hkl.tables hkr.tables, by
        simp only [LogicalPlan.outputNames, hkl.names, hkr.names]⟩
  | sort child keys ih =>
      obtain ⟨child', hc, h⟩ := ExceptList.bind_eq_ok.mp h
      obtain ⟨keys', hks, h⟩ := ExceptList.bind_eq_ok.mp h
      cases h
      have hk := ih ha.1 hs hc
      have hfixed : keys.mapM (fun k => do
          let e ← fn k.1
          pure (e, k.2)) = .ok keys := by
        have hm : keys.mapM (fun k => do
            let e ← fn k.1
            pure (e, k.2)) = .ok (keys.map id) := ExceptList.mapM_ok_of_forall
          (fun k hk => by simp [hfn.settled k.1 (settled_column (ha.2 k hk).1)])
        rwa [List.map_id] at hm
      obtain rfl : keys = keys' := Except.ok.inj (hfixed.symm.trans hks)
      refine ⟨⟨hk.analyzed, fun k hkm => ⟨(ha.2 k hkm).1, fun n hn => ?_⟩⟩, hk.settled, hk.tables, hk.names⟩
      rw [hk.names]
      exact (ha.2 k hkm).2 n hn

end MapExpressions

namespace LogicalPlan

section KeepsNames

theorem KeepsNames.refl {plan : LogicalPlan F} (ha : plan.Analyzed) : plan.KeepsNames plan :=
  ⟨ha, id, List.Subset.refl _, rfl⟩

theorem KeepsNames.trans {p q r : LogicalPlan F} (hpq : p.KeepsNames q) (hqr : q.KeepsNames r) :
    p.KeepsNames r :=
  ⟨hqr.analyzed, hqr.settled ∘ hpq.settled, List.Subset.trans hqr.tables hpq.tables, hqr.names.trans hpq.names⟩

omit [PyRuntime F] in
lemma Provides.congr {p q : LogicalPlan F} [PyRuntime F] (h : q.outputNames = p.outputNames)
    {e : Expression F} (he : p.Provides e) : q.Provides e := by
  intro n hn
  rw [h]
  exact he n hn

variable {child child' : LogicalPlan F}

theorem KeepsNames.filter (h : child.KeepsNames child') {condition : Expression F}
    (hp : child.Provides condition) :
    (filter child condition).KeepsNames (filter child' condition) :=
  ⟨⟨h.analyzed, Provides.congr h.names hp⟩, h.settled, h.tables, h.names⟩

theorem KeepsNames.project (h : child.KeepsNames child') {columns : List (Expression F)}
    (ha : (LogicalPlan.project child columns).Analyzed) :
    (LogicalPlan.project child columns).KeepsNames (.project child' columns) :=
  ⟨⟨h.analyzed, fun e he => Provides.congr h.names (ha.2.1 e he), ha.2.2⟩,
    fun hs => ⟨h.settled hs.1, hs.2⟩, h.tables, rfl⟩

theorem KeepsNames.aggregate (h : child.KeepsNames child') {groupBy aggregates : List (Expression F)}
    (ha : (LogicalPlan.aggregate child groupBy aggregates).Analyzed) :
    (LogicalPlan.aggregate child groupBy aggregates).KeepsNames
      (.aggregate child' groupBy aggregates) :=
  ⟨⟨h.analyzed, fun e he => ⟨(ha.2.1 e he).1, Provides.congr h.names (ha.2.1 e he).2⟩,
    fun e he => ⟨(ha.2.2.1 e he).1, Provides.congr h.names (ha.2.2.1 e he).2⟩, ha.2.2.2⟩,
    h.settled, h.tables, rfl⟩

theorem KeepsNames.join {left left' right right' : LogicalPlan F} (hl : left.KeepsNames left')
    (hr : right.KeepsNames right') {on : List String} {how : String} {broadcast : Bool}
    (ha : (LogicalPlan.join left right on how broadcast).Analyzed) :
    (LogicalPlan.join left right on how broadcast).KeepsNames
      (.join left' right' on how broadcast) := by
  have hrest := ha.2.2
  rw [← hl.names, ← hr.names] at hrest
  exact ⟨⟨hl.analyzed, hr.analyzed, hrest⟩, fun hs => ⟨hl.settled hs.1, hr.settled hs.2⟩,
    append_subset_append hl.tables hr.tables, by simp only [outputNames, hl.names, hr.names]⟩

theorem KeepsNames.sort (h : child.KeepsNames child') {keys : List (Expression F × Bool)}
    (ha : (LogicalPlan.sort child keys).Analyzed) :
    (LogicalPlan.sort child keys).KeepsNames (.sort child' keys) :=
  ⟨⟨h.analyzed, fun k hk => ⟨(ha.2 k hk).1, Provides.congr h.names (ha.2 k hk).2⟩⟩, h.settled,
    h.tables, h.names⟩

end KeepsNames

end LogicalPlan

section Pushdown

open LogicalPlan

/-- A pushed filter lands where its columns exist. -/
theorem pushFilter_keepsNames {child plan' : LogicalPlan F} {condition : Expression F}
    (ha : (LogicalPlan.filter child condition).Analyzed)
    (h : pushFilter child condition = .ok plan') :
    (LogicalPlan.filter child condition).KeepsNames plan' := by
  have hkeep : (LogicalPlan.filter child condition).KeepsNames (.filter child condition) := .refl ha
  unfold pushFilter at h
  split at h
  · next grandchild columns =>
      obtain ⟨s, hsch, h⟩ := ExceptList.bind_eq_ok.mp h
      split at h <;> cases h
      · next hsub =>
          rw [schema_names hsch] at hsub
          exact ⟨⟨⟨ha.1.1, fun n hn => hsub hn⟩, ha.1.2⟩, id, List.Subset.refl _, rfl⟩
      · exact hkeep
  · next left right on how broadcast =>
      obtain ⟨l, hl, h⟩ := ExceptList.bind_eq_ok.mp h
      obtain ⟨r, hr, h⟩ := ExceptList.bind_eq_ok.mp h
      rw [schema_names hl, schema_names hr] at h
      split at h
      · next hsub =>
          cases h
          exact ⟨⟨⟨ha.1.1, fun n hn => hsub hn⟩, ha.1.2⟩, id, List.Subset.refl _, rfl⟩
      · split at h
        · next hsub =>
            cases h
            exact ⟨⟨ha.1.1, ⟨ha.1.2.1, fun n hn => hsub hn⟩, ha.1.2.2⟩, id, List.Subset.refl _, rfl⟩
        · cases h
          exact hkeep
  · cases h
    exact hkeep

theorem pushdown_keepsNames {plan plan' : LogicalPlan F} (ha : plan.Analyzed)
    (h : pushdown plan = .ok plan') : plan.KeepsNames plan' := by
  induction plan generalizing plan' with
  | scan _ _ _ => cases h; exact .refl ha
  | filter child condition ih =>
      obtain ⟨child', hc, h⟩ := ExceptList.bind_eq_ok.mp h
      have hk := ih ha.1 hc
      have hf := hk.filter ha.2
      exact hf.trans (pushFilter_keepsNames hf.analyzed h)
  | project child columns ih =>
      obtain ⟨child', hc, h⟩ := ExceptList.bind_eq_ok.mp h
      cases h
      exact (ih ha.1 hc).project ha
  | aggregate child groupBy aggregates ih =>
      obtain ⟨child', hc, h⟩ := ExceptList.bind_eq_ok.mp h
      cases h
      exact (ih ha.1 hc).aggregate ha
  | join left right on how broadcast ihl ihr =>
      obtain ⟨left', hl, h⟩ := ExceptList.bind_eq_ok.mp h
      obtain ⟨right', hr, h⟩ := ExceptList.bind_eq_ok.mp h
      cases h
      exact (ihl ha.1 hl).join (ihr ha.2.1 hr) ha
  | sort child keys ih =>
      obtain ⟨child', hc, h⟩ := ExceptList.bind_eq_ok.mp h
      cases h
      exact (ih ha.1 hc).sort ha

end Pushdown

section Prune

open LogicalPlan

/-- What pruning keeps: an accepted plan that has, in order, some of the output
names and among them all that are needed, and that its names are settled. -/
structure PrunedTo (needed : Option (List String)) (plan plan' : LogicalPlan F) : Prop where
  analyzed : plan'.Analyzed
  settled : plan.NamesSettled → plan'.NamesSettled
  tables : plan'.tables ⊆ plan.tables
  names : plan'.outputNames.Sublist plan.outputNames
  keeps : ∀ n ∈ plan.outputNames, (∀ names, needed = some names → n ∈ names) → n ∈ plan'.outputNames

theorem PrunedTo.provides {plan plan' : LogicalPlan F} {names : List String}
    (h : PrunedTo (some names) plan plan') {e : Expression F} (he : plan.Provides e)
    (hsub : e.referencedColumns ⊆ names) : plan'.Provides e := by
  intro n hn
  refine h.keeps n (he n hn) (fun names' hn' => ?_)
  cases hn'
  exact hsub hn

/-- Where everything is needed, pruning keeps all names. -/
theorem PrunedTo.keepsNames {plan plan' : LogicalPlan F} {needed : Option (List String)}
    (h : PrunedTo needed plan plan') (ha : plan.Analyzed)
    (hall : ∀ names, needed = some names → plan.outputNames ⊆ names) : plan.KeepsNames plan' := by
  refine ⟨h.analyzed, h.settled, h.tables, h.names.eq_of_length_le ?_⟩
  have hsub : plan.outputNames ⊆ plan'.outputNames :=
    fun n hn => h.keeps n hn (fun names hnames => hall names hnames hn)
  exact (List.subperm_of_subset ha.names_nodup hsub).length_le

lemma names_of_columns (names : List String) :
    (names.map (Expression.column (F := F))).map Expression.columnName = names := by
  rw [List.map_map]
  exact List.map_id names

lemma pruneScan_prunedTo (dataset : Dataset F) (sourceName : String)
    (source : Option (ScanSource F)) (needed : Option (List String)) :
    PrunedTo needed (.scan dataset sourceName source)
      (pruneScan dataset sourceName source needed) := by
  have hkeep : PrunedTo needed (.scan dataset sourceName source : LogicalPlan F)
      (.scan dataset sourceName source) :=
    ⟨trivial, id, List.Subset.refl _, List.Sublist.refl _, fun n hn _ => hn⟩
  unfold pruneScan
  split
  · exact hkeep
  · next names =>
      simp only
      split
      · refine ⟨⟨trivial, ?_, ?_⟩, fun _ => ⟨trivial, ?_⟩, List.Subset.refl _, ?_, ?_⟩
        · intro e he n hn
          obtain ⟨c, hc, rfl⟩ := List.mem_map.mp he
          rw [List.mem_singleton.mp hn]
          exact List.mem_of_mem_filter hc
        · refine ⟨by rw [names_of_columns]; exact dataset.schema.fieldNames_nodup.filter _, ?_⟩
          intro e he
          obtain ⟨c, _, rfl⟩ := List.mem_map.mp he
          rfl
        · intro e he
          obtain ⟨c, _, rfl⟩ := List.mem_map.mp he
          exact Or.inr (settled_column rfl)
        · simp only [outputNames, names_of_columns]
          exact List.filter_sublist
        · intro n hn hneed
          rw [outputNames, names_of_columns, List.mem_filter]
          exact ⟨hn, by simpa using hneed names rfl⟩
      · exact hkeep

lemma needed_mono {needed : Option (List String)} {extra : List String} {n : String}
    (h : ∀ names, needed = some names → n ∈ names) :
    ∀ names, needed.map (fun m => m ++ extra) = some names → n ∈ names := by
  intro names hn
  obtain ⟨m, hm, rfl⟩ := Option.map_eq_some_iff.mp hn
  exact List.mem_append_left _ (h m hm)

/-- The join columns are needed on both sides whatever is needed above. -/
lemma mem_joinSide {needed : Option (List String)} {on fields : List String} {n : String}
    (hn : n ∈ fields) (h : n ∈ on ∨ ∀ names, needed = some names → n ∈ names) :
    n ∈ joinSide needed on fields := by
  cases needed with
  | none => exact hn
  | some names =>
      rcases h with h | h
      · exact List.mem_append_right _ h
      · exact List.mem_append_left _ (List.mem_filter.mpr ⟨h names rfl, by simpa using hn⟩)

theorem prune_prunedTo {plan plan' : LogicalPlan F} {needed : Option (List String)}
    (ha : plan.Analyzed) (h : prune plan needed = .ok plan') :
    PrunedTo needed plan plan' := by
  induction plan generalizing plan' needed with
  | scan dataset sourceName source => cases h; exact pruneScan_prunedTo _ _ _ _
  | filter child condition ih =>
      obtain ⟨child', hc, h⟩ := ExceptList.bind_eq_ok.mp h
      cases h
      have hk := ih ha.1 hc
      refine ⟨⟨hk.analyzed, fun n hn => ?_⟩, hk.settled, hk.tables, hk.names,
        fun n hn hneed => hk.keeps n hn (needed_mono hneed)⟩
      refine hk.keeps n (ha.2 n hn) (fun names hnames => ?_)
      obtain ⟨m, _, rfl⟩ := Option.map_eq_some_iff.mp hnames
      exact List.mem_append_right _ hn
  | project child columns ih =>
      obtain ⟨child', hc, h⟩ := ExceptList.bind_eq_ok.mp h
      cases h
      have hk := ih ha.1 hc
      refine ⟨⟨hk.analyzed, fun e he => hk.provides (ha.2.1 e he) ?_, ha.2.2⟩,
        fun hs => ⟨hk.settled hs.1, hs.2⟩, hk.tables, List.Sublist.refl _, fun n hn _ => hn⟩
      exact fun n hn => mem_allReferenced.mpr ⟨e, he, hn⟩
  | aggregate child groupBy aggregates ih =>
      obtain ⟨child', hc, h⟩ := ExceptList.bind_eq_ok.mp h
      cases h
      obtain ⟨hac, hg, hagg, hnd⟩ := ha
      have hk := ih hac hc
      refine ⟨⟨hk.analyzed, fun e he => ⟨(hg e he).1, hk.provides (hg e he).2 ?_⟩,
        fun e he => ⟨(hagg e he).1, hk.provides (hagg e he).2 ?_⟩, hnd⟩, hk.settled,
        hk.tables, List.Sublist.refl _, fun n hn _ => hn⟩
      · exact fun n hn => List.mem_append_left _ (mem_allReferenced.mpr ⟨e, he, hn⟩)
      · exact fun n hn => List.mem_append_right _ (mem_allReferenced.mpr ⟨e, he, hn⟩)
  | join left right on how broadcast ihl ihr =>
      simp only [prune, ExceptList.bind_eq_ok] at h
      obtain ⟨l, hl, r, hr, left', hl', right', hr', h⟩ := h
      cases h
      rw [schema_names hl] at hl'
      rw [schema_names hr] at hr'
      obtain ⟨hal, har, hhow, hne, hon, hcol⟩ := ha
      have hkl := ihl hal hl'
      have hkr := ihr har hr'
      have hkeepl : ∀ n ∈ left.outputNames, (n ∈ on ∨ ∀ names, needed = some names → n ∈ names) →
          n ∈ left'.outputNames := by
        intro n hn h
        refine hkl.keeps n hn (fun names hnames => ?_)
        cases hnames
        exact mem_joinSide hn h
      have hkeepr : ∀ n ∈ right.outputNames, (n ∈ on ∨ ∀ names, needed = some names → n ∈ names) →
          n ∈ right'.outputNames := by
        intro n hn h
        refine hkr.keeps n hn (fun names hnames => ?_)
        cases hnames
        exact mem_joinSide hn h
      refine ⟨⟨hkl.analyzed, hkr.analyzed, hhow, hne, fun n hn => ?_, fun n hln hrn => ?_⟩,
        fun hs => ⟨hkl.settled hs.1, hkr.settled hs.2⟩, append_subset_append hkl.tables hkr.tables, ?_,
        fun n hn hneed => ?_⟩
      · exact ⟨hkeepl n (hon n hn).1 (Or.inl hn), hkeepr n (hon n hn).2 (Or.inl hn)⟩
      · exact hcol n (hkl.names.subset hln) (hkr.names.subset hrn)
      · exact hkl.names.append (hkr.names.filter _)
      · rcases List.mem_append.mp hn with hn | hn
        · exact List.mem_append_left _ (hkeepl n hn (Or.inr hneed))
        · obtain ⟨hnr, hnon⟩ := List.mem_filter.mp hn
          exact List.mem_append_right _
            (List.mem_filter.mpr ⟨hkeepr n hnr (Or.inr hneed), hnon⟩)
  | sort child keys ih =>
      obtain ⟨child', hc, h⟩ := ExceptList.bind_eq_ok.mp h
      cases h
      have hk := ih ha.1 hc
      refine ⟨⟨hk.analyzed, fun k hk' => ⟨(ha.2 k hk').1, fun n hn => ?_⟩⟩, hk.settled, hk.tables, hk.names,
        fun n hn hneed => hk.keeps n hn (needed_mono hneed)⟩
      refine hk.keeps n ((ha.2 k hk').2 n hn) (fun names hnames => ?_)
      obtain ⟨m, _, rfl⟩ := Option.map_eq_some_iff.mp hnames
      exact List.mem_append_right _
        (mem_allReferenced.mpr ⟨k.1, List.mem_map_of_mem hk', hn⟩)

theorem prune_keepsNames {plan plan' : LogicalPlan F} (ha : plan.Analyzed)
    (h : prune plan none = .ok plan') : plan.KeepsNames plan' :=
  (prune_prunedTo ha h).keepsNames ha (fun _ hn => by cases hn)

end Prune

section Eliminate

open LogicalPlan

omit [PyRuntime F] in
lemma columnNames?_eq_some {es : List (Expression F)} {names : List String} :
    columnNames? es = some names ↔ es = names.map Expression.column := by
  induction es generalizing names with
  | nil => cases names <;> simp [columnNames?]
  | cons e es ih =>
      cases e with
      | column n => cases names <;> simp [columnNames?, ih, and_comm]
      | _ => cases names <;> simp [columnNames?]

theorem collapseProject_keepsNames {child : LogicalPlan F} {columns : List (Expression F)}
    (ha : (LogicalPlan.project child columns).Analyzed) :
    (LogicalPlan.project child columns).KeepsNames (collapseProject child columns) := by
  unfold collapseProject
  split
  · next grandchild inner =>
      split
      · next hplain =>
          obtain ⟨names, hnames⟩ := Option.isSome_iff_exists.mp hplain
          obtain rfl := columnNames?_eq_some.mp hnames
          refine ⟨⟨ha.1.1, fun e he n hn => ?_, ha.2.2⟩, fun hs => ⟨hs.1.1, hs.2⟩, List.Subset.refl _, rfl⟩
          have hin := ha.2.1 e he n hn
          rw [outputNames, names_of_columns] at hin
          exact ha.1.2.1 (.column n) (List.mem_map_of_mem hin) n (by simp [Expression.referencedColumns])
      · exact .refl ha
  · exact .refl ha

theorem eliminateProject_keepsNames {child plan' : LogicalPlan F} {columns : List (Expression F)}
    (ha : (LogicalPlan.project child columns).Analyzed)
    (h : eliminateProject child columns = .ok plan') :
    (LogicalPlan.project child columns).KeepsNames plan' := by
  have hcollapse := collapseProject_keepsNames ha
  unfold eliminateProject at h
  split at h
  · next names hnames =>
      obtain rfl := columnNames?_eq_some.mp hnames
      obtain ⟨s, hsch, h⟩ := ExceptList.bind_eq_ok.mp h
      split at h <;> cases h
      · next heq =>
          refine ⟨ha.1, And.left, List.Subset.refl _, ?_⟩
          rw [outputNames, names_of_columns, heq, schema_names hsch]
      · exact hcollapse
  · cases h
    exact hcollapse

theorem eliminate_keepsNames {plan plan' : LogicalPlan F} (ha : plan.Analyzed)
    (h : eliminate plan = .ok plan') : plan.KeepsNames plan' := by
  induction plan generalizing plan' with
  | scan _ _ _ => cases h; exact .refl ha
  | filter child condition ih =>
      obtain ⟨child', hc, h⟩ := ExceptList.bind_eq_ok.mp h
      cases h
      exact (ih ha.1 hc).filter ha.2
  | project child columns ih =>
      obtain ⟨child', hc, h⟩ := ExceptList.bind_eq_ok.mp h
      have hk := (ih ha.1 hc).project ha
      exact hk.trans (eliminateProject_keepsNames hk.analyzed h)
  | aggregate child groupBy aggregates ih =>
      obtain ⟨child', hc, h⟩ := ExceptList.bind_eq_ok.mp h
      cases h
      exact (ih ha.1 hc).aggregate ha
  | join left right on how broadcast ihl ihr =>
      obtain ⟨left', hl, h⟩ := ExceptList.bind_eq_ok.mp h
      obtain ⟨right', hr, h⟩ := ExceptList.bind_eq_ok.mp h
      cases h
      exact (ihl ha.1 hl).join (ihr ha.2.1 hr) ha
  | sort child keys ih =>
      obtain ⟨child', hc, h⟩ := ExceptList.bind_eq_ok.mp h
      cases h
      exact (ih ha.1 hc).sort ha

end Eliminate

section Optimize

open LogicalPlan

/-- Every rule keeps the names of an accepted plan whose names are settled. -/
theorem Rule.keepsNames {rule : Rule} {plan plan' : LogicalPlan F} (ha : plan.Analyzed)
    (hs : plan.NamesSettled) (h : rule.apply plan = .ok plan') : plan.KeepsNames plan' := by
  cases rule with
  | constantFolding => exact rewritesInPlace_fold.keepsNames ha hs h
  | filterSimplification => exact rewritesInPlace_simplifyBool.keepsNames ha hs h
  | predicatePushdown => exact pushdown_keepsNames ha h
  | projectionPruning => exact prune_keepsNames ha h
  | redundantProjectionElimination => exact eliminate_keepsNames ha h

theorem applyRules_keepsNames {rules : List Rule} {plan plan' : LogicalPlan F} (ha : plan.Analyzed)
    (hs : plan.NamesSettled) (h : applyRules rules plan = .ok plan') : plan.KeepsNames plan' := by
  induction rules generalizing plan with
  | nil => cases h; exact .refl ha
  | cons rule rules ih =>
      simp only [applyRules, List.foldlM_cons] at h
      obtain ⟨q, hq, h⟩ := ExceptList.bind_eq_ok.mp h
      have hk := Rule.keepsNames ha hs hq
      exact hk.trans (ih hk.analyzed (hk.settled hs) h)

theorem optimizeLoop_keepsNames {rules : List Rule} {n : ℕ} {plan plan' : LogicalPlan F}
    (ha : plan.Analyzed) (hs : plan.NamesSettled) (h : optimizeLoop rules n plan = .ok plan') :
    plan.KeepsNames plan' := by
  induction n generalizing plan with
  | zero => cases h; exact .refl ha
  | succ n ih =>
      obtain ⟨q, _, hq, -, ⟨-, rfl⟩ | ⟨-, h⟩⟩ := optimizeLoop_succ h
      · exact applyRules_keepsNames ha hs hq
      · have hk := applyRules_keepsNames ha hs hq
        exact hk.trans (ih hk.analyzed (hk.settled hs) h)

/-- Optimization keeps the output schema's names, and every reference resolves,
where no projected column that is named by its printed form can be rewritten. -/
theorem optimize_preserves_schema {config : OptimizerConfig} {plan analyzed plan' : LogicalPlan F}
    (ha : analyze plan = .ok analyzed) (hs : plan.NamesSettled)
    (h : optimize (defaultRules config) plan = .ok plan') :
    ∃ s s', plan.schema = .ok s ∧ plan'.schema = .ok s' ∧ s'.fieldNames = s.fieldNames ∧
      plan'.ColumnsResolve := by
  have hplan := analyzed_of_analyze ha
  have hk := optimizeLoop_keepsNames hplan hs h
  obtain ⟨s, hsch⟩ := hplan.schema_ok
  obtain ⟨s', hsch'⟩ := hk.analyzed.schema_ok
  refine ⟨s, s', hsch, hsch', ?_, hk.analyzed.columnsResolve⟩
  rw [schema_names hsch, schema_names hsch', hk.names]

end Optimize

section Examples

/-- `Column("a") > Literal(10) + Literal(10)`. -/
def aAboveTwenty : Expression ℚ :=
  .binary .greaterThan (.column "a") (.binary .add (.literal (.int 10)) (.literal (.int 10)))

theorem optimize_preserves_schema_aliased :
    ∃ s s', (LogicalPlan.project abTable [.column "b", .aliased aAboveTwenty "old"]).schema = .ok s ∧
      (LogicalPlan.project abTable [.column "b", .aliased
        (.binary .greaterThan (.column "a") (.literal (.int 20))) "old"]).schema = .ok s' ∧
      s'.fieldNames = s.fieldNames ∧
      (LogicalPlan.project abTable [.column "b", .aliased
        (.binary .greaterThan (.column "a") (.literal (.int 20))) "old"]).ColumnsResolve :=
  have hanalyzed : analyze (.project abTable [.column "b", .aliased aAboveTwenty "old"]) =
      .ok (.project abTable [.column "b", .aliased aAboveTwenty "old"]) := rfl
  have hsettled : (LogicalPlan.project abTable
      [.column "b", .aliased aAboveTwenty "old"]).NamesSettled :=
    ⟨trivial, by simpa [Expression.isAlias] using settled_column rfl⟩
  have hoptimize : optimize (defaultRules {})
      (.project abTable [.column "b", .aliased aAboveTwenty "old"]) = .ok _ := rfl
  optimize_preserves_schema hanalyzed hsettled hoptimize

/-- Without the alias, folding renames the column. -/
theorem optimize_renames_column :
    ¬ ∀ (config : OptimizerConfig) (plan analyzed plan' : LogicalPlan ℚ),
      analyze plan = .ok analyzed → optimize (defaultRules config) plan = .ok plan' →
      ∃ s s', plan.schema = .ok s ∧ plan'.schema = .ok s' ∧ s'.fieldNames = s.fieldNames ∧
        plan'.ColumnsResolve := by
  intro h
  obtain ⟨s, s', hs, hs', hnames, -⟩ := h {} (.project abTable [aAboveTwenty]) _
    (.project abTable [.binary .greaterThan (.column "a") (.literal (.int 20))]) rfl rfl
  rw [LogicalPlan.schema_names hs, LogicalPlan.schema_names hs'] at hnames
  revert hnames
  decide

end Examples

end MiniSpark
