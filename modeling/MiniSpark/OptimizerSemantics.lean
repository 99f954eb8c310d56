import MiniSpark.RowAgreement

/-!
# Optimized plans run where the original runs

One simulation lemma for each kind of node and one for each rule; the rules that
can change what is evaluated come with the condition under which they do not.
A run of the optimizer all of whose steps meet their conditions ends in a plan
that runs to completion.
-/
namespace MiniSpark

variable {F : Type} [PyRuntime F]

/-- Whenever the first plan runs, so does the second, with rows that agree on `P`. -/
def Simulates (P : String → Prop) (plan plan' : LogicalPlan F) : Prop :=
  ∀ rows, naiveRows plan = .ok rows → ∃ rows', naiveRows plan' = .ok rows' ∧ AgreeRows P rows rows'

namespace Simulates

variable {P : String → Prop} {child child' : LogicalPlan F}

theorem refl (P : String → Prop) (plan : LogicalPlan F) : Simulates P plan plan :=
  fun rows h => ⟨rows, h, AgreeRows.refl P rows⟩

theorem trans {p q r : LogicalPlan F} (h : Simulates P p q) (h' : Simulates P q r) :
    Simulates P p r := by
  intro rows hrows
  obtain ⟨rows', hrows', hag⟩ := h rows hrows
  obtain ⟨rows'', hrows'', hag'⟩ := h' rows' hrows'
  exact ⟨rows'', hrows'', hag.trans hag'⟩

theorem mono {Q : String → Prop} (h : Simulates P child child') (hQ : ∀ n, Q n → P n) :
    Simulates Q child child' := by
  intro rows hrows
  obtain ⟨rows', hrows', hag⟩ := h rows hrows
  exact ⟨rows', hrows', hag.mono hQ⟩

theorem filter (h : Simulates P child child') {condition condition' : Expression F}
    (hP : Covers P condition) (hk : KeepsTruth condition condition') :
    Simulates P (.filter child condition) (.filter child' condition') := by
  intro rows hrows
  obtain ⟨crows, hc, hrows⟩ := ExceptList.bind_eq_ok.mp hrows
  obtain ⟨crows', hc', hag⟩ := h crows hc
  obtain ⟨rows', hrows', hag'⟩ := filterRows_agree hag hP hk hrows
  exact ⟨rows', by rw [naiveRows, hc']; exact hrows', hag'⟩

theorem project {Q : String → Prop} (h : Simulates P child child')
    {columns columns' : List (Expression F)} (ha : (LogicalPlan.project child columns).Analyzed)
    (ha' : (LogicalPlan.project child' columns').Analyzed)
    (hnames : columns'.map Expression.columnName = columns.map Expression.columnName)
    (hP : ∀ e ∈ columns, Covers P e) (hk : List.Forall₂ KeepsValue columns columns') :
    Simulates Q (.project child columns) (.project child' columns') := by
  intro rows hrows
  rw [naiveRows_project ha] at hrows
  obtain ⟨crows, hc, hrows⟩ := ExceptList.bind_eq_ok.mp hrows
  obtain ⟨crows', hc', hag⟩ := h crows hc
  refine ⟨rows, ?_, AgreeRows.refl Q rows⟩
  rw [naiveRows_project ha', hc', hnames]
  exact projectRows_agree hag hP hk hrows

theorem aggregate {Q : String → Prop} (h : Simulates P child child')
    {groupBy aggregates : List (Expression F)}
    (ha' : (LogicalPlan.aggregate child' groupBy aggregates).Analyzed)
    (hg : ∀ e ∈ groupBy, Covers P e) (hagg : ∀ e ∈ aggregates, Covers P e) :
    Simulates Q (.aggregate child groupBy aggregates) (.aggregate child' groupBy aggregates) := by
  intro rows hrows
  obtain ⟨crows, hc, hrows⟩ := ExceptList.bind_eq_ok.mp hrows
  obtain ⟨s, _, hrows⟩ := ExceptList.bind_eq_ok.mp hrows
  obtain ⟨crows', hc', hag⟩ := h crows hc
  obtain ⟨s', hs'⟩ := ha'.schema_ok
  refine ⟨rows, ?_, AgreeRows.refl Q rows⟩
  rw [naiveRows, hc', ExceptList.bind_ok, hs', ExceptList.bind_ok]
  exact aggregateRows_agree hag hg hagg hrows

theorem join {Pl Pr : String → Prop} {left left' right right' : LogicalPlan F}
    (hl : Simulates Pl left left') (hr : Simulates Pr right right')
    (hal : left.Analyzed) (hal' : left'.Analyzed) (har : right.Analyzed) (har' : right'.Analyzed)
    (htl : left.TablesConform) (htl' : left'.TablesConform) (htr : right.TablesConform)
    (htr' : right'.TablesConform) (hnl : left'.outputNames ⊆ left.outputNames)
    (hnr : right'.outputNames ⊆ right.outputNames) {on : List String} {how : String}
    {broadcast : Bool} (hon : ∀ n ∈ on, Pl n ∧ Pr n)
    (hPl : ∀ n, P n → n ∈ left.outputNames → Pl n)
    (hPr : ∀ n, P n → n ∈ right.outputNames → n ∉ on → Pr n) :
    Simulates P (.join left right on how broadcast) (.join left' right' on how broadcast) := by
  intro rows hrows
  obtain ⟨lrows, hlr, hrows⟩ := ExceptList.bind_eq_ok.mp hrows
  obtain ⟨rrows, hrr, hrows⟩ := ExceptList.bind_eq_ok.mp hrows
  obtain ⟨lrows', hlr', hagl⟩ := hl lrows hlr
  obtain ⟨rrows', hrr', hagr⟩ := hr rrows hrr
  obtain ⟨rows', hrows', hag⟩ := hashJoinRows_agree hagl hagr (naiveRows_hasKeys hal htl hlr)
    (naiveRows_hasKeys hal' htl' hlr') (naiveRows_hasKeys har htr hrr)
    (naiveRows_hasKeys har' htr' hrr') hnl hnr hon hPl hPr hrows
  exact ⟨rows', by rw [naiveRows, hlr', ExceptList.bind_ok, hrr']; exact hrows', hag⟩

theorem sort (h : Simulates P child child') {keys : List (Expression F × Bool)}
    (hP : ∀ k ∈ keys, Covers P k.1) : Simulates P (.sort child keys) (.sort child' keys) := by
  intro rows hrows
  obtain ⟨crows, hc, hrows⟩ := ExceptList.bind_eq_ok.mp hrows
  obtain ⟨sorted, hs, hrows⟩ := ExceptList.bind_eq_ok.mp hrows
  cases hrows
  obtain ⟨crows', hc', hag⟩ := h crows hc
  obtain ⟨sorted', hs', hag'⟩ := sortRows_agree (arrivals_agree hag) hP hs
  refine ⟨sorted'.map Prod.snd, ?_, ?_⟩
  · rw [naiveRows, hc', ExceptList.bind_ok, hs']
    rfl
  · rw [AgreeRows, List.forall₂_map_left_iff, List.forall₂_map_right_iff]
    exact List.Forall₂.imp (fun _ _ h => h.2) hag'

end Simulates

/-- Simulation up to the output names of a plan. -/
abbrev Refines (plan plan' : LogicalPlan F) : Prop := Simulates (· ∈ plan.outputNames) plan plan'

theorem Refines.trans {p q r : LogicalPlan F} (h : Refines p q) (h' : Refines q r)
    (hn : q.outputNames = p.outputNames) : Refines p r :=
  Simulates.trans h (h'.mono (fun _ hp => hn ▸ hp))

theorem Refines.join {left left' right right' : LogicalPlan F} {on : List String} {how : String}
    {broadcast : Bool} (ha : (LogicalPlan.join left right on how broadcast).Analyzed)
    (ht : (LogicalPlan.join left right on how broadcast).TablesConform)
    (hl : Refines left left') (hr : Refines right right') (hkl : left.KeepsNames left')
    (hkr : right.KeepsNames right') :
    Refines (.join left right on how broadcast) (.join left' right' on how broadcast) := by
  obtain ⟨hal, har, -, -, hon, -⟩ := ha
  have htl : left.TablesConform := ht.mono (List.subset_append_left _ _)
  have htr : right.TablesConform := ht.mono (List.subset_append_right _ _)
  refine Simulates.join hl hr hal hkl.analyzed har hkr.analyzed htl (htl.mono hkl.tables) htr
    (htr.mono hkr.tables) (fun n h => hkl.names ▸ h) (fun n h => hkr.names ▸ h) hon (fun n _ h => h)
    (fun n _ h _ => h)

section MapExpressions

/-- The filter conditions of a plan. -/
def LogicalPlan.conditions : LogicalPlan F → List (Expression F)
  | .scan _ _ _ => []
  | .filter child condition => condition :: child.conditions
  | .project child _ => child.conditions
  | .aggregate child _ _ => child.conditions
  | .join left right _ _ _ => left.conditions ++ right.conditions
  | .sort child _ => child.conditions

/-- The projected columns of a plan. -/
def LogicalPlan.projected : LogicalPlan F → List (Expression F)
  | .scan _ _ _ => []
  | .filter child _ => child.projected
  | .project child columns => columns ++ child.projected
  | .aggregate child _ _ => child.projected
  | .join left right _ _ _ => left.projected ++ right.projected
  | .sort child _ => child.projected

/-- Rewriting every expression into one that keeps what its place needs. -/
theorem mapExpressions_refines {fn : Expression F → Py (Expression F)} (hfn : RewritesInPlace fn)
    {plan : LogicalPlan F} (ha : plan.Analyzed) (hs : plan.NamesSettled) (ht : plan.TablesConform)
    (hcond : ∀ e ∈ plan.conditions, ∃ e', fn e = .ok e' ∧ KeepsTruth e e')
    (hproj : ∀ e ∈ plan.projected, ∃ e', fn e = .ok e' ∧ KeepsValue e e') :
    ∃ plan', mapExpressions fn plan = .ok plan' ∧ Refines plan plan' := by
  induction plan with
  | scan dataset sourceName source => exact ⟨_, rfl, .refl _ _⟩
  | filter child condition ih =>
      obtain ⟨⟨condition', hc, hk⟩, hcond⟩ := List.forall_mem_cons.mp hcond
      obtain ⟨child', hchild, href⟩ := ih ha.1 hs ht hcond hproj
      exact ⟨.filter child' condition', by simp [mapExpressions, hchild, hc],
        href.filter ha.2 hk⟩
  | project child columns ih =>
      obtain ⟨child', hchild, href⟩ := ih ha.1 hs.1 ht hcond
        (fun e he => hproj e (List.mem_append_right _ he))
      obtain ⟨columns', hcols, hk⟩ := ExceptList.mapM_ok_of_exists
        (fun e he => hproj e (List.mem_append_left _ he))
      have hmap : mapExpressions fn (.project child columns) = .ok (.project child' columns') := by
        simp [mapExpressions, hchild, hcols]
      have hkeep := hfn.keepsNames ha hs hmap
      exact ⟨_, hmap, href.project ha hkeep.analyzed hkeep.names ha.2.1 hk⟩
  | aggregate child groupBy aggregates ih =>
      obtain ⟨child', hchild, href⟩ := ih ha.1 hs ht hcond hproj
      have hg : groupBy.mapM fn = .ok groupBy := by
        rw [ExceptList.mapM_eq_ok, List.forall₂_same]
        exact fun g hg => hfn.settled g (settled_column (ha.2.1 g hg).1)
      have hagg : aggregates.mapM fn = .ok aggregates := by
        rw [ExceptList.mapM_eq_ok, List.forall₂_same]
        exact fun a haa => hfn.aggregate_fixed (ha.2.2.1 a haa).1
      have hmap : mapExpressions fn (.aggregate child groupBy aggregates) =
          .ok (.aggregate child' groupBy aggregates) := by
        simp [mapExpressions, hchild, hg, hagg]
      exact ⟨_, hmap, href.aggregate (hfn.keepsNames ha hs hmap).analyzed
        (fun e he => (ha.2.1 e he).2) (fun e he => (ha.2.2.1 e he).2)⟩
  | join left right on how broadcast ihl ihr =>
      obtain ⟨left', hl, hrl⟩ := ihl ha.1 hs.1 (ht.mono (List.subset_append_left _ _))
        (fun e he => hcond e (List.mem_append_left _ he))
        (fun e he => hproj e (List.mem_append_left _ he))
      obtain ⟨right', hr, hrr⟩ := ihr ha.2.1 hs.2 (ht.mono (List.subset_append_right _ _))
        (fun e he => hcond e (List.mem_append_right _ he))
        (fun e he => hproj e (List.mem_append_right _ he))
      exact ⟨_, by simp only [mapExpressions, hl, hr, ExceptList.bind_ok]; rfl,
        Refines.join ha ht hrl hrr (hfn.keepsNames ha.1 hs.1 hl) (hfn.keepsNames ha.2.1 hs.2 hr)⟩
  | sort child keys ih =>
      obtain ⟨child', hchild, href⟩ := ih ha.1 hs ht hcond hproj
      have hk : keys.mapM (fun k => do
          let e ← fn k.1
          pure (e, k.2)) = .ok keys := by
        rw [ExceptList.mapM_eq_ok, List.forall₂_same]
        exact fun k hk => by simp [hfn.settled k.1 (settled_column (ha.2 k hk).1)]
      exact ⟨_, by simp only [mapExpressions, hchild, hk, ExceptList.bind_ok]; rfl,
        href.sort (fun k hk => (ha.2 k hk).2)⟩

end MapExpressions

section FoldAndSimplify

/-- Folding changes no value. -/
theorem fold_evaluate {e e' : Expression F} (h : fold e = .ok e') (r : Record F) :
    e'.evaluate r = e.evaluate r := by
  induction e generalizing e' with
  | binary op l m ihl ihm =>
      obtain ⟨l', m', hl, hm, hcase⟩ := fold_binary_ok h
      have hl' := ihl hl
      have hm' := ihm hm
      rcases hcase with ⟨a, b, v, rfl, rfl, hv, rfl⟩ | ⟨rfl, -⟩
      · simp only [Expression.evaluate] at hl' hm' ⊢
        rw [← hl', ← hm', ExceptList.bind_ok, ExceptList.bind_ok, hv]
      · simp only [Expression.evaluate, hl', hm']
  | aliased c n ih =>
      obtain ⟨c', hc, h⟩ := ExceptList.bind_eq_ok.mp h
      have hc' := ih hc
      cases h
      exact hc'
  | not c ih | isNull c ih | isNotNull c ih =>
      obtain ⟨c', hc, h⟩ := ExceptList.bind_eq_ok.mp h
      have hc' := ih hc
      split at h <;> cases h <;> simp [Expression.evaluate, ← hc']
  | _ => cases h; rfl

omit [PyRuntime F] in
/-- Operators over literals only. -/
def LiteralOnly : Expression F → Prop
  | .literal _ => True
  | .binary _ l m => LiteralOnly l ∧ LiteralOnly m
  | .not c => LiteralOnly c
  | .isNull c => LiteralOnly c
  | .isNotNull c => LiteralOnly c
  | _ => False

/-- Every operation on literals only, evaluated at plan time, has a value. -/
def FoldSafe : Expression F → Prop
  | .binary op l m => FoldSafe l ∧ FoldSafe m ∧
      (LiteralOnly l ∧ LiteralOnly m → ∃ v, (Expression.binary op l m).evaluate OrderedDict.empty = .ok v)
  | .aliased c _ => FoldSafe c
  | .not c => FoldSafe c
  | .isNull c => FoldSafe c
  | .isNotNull c => FoldSafe c
  | _ => True

omit [PyRuntime F] in
/-- A unary operator folds with its operand. -/
lemma fold_unary {c c' e : Expression F} {f : Value F → Value F}
    (hc : (∃ v, c' = .literal v) ↔ LiteralOnly c) (he : ∀ v, e ≠ .literal v) :
    (∃ w, (match c' with | .literal v => Expression.literal (f v) | _ => e) = .literal w) ↔
      LiteralOnly c := by
  rw [← hc]
  cases c' <;> simp [he]

/-- Folding succeeds on a safe expression, and leaves a literal exactly when there is no column. -/
theorem fold_ok {e : Expression F} (h : FoldSafe e) :
    ∃ e', fold e = .ok e' ∧ ((∃ v, e' = .literal v) ↔ LiteralOnly e) := by
  induction e with
  | binary op l m ihl ihm =>
      obtain ⟨l', hl, hll⟩ := ihl h.1
      obtain ⟨m', hm, hml⟩ := ihm h.2.1
      by_cases hlit : LiteralOnly l ∧ LiteralOnly m
      · obtain ⟨a, rfl⟩ := hll.mpr hlit.1
        obtain ⟨b, rfl⟩ := hml.mpr hlit.2
        obtain ⟨v, hv⟩ := h.2.2 hlit
        obtain ⟨a', b', ha, hb, hop⟩ := Expression.evaluate_binary_ok.mp hv
        rw [← fold_evaluate hl] at ha
        rw [← fold_evaluate hm] at hb
        cases ha
        cases hb
        refine ⟨.literal v, ?_, by simpa [LiteralOnly] using hlit⟩
        rw [fold, hl, ExceptList.bind_ok, hm, ExceptList.bind_ok]
        simp [hop]
      · refine ⟨.binary op l' m', ?_, by simpa [LiteralOnly] using hlit⟩
        rw [fold, hl, ExceptList.bind_ok, hm, ExceptList.bind_ok]
        split
        · next a b => exact absurd ⟨hll.mp ⟨a, rfl⟩, hml.mp ⟨b, rfl⟩⟩ hlit
        · rfl
  | aliased c n ih =>
      obtain ⟨c', hc, -⟩ := ih h
      exact ⟨_, by rw [fold, hc]; rfl, by simp [LiteralOnly]⟩
  | not c ih =>
      obtain ⟨c', hc, hlit⟩ := ih h
      refine ⟨_, ?_, fold_unary (f := fun v => .bool (!v.truthy)) (e := .not c') hlit (by simp)⟩
      rw [fold, hc, ExceptList.bind_ok]
      cases c' <;> rfl
  | isNull c ih =>
      obtain ⟨c', hc, hlit⟩ := ih h
      refine ⟨_, ?_, fold_unary (f := fun v => .bool v.isNone) (e := .isNull c') hlit (by simp)⟩
      rw [fold, hc, ExceptList.bind_ok]
      cases c' <;> rfl
  | isNotNull c ih =>
      obtain ⟨c', hc, hlit⟩ := ih h
      refine ⟨_, ?_, fold_unary (f := fun v => .bool (!v.isNone)) (e := .isNotNull c') hlit (by simp)⟩
      rw [fold, hc, ExceptList.bind_ok]
      cases c' <;> rfl
  | _ => exact ⟨_, rfl, by simp [LiteralOnly]⟩

omit [PyRuntime F] in
/-- Every value of the expression is a bool. -/
def BoolValued : Expression F → Prop
  | .literal v => ∃ b, v = .bool b
  | .aliased c _ => BoolValued c
  | .binary op _ _ => op ∈ [BinaryOp.greaterThan, .greaterEqual, .lessThan, .lessEqual, .equal,
      .notEqual, .and, .or]
  | .not _ => True
  | .isNull _ => True
  | .isNotNull _ => True
  | _ => False

theorem BoolValued.value {e : Expression F} (h : BoolValued e) {r : Record F} {v : Value F}
    (hv : e.evaluate r = .ok v) : ∃ b, v = .bool b := by
  induction e with
  | literal w =>
      cases hv
      exact h
  | aliased c n ih => exact ih h hv
  | binary op l m _ _ =>
      obtain ⟨a, b, -, -, hop⟩ := Expression.evaluate_binary_ok.mp hv
      cases op with
      | greaterThan | greaterEqual | lessThan | lessEqual =>
          obtain ⟨c, -, rfl⟩ := ExceptList.map_eq_ok.mp hop
          exact ⟨c, rfl⟩
      | equal | notEqual | and | or =>
          cases hop
          exact ⟨_, rfl⟩
      | _ => simp [BoolValued] at h
  | not c _ =>
      obtain ⟨a, -, rfl⟩ := Expression.evaluate_not_ok.mp hv
      exact ⟨_, rfl⟩
  | isNull c _ =>
      obtain ⟨a, -, rfl⟩ := Expression.evaluate_isNull_ok.mp hv
      exact ⟨_, rfl⟩
  | isNotNull c _ =>
      obtain ⟨a, -, rfl⟩ := Expression.evaluate_isNotNull_ok.mp hv
      exact ⟨_, rfl⟩
  | _ => exact h.elim

/-- Where the value itself is read (`exact`), not only its truth, what is left of a
connective after simplification has bool values. -/
def SimplifySafe : Expression F → (exact : Bool) → Prop
  | .binary .and l m, exact => SimplifySafe l false ∧ SimplifySafe m false ∧
      (exact = true → BoolValued (simplifyBool (.binary .and l m)))
  | .binary .or l m, exact => SimplifySafe l false ∧ SimplifySafe m false ∧
      (exact = true → BoolValued (simplifyBool (.binary .or l m)))
  | .binary _ l m, _ => SimplifySafe l true ∧ SimplifySafe m true
  | .not c, exact => SimplifySafe c false ∧ (exact = true → BoolValued (simplifyBool (.not c)))
  | .aliased c _, exact => SimplifySafe c exact
  | _, _ => True

lemma simplifyAnd_truth {l m : Expression F} {r : Record F} {a b : Value F}
    (hl : l.evaluate r = .ok a) (hm : m.evaluate r = .ok b) :
    ∃ v, (simplifyAnd l m).evaluate r = .ok v ∧ v.truthy = (a.truthy && b.truthy) := by
  unfold simplifyAnd
  split
  · cases hl
    split
    · next h => exact ⟨b, hm, by simp [h]⟩
    · next h => exact ⟨_, rfl, by simp [h]⟩
  · cases hm
    split
    · next h => exact ⟨a, hl, by simp [h]⟩
    · next h => exact ⟨_, rfl, by simp [h]⟩
  · exact ⟨_, Expression.evaluate_binary_ok.mpr ⟨a, b, hl, hm, rfl⟩, rfl⟩

lemma simplifyOr_truth {l m : Expression F} {r : Record F} {a b : Value F}
    (hl : l.evaluate r = .ok a) (hm : m.evaluate r = .ok b) :
    ∃ v, (simplifyOr l m).evaluate r = .ok v ∧ v.truthy = (a.truthy || b.truthy) := by
  unfold simplifyOr
  split
  · cases hl
    split
    · next h => exact ⟨_, rfl, by simp [h]⟩
    · next h => exact ⟨b, hm, by simp [h]⟩
  · cases hm
    split
    · next h => exact ⟨_, rfl, by simp [h]⟩
    · next h => exact ⟨a, hl, by simp [h]⟩
  · exact ⟨_, Expression.evaluate_binary_ok.mpr ⟨a, b, hl, hm, rfl⟩, rfl⟩

lemma simplifyNot_truth {c : Expression F} {r : Record F} {a : Value F}
    (hc : c.evaluate r = .ok a) :
    ∃ v, (simplifyNot c).evaluate r = .ok v ∧ v.truthy = !a.truthy := by
  unfold simplifyNot
  split
  · obtain ⟨b, hb, rfl⟩ := Expression.evaluate_not_ok.mp hc
    exact ⟨b, hb, by simp⟩
  · exact ⟨_, Expression.evaluate_not_ok.mpr ⟨a, hc, rfl⟩, rfl⟩

lemma truth_to_value {e : Expression F} {r : Record F} {b : Bool} {exact : Bool}
    (h : ∃ v, e.evaluate r = .ok v ∧ v.truthy = b) (hb : exact = true → BoolValued e) :
    ∃ v, e.evaluate r = .ok v ∧ v.truthy = b ∧ (exact = true → v = .bool b) := by
  obtain ⟨v, hv, rfl⟩ := h
  refine ⟨v, hv, rfl, fun hx => ?_⟩
  obtain ⟨c, rfl⟩ := (hb hx).value hv
  rfl

/-- Simplification keeps the truth of an expression, and its value where that is read. -/
theorem simplifyBool_evaluate {e : Expression F} {exact : Bool} (hs : SimplifySafe e exact)
    {r : Record F} {v : Value F} (hv : e.evaluate r = .ok v) :
    ∃ v', (simplifyBool e).evaluate r = .ok v' ∧ v'.truthy = v.truthy ∧
      (exact = true → v' = v) := by
  induction e generalizing exact v with
  | binary op l m ihl ihm =>
      obtain ⟨a, b, ha, hb, hop⟩ := Expression.evaluate_binary_ok.mp hv
      cases op with
      | and =>
          obtain ⟨a', ha', hat, -⟩ := ihl hs.1 ha
          obtain ⟨b', hb', hbt, -⟩ := ihm hs.2.1 hb
          have ht := simplifyAnd_truth ha' hb'
          rw [hat, hbt] at ht
          cases hop
          exact truth_to_value ht hs.2.2
      | or =>
          obtain ⟨a', ha', hat, -⟩ := ihl hs.1 ha
          obtain ⟨b', hb', hbt, -⟩ := ihm hs.2.1 hb
          have ht := simplifyOr_truth ha' hb'
          rw [hat, hbt] at ht
          cases hop
          exact truth_to_value ht hs.2.2
      | _ =>
          obtain ⟨a', ha', -, hae⟩ := ihl hs.1 ha
          obtain ⟨b', hb', -, hbe⟩ := ihm hs.2 hb
          obtain rfl := hae rfl
          obtain rfl := hbe rfl
          exact ⟨v, Expression.evaluate_binary_ok.mpr ⟨_, _, ha', hb', hop⟩, rfl, fun _ => rfl⟩
  | not c ih =>
      obtain ⟨a, ha, rfl⟩ := Expression.evaluate_not_ok.mp hv
      obtain ⟨a', ha', hat, -⟩ := ih hs.1 ha
      have ht := simplifyNot_truth ha'
      rw [hat] at ht
      exact truth_to_value ht hs.2
  | aliased c n ih => exact ih hs hv
  | _ => exact ⟨v, hv, rfl, fun _ => rfl⟩

end FoldAndSimplify

section Pushdown

/-- The condition evaluates on every row of the plan. -/
def EvaluatesOn (plan : LogicalPlan F) (condition : Expression F) : Prop :=
  ∀ rows, naiveRows plan = .ok rows → ∀ r ∈ rows, ∃ t, holds condition r = .ok t

/-- The condition has the truth of a right row on every row joined from it. -/
def ReadsJoined (left right : LogicalPlan F) (on : List String) (condition : Expression F) : Prop :=
  ∀ lrows rrows, naiveRows left = .ok lrows → naiveRows right = .ok rrows →
    ∀ l ∈ lrows, ∀ r ∈ rrows, keysMatch (on.map Expression.column) (on.map Expression.column) l r →
      ∀ t, holds condition r = .ok t → holds condition (mergeRow on l r) = .ok t

omit [PyRuntime F] in
/-- A chain of filters, the first condition innermost. -/
def LogicalPlan.filters (plan : LogicalPlan F) (conditions : List (Expression F)) : LogicalPlan F :=
  conditions.foldl LogicalPlan.filter plan

/-- The filters of a chain that can move below a projection, one by one until the first that
cannot, read every row there as they read its projection. -/
def SafeBelowProject (columns : List (Expression F)) :
    LogicalPlan F → List (Expression F) → Prop
  | _, [] => True
  | child, condition :: conditions =>
      condition.referencedColumns ⊆ child.outputNames →
        ReadsSame child columns condition ∧
          SafeBelowProject columns (.filter child condition) conditions

/-- The filters of a chain that can move into a side of a join, one by one until the first
that reads both sides, evaluate on that side and read it as they read the joined rows. -/
def SafeBelowJoin (on : List String) :
    LogicalPlan F → LogicalPlan F → List (Expression F) → Prop
  | _, _, [] => True
  | left, right, condition :: conditions =>
      if condition.referencedColumns ⊆ left.outputNames then
        EvaluatesOn left condition ∧ SafeBelowJoin on (.filter left condition) right conditions
      else condition.referencedColumns ⊆ right.outputNames →
        EvaluatesOn right condition ∧ ReadsJoined left right on condition ∧
          SafeBelowJoin on left (.filter right condition) conditions

/-- In the plan and below it every filter can be moved safely, also the given ones above it. -/
def ChainSafe : LogicalPlan F → List (Expression F) → Prop
  | .scan _ _ _, _ => True
  | .filter child condition, conditions => ChainSafe child (condition :: conditions)
  | .project child columns, conditions =>
      ChainSafe child [] ∧ SafeBelowProject columns child conditions
  | .aggregate child _ _, _ => ChainSafe child []
  | .join left right on _ _, conditions =>
      ChainSafe left [] ∧ ChainSafe right [] ∧ SafeBelowJoin on left right conditions
  | .sort child _, _ => ChainSafe child []

/-- Every filter of the plan can be moved safely. -/
def PushdownSafe (plan : LogicalPlan F) : Prop := ChainSafe plan []

/-- A filter on the left columns of a join filters the left rows. -/
lemma nestedLoop_filter_left {lk rk : List (Expression F)} {on : List String}
    {left right : List (Record F)} {p q : Record F → Bool}
    (h : ∀ l ∈ left, ∀ r ∈ right, q (mergeRow on l r) = p l) :
    (nestedLoop lk rk on left right).filter q = nestedLoop lk rk on (left.filter p) right := by
  rw [nestedLoop, List.filter_flatMap, nestedLoop]
  refine List.flatMap_congr (fun r hr => ?_)
  rw [joinedWith, joinedWith, List.filter_map, List.filter_filter, List.filter_filter]
  congr 1
  refine List.filter_congr (fun l hl => ?_)
  rw [Function.comp_apply, h l hl r hr, Bool.and_comm]

/-- A filter on the right columns of a join filters the right rows. -/
lemma nestedLoop_filter_right {lk rk : List (Expression F)} {on : List String}
    {left right : List (Record F)} {p q : Record F → Bool}
    (h : ∀ l ∈ left, ∀ r ∈ right, keysMatch lk rk l r = true → q (mergeRow on l r) = p r) :
    (nestedLoop lk rk on left right).filter q = nestedLoop lk rk on left (right.filter p) := by
  rw [nestedLoop, List.filter_flatMap, nestedLoop]
  have hrow : ∀ r ∈ right, (joinedWith lk rk on left r).filter q =
      if p r then joinedWith lk rk on left r else [] := by
    intro r hr
    have hall : ∀ m ∈ joinedWith lk rk on left r, q m = p r := by
      intro m hm
      obtain ⟨l, hl, rfl⟩ := List.mem_map.mp hm
      exact h l (List.mem_of_mem_filter hl) r hr (List.mem_filter.mp hl).2
    split
    · next hp => exact List.filter_eq_self.mpr (fun m hm => (hall m hm).trans hp)
    · next hp => exact List.filter_eq_nil_iff.mpr (fun m hm => by rw [hall m hm]; exact hp)
  rw [List.flatMap_congr hrow]
  clear h hrow
  induction right with
  | nil => rfl
  | cons r rs ih => by_cases hp : p r = true <;> simp [List.flatMap_cons, hp, ih]

/-- A condition on left columns reads a joined row as its left row. -/
lemma holds_mergeRow_left {ln rn on : List String} {condition : Expression F} {l r : Record F}
    {t : Bool} (hrk : HasKeys rn r) (hcol : ∀ n ∈ ln, n ∈ rn → n ∈ on)
    (hsub : condition.referencedColumns ⊆ ln) (h : holds condition l = .ok t) :
    holds condition (mergeRow on l r) = .ok t := by
  obtain ⟨v, hv, rfl⟩ := ExceptList.map_eq_ok.mp h
  refine ExceptList.map_eq_ok.mpr ⟨v, Expression.evaluate_congr condition (fun n hn => ?_) hv, rfl⟩
  rw [mergeRow_get?]
  split
  · rfl
  · next hon =>
      have hnone : r.get? n = none := by
        rw [← Option.not_isSome_iff_eq_none, hrk n]
        exact fun hr => hon (hcol n (hsub hn) hr)
      rw [hnone, Option.none_or]

section Moves

variable {left right : LogicalPlan F} {on : List String} {how : String} {broadcast : Bool}

/-- Rows that have the join columns have a join key. -/
lemma haveKeys_of_hasKeys {names : List String} {rows : List (Record F)}
    (hrows : ∀ r ∈ rows, HasKeys names r) (hon : ∀ n ∈ on, n ∈ names) :
    HaveKeys (on.map Expression.column) rows := by
  intro r hr
  have hcol : ∀ e ∈ on.map (Expression.column (F := F)), ∃ v, e.evaluate r = .ok v ∧ True := by
    intro e he
    obtain ⟨n, hn, rfl⟩ := List.mem_map.mp he
    obtain ⟨v, hv⟩ := Option.isSome_iff_exists.mp ((hrows r hr n).mpr (hon n hn))
    exact ⟨v, Expression.lookupColumn_eq_ok.mpr hv, trivial⟩
  obtain ⟨key, hkey, -⟩ := ExceptList.mapM_ok_of_exists hcol
  exact ⟨key, hkey⟩

/-- Over rows with their schemas' fields a join is its nested loop. -/
lemma join_nestedLoop (ha : (LogicalPlan.join left right on how broadcast).Analyzed)
    (ht : (LogicalPlan.join left right on how broadcast).TablesConform) {lrows rrows : List (Record F)}
    (hl : naiveRows left = .ok lrows) (hr : naiveRows right = .ok rrows) :
    naiveRows (.join left right on how broadcast) =
      .ok (nestedLoop (on.map Expression.column) (on.map Expression.column) on lrows rrows) := by
  obtain ⟨hal, har, -, -, hon, -⟩ := ha
  have hlk := haveKeys_of_hasKeys (naiveRows_hasKeys hal (ht.mono (List.subset_append_left _ _)) hl)
    (fun n hn => (hon n hn).1)
  have hrk := haveKeys_of_hasKeys (naiveRows_hasKeys har (ht.mono (List.subset_append_right _ _)) hr)
    (fun n hn => (hon n hn).2)
  simp only [naiveRows, hl, hr, ExceptList.bind_ok]
  exact hashJoinRows_eq_ok.mpr ⟨hlk, hrk, rfl⟩

lemma analyzed_filter_left (ha : (LogicalPlan.join left right on how broadcast).Analyzed)
    {condition : Expression F} (hsub : condition.referencedColumns ⊆ left.outputNames) :
    (LogicalPlan.join (.filter left condition) right on how broadcast).Analyzed :=
  ⟨⟨ha.1, fun _ hn => hsub hn⟩, ha.2⟩

lemma analyzed_filter_right (ha : (LogicalPlan.join left right on how broadcast).Analyzed)
    {condition : Expression F} (hsub : condition.referencedColumns ⊆ right.outputNames) :
    (LogicalPlan.join left (.filter right condition) on how broadcast).Analyzed :=
  ⟨ha.1, ⟨ha.2.1, fun _ hn => hsub hn⟩, ha.2.2⟩

/-- A condition on left columns filters the joined rows as it filters the left rows. -/
theorem naiveRows_filter_left (ha : (LogicalPlan.join left right on how broadcast).Analyzed)
    (ht : (LogicalPlan.join left right on how broadcast).TablesConform) {condition : Expression F}
    (hsub : condition.referencedColumns ⊆ left.outputNames) (hev : EvaluatesOn left condition) :
    naiveRows (.filter (.join left right on how broadcast) condition) =
      naiveRows (.join (.filter left condition) right on how broadcast) := by
  cases hl : naiveRows left with
  | error e => simp only [naiveRows, hl]; rfl
  | ok lrows =>
      have hf : filterRows condition lrows =
          .ok (lrows.filter (ExceptList.verdict (holds condition))) :=
        ExceptList.filterE_eq_ok.mpr ⟨hev lrows hl, rfl⟩
      have hfilter : naiveRows (.filter left condition) =
          .ok (lrows.filter (ExceptList.verdict (holds condition))) := by
        simp only [naiveRows, hl, ExceptList.bind_ok, hf]
      cases hr : naiveRows right with
      | error e => simp only [naiveRows, hl, hr, hf, ExceptList.bind_ok]; rfl
      | ok rrows =>
          have hread : ∀ x ∈ lrows, ∀ y ∈ rrows, ∃ t, holds condition x = .ok t ∧
              holds condition (mergeRow on x y) = .ok t := by
            intro x hx y hy
            obtain ⟨t, hxt⟩ := hev lrows hl x hx
            have hyk := naiveRows_hasKeys ha.2.1 (ht.mono (List.subset_append_right _ _)) hr y hy
            exact ⟨t, hxt, holds_mergeRow_left hyk ha.2.2.2.2.2 hsub hxt⟩
          rw [join_nestedLoop (analyzed_filter_left ha hsub) ht hfilter hr, naiveRows,
            join_nestedLoop ha ht hl hr, ExceptList.bind_ok]
          refine ExceptList.filterE_eq_ok.mpr ⟨fun m hm => ?_, ?_⟩
          · obtain ⟨y, hy, hm⟩ := List.mem_flatMap.mp hm
            obtain ⟨x, hx, rfl⟩ := List.mem_map.mp hm
            obtain ⟨t, -, hmt⟩ := hread x (List.mem_of_mem_filter hx) y hy
            exact ⟨t, hmt⟩
          · refine (nestedLoop_filter_left (fun x hx y hy => ?_)).symm
            obtain ⟨t, hxt, hmt⟩ := hread x hx y hy
            rw [ExceptList.verdict_of_ok hxt, ExceptList.verdict_of_ok hmt]

/-- A condition on right columns filters the joined rows as it filters the right rows. -/
theorem naiveRows_filter_right (ha : (LogicalPlan.join left right on how broadcast).Analyzed)
    (ht : (LogicalPlan.join left right on how broadcast).TablesConform)
    {condition : Expression F} (hsub : condition.referencedColumns ⊆ right.outputNames)
    (hev : EvaluatesOn right condition) (hread : ReadsJoined left right on condition) :
    naiveRows (.filter (.join left right on how broadcast) condition) =
      naiveRows (.join left (.filter right condition) on how broadcast) := by
  cases hl : naiveRows left with
  | error e => simp only [naiveRows, hl]; rfl
  | ok lrows =>
      cases hr : naiveRows right with
      | error e => simp only [naiveRows, hl, hr]; rfl
      | ok rrows =>
          have hfilter : naiveRows (.filter right condition) =
              .ok (rrows.filter (ExceptList.verdict (holds condition))) := by
            simp only [naiveRows, hr, ExceptList.bind_ok]
            exact ExceptList.filterE_eq_ok.mpr ⟨hev rrows hr, rfl⟩
          have hjoined : ∀ x ∈ lrows, ∀ y ∈ rrows,
              keysMatch (on.map Expression.column) (on.map Expression.column) x y = true →
              ∃ t, holds condition y = .ok t ∧ holds condition (mergeRow on x y) = .ok t := by
            intro x hx y hy hm
            obtain ⟨t, hyt⟩ := hev rrows hr y hy
            exact ⟨t, hyt, hread lrows rrows hl hr x hx y hy hm t hyt⟩
          rw [join_nestedLoop (analyzed_filter_right ha hsub) ht hl hfilter, naiveRows,
            join_nestedLoop ha ht hl hr, ExceptList.bind_ok]
          refine ExceptList.filterE_eq_ok.mpr ⟨fun m hm => ?_, ?_⟩
          · obtain ⟨y, hy, hm⟩ := List.mem_flatMap.mp hm
            obtain ⟨x, hx, rfl⟩ := List.mem_map.mp hm
            obtain ⟨hx, hmatch⟩ := List.mem_filter.mp hx
            obtain ⟨t, -, hmt⟩ := hjoined x hx y hy hmatch
            exact ⟨t, hmt⟩
          · refine (nestedLoop_filter_right (fun x hx y hy hm => ?_)).symm
            obtain ⟨t, hyt, hmt⟩ := hjoined x hx y hy hm
            rw [ExceptList.verdict_of_ok hyt, ExceptList.verdict_of_ok hmt]

/-- A filter that reads the rows of a projection's child as it reads the projection. -/
theorem refines_filter_project {child : LogicalPlan F} {columns : List (Expression F)}
    {condition : Expression F} (ha : (LogicalPlan.project child columns).Analyzed)
    (hsub : condition.referencedColumns ⊆ child.outputNames)
    (hread : ReadsSame child columns condition) :
    Refines (.filter (.project child columns) condition)
      (.project (.filter child condition) columns) := by
  intro rows hrows
  obtain ⟨prows, hprows, hfilter⟩ := ExceptList.bind_eq_ok.mp hrows
  rw [naiveRows_project ha] at hprows
  obtain ⟨crows, hcrows, hprows⟩ := ExceptList.bind_eq_ok.mp hprows
  have ha' : (LogicalPlan.project (.filter child condition) columns).Analyzed :=
    ⟨⟨ha.1, fun _ hn => hsub hn⟩, ha.2⟩
  refine ⟨rows, ?_, AgreeRows.refl _ rows⟩
  rw [naiveRows_project ha']
  simp only [naiveRows, hcrows, ExceptList.bind_ok]
  exact (ExceptList.filterE_mapM_eq_ok_iff hprows hfilter).mpr (hread crows hcrows)

end Moves

theorem Refines.of_rows_eq {p q : LogicalPlan F} (h : naiveRows p = naiveRows q) : Refines p q :=
  fun rows hrows => ⟨rows, h ▸ hrows, AgreeRows.refl _ rows⟩

theorem pushFilter_ok {child : LogicalPlan F} (ha : child.Analyzed) (condition : Expression F) :
    ∃ plan', pushFilter child condition = .ok plan' := by
  unfold pushFilter
  split
  · obtain ⟨s, hs⟩ := ha.1.schema_ok
    rw [hs, ExceptList.bind_ok]
    split <;> exact ⟨_, rfl⟩
  · obtain ⟨l, hl⟩ := ha.1.schema_ok
    obtain ⟨r, hr⟩ := ha.2.1.schema_ok
    rw [hl, hr, ExceptList.bind_ok, ExceptList.bind_ok]
    split
    · exact ⟨_, rfl⟩
    · split <;> exact ⟨_, rfl⟩
  · exact ⟨_, rfl⟩

/-- The rule succeeds on every accepted plan. -/
theorem pushdown_ok {plan : LogicalPlan F} (ha : plan.Analyzed) :
    ∃ plan', pushdown plan = .ok plan' := by
  induction plan with
  | scan _ _ _ => exact ⟨_, rfl⟩
  | filter child condition ih =>
      obtain ⟨child', hc⟩ := ih ha.1
      obtain ⟨plan', hp⟩ := pushFilter_ok (pushdown_keepsNames ha.1 hc).analyzed condition
      exact ⟨plan', by rw [pushdown, hc]; exact hp⟩
  | project child columns ih =>
      obtain ⟨child', hc⟩ := ih ha.1
      exact ⟨_, by rw [pushdown, hc]; rfl⟩
  | aggregate child groupBy aggregates ih =>
      obtain ⟨child', hc⟩ := ih ha.1
      exact ⟨_, by rw [pushdown, hc]; rfl⟩
  | join left right on how broadcast ihl ihr =>
      obtain ⟨left', hl⟩ := ihl ha.1
      obtain ⟨right', hr⟩ := ihr ha.2.1
      exact ⟨_, by rw [pushdown, hl, ExceptList.bind_ok, hr]; rfl⟩
  | sort child keys ih =>
      obtain ⟨child', hc⟩ := ih ha.1
      exact ⟨_, by rw [pushdown, hc]; rfl⟩

section Chain

variable {p q plan' : LogicalPlan F} {conditions : List (Expression F)}

lemma analyzed_of_filters (h : (p.filters conditions).Analyzed) : p.Analyzed := by
  induction conditions generalizing p with
  | nil => exact h
  | cons c cs ih => exact (ih (p := .filter p c) h).1

omit [PyRuntime F] in
lemma tablesConform_filters [PyRuntime F] :
    (p.filters conditions).TablesConform ↔ p.TablesConform := by
  induction conditions generalizing p with
  | nil => exact Iff.rfl
  | cons c cs ih => exact ih (p := .filter p c)

lemma LogicalPlan.KeepsNames.filters (h : p.KeepsNames q) (ha : (p.filters conditions).Analyzed) :
    (p.filters conditions).KeepsNames (q.filters conditions) := by
  induction conditions generalizing p q with
  | nil => exact h
  | cons c cs ih => exact ih (h.filter (analyzed_of_filters (p := .filter p c) ha).2) ha

lemma Refines.filters (h : Refines p q) (conditions : List (Expression F))
    (ha : (p.filters conditions).Analyzed) :
    Refines (p.filters conditions) (q.filters conditions) := by
  induction conditions generalizing p q with
  | nil => exact h
  | cons c cs ih =>
      have hprovides := (analyzed_of_filters (p := .filter p c) ha).2
      exact ih (h.filter hprovides (KeepsTruth.refl c)) ha

/-- The rule takes the filters of a chain one by one, from the innermost. -/
lemma pushdown_filters (plan : LogicalPlan F) (conditions : List (Expression F)) :
    pushdown (plan.filters conditions) =
      (pushdown plan >>= fun p => conditions.foldlM pushFilter p) := by
  induction conditions generalizing plan with
  | nil => exact (bind_pure (pushdown plan)).symm
  | cons c cs ih =>
      have hcons : plan.filters (c :: cs) = (LogicalPlan.filter plan c).filters cs := rfl
      rw [hcons, ih, pushdown, bind_assoc]
      rfl

/-- Above a filter that stays the rule moves nothing. -/
lemma pushFilter_above_filter (p : LogicalPlan F) (c : Expression F) (cs : List (Expression F)) :
    cs.foldlM pushFilter (.filter p c) = .ok ((LogicalPlan.filter p c).filters cs) := by
  induction cs generalizing p c with
  | nil => rfl
  | cons d ds ih => exact ih (.filter p c) d

/-- A step below a chain, and what the rule makes of the rest of the chain. -/
lemma Refines.chain (ha : (p.filters conditions).Analyzed) (hstep : Refines p q)
    (hkeep : p.KeepsNames q)
    (hrest : (q.filters conditions).Analyzed → Refines (q.filters conditions) plan') :
    Refines (p.filters conditions) plan' :=
  Refines.trans (hstep.filters conditions ha) (hrest (hkeep.filters ha).analyzed) (hkeep.filters ha).names

variable {child child' : LogicalPlan F} {columns : List (Expression F)}

/-- The filters of a chain above a projection, whose child has been rewritten. -/
lemma pushFilters_project (ha : ((LogicalPlan.project child columns).filters conditions).Analyzed)
    (href : Refines child child') (hk : child.KeepsNames child')
    (hsafe : SafeBelowProject columns child conditions)
    (h : conditions.foldlM pushFilter (.project child' columns) = .ok plan') :
    Refines ((LogicalPlan.project child columns).filters conditions) plan' := by
  have hproject : ∀ {p p' : LogicalPlan F}, (LogicalPlan.project p columns).Analyzed →
      Refines p p' → p.KeepsNames p' → Refines (.project p columns) (.project p' columns) :=
    fun ha href hk => href.project ha (hk.project ha).analyzed rfl ha.2.1
      (List.forall₂_same.mpr (fun e _ => KeepsValue.refl e))
  induction conditions generalizing child child' with
  | nil =>
      cases h
      exact hproject ha href hk
  | cons c cs ih =>
      have hap := analyzed_of_filters ha
      obtain ⟨s, hs⟩ := hk.analyzed.schema_ok
      rw [List.foldlM_cons, pushFilter, hs, ExceptList.bind_ok, LogicalPlan.schema_names hs,
        hk.names] at h
      by_cases hsub : c.referencedColumns ⊆ child.outputNames
      · rw [if_pos hsub] at h
        obtain ⟨hread, hrest⟩ := hsafe hsub
        have hprovides : child.Provides c := fun _ hn => hsub hn
        have hkeep : (LogicalPlan.filter (.project child columns) c).KeepsNames
            (.project (.filter child c) columns) :=
          pushFilter_keepsNames (analyzed_of_filters (p := .filter _ c) ha) (by
            obtain ⟨s, hs⟩ := hap.1.schema_ok
            rw [pushFilter, hs, ExceptList.bind_ok, LogicalPlan.schema_names hs, if_pos hsub]
            rfl)
        exact Refines.chain (p := .filter _ c) ha (refines_filter_project hap hsub hread) hkeep
          (fun ha' => ih ha' (href.filter hprovides (KeepsTruth.refl c)) (hk.filter hprovides) hrest h)
      · rw [if_neg hsub, ExceptList.pure_eq_ok, ExceptList.bind_ok, pushFilter_above_filter] at h
        cases h
        exact (hproject hap href hk).filters (c :: cs) ha

variable {left left' right right' : LogicalPlan F} {on : List String} {how : String}
  {broadcast : Bool}

/-- The filters of a chain above a join, whose sides have been rewritten. -/
lemma pushFilters_join
    (ha : ((LogicalPlan.join left right on how broadcast).filters conditions).Analyzed)
    (ht : (LogicalPlan.join left right on how broadcast).TablesConform)
    (hrl : Refines left left') (hrr : Refines right right') (hkl : left.KeepsNames left')
    (hkr : right.KeepsNames right') (hsafe : SafeBelowJoin on left right conditions)
    (h : conditions.foldlM pushFilter (.join left' right' on how broadcast) = .ok plan') :
    Refines ((LogicalPlan.join left right on how broadcast).filters conditions) plan' := by
  induction conditions generalizing left left' right right' with
  | nil =>
      cases h
      exact Refines.join ha ht hrl hrr hkl hkr
  | cons c cs ih =>
      have haj := analyzed_of_filters ha
      have hafilter := analyzed_of_filters (p := .filter _ c) ha
      have hmoved : ∀ {p : LogicalPlan F}, pushFilter (.join left right on how broadcast) c = .ok p →
          (LogicalPlan.filter (.join left right on how broadcast) c).KeepsNames p :=
        fun hp => pushFilter_keepsNames hafilter hp
      obtain ⟨sl, hsl⟩ := haj.1.schema_ok
      obtain ⟨sr, hsr⟩ := haj.2.1.schema_ok
      rw [pushFilter, hsl, ExceptList.bind_ok, hsr, ExceptList.bind_ok,
        LogicalPlan.schema_names hsl, LogicalPlan.schema_names hsr] at hmoved
      obtain ⟨sl', hsl'⟩ := hkl.analyzed.schema_ok
      obtain ⟨sr', hsr'⟩ := hkr.analyzed.schema_ok
      rw [List.foldlM_cons, pushFilter, hsl', ExceptList.bind_ok, hsr', ExceptList.bind_ok,
        LogicalPlan.schema_names hsl', LogicalPlan.schema_names hsr', hkl.names, hkr.names] at h
      rw [SafeBelowJoin] at hsafe
      by_cases hsubl : c.referencedColumns ⊆ left.outputNames
      · rw [if_pos hsubl] at h hsafe hmoved
        have hprovides : left.Provides c := fun _ hn => hsubl hn
        refine Refines.chain (p := .filter _ c) ha ?_ (hmoved rfl) (fun ha' => ih ha' ht
          (hrl.filter hprovides (KeepsTruth.refl c)) hrr (hkl.filter hprovides) hkr hsafe.2 h)
        exact Refines.of_rows_eq (naiveRows_filter_left haj ht hsubl hsafe.1)
      rw [if_neg hsubl] at h hsafe hmoved
      by_cases hsubr : c.referencedColumns ⊆ right.outputNames
      · rw [if_pos hsubr] at h hmoved
        obtain ⟨hev, hread, hrest⟩ := hsafe hsubr
        have hprovides : right.Provides c := fun _ hn => hsubr hn
        refine Refines.chain (p := .filter _ c) ha ?_ (hmoved rfl) (fun ha' => ih ha' ht hrl
          (hrr.filter hprovides (KeepsTruth.refl c)) hkl (hkr.filter hprovides) hrest h)
        exact Refines.of_rows_eq (naiveRows_filter_right haj ht hsubr hev hread)
      · rw [if_neg hsubr, ExceptList.pure_eq_ok, ExceptList.bind_ok, pushFilter_above_filter] at h
        cases h
        exact (Refines.join haj ht hrl hrr hkl hkr).filters (c :: cs) ha

/-- Above any other node the rule moves nothing. -/
lemma pushFilters_stay (hstay : ∀ c, pushFilter p c = .ok (.filter p c))
    (conditions : List (Expression F)) :
    conditions.foldlM pushFilter p = .ok (p.filters conditions) := by
  cases conditions with
  | nil => rfl
  | cons c cs =>
      rw [List.foldlM_cons, hstay c, ExceptList.bind_ok]
      exact pushFilter_above_filter p c cs

/-- Moving the filters of a chain and those below it, each safely, yields a plan that
refines the chain. -/
theorem pushdown_chain_refines {plan : LogicalPlan F} (conditions : List (Expression F))
    (ha : (plan.filters conditions).Analyzed) (ht : plan.TablesConform)
    (hsafe : ChainSafe plan conditions) :
    ∃ plan', pushdown (plan.filters conditions) = .ok plan' ∧
      Refines (plan.filters conditions) plan' := by
  induction plan generalizing conditions with
  | scan dataset sourceName source =>
      refine ⟨_, ?_, .refl _ _⟩
      rw [pushdown_filters]
      exact pushFilters_stay (fun _ => rfl) conditions
  | filter child condition ih => exact ih (condition :: conditions) ha ht hsafe
  | project child columns ih =>
      have hap := analyzed_of_filters ha
      obtain ⟨child', hc, href⟩ := ih [] hap.1 ht hsafe.1
      obtain ⟨plan', hp⟩ := pushdown_ok ha
      have hfold := hp
      rw [pushdown_filters, pushdown] at hfold
      rw [show pushdown child = .ok child' from hc] at hfold
      exact ⟨plan', hp, pushFilters_project ha href (pushdown_keepsNames hap.1 hc) hsafe.2 hfold⟩
  | aggregate child groupBy aggregates ih =>
      have hap := analyzed_of_filters ha
      obtain ⟨child', hc, href⟩ := ih [] hap.1 ht hsafe
      have hk := (pushdown_keepsNames hap.1 hc).aggregate hap
      refine ⟨_, ?_, Refines.filters (href.aggregate hk.analyzed (fun e he => (hap.2.1 e he).2)
        (fun e he => (hap.2.2.1 e he).2)) conditions ha⟩
      rw [pushdown_filters, pushdown, show pushdown child = .ok child' from hc]
      exact pushFilters_stay (fun _ => rfl) conditions
  | join left right on how broadcast ihl ihr =>
      have hap := analyzed_of_filters ha
      obtain ⟨left', hl, hrl⟩ := ihl [] hap.1
        (ht.mono (List.subset_append_left _ _)) hsafe.1
      obtain ⟨right', hr, hrr⟩ := ihr [] hap.2.1
        (ht.mono (List.subset_append_right _ _)) hsafe.2.1
      obtain ⟨plan', hp⟩ := pushdown_ok ha
      have hfold := hp
      rw [pushdown_filters, pushdown, show pushdown left = .ok left' from hl, ExceptList.bind_ok,
        show pushdown right = .ok right' from hr] at hfold
      exact ⟨plan', hp, pushFilters_join ha ht hrl hrr (pushdown_keepsNames hap.1 hl)
        (pushdown_keepsNames hap.2.1 hr) hsafe.2.2 hfold⟩
  | sort child keys ih =>
      have hap := analyzed_of_filters ha
      obtain ⟨child', hc, href⟩ := ih [] hap.1 ht hsafe
      refine ⟨_, ?_, Refines.filters (href.sort (fun k hk => (hap.2 k hk).2)) conditions ha⟩
      rw [pushdown_filters, pushdown, show pushdown child = .ok child' from hc]
      exact pushFilters_stay (fun _ => rfl) conditions

end Chain

theorem pushdown_refines {plan : LogicalPlan F} (ha : plan.Analyzed)
    (ht : plan.TablesConform) (hsafe : PushdownSafe plan) :
    ∃ plan', pushdown plan = .ok plan' ∧ Refines plan plan' :=
  pushdown_chain_refines [] ha ht hsafe

section Sides

variable {columns : List (Expression F)} {on : List String}

lemma SafeBelowProject.of_append {child : LogicalPlan F} {cs ds : List (Expression F)}
    (h : SafeBelowProject columns child (cs ++ ds)) : SafeBelowProject columns child cs := by
  induction cs generalizing child with
  | nil => trivial
  | cons c cs ih => exact fun hsub => ⟨(h hsub).1, ih (h hsub).2⟩

lemma SafeBelowJoin.of_append {left right : LogicalPlan F} {cs ds : List (Expression F)}
    (h : SafeBelowJoin on left right (cs ++ ds)) : SafeBelowJoin on left right cs := by
  induction cs generalizing left right with
  | nil => trivial
  | cons c cs ih =>
      rw [List.cons_append, SafeBelowJoin] at h
      rw [SafeBelowJoin]
      split
      · next hsub =>
          rw [if_pos hsub] at h
          exact ⟨h.1, ih h.2⟩
      · next hsub =>
          rw [if_neg hsub] at h
          exact fun hsubr => ⟨(h hsubr).1, (h hsubr).2.1, ih (h hsubr).2.2⟩

/-- Fewer filters above a plan can be moved as safely. -/
lemma ChainSafe.of_append {plan : LogicalPlan F} (cs ds : List (Expression F))
    (h : ChainSafe plan (cs ++ ds)) : ChainSafe plan cs := by
  induction plan generalizing cs with
  | scan _ _ _ => trivial
  | filter child condition ih => exact ih (condition :: cs) h
  | project child columns ih => exact ⟨h.1, h.2.of_append⟩
  | aggregate child groupBy aggregates ih => exact h
  | join left right on how broadcast ihl ihr => exact ⟨h.1, h.2.1, h.2.2.of_append⟩
  | sort child keys ih => exact h

/-- The child of a safe filter is safe. -/
lemma PushdownSafe.child {child : LogicalPlan F} {condition : Expression F}
    (h : PushdownSafe (.filter child condition)) : PushdownSafe child :=
  ChainSafe.of_append [] [condition] h

end Sides

end Pushdown

section Prune

open LogicalPlan

/-- Projecting rows to columns they have keeps the values under these columns. -/
theorem projectRows_columns {names keep : List String} {rows : List (Record F)}
    (hrows : ∀ r ∈ rows, HasKeys names r) (hnd : keep.Nodup) (hsub : keep ⊆ names) :
    ∃ out, projectRows keep (keep.map Expression.column) rows = .ok out ∧
      AgreeRows (· ∈ keep) rows out := by
  refine ExceptList.mapM_ok_of_exists (fun r hr => ?_)
  have hcols : ∀ e ∈ keep.map (Expression.column (F := F)), ∃ v, e.evaluate r = .ok v ∧ True := by
    intro e he
    obtain ⟨n, hn, rfl⟩ := List.mem_map.mp he
    obtain ⟨v, hv⟩ := Option.isSome_iff_exists.mp ((hrows r hr n).mpr (hsub hn))
    exact ⟨v, Expression.lookupColumn_eq_ok.mpr hv, trivial⟩
  obtain ⟨values, hvalues, -⟩ := ExceptList.mapM_ok_of_exists hcols
  have hp : projectRow ((keep.map (Expression.column (F := F))).map Expression.columnName)
      (keep.map Expression.column) r =
      .ok (OrderedDict.ofList (((keep.map (Expression.column (F := F))).map
        Expression.columnName).zip values)) := by
    rw [projectRow, hvalues]
    rfl
  refine ⟨_, by rw [names_of_columns] at hp; exact hp, fun n hn => ?_⟩
  obtain ⟨v, hv, hget⟩ := projectRow_get? (by rwa [names_of_columns]) hp
    (List.mem_map_of_mem hn)
  rw [names_of_columns] at hget
  rw [Expression.evaluate_column, Expression.lookupColumn_eq_ok] at hv
  exact hget.trans hv.symm

/-- Nothing above the node has ruled the name out. -/
def Needed (needed : Option (List String)) (n : String) : Prop :=
  ∀ names, needed = some names → n ∈ names

lemma pruneScan_simulates (dataset : Dataset F) (sourceName : String)
    (source : Option (ScanSource F)) (needed : Option (List String))
    (ht : (scan dataset sourceName source).TablesConform) :
    Simulates (fun n => n ∈ dataset.schema.fieldNames ∧ Needed needed n)
      (scan dataset sourceName source) (pruneScan dataset sourceName source needed) := by
  have hpruned := (pruneScan_prunedTo dataset sourceName source needed).analyzed
  unfold pruneScan at *
  split
  · exact .refl _ _
  · next names =>
      simp only at hpruned ⊢
      split
      · next hkeep =>
          rw [if_pos hkeep] at hpruned
          intro rows hrows
          obtain ⟨out, hout, hag⟩ := projectRows_columns
            (ht dataset (by simp [tables]) rows hrows)
            (dataset.schema.fieldNames_nodup.filter (fun c => c ∈ names)) (List.filter_subset_self _)
          refine ⟨out, ?_, hag.mono (fun n hn => ?_)⟩
          · rw [naiveRows_project hpruned, hrows, names_of_columns]
            exact hout
          · exact List.mem_filter.mpr ⟨hn.1, by simpa using hn.2 names rfl⟩
      · exact .refl _ _

theorem prune_simulates {plan : LogicalPlan F} (ha : plan.Analyzed)
    (ht : plan.TablesConform) (needed : Option (List String)) :
    ∃ plan', prune plan needed = .ok plan' ∧
      Simulates (fun n => n ∈ plan.outputNames ∧ Needed needed n) plan plan' := by
  induction plan generalizing needed with
  | scan dataset sourceName source => exact ⟨_, rfl, pruneScan_simulates _ _ _ _ ht⟩
  | filter child condition ih =>
      obtain ⟨child', hc, hsim⟩ := ih ha.1 ht
        (needed.map (fun n => n ++ condition.referencedColumns))
      refine ⟨_, by rw [prune, hc]; rfl, ?_⟩
      refine Simulates.mono (Simulates.filter hsim (fun n hn => ⟨ha.2 n hn, fun names hnames => ?_⟩)
        (KeepsTruth.refl condition)) (fun n hn => ⟨hn.1, needed_mono hn.2⟩)
      obtain ⟨m, _, rfl⟩ := Option.map_eq_some_iff.mp hnames
      exact List.mem_append_right _ hn
  | project child columns ih =>
      obtain ⟨child', hc, hsim⟩ := ih ha.1 ht (some (allReferenced columns))
      have hprune : prune (.project child columns) needed = .ok (.project child' columns) := by
        rw [prune, hc]
        rfl
      refine ⟨_, hprune, hsim.project ha (prune_prunedTo ha hprune).analyzed rfl ?_
        (List.forall₂_same.mpr (fun e _ => KeepsValue.refl e))⟩
      intro e he n hn
      refine ⟨ha.2.1 e he n hn, fun names hnames => ?_⟩
      cases hnames
      exact mem_allReferenced.mpr ⟨e, he, hn⟩
  | aggregate child groupBy aggregates ih =>
      obtain ⟨child', hc, hsim⟩ := ih ha.1 ht
        (some (allReferenced groupBy ++ allReferenced aggregates))
      have hprune : prune (.aggregate child groupBy aggregates) needed =
          .ok (.aggregate child' groupBy aggregates) := by
        rw [prune, hc]
        rfl
      refine ⟨_, hprune, hsim.aggregate (prune_prunedTo ha hprune).analyzed ?_ ?_⟩
      · intro e he n hn
        refine ⟨(ha.2.1 e he).2 n hn, fun names hnames => ?_⟩
        cases hnames
        exact List.mem_append_left _ (mem_allReferenced.mpr ⟨e, he, hn⟩)
      · intro e he n hn
        refine ⟨(ha.2.2.1 e he).2 n hn, fun names hnames => ?_⟩
        cases hnames
        exact List.mem_append_right _ (mem_allReferenced.mpr ⟨e, he, hn⟩)
  | join left right on how broadcast ihl ihr =>
      obtain ⟨hal, har, -, -, hon, -⟩ := id ha
      obtain ⟨l, hl⟩ := hal.schema_ok
      obtain ⟨r, hr⟩ := har.schema_ok
      have htl : left.TablesConform := ht.mono (List.subset_append_left _ _)
      have htr : right.TablesConform := ht.mono (List.subset_append_right _ _)
      obtain ⟨left', hl', hsl⟩ := ihl hal htl (some (joinSide needed on l.fieldNames))
      obtain ⟨right', hr', hsr⟩ := ihr har htr (some (joinSide needed on r.fieldNames))
      have hpl := prune_prunedTo hal hl'
      have hpr := prune_prunedTo har hr'
      refine ⟨.join left' right' on how broadcast, ?_, ?_⟩
      · rw [prune, hl, ExceptList.bind_ok, hr, ExceptList.bind_ok, hl', ExceptList.bind_ok, hr']
        rfl
      · refine Simulates.join hsl hsr hal hpl.analyzed har hpr.analyzed htl (htl.mono hpl.tables)
          htr (htr.mono hpr.tables) hpl.names.subset hpr.names.subset (fun n hn => ?_)
          (fun n hn hmem => ⟨hmem, ?_⟩) (fun n hn hmem _ => ⟨hmem, ?_⟩)
        · refine ⟨⟨(hon n hn).1, ?_⟩, ⟨(hon n hn).2, ?_⟩⟩
          · rintro names ⟨⟩
            exact mem_joinSide (schema_names hl ▸ (hon n hn).1) (Or.inl hn)
          · rintro names ⟨⟩
            exact mem_joinSide (schema_names hr ▸ (hon n hn).2) (Or.inl hn)
        · rintro names ⟨⟩
          exact mem_joinSide (schema_names hl ▸ hmem) (Or.inr hn.2)
        · rintro names ⟨⟩
          exact mem_joinSide (schema_names hr ▸ hmem) (Or.inr hn.2)
  | sort child keys ih =>
      obtain ⟨child', hc, hsim⟩ := ih ha.1 ht
        (needed.map (fun n => n ++ allReferenced (keys.map Prod.fst)))
      refine ⟨_, by rw [prune, hc]; rfl, ?_⟩
      refine Simulates.mono (Simulates.sort hsim (fun k hk n hn =>
        ⟨(ha.2 k hk).2 n hn, fun names hnames => ?_⟩)) (fun n hn => ⟨hn.1, needed_mono hn.2⟩)
      obtain ⟨m, _, rfl⟩ := Option.map_eq_some_iff.mp hnames
      exact List.mem_append_right _ (mem_allReferenced.mpr ⟨k.1, List.mem_map_of_mem hk, hn⟩)

theorem prune_refines {plan : LogicalPlan F} (ha : plan.Analyzed)
    (ht : plan.TablesConform) : ∃ plan', prune plan none = .ok plan' ∧ Refines plan plan' := by
  obtain ⟨plan', hp, hsim⟩ := prune_simulates ha ht none
  exact ⟨plan', hp, hsim.mono (fun n hn => ⟨hn, fun _ h => by cases h⟩)⟩

end Prune

section Eliminate

open LogicalPlan

/-- Rows projected to plain columns agree with the rows they come from. -/
lemma projectRows_columns_agree {names : List String} {rows out : List (Record F)}
    (hnd : names.Nodup) (h : projectRows names (names.map Expression.column) rows = .ok out) :
    AgreeRows (· ∈ names) out rows := by
  have hrel := ExceptList.mapM_eq_ok.mp h
  refine List.Forall₂.flip (List.Forall₂.imp (fun r p hp n hn => ?_) hrel)
  have hp' : projectRow ((names.map (Expression.column (F := F))).map Expression.columnName)
      (names.map Expression.column) r = .ok p := by rwa [names_of_columns]
  obtain ⟨v, hv, hget⟩ := projectRow_get? (by rwa [names_of_columns]) hp' (List.mem_map_of_mem hn)
  rw [Expression.evaluate_column, Expression.lookupColumn_eq_ok] at hv
  exact hv.trans hget.symm

theorem collapseProject_refines {child : LogicalPlan F} {columns : List (Expression F)}
    (ha : (LogicalPlan.project child columns).Analyzed) :
    Refines (.project child columns) (collapseProject child columns) := by
  have hk := collapseProject_keepsNames ha
  unfold collapseProject at *
  split
  · next grandchild inner =>
      split
      · next hplain =>
          simp only [hplain, if_true] at hk
          obtain ⟨names, hnames⟩ := Option.isSome_iff_exists.mp hplain
          obtain rfl := columnNames?_eq_some.mp hnames
          refine Simulates.project (P := (· ∈ names)) ?_ ha hk.analyzed rfl (fun e he n hn => ?_)
            (List.forall₂_same.mpr (fun e _ => KeepsValue.refl e))
          · intro rows hrows
            rw [naiveRows_project ha.1, names_of_columns] at hrows
            obtain ⟨grows, hg, hrows⟩ := ExceptList.bind_eq_ok.mp hrows
            have hnd : names.Nodup := names_of_columns (F := F) names ▸ ha.1.2.2.nodup
            exact ⟨grows, hg, projectRows_columns_agree hnd hrows⟩
          · have hin := ha.2.1 e he n hn
            rwa [outputNames, names_of_columns] at hin
      · exact .refl _ _
  · exact .refl _ _

theorem eliminateProject_refines {child : LogicalPlan F} {columns : List (Expression F)}
    (ha : (LogicalPlan.project child columns).Analyzed) :
    ∃ plan', eliminateProject child columns = .ok plan' ∧
      Refines (.project child columns) plan' := by
  have hcollapse := collapseProject_refines ha
  unfold eliminateProject
  split
  · next names hnames =>
      obtain rfl := columnNames?_eq_some.mp hnames
      obtain ⟨s, hsch⟩ := ha.1.schema_ok
      rw [hsch, ExceptList.bind_ok]
      split
      · refine ⟨child, rfl, fun rows hrows => ?_⟩
        rw [naiveRows_project ha, names_of_columns] at hrows
        obtain ⟨crows, hc, hrows⟩ := ExceptList.bind_eq_ok.mp hrows
        have hnd : names.Nodup := names_of_columns (F := F) names ▸ ha.2.2.nodup
        refine ⟨crows, hc, (projectRows_columns_agree hnd hrows).mono (fun n hn => ?_)⟩
        rwa [outputNames, names_of_columns] at hn
      · exact ⟨_, rfl, hcollapse⟩
  · exact ⟨_, rfl, hcollapse⟩

theorem eliminate_refines {plan : LogicalPlan F} (ha : plan.Analyzed)
    (ht : plan.TablesConform) : ∃ plan', eliminate plan = .ok plan' ∧ Refines plan plan' := by
  induction plan with
  | scan _ _ _ => exact ⟨_, rfl, .refl _ _⟩
  | filter child condition ih =>
      obtain ⟨child', hc, href⟩ := ih ha.1 ht
      exact ⟨_, by rw [eliminate, hc]; rfl, href.filter ha.2 (KeepsTruth.refl condition)⟩
  | project child columns ih =>
      obtain ⟨child', hc, href⟩ := ih ha.1 ht
      have hk := (eliminate_keepsNames ha.1 hc).project ha
      obtain ⟨plan', hp, href'⟩ := eliminateProject_refines hk.analyzed
      refine ⟨plan', by rw [eliminate, hc]; exact hp, Refines.trans ?_ href' hk.names⟩
      exact href.project ha hk.analyzed rfl ha.2.1
        (List.forall₂_same.mpr (fun e _ => KeepsValue.refl e))
  | aggregate child groupBy aggregates ih =>
      obtain ⟨child', hc, href⟩ := ih ha.1 ht
      have hk := (eliminate_keepsNames ha.1 hc).aggregate ha
      exact ⟨_, by rw [eliminate, hc]; rfl, href.aggregate hk.analyzed
        (fun e he => (ha.2.1 e he).2) (fun e he => (ha.2.2.1 e he).2)⟩
  | join left right on how broadcast ihl ihr =>
      obtain ⟨left', hl, hrl⟩ := ihl ha.1 (ht.mono (List.subset_append_left _ _))
      obtain ⟨right', hr, hrr⟩ := ihr ha.2.1 (ht.mono (List.subset_append_right _ _))
      exact ⟨_, by rw [eliminate, hl, ExceptList.bind_ok, hr]; rfl, Refines.join ha ht hrl hrr
        (eliminate_keepsNames ha.1 hl) (eliminate_keepsNames ha.2.1 hr)⟩
  | sort child keys ih =>
      obtain ⟨child', hc, href⟩ := ih ha.1 ht
      exact ⟨_, by rw [eliminate, hc]; rfl, href.sort (fun k hk => (ha.2 k hk).2)⟩

end Eliminate

section Optimize

/-- One rule application evaluates nothing at plan time that raises, and nothing at
run time that the plan did not evaluate with the same outcome. -/
def StepSafe : Rule → LogicalPlan F → Prop
  | .constantFolding, plan => ∀ e ∈ plan.conditions ++ plan.projected, FoldSafe e
  | .filterSimplification, plan =>
      (∀ e ∈ plan.conditions, SimplifySafe e false) ∧ ∀ e ∈ plan.projected, SimplifySafe e true
  | .predicatePushdown, plan => PushdownSafe plan
  | .projectionPruning, _ => True
  | .redundantProjectionElimination, _ => True

/-- Every rule application of a round is safe. -/
def RoundSafe : List Rule → LogicalPlan F → Prop
  | [], _ => True
  | rule :: rules, plan =>
      StepSafe rule plan ∧ ∀ plan', rule.apply plan = .ok plan' → RoundSafe rules plan'

/-- Every round of the loop is safe, and the plans it compares print. -/
def LoopSafe (rules : List Rule) : ℕ → LogicalPlan F → Prop
  | 0, _ => True
  | n + 1, plan => plan.Explains ∧ RoundSafe rules plan ∧
      ∀ plan', applyRules rules plan = .ok plan' → plan'.Explains ∧
        (plan'.explainString ≠ plan.explainString → LoopSafe rules n plan')

lemma RoundSafe.cons {rule : Rule} {rules : List Rule} {plan mid : LogicalPlan F}
    (hsafe : StepSafe rule plan) (hmid : rule.apply plan = .ok mid) (h : RoundSafe rules mid) :
    RoundSafe (rule :: rules) plan := by
  refine ⟨hsafe, fun plan' hp => ?_⟩
  rw [hmid, Except.ok.injEq] at hp
  exact hp ▸ h

lemma LoopSafe.succ {rules : List Rule} {n : ℕ} {plan mid : LogicalPlan F}
    (hprints : plan.Explains) (hsafe : RoundSafe rules plan)
    (hmid : applyRules rules plan = .ok mid) (hmprints : mid.Explains)
    (h : mid.explainString ≠ plan.explainString → LoopSafe rules n mid) :
    LoopSafe rules (n + 1) plan := by
  refine ⟨hprints, hsafe, fun plan' hp => ?_⟩
  rw [hmid, Except.ok.injEq] at hp
  exact hp ▸ ⟨hmprints, h⟩

/-- A safe step of the optimizer yields a plan that refines its input. -/
theorem Rule.refines {rule : Rule} {plan : LogicalPlan F} (ha : plan.Analyzed)
    (hs : plan.NamesSettled) (ht : plan.TablesConform) (hsafe : StepSafe rule plan) :
    ∃ plan', rule.apply plan = .ok plan' ∧ Refines plan plan' := by
  cases rule with
  | constantFolding =>
      have hfold : ∀ e ∈ plan.conditions ++ plan.projected, ∃ e', fold e = .ok e' ∧ KeepsValue e e' := by
        intro e he
        obtain ⟨e', h, -⟩ := fold_ok (hsafe e he)
        exact ⟨e', h, fun r v hv => (fold_evaluate h r).trans hv⟩
      refine mapExpressions_refines rewritesInPlace_fold ha hs ht (fun e he => ?_)
        (fun e he => hfold e (List.mem_append_right _ he))
      obtain ⟨e', h, hk⟩ := hfold e (List.mem_append_left _ he)
      exact ⟨e', h, hk.keepsTruth⟩
  | filterSimplification =>
      refine mapExpressions_refines rewritesInPlace_simplifyBool ha hs ht
        (fun e he => ⟨_, rfl, fun r v hv => ?_⟩) (fun e he => ⟨_, rfl, fun r v hv => ?_⟩)
      · obtain ⟨v', hv', htruth, -⟩ := simplifyBool_evaluate (hsafe.1 e he) hv
        exact ⟨v', hv', htruth⟩
      · obtain ⟨v', hv', -, heq⟩ := simplifyBool_evaluate (hsafe.2 e he) hv
        exact heq rfl ▸ hv'
  | predicatePushdown => exact pushdown_refines ha ht hsafe
  | projectionPruning => exact prune_refines ha ht
  | redundantProjectionElimination => exact eliminate_refines ha ht

end Optimize

section Examples

/-- `Column("a") > Literal(20)`. -/
def aAbove : Expression ℚ := .binary .greaterThan (.column "a") (.literal (.int 20))

lemma abTable_conforms {plan : LogicalPlan ℚ} (h : plan.tables = abTable.tables) :
    plan.TablesConform := by
  intro d hd rows hrows r hr n
  obtain rfl : d = _ := List.mem_singleton.mp (h ▸ hd)
  rw [rowsDataset_iterRecords] at hrows
  cases hrows
  obtain rfl := List.mem_singleton.mp hr
  rw [OrderedDict.isSome_get?_iff]
  rfl

end Examples

end MiniSpark
