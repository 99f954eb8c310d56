import MiniSpark.FilterMoves
import MiniSpark.JoinPushdown

/-!
# What a plan needs for the optimizer to keep it running

The first round folds and simplifies every expression and moves every filter; later rounds
do so again to what the first one left. The condition is read off the plan as it is given:
what its expressions come to and where its filters can go. Each rule keeps it, so every
step of every round is safe.
-/
namespace MiniSpark

variable {F : Type} [PyRuntime F]

section Conditions

/-- What folding and then simplifying leave of an expression. -/
def passedOnce (e : Expression F) : Expression F :=
  match fold e with
  | .ok e' => simplifyBool e'
  | .error _ => e

/-- Folding finds a value that prints wherever it looks for one, and one pass, which makes
`f condition` of the condition, leaves it no column that a later pass drops. -/
structure ConditionReady (f : Expression F → Expression F) (condition : Expression F) : Prop where
  constants : ConstantsEvaluate (fun v => v.prints = true) condition
  kept : ValueKept condition false
  live : (f condition).referencedColumns ⊆ condition.liveColumns

/-- Folding finds a value wherever it looks for one, and simplification leaves the value. -/
structure ColumnReady (column : Expression F) : Prop where
  constants : ConstantsEvaluate (fun _ => True) column
  kept : ValueKept column true

/-- What the optimizer needs of a plan, the filters of which one pass brings to the form `f`. -/
structure LogicalPlan.Ready (f : Expression F → Expression F) (plan : LogicalPlan F) : Prop where
  conform : plan.TablesConform
  settled : plan.NamesSettled
  conditions : ∀ condition ∈ plan.conditions, ConditionReady f condition
  columns : ∀ column ∈ plan.projected, ColumnReady column
  places : PlacesSafe f plan []

/-- A plan between two rules. -/
structure LogicalPlan.Underway (f : Expression F → Expression F) (plan : LogicalPlan F) : Prop
    extends plan.Ready f where
  analyzed : plan.Analyzed
  runs : plan.Runs
  prints : ∀ condition ∈ plan.conditions, condition.prints = true

end Conditions

section Expressions

variable {e e' c : Expression F} {f : Expression F → Expression F}

lemma ColumnReady.column (name : String) : ColumnReady (Expression.column name : Expression F) :=
  ⟨trivial, trivial⟩

lemma ColumnReady.fold (h : ColumnReady e) :
    ∃ e', MiniSpark.fold e = .ok e' ∧ KeepsValue e e' ∧ ColumnReady e' := by
  obtain ⟨e', he, -⟩ := fold_ok h.constants.foldSafe
  exact ⟨e', he, fun r v hv => (fold_evaluate he r).trans hv, h.constants.fold he, h.kept.fold he⟩

lemma ColumnReady.simplify (h : ColumnReady e) :
    KeepsValue e (simplifyBool e) ∧ ColumnReady (simplifyBool e) := by
  refine ⟨fun r v hv => ?_, h.constants.simplify (fun _ => trivial) h.kept, h.kept.simplify⟩
  obtain ⟨v', hv', -, heq⟩ := simplifyBool_evaluate h.kept.simplifySafe hv
  exact heq rfl ▸ hv'

lemma ValueKept.keepsTruth (h : ValueKept c false) : KeepsTruth c (simplifyBool c) := by
  intro r v hv
  obtain ⟨v', hv', htruth, -⟩ := simplifyBool_evaluate h.simplifySafe hv
  exact ⟨v', hv', htruth⟩

/-- A rule takes conditions from the form `f` to the form `f'`: it rewrites each into one that
goes on standing for it. -/
def Advances (fn : Expression F → Py (Expression F)) (f f' : Expression F → Expression F) : Prop :=
  ∀ c, ConditionReady f c → c.prints = true →
    ∃ c', fn c = .ok c' ∧ KeepsTruth c c' ∧ Replaces (f c) (f' c') ∧ ConditionReady f' c' ∧
      c'.prints = true

/-- In the first round folding starts the pass. -/
lemma advances_fold_first : Advances (F := F) fold passedOnce simplifyBool := by
  intro c h hp
  obtain ⟨c', hc, -⟩ := fold_ok h.constants.foldSafe
  have honce : passedOnce c = simplifyBool c' := by rw [passedOnce, hc]
  refine ⟨c', hc, fun r v hv => ⟨v, (fold_evaluate hc r).trans hv, rfl⟩, honce ▸ Replaces.refl _,
    ⟨h.constants.fold hc, h.kept.fold hc, ?_⟩, fold_prints h.constants hp hc⟩
  rw [fold_liveColumns hc, ← honce]
  exact h.live

/-- Simplification ends the pass. -/
lemma advances_simplify_first :
    Advances (F := F) (fun e => pure (simplifyBool e)) simplifyBool id := by
  intro c h hp
  refine ⟨simplifyBool c, rfl, h.kept.keepsTruth, Replaces.refl _,
    ⟨h.constants.simplify (fun _ => rfl) h.kept, h.kept.simplify, ?_⟩, simplifyBool_prints hp⟩
  exact List.Subset.trans h.live (simplifyBool_simplifiedTo h.kept).1.live

/-- A later pass leaves the columns. -/
lemma advances_fold : Advances (F := F) fold id id := by
  intro c h hp
  obtain ⟨c', hc, -⟩ := fold_ok h.constants.foldSafe
  have hkeeps : KeepsTruth c c' := fun r v hv => ⟨v, (fold_evaluate hc r).trans hv, rfl⟩
  have hlive : c.referencedColumns ⊆ c'.liveColumns := fold_liveColumns hc ▸ h.live
  have hsub : c'.referencedColumns ⊆ c.referencedColumns := fold_refs hc
  exact ⟨c', hc, hkeeps, ⟨hsub, List.Subset.trans hlive (liveColumns_subset c'), hkeeps⟩,
    ⟨h.constants.fold hc, h.kept.fold hc, List.Subset.trans hsub hlive⟩,
    fold_prints h.constants hp hc⟩

lemma advances_simplify : Advances (F := F) (fun e => pure (simplifyBool e)) id id := by
  intro c h hp
  have hlive : c.referencedColumns ⊆ (simplifyBool c).liveColumns :=
    List.Subset.trans h.live (simplifyBool_simplifiedTo h.kept).1.live
  have hsub : (simplifyBool c).referencedColumns ⊆ c.referencedColumns := simplifyBool_refs c
  exact ⟨simplifyBool c, rfl, h.kept.keepsTruth,
    ⟨hsub, List.Subset.trans hlive (liveColumns_subset _), h.kept.keepsTruth⟩,
    ⟨h.constants.simplify (fun _ => rfl) h.kept, h.kept.simplify, List.Subset.trans hsub hlive⟩,
    simplifyBool_prints hp⟩

end Expressions

section Kept

variable {child plan plan' : LogicalPlan F} {condition : Expression F}
  {columns : List (Expression F)} {needed : Option (List String)}

/-- The second plan has no condition and, but for plain ones, no column that the first has not. -/
structure LogicalPlan.Draws (plan plan' : LogicalPlan F) : Prop where
  conditions : plan'.conditions ⊆ plan.conditions
  projected : ∀ e ∈ plan'.projected, e ∈ plan.projected ∨ e.isColumn = true

omit [PyRuntime F] in
lemma LogicalPlan.Draws.refl (plan : LogicalPlan F) : plan.Draws plan :=
  ⟨List.Subset.refl _, fun _ h => Or.inl h⟩

omit [PyRuntime F] in
lemma LogicalPlan.Draws.trans {p q r : LogicalPlan F} (h : p.Draws q) (h' : q.Draws r) :
    p.Draws r :=
  ⟨List.Subset.trans h'.conditions h.conditions,
    fun e he => (h'.projected e he).elim (h.projected e) Or.inr⟩

omit [PyRuntime F] in
lemma LogicalPlan.Draws.filter {child' : LogicalPlan F} (h : child.Draws child')
    (condition : Expression F) :
    (LogicalPlan.filter child condition).Draws (.filter child' condition) :=
  ⟨List.cons_subset_cons condition h.conditions, h.projected⟩

omit [PyRuntime F] in
lemma LogicalPlan.Draws.project {child' : LogicalPlan F} (h : child.Draws child')
    (columns : List (Expression F)) :
    (LogicalPlan.project child columns).Draws (.project child' columns) := by
  refine ⟨h.conditions, fun e he => ?_⟩
  rcases List.mem_append.mp he with he | he
  · exact Or.inl (List.mem_append_left _ he)
  · exact (h.projected e he).imp_left (List.mem_append_right _)

omit [PyRuntime F] in
lemma LogicalPlan.Draws.join {left left' right right' : LogicalPlan F} (hl : left.Draws left')
    (hr : right.Draws right') (on : List String) (how : String) (broadcast : Bool) :
    (LogicalPlan.join left right on how broadcast).Draws (.join left' right' on how broadcast) := by
  refine ⟨append_subset_append hl.conditions hr.conditions, fun e he => ?_⟩
  rcases List.mem_append.mp he with he | he
  · exact (hl.projected e he).imp_left (List.mem_append_left _)
  · exact (hr.projected e he).imp_left (List.mem_append_right _)

lemma pushFilter_draws (h : pushFilter child condition = .ok plan') :
    (LogicalPlan.filter child condition).Draws plan' := by
  unfold pushFilter at h
  split at h
  · obtain ⟨s, -, h⟩ := ExceptList.bind_eq_ok.mp h
    split at h <;> cases h <;> exact ⟨List.Subset.refl _, fun _ he => Or.inl he⟩
  · next left right on how broadcast =>
      obtain ⟨l, -, h⟩ := ExceptList.bind_eq_ok.mp h
      obtain ⟨r, -, h⟩ := ExceptList.bind_eq_ok.mp h
      split at h
      · cases h
        exact ⟨List.Subset.refl _, fun _ he => Or.inl he⟩
      · split at h <;> cases h
        · exact ⟨List.perm_middle.subset, fun _ he => Or.inl he⟩
        · exact .refl _
  · cases h
    exact .refl _

lemma pushdown_draws (h : pushdown plan = .ok plan') : plan.Draws plan' := by
  induction plan generalizing plan' with
  | scan _ _ _ => cases h; exact .refl _
  | filter child condition ih =>
      obtain ⟨child', hc, h⟩ := ExceptList.bind_eq_ok.mp h
      exact ((ih hc).filter condition).trans (pushFilter_draws h)
  | project child columns ih =>
      obtain ⟨child', hc, h⟩ := ExceptList.bind_eq_ok.mp h
      have hchild := ih hc
      cases h
      exact hchild.project columns
  | aggregate child groupBy aggregates ih =>
      obtain ⟨child', hc, h⟩ := ExceptList.bind_eq_ok.mp h
      have hchild := ih hc
      cases h
      exact ⟨hchild.conditions, hchild.projected⟩
  | join left right on how broadcast ihl ihr =>
      obtain ⟨left', hl, h⟩ := ExceptList.bind_eq_ok.mp h
      obtain ⟨right', hr, h⟩ := ExceptList.bind_eq_ok.mp h
      cases h
      exact (ihl hl).join (ihr hr) on how broadcast
  | sort child keys ih =>
      obtain ⟨child', hc, h⟩ := ExceptList.bind_eq_ok.mp h
      have hchild := ih hc
      cases h
      exact ⟨hchild.conditions, hchild.projected⟩

omit [PyRuntime F] in
lemma pruneScan_draws (dataset : Dataset F) (sourceName : String) (source : Option (ScanSource F)) :
    (LogicalPlan.scan dataset sourceName source).Draws
      (pruneScan dataset sourceName source needed) := by
  unfold pruneScan
  split
  · exact .refl _
  · simp only
    split
    · refine ⟨List.Subset.refl _, fun e he => Or.inr ?_⟩
      rcases List.mem_append.mp he with he | he
      · obtain ⟨n, -, rfl⟩ := List.mem_map.mp he
        rfl
      · cases he
    · exact .refl _

lemma prune_draws (h : prune plan needed = .ok plan') : plan.Draws plan' := by
  induction plan generalizing plan' needed with
  | scan dataset sourceName source => cases h; exact pruneScan_draws dataset sourceName source
  | filter child condition ih =>
      obtain ⟨child', hc, h⟩ := ExceptList.bind_eq_ok.mp h
      have hchild := ih hc
      cases h
      exact hchild.filter condition
  | project child columns ih =>
      obtain ⟨child', hc, h⟩ := ExceptList.bind_eq_ok.mp h
      have hchild := ih hc
      cases h
      exact hchild.project columns
  | aggregate child groupBy aggregates ih =>
      obtain ⟨child', hc, h⟩ := ExceptList.bind_eq_ok.mp h
      have hchild := ih hc
      cases h
      exact ⟨hchild.conditions, hchild.projected⟩
  | join left right on how broadcast ihl ihr =>
      simp only [prune, ExceptList.bind_eq_ok] at h
      obtain ⟨l, -, r, -, left', hl, right', hr, h⟩ := h
      cases h
      exact (ihl hl).join (ihr hr) on how broadcast
  | sort child keys ih =>
      obtain ⟨child', hc, h⟩ := ExceptList.bind_eq_ok.mp h
      have hchild := ih hc
      cases h
      exact ⟨hchild.conditions, hchild.projected⟩

omit [PyRuntime F] in
lemma collapseProject_draws : (LogicalPlan.project child columns).Draws
    (collapseProject child columns) := by
  unfold collapseProject
  split
  · next grandchild inner =>
      split
      · refine ⟨List.Subset.refl _, fun e he => Or.inl ?_⟩
        exact (append_subset_append (List.Subset.refl columns)
          (List.subset_append_right inner grandchild.projected)) he
      · exact .refl _
  · exact .refl _

lemma eliminateProject_draws (h : eliminateProject child columns = .ok plan') :
    (LogicalPlan.project child columns).Draws plan' := by
  unfold eliminateProject at h
  split at h
  · obtain ⟨s, -, h⟩ := ExceptList.bind_eq_ok.mp h
    split at h <;> cases h
    · exact ⟨List.Subset.refl _, fun e he => Or.inl (List.mem_append_right _ he)⟩
    · exact collapseProject_draws
  · cases h
    exact collapseProject_draws

lemma eliminate_draws (h : eliminate plan = .ok plan') : plan.Draws plan' := by
  induction plan generalizing plan' with
  | scan _ _ _ => cases h; exact .refl _
  | filter child condition ih =>
      obtain ⟨child', hc, h⟩ := ExceptList.bind_eq_ok.mp h
      have hchild := ih hc
      cases h
      exact hchild.filter condition
  | project child columns ih =>
      obtain ⟨child', hc, h⟩ := ExceptList.bind_eq_ok.mp h
      exact ((ih hc).project columns).trans (eliminateProject_draws h)
  | aggregate child groupBy aggregates ih =>
      obtain ⟨child', hc, h⟩ := ExceptList.bind_eq_ok.mp h
      have hchild := ih hc
      cases h
      exact ⟨hchild.conditions, hchild.projected⟩
  | join left right on how broadcast ihl ihr =>
      obtain ⟨left', hl, h⟩ := ExceptList.bind_eq_ok.mp h
      obtain ⟨right', hr, h⟩ := ExceptList.bind_eq_ok.mp h
      cases h
      exact (ihl hl).join (ihr hr) on how broadcast
  | sort child keys ih =>
      obtain ⟨child', hc, h⟩ := ExceptList.bind_eq_ok.mp h
      have hchild := ih hc
      cases h
      exact ⟨hchild.conditions, hchild.projected⟩

omit [PyRuntime F] in
/-- The expressions of a rewritten plan are rewritten from those of the plan. -/
lemma mapExpressions_images {fn : Expression F → Py (Expression F)}
    (h : mapExpressions fn plan = .ok plan') :
    (∀ c' ∈ plan'.conditions, ∃ c ∈ plan.conditions, fn c = .ok c') ∧
      ∀ e' ∈ plan'.projected, ∃ e ∈ plan.projected, fn e = .ok e' := by
  induction plan generalizing plan' with
  | scan _ _ _ => cases h; exact ⟨List.forall_mem_nil _, List.forall_mem_nil _⟩
  | filter child condition ih =>
      obtain ⟨child', hchild, h⟩ := ExceptList.bind_eq_ok.mp h
      obtain ⟨condition', hc, h⟩ := ExceptList.bind_eq_ok.mp h
      obtain ⟨hcs, hes⟩ := ih hchild
      cases h
      refine ⟨List.forall_mem_cons.mpr ⟨⟨condition, List.mem_cons_self, hc⟩, fun c' hc' => ?_⟩, hes⟩
      obtain ⟨c, hmem, hfn⟩ := hcs c' hc'
      exact ⟨c, List.mem_cons_of_mem condition hmem, hfn⟩
  | project child columns ih =>
      obtain ⟨child', hchild, h⟩ := ExceptList.bind_eq_ok.mp h
      obtain ⟨columns', hcols, h⟩ := ExceptList.bind_eq_ok.mp h
      obtain ⟨hcs, hes⟩ := ih hchild
      cases h
      refine ⟨hcs, fun e' he' => ?_⟩
      rcases List.mem_append.mp he' with he' | he'
      · obtain ⟨e, hmem, hfn⟩ := Dealing.exists_partner (ExceptList.mapM_eq_ok.mp hcols) he'
        exact ⟨e, List.mem_append_left _ hmem, hfn⟩
      · obtain ⟨e, hmem, hfn⟩ := hes e' he'
        exact ⟨e, List.mem_append_right _ hmem, hfn⟩
  | aggregate child groupBy aggregates ih =>
      obtain ⟨child', hchild, h⟩ := ExceptList.bind_eq_ok.mp h
      obtain ⟨groupBy', -, h⟩ := ExceptList.bind_eq_ok.mp h
      obtain ⟨aggregates', -, h⟩ := ExceptList.bind_eq_ok.mp h
      have hall := ih hchild
      cases h
      exact hall
  | join left right on how broadcast ihl ihr =>
      obtain ⟨left', hl, h⟩ := ExceptList.bind_eq_ok.mp h
      obtain ⟨right', hr, h⟩ := ExceptList.bind_eq_ok.mp h
      obtain ⟨hcl, hel⟩ := ihl hl
      obtain ⟨hcr, her⟩ := ihr hr
      cases h
      have hleft : ∀ {p q : List (Expression F)} {c' : Expression F},
          (∃ c ∈ p, fn c = .ok c') → ∃ c ∈ p ++ q, fn c = .ok c' := by
        rintro p q c' ⟨c, hmem, hfn⟩
        exact ⟨c, List.mem_append_left _ hmem, hfn⟩
      have hright : ∀ {p q : List (Expression F)} {c' : Expression F},
          (∃ c ∈ q, fn c = .ok c') → ∃ c ∈ p ++ q, fn c = .ok c' := by
        rintro p q c' ⟨c, hmem, hfn⟩
        exact ⟨c, List.mem_append_right _ hmem, hfn⟩
      exact ⟨fun c' hc' => (List.mem_append.mp hc').elim (fun h => hleft (hcl c' h))
          (fun h => hright (hcr c' h)),
        fun e' he' => (List.mem_append.mp he').elim (fun h => hleft (hel e' h))
          (fun h => hright (her e' h))⟩
  | sort child keys ih =>
      obtain ⟨child', hchild, h⟩ := ExceptList.bind_eq_ok.mp h
      obtain ⟨keys', -, h⟩ := ExceptList.bind_eq_ok.mp h
      have hall := ih hchild
      cases h
      exact hall

end Kept

section Steps

variable {f f' : Expression F → Expression F} {plan plan' : LogicalPlan F}

/-- An accepted plan whose conditions print is one that `explain_string` prints. -/
lemma LogicalPlan.explains (ha : plan.Analyzed)
    (hprints : ∀ condition ∈ plan.conditions, condition.prints = true) : plan.Explains := by
  induction plan with
  | scan _ _ _ => trivial
  | filter child condition ih =>
      exact ⟨ih ha.1 (fun c hc => hprints c (List.mem_cons_of_mem condition hc)),
        hprints condition List.mem_cons_self⟩
  | project child columns ih => exact ⟨ih ha.1 hprints, ha.2.2.prints⟩
  | aggregate child groupBy aggregates ih => exact ⟨ih ha.1 hprints, ha.2.2.2.prints⟩
  | join left right on how broadcast ihl ihr =>
      exact ⟨ihl ha.1 (fun c hc => hprints c (List.mem_append_left _ hc)),
        ihr ha.2.1 (fun c hc => hprints c (List.mem_append_right _ hc))⟩
  | sort child keys ih =>
      exact ⟨ih ha.1 hprints, fun k hk => Expression.namePrints_of_isColumn (ha.2 k hk).1⟩

namespace LogicalPlan.Underway

lemma explains (h : plan.Underway f) : plan.Explains := LogicalPlan.explains h.analyzed h.prints

/-- An expression rule that advances the conditions. -/
theorem rewritten {fn : Expression F → Py (Expression F)} (hfn : RewritesInPlace fn)
    (hadv : Advances fn f f')
    (hcolumn : ∀ e, ColumnReady e → ∃ e', fn e = .ok e' ∧ KeepsValue e e' ∧ ColumnReady e')
    (h : plan.Underway f) (hmap : mapExpressions fn plan = .ok plan') : plan'.Underway f' := by
  have hk := hfn.keepsNames h.analyzed h.settled hmap
  have hcond := fun c hc => hadv c (h.conditions c hc) (h.prints c hc)
  have hproj : ∀ e ∈ plan.projected, ∃ e', fn e = .ok e' ∧ KeepsValue e e' := by
    intro e he
    obtain ⟨e', hfe, hkeeps, -⟩ := hcolumn e (h.columns e he)
    exact ⟨e', hfe, hkeeps⟩
  have hplaces : PlacesSafe f' plan' [] := by
    refine PlacesSafe.rewritten hfn h.analyzed h.settled h.conform h.runs hmap (fun c hc => ?_)
      hproj .nil h.places
    obtain ⟨c', hfc, hkeeps, hreplaces, -⟩ := hcond c hc
    exact ⟨c', hfc, hkeeps, hreplaces⟩
  have hruns : plan'.Runs := by
    have hok := mapExpressions_refines hfn h.analyzed h.settled h.conform (fun c hc => by
      obtain ⟨c', hfc, hkeeps, -⟩ := hcond c hc
      exact ⟨c', hfc, hkeeps⟩) hproj
    exact h.runs.of_simulates (Refines.of_ok hok hmap)
  obtain ⟨hcs, hes⟩ := mapExpressions_images hmap
  have hready : ∀ c' ∈ plan'.conditions, ConditionReady f' c' ∧ c'.prints = true := by
    intro c' hc'
    obtain ⟨c, hc, hfc⟩ := hcs c' hc'
    obtain ⟨c'', hfc', -, -, hadvanced, hprints⟩ := hcond c hc
    obtain rfl : c' = c'' := Except.ok.inj (hfc.symm.trans hfc')
    exact ⟨hadvanced, hprints⟩
  refine ⟨⟨h.conform.mono hk.tables, hk.settled h.settled, fun c' hc' => (hready c' hc').1,
    fun e' he' => ?_, hplaces⟩, hk.analyzed, hruns, fun c' hc' => (hready c' hc').2⟩
  obtain ⟨e, he, hfe⟩ := hes e' he'
  obtain ⟨e'', hfe', -, hadvanced⟩ := hcolumn e (h.columns e he)
  obtain rfl : e' = e'' := Except.ok.inj (hfe.symm.trans hfe')
  exact hadvanced

/-- A rule that only moves what it finds. -/
theorem drawn (h : plan.Underway id) (hk : plan.KeepsNames plan') (hdraws : plan.Draws plan')
    (href : Refines plan plan') (hplaces : PlacesSafe id plan' []) : plan'.Underway id := by
  refine ⟨⟨h.conform.mono hk.tables, hk.settled h.settled,
    fun c hc => h.conditions c (hdraws.conditions hc), fun e he => ?_, hplaces⟩, hk.analyzed,
    h.runs.of_simulates href, fun c hc => h.prints c (hdraws.conditions hc)⟩
  rcases hdraws.projected e he with he | he
  · exact h.columns e he
  · cases e with
    | column name => exact .column name
    | _ => cases he

end LogicalPlan.Underway

/-- A rule takes conditions from the form `f` to the form `f'`; the rules on plans leave them. -/
def Rule.Advances : Rule → (Expression F → Expression F) → (Expression F → Expression F) → Prop
  | .constantFolding, f, f' => MiniSpark.Advances fold f f'
  | .filterSimplification, f, f' => MiniSpark.Advances (fun e => pure (simplifyBool e)) f f'
  | _, f, f' => f = id ∧ f' = id

lemma Rule.advances_id (rule : Rule) : rule.Advances (F := F) id id := by
  cases rule with
  | constantFolding => exact advances_fold
  | filterSimplification => exact advances_simplify
  | _ => exact ⟨rfl, rfl⟩

/-- A rule is safe on a plan that is ready for it and leaves one that is. -/
theorem Rule.underway (rule : Rule) (hadv : rule.Advances f f') (h : plan.Underway f) :
    StepSafe rule plan ∧ ∀ plan', rule.apply plan = .ok plan' → plan'.Underway f' := by
  cases rule with
  | constantFolding =>
      refine ⟨fun e he => ?_, fun plan' hp => h.rewritten rewritesInPlace_fold hadv
        (fun e he => he.fold) hp⟩
      rcases List.mem_append.mp he with he | he
      · exact (h.conditions e he).constants.foldSafe
      · exact (h.columns e he).constants.foldSafe
  | filterSimplification =>
      exact ⟨⟨fun c hc => (h.conditions c hc).kept.simplifySafe,
          fun e he => (h.columns e he).kept.simplifySafe⟩,
        fun plan' hp => h.rewritten rewritesInPlace_simplifyBool hadv
          (fun e he => ⟨_, rfl, he.simplify⟩) hp⟩
  | predicatePushdown =>
      obtain ⟨rfl, rfl⟩ := hadv
      have hsafe : PushdownSafe plan := h.places.chainSafe h.analyzed h.runs
      exact ⟨hsafe, fun plan' hp => h.drawn (pushdown_keepsNames h.analyzed hp) (pushdown_draws hp)
        (.of_ok (pushdown_refines h.analyzed h.conform hsafe) hp)
        (h.places.pushdown h.analyzed h.conform h.runs hp)⟩
  | projectionPruning =>
      obtain ⟨rfl, rfl⟩ := hadv
      exact ⟨trivial, fun plan' hp => h.drawn (prune_keepsNames h.analyzed hp) (prune_draws hp)
        (.of_ok (prune_refines h.analyzed h.conform) hp)
        (h.places.prune h.analyzed h.conform h.runs hp (List.forall_mem_nil _))⟩
  | redundantProjectionElimination =>
      obtain ⟨rfl, rfl⟩ := hadv
      exact ⟨trivial, fun plan' hp => h.drawn (eliminate_keepsNames h.analyzed hp)
        (eliminate_draws hp) (.of_ok (eliminate_refines h.analyzed h.conform) hp)
        (h.places.eliminate h.analyzed h.conform h.runs hp (List.forall_mem_nil _))⟩

end Steps

section Rounds

variable {plan : LogicalPlan F}

/-- After the first pass every rule is safe, in any order. -/
theorem LogicalPlan.Underway.round (rules : List Rule) (h : plan.Underway id) :
    RoundSafe rules plan ∧ ∀ plan', applyRules rules plan = .ok plan' → plan'.Underway id := by
  induction rules generalizing plan with
  | nil =>
      refine ⟨trivial, fun plan' hp => ?_⟩
      cases hp
      exact h
  | cons rule rules ih =>
      obtain ⟨hsafe, hnext⟩ := Rule.underway rule rule.advances_id h
      refine ⟨⟨hsafe, fun mid hmid => (ih (hnext mid hmid)).1⟩, fun plan' hp => ?_⟩
      rw [applyRules, List.foldlM_cons] at hp
      obtain ⟨mid, hmid, hp⟩ := ExceptList.bind_eq_ok.mp hp
      exact (ih (hnext mid hmid)).2 plan' hp

/-- The first round folds and simplifies before it moves anything. -/
theorem LogicalPlan.Underway.firstRound (config : OptimizerConfig) (h : plan.Underway passedOnce) :
    RoundSafe (defaultRules config) plan ∧
      ∀ plan', applyRules (defaultRules config) plan = .ok plan' → plan'.Underway id := by
  obtain ⟨rules, hrules⟩ : ∃ rules, defaultRules config =
      .constantFolding :: .filterSimplification :: rules := ⟨_, by
    rw [defaultRules, List.append_assoc, List.append_assoc, List.cons_append, List.cons_append]⟩
  obtain ⟨hfold, hfolded⟩ := Rule.underway .constantFolding advances_fold_first h
  have hsimplify : ∀ mid, Rule.constantFolding.apply plan = .ok mid →
      StepSafe .filterSimplification mid ∧
        ∀ next, Rule.filterSimplification.apply mid = .ok next → next.Underway id :=
    fun mid hmid => Rule.underway .filterSimplification advances_simplify_first
      (hfolded mid hmid)
  rw [hrules]
  refine ⟨⟨hfold, fun mid hmid => ⟨(hsimplify mid hmid).1, fun next hnext =>
    (((hsimplify mid hmid).2 next hnext).round rules).1⟩⟩, fun plan' hp => ?_⟩
  rw [applyRules, List.foldlM_cons] at hp
  obtain ⟨mid, hmid, hp⟩ := ExceptList.bind_eq_ok.mp hp
  rw [List.foldlM_cons] at hp
  obtain ⟨next, hnext, hp⟩ := ExceptList.bind_eq_ok.mp hp
  exact (((hsimplify mid hmid).2 next hnext).round rules).2 plan' hp

lemma LogicalPlan.Underway.laterRounds (rules : List Rule) (n : ℕ) (h : plan.Underway id) :
    LoopSafe rules n plan := by
  induction n generalizing plan with
  | zero => trivial
  | succ n ih =>
      obtain ⟨hsafe, hnext⟩ := h.round rules
      exact ⟨h.explains, hsafe, fun plan' hp =>
        ⟨(hnext plan' hp).explains, fun _ => ih (hnext plan' hp)⟩⟩

/-- Every round on a plan that is ready is safe. -/
theorem LogicalPlan.Underway.loopSafe (config : OptimizerConfig) (n : ℕ)
    (h : plan.Underway passedOnce) :
    LoopSafe (defaultRules config) n plan := by
  cases n with
  | zero => trivial
  | succ n =>
      obtain ⟨hsafe, hnext⟩ := h.firstRound config
      exact ⟨h.explains, hsafe, fun plan' hp =>
        ⟨(hnext plan' hp).explains, fun _ => (hnext plan' hp).laterRounds _ n⟩⟩

end Rounds

section PlanTime

end PlanTime

section Optimize

variable {plan analyzed : LogicalPlan F} {rows : List (Record F)}

omit [PyRuntime F] in
lemma LogicalPlan.Prints.conditions [PyRuntime F] (h : plan.Prints) :
    ∀ condition ∈ plan.conditions, condition.prints = true := by
  induction plan with
  | scan _ _ _ => exact List.forall_mem_nil _
  | filter child condition ih => exact List.forall_mem_cons.mpr ⟨h.2, ih h.1⟩
  | join left right on how broadcast ihl ihr =>
      exact fun c hc => (List.mem_append.mp hc).elim (ihl h.1 c) (ihr h.2 c)
  | sort child keys ih => exact ih h
  | project child columns ih => exact ih h.1
  | aggregate child groupBy aggregates ih => exact ih h.1

/-- An accepted plan that runs and is ready for the optimizer. -/
lemma LogicalPlan.Ready.underway (h : plan.Ready passedOnce) (ha : analyze plan = .ok analyzed)
    (hrun : naiveRows plan = .ok rows) : plan.Underway passedOnce := by
  obtain ⟨-, hanalyzed, hprints⟩ := analyze_eq_ok.mp ha
  exact ⟨h, hanalyzed, ⟨rows, hrun⟩, hprints.conditions⟩

end Optimize

section Examples

end Examples

end MiniSpark
