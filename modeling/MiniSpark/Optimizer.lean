import MiniSpark.Analyzer

/-!
# The optimizer

The five rules and the fixed-point loop. A rule maps a plan to a plan and may
raise: folding evaluates literals at plan time, and several rules build the
schema of a child. The loop compares plans by their printed form.
-/
namespace MiniSpark

variable {F : Type} [PyRuntime F]

section Expressions

/-- `_fold`. -/
def fold : Expression F → Py (Expression F)
  | .binary op left right => do
      let l ← fold left
      let r ← fold right
      match l, r with
      | .literal a, .literal b => Expression.literal <$> op.op a b
      | l, r => pure (.binary op l r)
  | .aliased child name => do
      let c ← fold child
      pure (.aliased c name)
  | .not child => do
      let c ← fold child
      match c with
      | .literal v => pure (.literal (.bool (!v.truthy)))
      | c => pure (.not c)
  | .isNull child => do
      let c ← fold child
      match c with
      | .literal v => pure (.literal (.bool v.isNone))
      | c => pure (.isNull c)
  | .isNotNull child => do
      let c ← fold child
      match c with
      | .literal v => pure (.literal (.bool (!v.isNone)))
      | c => pure (.isNotNull c)
  | e => pure e

/-- `And` of two simplified sides: a literal side decides or disappears. -/
def simplifyAnd (left right : Expression F) : Expression F :=
  match left, right with
  | .literal v, r => if v.truthy then r else .literal (.bool false)
  | l, .literal v => if v.truthy then l else .literal (.bool false)
  | l, r => .binary .and l r

/-- `Or` of two simplified sides. -/
def simplifyOr (left right : Expression F) : Expression F :=
  match left, right with
  | .literal v, r => if v.truthy then .literal (.bool true) else r
  | l, .literal v => if v.truthy then .literal (.bool true) else l
  | l, r => .binary .or l r

/-- `Not` of a simplified child: a double negation disappears. -/
def simplifyNot : Expression F → Expression F
  | .not c => c
  | c => .not c

/-- `_simplify_bool`. -/
def simplifyBool : Expression F → Expression F
  | .binary .and left right => simplifyAnd (simplifyBool left) (simplifyBool right)
  | .binary .or left right => simplifyOr (simplifyBool left) (simplifyBool right)
  | .not child => simplifyNot (simplifyBool child)
  | .binary op left right => .binary op (simplifyBool left) (simplifyBool right)
  | .aliased child name => .aliased (simplifyBool child) name
  | e => e

end Expressions

section Rules

omit [PyRuntime F] in
/-- `map_expressions`. -/
def mapExpressions (fn : Expression F → Py (Expression F)) : LogicalPlan F → Py (LogicalPlan F)
  | .scan dataset sourceName source => pure (.scan dataset sourceName source)
  | .filter child condition => do
      let child' ← mapExpressions fn child
      let condition' ← fn condition
      pure (.filter child' condition')
  | .project child columns => do
      let child' ← mapExpressions fn child
      let columns' ← columns.mapM fn
      pure (.project child' columns')
  | .aggregate child groupBy aggregates => do
      let child' ← mapExpressions fn child
      let groupBy' ← groupBy.mapM fn
      let aggregates' ← aggregates.mapM fn
      pure (.aggregate child' groupBy' aggregates')
  | .join left right on how broadcast => do
      let left' ← mapExpressions fn left
      let right' ← mapExpressions fn right
      pure (.join left' right' on how broadcast)
  | .sort child keys => do
      let child' ← mapExpressions fn child
      let keys' ← keys.mapM (fun k => do
        let e ← fn k.1
        pure (e, k.2))
      pure (.sort child' keys')

/-- The `Filter` case of `_pushdown`, on the rewritten child. -/
def pushFilter (child : LogicalPlan F) (condition : Expression F) : Py (LogicalPlan F) :=
  match child with
  | .project grandchild columns => do
      let s ← grandchild.schema
      if condition.referencedColumns ⊆ s.fieldNames then
        pure (.project (.filter grandchild condition) columns)
      else pure (.filter (.project grandchild columns) condition)
  | .join left right on how broadcast => do
      let l ← left.schema
      let r ← right.schema
      if condition.referencedColumns ⊆ l.fieldNames then
        pure (.join (.filter left condition) right on how broadcast)
      else if condition.referencedColumns ⊆ r.fieldNames then
        pure (.join left (.filter right condition) on how broadcast)
      else pure (.filter (.join left right on how broadcast) condition)
  | child => pure (.filter child condition)

/-- `_pushdown`. -/
def pushdown : LogicalPlan F → Py (LogicalPlan F)
  | .scan dataset sourceName source => pure (.scan dataset sourceName source)
  | .project child columns => do
      let child' ← pushdown child
      pure (.project child' columns)
  | .aggregate child groupBy aggregates => do
      let child' ← pushdown child
      pure (.aggregate child' groupBy aggregates)
  | .join left right on how broadcast => do
      let left' ← pushdown left
      let right' ← pushdown right
      pure (.join left' right' on how broadcast)
  | .sort child keys => do
      let child' ← pushdown child
      pure (.sort child' keys)
  | .filter child condition => do
      let child' ← pushdown child
      pushFilter child' condition

/-- The columns several expressions reference. -/
def allReferenced (es : List (Expression F)) : List String := es.flatMap Expression.referencedColumns

/-- The `Scan` case of `_prune`. -/
def pruneScan (dataset : Dataset F) (sourceName : String) (source : Option (ScanSource F))
    (needed : Option (List String)) : LogicalPlan F :=
  let columns := dataset.schema.fieldNames
  match needed with
  | none => .scan dataset sourceName source
  | some names =>
      let keep := columns.filter (fun c => c ∈ names)
      if keep ≠ [] ∧ keep.length < columns.length then
        .project (.scan dataset sourceName source) (keep.map Expression.column)
      else .scan dataset sourceName source

/-- The columns a join needs from the side that has the given fields. -/
def joinSide (needed : Option (List String)) (on fields : List String) : List String :=
  match needed with
  | none => fields
  | some names => names.filter (fun n => n ∈ fields) ++ on

/-- `_prune`; `needed` is `none` until a node restricts the columns. -/
def prune : LogicalPlan F → Option (List String) → Py (LogicalPlan F)
  | .scan dataset sourceName source, needed => pure (pruneScan dataset sourceName source needed)
  | .filter child condition, needed => do
      let child' ← prune child (needed.map (fun n => n ++ condition.referencedColumns))
      pure (.filter child' condition)
  | .project child columns, _ => do
      let child' ← prune child (some (allReferenced columns))
      pure (.project child' columns)
  | .aggregate child groupBy aggregates, _ => do
      let child' ← prune child (some (allReferenced groupBy ++ allReferenced aggregates))
      pure (.aggregate child' groupBy aggregates)
  | .join left right on how broadcast, needed => do
      let l ← left.schema
      let r ← right.schema
      let left' ← prune left (some (joinSide needed on l.fieldNames))
      let right' ← prune right (some (joinSide needed on r.fieldNames))
      pure (.join left' right' on how broadcast)
  | .sort child keys, needed => do
      let child' ← prune child (needed.map (fun n => n ++ allReferenced (keys.map Prod.fst)))
      pure (.sort child' keys)

omit [PyRuntime F] in
/-- The names of a list of plain columns. -/
def columnNames? : List (Expression F) → Option (List String)
  | [] => some []
  | .column name :: es => (columnNames? es).map (name :: ·)
  | _ :: _ => none

/-- Put `columns` over `child`, skipping a projection to plain columns in between. -/
def collapseProject (child : LogicalPlan F) (columns : List (Expression F)) : LogicalPlan F :=
  match child with
  | .project grandchild inner =>
      if (columnNames? inner).isSome then .project grandchild columns
      else .project (.project grandchild inner) columns
  | child => .project child columns

/-- The `Project` case of `_eliminate`, on the rewritten child. -/
def eliminateProject (child : LogicalPlan F) (columns : List (Expression F)) :
    Py (LogicalPlan F) :=
  match columnNames? columns with
  | some names => do
      let s ← child.schema
      if names = s.fieldNames then pure child else pure (collapseProject child columns)
  | none => pure (collapseProject child columns)

/-- `_eliminate`. -/
def eliminate : LogicalPlan F → Py (LogicalPlan F)
  | .scan dataset sourceName source => pure (.scan dataset sourceName source)
  | .filter child condition => do
      let child' ← eliminate child
      pure (.filter child' condition)
  | .aggregate child groupBy aggregates => do
      let child' ← eliminate child
      pure (.aggregate child' groupBy aggregates)
  | .join left right on how broadcast => do
      let left' ← eliminate left
      let right' ← eliminate right
      pure (.join left' right' on how broadcast)
  | .sort child keys => do
      let child' ← eliminate child
      pure (.sort child' keys)
  | .project child columns => do
      let child' ← eliminate child
      eliminateProject child' columns

end Rules

inductive Rule
  | constantFolding | filterSimplification | predicatePushdown | projectionPruning
  | redundantProjectionElimination
  deriving DecidableEq, Repr

/-- `Rule.apply`. -/
def Rule.apply : Rule → LogicalPlan F → Py (LogicalPlan F)
  | .constantFolding, plan => mapExpressions fold plan
  | .filterSimplification, plan => mapExpressions (fun e => pure (simplifyBool e)) plan
  | .predicatePushdown, plan => pushdown plan
  | .projectionPruning, plan => prune plan none
  | .redundantProjectionElimination, plan => eliminate plan

structure OptimizerConfig where
  predicatePushdown : Bool := true
  projectionPruning : Bool := true
  deriving DecidableEq, Repr

/-- `default_rules`. -/
def defaultRules (config : OptimizerConfig) : List Rule :=
  [.constantFolding, .filterSimplification] ++
    (if config.predicatePushdown then [Rule.predicatePushdown] else []) ++
    (if config.projectionPruning then [Rule.projectionPruning] else []) ++
    [.redundantProjectionElimination]

/-- One round: every rule in order. -/
def applyRules (rules : List Rule) (plan : LogicalPlan F) : Py (LogicalPlan F) :=
  rules.foldlM (fun p rule => rule.apply p) plan

/-- The loop of `optimize`: at most the given number of rounds, fewer when a round
leaves the printed plan as it was. A plan that does not print raises. -/
def optimizeLoop (rules : List Rule) : ℕ → LogicalPlan F → Py (LogicalPlan F)
  | 0, plan => pure plan
  | n + 1, plan => do
      let before ← plan.explainString
      let plan' ← applyRules rules plan
      let after ← plan'.explainString
      if after = before then pure plan'
      else optimizeLoop rules n plan'

/-- One round of a loop that returns: its result prints, and either is the last one or is
optimized further. -/
theorem optimizeLoop_succ {rules : List Rule} {n : ℕ} {plan once : LogicalPlan F}
    (h : optimizeLoop rules (n + 1) plan = .ok once) :
    ∃ mid text, applyRules rules plan = .ok mid ∧ mid.explainString = .ok text ∧
      (mid.explainString = plan.explainString ∧ once = mid ∨
        mid.explainString ≠ plan.explainString ∧ optimizeLoop rules n mid = .ok once) := by
  obtain ⟨before, hbefore, h⟩ := ExceptList.bind_eq_ok.mp h
  obtain ⟨mid, hmid, h⟩ := ExceptList.bind_eq_ok.mp h
  obtain ⟨after, hafter, h⟩ := ExceptList.bind_eq_ok.mp h
  refine ⟨mid, after, hmid, hafter, ?_⟩
  simp only [hafter, hbefore, ne_eq, Except.ok.injEq]
  by_cases heq : after = before
  · rw [if_pos heq] at h
    cases h
    exact Or.inl ⟨heq, rfl⟩
  · rw [if_neg heq] at h
    exact Or.inr ⟨heq, h⟩

/-- One round between plans that print. -/
theorem optimizeLoop_step {rules : List Rule} (n : ℕ) {plan mid : LogicalPlan F}
    (hplan : plan.Explains) (hmid : applyRules rules plan = .ok mid) (hprints : mid.Explains) :
    mid.explainString = plan.explainString ∧ optimizeLoop rules (n + 1) plan = .ok mid ∨
      mid.explainString ≠ plan.explainString ∧
        optimizeLoop rules (n + 1) plan = optimizeLoop rules n mid := by
  obtain ⟨before, hbefore⟩ := hplan.explainString_ok
  obtain ⟨after, hafter⟩ := hprints.explainString_ok
  simp only [optimizeLoop, hbefore, hmid, hafter, ExceptList.bind_ok, ne_eq, Except.ok.injEq]
  by_cases heq : after = before
  · exact Or.inl ⟨heq, if_pos heq⟩
  · exact Or.inr ⟨heq, if_neg heq⟩

/-- `_DEFAULT_MAX_ITERATIONS`. -/
def defaultMaxIterations : ℕ := 10

/-- `Optimizer(rules).optimize`. -/
def optimize (rules : List Rule) (plan : LogicalPlan F) : Py (LogicalPlan F) :=
  optimizeLoop rules defaultMaxIterations plan

end MiniSpark
