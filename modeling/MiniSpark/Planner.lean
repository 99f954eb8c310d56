import MiniSpark.Analyzer
import MiniSpark.Operators

/-!
# The physical planner

Scan pushdown first, then one physical strategy for each logical node. Planning a
sort runs its child at once, to cut the range of the primary key.
-/
namespace MiniSpark

variable {F : Type} [PyRuntime F]

section ScanPushdown

/-- `sorted(columns)` of a set. -/
def sortedNames (columns : List String) : List String :=
  columns.dedup.mergeSort (fun a b => decide (a ≤ b))

/-- `_reread_scan`. -/
def rereadScan (sourceName : String) (source : ScanSource F) (columns : Option (List String))
    (filterExpr : Option (Expression F)) : Py (LogicalPlan F) := do
  let columns := match columns, filterExpr with
    | some names, some e => some (names ++ e.referencedColumns)
    | names, _ => names
  let dataset ← source.read (columns.map sortedNames) filterExpr
  pure (.scan dataset sourceName (some source))

/-- `_walk_for_pushdown`. -/
def walkForPushdown : LogicalPlan F → Option (List String) → Option (Expression F) →
    Py (LogicalPlan F)
  | .scan dataset sourceName source, columns, filterExpr =>
      match source with
      | none => .ok (.scan dataset sourceName none)
      | some s =>
          if columns = none ∧ filterExpr.isNone then .ok (.scan dataset sourceName (some s))
          else rereadScan sourceName s columns filterExpr
  | .filter child condition, columns, filterExpr => do
      let merged := columns.map (fun names => names ++ condition.referencedColumns)
      let combined := match filterExpr with
        | none => condition
        | some e => .binary .and e condition
      let child' ← walkForPushdown child merged (some combined)
      pure (.filter child' condition)
  | .project child columns, _, _ => do
      let child' ← walkForPushdown child (some (columns.flatMap Expression.referencedColumns)) none
      pure (.project child' columns)
  | .aggregate child groupBy aggregates, _, _ => do
      let child' ← walkForPushdown child none none
      pure (.aggregate child' groupBy aggregates)
  | .join left right on how broadcast, _, _ => do
      let left' ← walkForPushdown left none none
      let right' ← walkForPushdown right none none
      pure (.join left' right' on how broadcast)
  | .sort child keys, _, _ => do
      let child' ← walkForPushdown child none none
      pure (.sort child' keys)

/-- `_pushdown_scan_reads`. -/
def pushdownScanReads (plan : LogicalPlan F) : Py (LogicalPlan F) := walkForPushdown plan none none

end ScanPushdown

section Joins

/-- `_plan_join` on the translated sides. -/
def planJoin (shufflePartitions : ℕ) (left right : PhysicalPlan F) (on : List String)
    (broadcast : Bool) (schema : Schema) : PhysicalPlan F :=
  let keys := on.map Expression.column
  if broadcast then .hashJoinExec left (.exchangeExec right 1 keys true none) keys keys on schema
  else .hashJoinExec (.exchangeExec left shufflePartitions keys false none)
    (.exchangeExec right shufflePartitions keys false none) keys keys on schema

end Joins

section Aggregates

/-- `_partial_aggregate_schema`. -/
def partialAggregateSchema (groupBy aggregates : List (Expression F)) (childSchema : Schema) :
    Py Schema :=
  Schema.make (PyRuntime.isPrintable F)
    (groupBy.map (fun g => ⟨g.columnName, inferChildType g childSchema, true⟩) ++
      (List.range aggregates.length).map (fun i => ⟨stateColumn i, .string, true⟩))

/-- `_plan_aggregate` on the translated child. -/
def planAggregate (shufflePartitions : ℕ) (spillThresholdBytes : ℤ) (child : PhysicalPlan F)
    (groupBy aggregates : List (Expression F)) (childSchema schema : Schema) :
    Py (PhysicalPlan F) := do
  let partialSchema ← partialAggregateSchema groupBy aggregates childSchema
  let partialExec := .hashAggregateExec child
    ⟨groupBy, aggregates, partialSchema, true, spillThresholdBytes⟩
  pure (.hashAggregateExec (.exchangeExec partialExec shufflePartitions groupBy false none)
    ⟨groupBy, aggregates, schema, false, spillThresholdBytes⟩)

end Aggregates

section Sorts

/-- `_is_oracle_executable`. -/
def isOracleExecutable : PhysicalPlan F → Bool
  | .scanExec _ _ => true
  | .filterExec child _ => isOracleExecutable child
  | .projectExec child _ _ => isOracleExecutable child
  | _ => false

/-- The `min_value` and `max_value` of one column so far. -/
structure ColumnRange (F : Type) where
  minValue : Value F
  maxValue : Value F

/-- The loop body of `compute_statistics` for one column. -/
def ColumnRange.extend (range : ColumnRange F) (value : Value F) : Py (ColumnRange F) :=
  if value.isNone then .ok range
  else do
    let lower ← if range.minValue.isNone then .ok true else value.lt range.minValue
    let upper ← if range.maxValue.isNone then .ok true else range.maxValue.lt value
    pure ⟨if lower then value else range.minValue, if upper then value else range.maxValue⟩

/-- `compute_statistics(dataset, columns=[name])`, as far as the planner reads it. -/
def columnRange (dataset : Dataset F) (name : String) : Py (ColumnRange F) := do
  let rows ← dataset.iterRecords
  rows.foldlM (fun range record => range.extend ((record.get? name).getD .none)) ⟨.none, .none⟩

/-- `sorted([a, b])`. -/
def sortTwo (a b : Value F) : Py (Value F × Value F) := do
  let swap ← b.lt a
  pure (if swap then (b, a) else (a, b))

/-- The boundaries of `_sort_range_boundaries` between the signed extremes. -/
def equalWidthBoundaries (lo hi : Value F) (shufflePartitions : ℕ) : Py (List (Value F)) :=
  if lo == hi then .ok (List.replicate (shufflePartitions - 1) hi)
  else do
    let width ← hi.sub lo
    let step ← width.truediv (.int shufflePartitions)
    (List.range' 1 (shufflePartitions - 1)).mapM (fun i => do
      let offset ← step.mul (.int (i : ℕ))
      lo.add offset)

/-- The exchange a sort uses: its boundaries, its width and its key. -/
structure SortExchange (F : Type) where
  boundaries : Option (List (Value F))
  numPartitions : ℕ
  partitionKey : Expression F

/-- `_sort_range_boundaries` for the primary key `Column(name)`. -/
def sortRangeBoundaries (child : PhysicalPlan F) (name : String) (ascending : Bool)
    (childSchema : Schema) (shufflePartitions : ℕ) : Py (SortExchange F) :=
  let single := ⟨none, 1, .column name⟩
  let keyType := (childSchema.getField? name).map Field.dataType
  if shufflePartitions ≤ 1 ∨ ¬ (keyType = some .int ∨ keyType = some .float) ∨
      isOracleExecutable child = false then .ok single
  else do
    let dataset ← execute child
    let range ← columnRange dataset name
    if range.minValue.isNone ∨ range.maxValue.isNone then pure single
    else
      let sign : Value F := if ascending then .int 1 else .int (-1)
      let partitionKey : Expression F := if ascending then .column name
        else .binary .multiply (.column name) (.literal (.int (-1)))
      let a ← sign.mul range.minValue
      let b ← sign.mul range.maxValue
      let (lo, hi) ← sortTwo a b
      let boundaries ← equalWidthBoundaries lo hi shufflePartitions
      pure ⟨some boundaries, shufflePartitions, partitionKey⟩

/-- `_plan_sort` on the translated child. -/
def planSort (shufflePartitions : ℕ) (spillThresholdBytes : ℤ) (child : PhysicalPlan F)
    (keys : List (Expression F × Bool)) (schema : Schema) : Py (PhysicalPlan F) :=
  match keys with
  | [] => .error .indexError
  | (.column name, ascending) :: _ => do
      let exchange ← sortRangeBoundaries child name ascending schema shufflePartitions
      let spec : Sorting F := ⟨keys, schema, spillThresholdBytes⟩
      pure (.sortExec (.exchangeExec (.sortExec child spec) exchange.numPartitions
        [exchange.partitionKey] false exchange.boundaries) spec)
  | _ => .error .assertionError

end Sorts

/-- `_translate`. -/
def translate (shufflePartitions : ℕ) (spillThresholdBytes : ℤ) :
    LogicalPlan F → Py (PhysicalPlan F)
  | .scan dataset sourceName _ => .ok (.scanExec dataset sourceName)
  | .filter child condition => do
      let c ← translate shufflePartitions spillThresholdBytes child
      pure (.filterExec c condition)
  | .project child columns => do
      let c ← translate shufflePartitions spillThresholdBytes child
      let schema ← (LogicalPlan.project child columns).schema
      pure (.projectExec c columns schema)
  | .aggregate child groupBy aggregates => do
      let c ← translate shufflePartitions spillThresholdBytes child
      let childSchema ← child.schema
      let schema ← (LogicalPlan.aggregate child groupBy aggregates).schema
      planAggregate shufflePartitions spillThresholdBytes c groupBy aggregates childSchema schema
  | .join left right on how broadcast => do
      let l ← translate shufflePartitions spillThresholdBytes left
      let r ← translate shufflePartitions spillThresholdBytes right
      let schema ← (LogicalPlan.join left right on how broadcast).schema
      pure (planJoin shufflePartitions l r on broadcast schema)
  | .sort child keys => do
      let c ← translate shufflePartitions spillThresholdBytes child
      let schema ← child.schema
      planSort shufflePartitions spillThresholdBytes c keys schema

/-- `plan_physical`. -/
def planPhysical (shufflePartitions : ℕ) (spillThresholdBytes : ℤ) (plan : LogicalPlan F) :
    Py (PhysicalPlan F) := do
  let plan' ← pushdownScanReads plan
  translate shufflePartitions spillThresholdBytes plan'

/-- `NEVER_SPILL`. -/
def neverSpill : ℤ := 2 ^ 62

end MiniSpark
