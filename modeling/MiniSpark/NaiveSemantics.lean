import MiniSpark.Analyzer
import MiniSpark.SortOperator

/-!
# Operator-by-operator meaning of a logical plan

Every node is run on all the rows of its children: this is what a plan means
before it is optimized or distributed. Any row on which an expression raises
fails the whole query; rows an operator never reaches are never evaluated.
-/
namespace MiniSpark

variable {F : Type} [PyRuntime F]

/-- One step of a group-by over raw rows. -/
def groupStep (groupBy : List (Expression F)) (aggs : List (AggregateFunction F))
    (groups : GroupTable F) (record : Record F) : Py (GroupTable F) := do
  let key ← tupleKey groupBy record
  let state ← nextState true aggs (groups.get? key) record
  pure (groups.set key state)

/-- Group all rows, fold the aggregates, and finalize every group. -/
def aggregateRows (groupBy aggregates : List (Expression F)) (schema : Schema)
    (rows : List (Record F)) : Py (List (Record F)) := do
  let aggs ← aggregates.mapM unwrapAggregate
  let groups ← rows.foldlM (groupStep groupBy aggs) OrderedDict.empty
  groups.items.mapM (fun p => groupRow ⟨groupBy, aggregates, schema, false, 0⟩ aggs p.1 p.2)

/-- Number the rows by arrival. -/
def arrivals (rows : List (Record F)) : List (Arrival F) := rows.zipIdx.map Prod.swap

/-- The rows a logical plan stands for. -/
def naiveRows : LogicalPlan F → Py (List (Record F))
  | .scan dataset _ _ => dataset.iterRecords
  | .filter child condition => do
      let rows ← naiveRows child
      filterRows condition rows
  | .project child columns => do
      let rows ← naiveRows child
      let s ← (LogicalPlan.project child columns).schema
      projectRows s.fieldNames columns rows
  | .aggregate child groupBy aggregates => do
      let rows ← naiveRows child
      let s ← (LogicalPlan.aggregate child groupBy aggregates).schema
      aggregateRows groupBy aggregates s rows
  | .join left right on _ _ => do
      let leftRows ← naiveRows left
      let rightRows ← naiveRows right
      let keys := on.map Expression.column
      hashJoinRows keys keys on leftRows rightRows
  | .sort child keys => do
      let rows ← naiveRows child
      let sorted ← sortRows (arrivals rows) keys
      pure (sorted.map Prod.snd)

end MiniSpark
