import MiniSpark.Aggregate
import MiniSpark.Partitioner

/-!
# Operators on the rows of one partition

What each physical operator does with the rows of its input: filter, project,
hash aggregation, hash join and sort. Aggregation and sorting spill when the
estimated size of what they hold reaches a threshold; a spill file reads back
exactly the items written to it.
-/
namespace MiniSpark

/-- What the interpreter and the standard library supply beyond arithmetic:
object sizes, and pickled files with their checksum. -/
class PyHost (F : Type) [PyRuntime F] where
  getsizeof : Value F → ℕ
  Bytes : Type
  pickle : List (Record F) → Bytes
  unpickle : Bytes → Py (List (Record F))
  unpickle_pickle : ∀ rows, unpickle (pickle rows) = .ok rows
  md5Hex : Bytes → String
  byteLength : Bytes → ℕ

/-- The bytes of a file of rows are the rows themselves, with the checksum of their text. -/
instance exactHost : PyHost ℚ where
  getsizeof
    | .none => 16
    | .bool _ => 28
    | .int _ => 28
    | .float _ => 24
    | .str s => 49 + s.length
    | .pair _ _ => 56
  Bytes := List (Record ℚ)
  pickle rows := rows
  unpickle rows := .ok rows
  unpickle_pickle _ := rfl
  md5Hex rows :=
    let text := "; ".intercalate (rows.map (fun r => tupleText (r.items.map Prod.snd)))
    String.ofList ((Md5.digest (utf8Bytes text)).flatMap (hexDigits 2))
  byteLength rows := rows.length

variable {F : Type} [PyRuntime F]

/-- `bool(condition.evaluate(record))`. -/
def holds (condition : Expression F) (record : Record F) : Py Bool :=
  Value.truthy <$> condition.evaluate record

/-- The loop of `_execute_filter_partition`. -/
def filterRows (condition : Expression F) (rows : List (Record F)) : Py (List (Record F)) :=
  ExceptList.filterE (holds condition) rows

/-- One row of `_execute_project_partition`. -/
def projectRow (names : List String) (columns : List (Expression F)) (record : Record F) :
    Py (Record F) := do
  let values ← columns.mapM (fun e => e.evaluate record)
  pure (OrderedDict.ofList (names.zip values))

def projectRows (names : List String) (columns : List (Expression F)) (rows : List (Record F)) :
    Py (List (Record F)) := rows.mapM (projectRow names columns)

/-- `tuple(e.evaluate(record) for e in exprs)`. -/
def tupleKey (exprs : List (Expression F)) (record : Record F) : Py (List (Value F)) :=
  exprs.mapM (fun e => e.evaluate record)

section HashAggregate

/-- The parameters of a `HashAggregateExec`. -/
structure HashAggregate (F : Type) where
  groupBy : List (Expression F)
  aggregates : List (Expression F)
  schema : Schema
  isPartial : Bool
  spillThresholdBytes : ℤ

/-- A group table: states by key tuple. -/
abbrev GroupTable (F : Type) [PyRuntime F] := OrderedDict (List (Value F)) (List (Value F))

/-- The name of the `i`-th partial state column. -/
def stateColumn (i : ℕ) : String := "__agg_state_" ++ toString i

/-- `record[f"__agg_state_{i}"]`. -/
def stateOf (record : Record F) (i : ℕ) : Py (Value F) :=
  match record.get? (stateColumn i) with
  | some v => .ok v
  | none => .error (.keyError (stateColumn i))

/-- `[agg.merge(s, inc) for agg, s, inc in zip(...)]`. -/
def mergeStates (aggs : List (AggregateFunction F)) (a b : List (Value F)) :
    Py (List (Value F)) :=
  (aggs.zip (a.zip b)).mapM (fun p => p.1.name.merge p.2.1 p.2.2)

/-- The state list a row leaves behind in its group: raw rows update, partial rows merge. -/
def nextState (isPartial : Bool) (aggs : List (AggregateFunction F))
    (existing : Option (List (Value F))) (record : Record F) : Py (List (Value F)) :=
  if isPartial then
    let state := existing.getD (aggs.map (fun a => a.name.initialState))
    (aggs.zip state).mapM (fun p => p.1.update p.2 record)
  else do
    let incoming ← (List.range aggs.length).mapM (stateOf record)
    match existing with
    | none => pure incoming
    | some state => mergeStates aggs state incoming

/-- The row of one group: its key columns, then partial states or final values. -/
def groupRow (plan : HashAggregate F) (aggs : List (AggregateFunction F))
    (key state : List (Value F)) : Py (Record F) := do
  let row := OrderedDict.ofList ((plan.groupBy.map Expression.columnName).zip key)
  if plan.isPartial then
    pure (state.zipIdx.foldl (fun r p => r.set (stateColumn p.2) p.1) row)
  else do
    let values ← (aggs.zip state).mapM (fun p => p.1.name.finalize p.2)
    pure (((plan.aggregates.map Expression.columnName).zip values).foldl
      (fun r p => r.set p.1 p.2) row)

/-- `_AGGREGATE_SPILL_BUCKETS`. -/
def aggregateSpillBuckets : ℕ := 32

/-- The partitioner of spilled keys. -/
def spillPartitioner : HashPartitioner := ⟨aggregateSpillBuckets, by decide⟩

/-- The content of an aggregate spill file. -/
abbrev SpillItems (F : Type) := List (List (Value F) × List (Value F))

/-- `_estimate_group_bytes`. -/
def estimateGroupBytes [PyHost F] (key state : List (Value F)) : ℤ :=
  ((key.map PyHost.getsizeof).sum + (state.map PyHost.getsizeof).sum : ℕ)

/-- The variables of the accumulation loop. `spillPaths[bucket]` lists the files
of a bucket; `spilled` says whether the spill directory was made. -/
structure Accumulation (F : Type) [PyRuntime F] where
  groups : GroupTable F
  groupsBytes : ℤ
  spilled : Bool
  spillPaths : List (List (SpillItems F))

def Accumulation.start (F : Type) [PyRuntime F] : Accumulation F :=
  ⟨OrderedDict.empty, 0, false, List.replicate aggregateSpillBuckets []⟩

/-- The bucket of every key of `groups`, in order. -/
def bucketNumbers (groups : GroupTable F) : Py (List ℕ) :=
  groups.items.mapM (fun p => spillPartitioner.partitionFor p.1)

/-- The items of `groups` in a bucket, once every key has one. -/
def bucketItems (groups : GroupTable F) (bucket : ℕ) : SpillItems F :=
  groups.items.filter (fun p => spillPartitioner.textTarget p.1 = bucket)

/-- One more file for each bucket that has items. -/
def spilledPaths (groups : GroupTable F) (paths : List (List (SpillItems F))) :
    List (List (SpillItems F)) :=
  paths.mapIdx (fun bucket files =>
    let items := bucketItems groups bucket
    if items = [] then files else files ++ [items])

/-- `_spill_groups`: every key is hashed before the first file is written. -/
def spillGroups (groups : GroupTable F) (paths : List (List (SpillItems F))) :
    Py (List (List (SpillItems F))) := do
  let _ ← bucketNumbers groups
  pure (spilledPaths groups paths)

theorem eq_of_spillGroups {groups : GroupTable F} {paths paths' : List (List (SpillItems F))}
    (h : spillGroups groups paths = .ok paths') : paths' = spilledPaths groups paths := by
  obtain ⟨numbers, -, h⟩ := ExceptList.bind_eq_ok.mp h
  cases h
  rfl

/-- The group table with one more row, and its estimated size. -/
def advanceGroups [PyHost F] (plan : HashAggregate F) (aggs : List (AggregateFunction F))
    (acc : Accumulation F) (record : Record F) : Py (GroupTable F × ℤ) := do
  let key ← tupleKey plan.groupBy record
  let existing := acc.groups.get? key
  let state ← nextState plan.isPartial aggs existing record
  let released := (existing.map (estimateGroupBytes key)).getD 0
  pure (acc.groups.set key state, acc.groupsBytes - released + estimateGroupBytes key state)

/-- The end of an iteration: a table of the threshold's size is spilled. -/
def spillOrKeep (plan : HashAggregate F) (acc : Accumulation F) (groups : GroupTable F)
    (bytes : ℤ) : Py (Accumulation F) :=
  if bytes ≥ plan.spillThresholdBytes then do
    let paths ← spillGroups groups acc.spillPaths
    pure ⟨OrderedDict.empty, 0, true, paths⟩
  else pure ⟨groups, bytes, acc.spilled, acc.spillPaths⟩

/-- One iteration of the accumulation loop. -/
def accumulate [PyHost F] (plan : HashAggregate F) (aggs : List (AggregateFunction F))
    (acc : Accumulation F) (record : Record F) : Py (Accumulation F) := do
  let key ← tupleKey plan.groupBy record
  let existing := acc.groups.get? key
  let state ← nextState plan.isPartial aggs existing record
  let released := (existing.map (estimateGroupBytes key)).getD 0
  let bytes := acc.groupsBytes - released + estimateGroupBytes key state
  let groups := acc.groups.set key state
  if bytes ≥ plan.spillThresholdBytes then do
    let paths ← spillGroups groups acc.spillPaths
    pure ⟨OrderedDict.empty, 0, true, paths⟩
  else
    pure ⟨groups, bytes, acc.spilled, acc.spillPaths⟩

/-- An iteration first enlarges the table and then looks at its size. -/
theorem accumulate_eq_advance [PyHost F] (plan : HashAggregate F)
    (aggs : List (AggregateFunction F)) (acc : Accumulation F) (record : Record F) :
    accumulate plan aggs acc record = (do
      let next ← advanceGroups plan aggs acc record
      spillOrKeep plan acc next.1 next.2) := by
  unfold accumulate advanceGroups
  cases tupleKey plan.groupBy record with
  | error e => rfl
  | ok key =>
      simp only [ExceptList.bind_ok]
      cases nextState plan.isPartial aggs (acc.groups.get? key) record <;> rfl

/-- Fold one item of a spill file into the table of its bucket. -/
def mergeSpilled (aggs : List (AggregateFunction F)) (merged : GroupTable F)
    (item : List (Value F) × List (Value F)) : Py (GroupTable F) :=
  match merged.get? item.1 with
  | none => .ok (merged.set item.1 item.2)
  | some existing => do
      let state ← mergeStates aggs existing item.2
      pure (merged.set item.1 state)

/-- The rows of one bucket: the remainder's groups, then every file merged in. -/
def bucketRows (plan : HashAggregate F) (aggs : List (AggregateFunction F))
    (remainder : GroupTable F) (bucket : ℕ) (files : List (SpillItems F)) :
    Py (List (Record F)) := do
  let merged ← files.flatten.foldlM (mergeSpilled aggs)
    (OrderedDict.ofList (bucketItems remainder bucket))
  merged.items.mapM (fun p => groupRow plan aggs p.1 p.2)

/-- What the partition yields once accumulation is over. After a spill every remaining
key is hashed before the first bucket. -/
def accumulatedRows (plan : HashAggregate F) (aggs : List (AggregateFunction F))
    (acc : Accumulation F) : Py (List (Record F)) :=
  if acc.spilled then do
    let _ ← bucketNumbers acc.groups
    let parts ← acc.spillPaths.zipIdx.mapM (fun p => bucketRows plan aggs acc.groups p.2 p.1)
    pure parts.flatten
  else acc.groups.items.mapM (fun p => groupRow plan aggs p.1 p.2)

/-- `_execute_hash_aggregate_partition` on the rows of its parent. -/
def hashAggregateRows [PyHost F] (plan : HashAggregate F) (rows : List (Record F)) :
    Py (List (Record F)) := do
  let aggs ← plan.aggregates.mapM unwrapAggregate
  let acc ← rows.foldlM (accumulate plan aggs) (Accumulation.start F)
  accumulatedRows plan aggs acc

end HashAggregate

section HashJoin

/-- `table.setdefault(key, []).append(record)`. -/
def buildTable (keys : List (Expression F)) (rows : List (Record F)) :
    Py (OrderedDict (List (Value F)) (List (Record F))) :=
  rows.foldlM (fun table record => do
    let key ← tupleKey keys record
    pure (table.set key ((table.get? key).getD [] ++ [record]))) OrderedDict.empty

/-- `dict(left_row)` extended by the right columns not in `on`. -/
def mergeRow (on : List String) (leftRow rightRow : Record F) : Record F :=
  (rightRow.items.filter (fun p => p.1 ∉ on)).foldl (fun r p => r.set p.1 p.2) leftRow

/-- The probing generator of `_execute_hash_join_partition`. -/
def probeTable (table : OrderedDict (List (Value F)) (List (Record F)))
    (rightKeys : List (Expression F)) (on : List String) (right : List (Record F)) :
    Py (List (Record F)) := do
  let parts ← right.mapM (fun rightRow => do
    let key ← tupleKey rightKeys rightRow
    pure (((table.get? key).getD []).map (fun leftRow => mergeRow on leftRow rightRow)))
  pure parts.flatten

/-- `_execute_hash_join_partition`: build on the left rows, probe with the right rows. -/
def hashJoinRows (leftKeys rightKeys : List (Expression F)) (on : List String)
    (left right : List (Record F)) : Py (List (Record F)) := do
  let table ← buildTable leftKeys left
  probeTable table rightKeys on right

end HashJoin

end MiniSpark
