import MiniSpark.SortOperator

/-!
# Physical plans

A physical node is a logical node with an execution strategy. `ExchangeExec`
marks a shuffle boundary; stage splitting replaces it by the write node that
ends one stage and the read leaf that starts another.
-/
namespace MiniSpark

inductive PhysicalPlan (F : Type)
  | scanExec (dataset : Dataset F) (sourceName : String)
  | filterExec (child : PhysicalPlan F) (condition : Expression F)
  | projectExec (child : PhysicalPlan F) (columns : List (Expression F)) (schema : Schema)
  | hashAggregateExec (child : PhysicalPlan F) (spec : HashAggregate F)
  | exchangeExec (child : PhysicalPlan F) (numPartitions : ℕ) (partitionExprs : List (Expression F))
      (isBroadcast : Bool) (rangeBoundaries : Option (List (Value F)))
  | shuffleWriteExec (child : PhysicalPlan F) (numPartitions : ℕ)
      (partitionExprs : List (Expression F)) (rangeBoundaries : Option (List (Value F)))
  | shuffleReadExec (fromStageId : ℕ) (schema : Schema) (isBroadcast : Bool)
  | hashJoinExec (left right : PhysicalPlan F) (leftKeys rightKeys : List (Expression F))
      (on : List String) (schema : Schema)
  | sortExec (child : PhysicalPlan F) (spec : Sorting F)

namespace PhysicalPlan

variable {F : Type}

/-- The `schema` property. -/
def schema : PhysicalPlan F → Schema
  | .scanExec dataset _ => dataset.schema
  | .filterExec child _ => child.schema
  | .projectExec _ _ schema => schema
  | .hashAggregateExec _ spec => spec.schema
  | .exchangeExec child _ _ _ _ => child.schema
  | .shuffleWriteExec child _ _ _ => child.schema
  | .shuffleReadExec _ schema _ => schema
  | .hashJoinExec _ _ _ _ _ schema => schema
  | .sortExec _ spec => spec.schema

/-- `leaves`, left to right. -/
def leaves : PhysicalPlan F → List (PhysicalPlan F)
  | p@(.scanExec _ _) => [p]
  | p@(.shuffleReadExec _ _ _) => [p]
  | .filterExec child _ => child.leaves
  | .projectExec child _ _ => child.leaves
  | .hashAggregateExec child _ => child.leaves
  | .exchangeExec child _ _ _ _ => child.leaves
  | .shuffleWriteExec child _ _ _ => child.leaves
  | .hashJoinExec left right _ _ _ _ => left.leaves ++ right.leaves
  | .sortExec child _ => child.leaves

/-- `type(plan).__name__`. -/
def className : PhysicalPlan F → String
  | .scanExec _ _ => "ScanExec"
  | .filterExec _ _ => "FilterExec"
  | .projectExec _ _ _ => "ProjectExec"
  | .hashAggregateExec _ _ => "HashAggregateExec"
  | .exchangeExec _ _ _ _ _ => "ExchangeExec"
  | .shuffleWriteExec _ _ _ _ => "ShuffleWriteExec"
  | .shuffleReadExec _ _ _ => "ShuffleReadExec"
  | .hashJoinExec _ _ _ _ _ _ => "HashJoinExec"
  | .sortExec _ _ => "SortExec"

/-- `isinstance(plan, ShuffleWriteExec)`. -/
def isShuffleWrite : PhysicalPlan F → Bool
  | .shuffleWriteExec _ _ _ _ => true
  | _ => false

/-- The stage and broadcast flag of every `ShuffleReadExec` leaf. -/
def shuffleReads (plan : PhysicalPlan F) : List (ℕ × Bool) :=
  plan.leaves.filterMap (fun leaf => match leaf with
    | .shuffleReadExec stageId _ isBroadcast => some (stageId, isBroadcast)
    | _ => none)

section ShuffleReads

@[simp] theorem shuffleReads_scanExec (dataset : Dataset F) (sourceName : String) :
    (scanExec dataset sourceName).shuffleReads = [] := rfl

@[simp] theorem shuffleReads_shuffleReadExec (stageId : ℕ) (schema : Schema) (isBroadcast : Bool) :
    (shuffleReadExec (F := F) stageId schema isBroadcast).shuffleReads = [(stageId, isBroadcast)] :=
  rfl

@[simp] theorem shuffleReads_filterExec (child : PhysicalPlan F) (condition : Expression F) :
    (filterExec child condition).shuffleReads = child.shuffleReads := rfl

@[simp] theorem shuffleReads_projectExec (child : PhysicalPlan F) (columns : List (Expression F))
    (schema : Schema) : (projectExec child columns schema).shuffleReads = child.shuffleReads := rfl

@[simp] theorem shuffleReads_hashAggregateExec (child : PhysicalPlan F) (spec : HashAggregate F) :
    (hashAggregateExec child spec).shuffleReads = child.shuffleReads := rfl

@[simp] theorem shuffleReads_sortExec (child : PhysicalPlan F) (spec : Sorting F) :
    (sortExec child spec).shuffleReads = child.shuffleReads := rfl

@[simp] theorem shuffleReads_shuffleWriteExec (child : PhysicalPlan F) (numPartitions : ℕ)
    (exprs : List (Expression F)) (rangeBoundaries : Option (List (Value F))) :
    (shuffleWriteExec child numPartitions exprs rangeBoundaries).shuffleReads =
      child.shuffleReads := rfl

@[simp] theorem shuffleReads_hashJoinExec (left right : PhysicalPlan F)
    (leftKeys rightKeys : List (Expression F)) (on : List String) (schema : Schema) :
    (hashJoinExec left right leftKeys rightKeys on schema).shuffleReads =
      left.shuffleReads ++ right.shuffleReads := List.filterMap_append

end ShuffleReads

end PhysicalPlan

end MiniSpark
