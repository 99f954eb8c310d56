import MiniSpark.Checkpoint
import MiniSpark.Csv
import MiniSpark.Optimizer
import MiniSpark.Planner
import MiniSpark.Scheduler

/-!
# The query API

A data frame is a logical plan and the configuration of its session. A
transformation wraps the plan in one more node; an action analyzes, optimizes
and plans it, splits it into stages and runs them. The directory of the shuffle
files and the disk it lies on are parameters of an action.
-/
namespace MiniSpark

section Configuration

structure EngineConfig where
  master : String := "local[4]"
  maxTaskRetries : ℕ := 3

/-- `num_workers`. -/
def EngineConfig.numWorkers (F : Type) [PyRuntime F] [PyCsv F] (config : EngineConfig) : Py ℤ :=
  if config.master = "local" then .ok 1
  else if "local[".toList <+: config.master.toList ∧ "]".toList <:+ config.master.toList then
    let number := String.ofList (config.master.toList.drop 6).dropLast
    match PyCsv.parseInt F number with
    | some n => .ok n
    | none => .error (.valueError ("invalid literal for int() with base 10: " ++
        reprStr (PyRuntime.isPrintable F) number))
  else .error (.valueError ("Unsupported master: " ++
    reprStr (PyRuntime.isPrintable F) config.master ++ " (only 'local[N]' is supported)"))

structure ExecutionConfig where
  shufflePartitions : ℕ := 4

/-- `spill_threshold_bytes` stands for the two fields it is computed from. -/
structure MemoryConfig where
  spillThresholdBytes : ℤ := 3435973836

structure Config where
  engine : EngineConfig := {}
  execution : ExecutionConfig := {}
  memory : MemoryConfig := {}
  optimizer : OptimizerConfig := {}

end Configuration

variable {F : Type}

structure DataFrame (F : Type) where
  config : Config
  plan : LogicalPlan F

/-- The result of `group_by`, before `agg` names its aggregates. -/
structure GroupedData (F : Type) where
  config : Config
  plan : LogicalPlan F
  groupBy : List (Expression F)

/-- `str | Expression`. -/
inductive ColumnLike (F : Type)
  | name (name : String)
  | expression (e : Expression F)

/-- `Column(c) if isinstance(c, str) else c`. -/
def ColumnLike.toExpression : ColumnLike F → Expression F
  | .name column => .column column
  | .expression e => e

/-- `bool | list[bool]`. -/
inductive AscendingArg
  | every (ascending : Bool)
  | each (ascending : List Bool)

section Transformations

namespace DataFrame

/-- `filter`, also called `where`. -/
def filter (df : DataFrame F) (condition : Expression F) : DataFrame F :=
  { df with plan := .filter df.plan condition }

def select (df : DataFrame F) (columns : List (ColumnLike F)) : Py (DataFrame F) :=
  if columns = [] then .error (.valueError "select() requires at least one column")
  else .ok { df with plan := .project df.plan (columns.map ColumnLike.toExpression) }

def groupBy (df : DataFrame F) (columns : List (ColumnLike F)) : Py (GroupedData F) :=
  if columns = [] then .error (.valueError "group_by() requires at least one column")
  else .ok ⟨df.config, df.plan, columns.map ColumnLike.toExpression⟩

/-- `join`; a single column name is the list of it. -/
def join (df other : DataFrame F) (on : List String) (how : String) (broadcast : Bool) :
    Py (DataFrame F) :=
  if on = [] then .error (.valueError "join() requires at least one column in on=")
  else .ok { df with plan := .join df.plan other.plan on how broadcast }

/-- `order_by`, also called `sort`. -/
def orderBy (df : DataFrame F) (columns : List (ColumnLike F)) (ascending : AscendingArg) :
    Py (DataFrame F) :=
  if columns = [] then .error (.valueError "order_by() requires at least one column")
  else
    let exprs := columns.map ColumnLike.toExpression
    match ascending with
    | .every a => .ok { df with plan := .sort df.plan (exprs.map (fun e => (e, a))) }
    | .each as =>
        if as.length ≠ exprs.length then
          .error (.valueError "ascending must be a single bool or one bool per column")
        else .ok { df with plan := .sort df.plan (exprs.zip as) }

end DataFrame

def GroupedData.agg (grouped : GroupedData F) (aggregates : List (Expression F)) :
    Py (DataFrame F) :=
  if aggregates = [] then .error (.valueError "agg() requires at least one aggregate expression")
  else .ok ⟨grouped.config, .aggregate grouped.plan grouped.groupBy aggregates⟩

end Transformations

section Counting

/-- The known row count, or the length of a scan. -/
def Partition.countRows (p : Partition F) : Py ℕ :=
  match p.rowCount with
  | some n => .ok n
  | none => List.length <$> p.toList

/-- `Dataset.row_count`. -/
def Dataset.countRows (d : Dataset F) : Py ℕ := List.sum <$> d.partitions.mapM Partition.countRows

theorem rowsDataset_countRows (schema : Schema) (parts : List (List (Record F))) :
    (rowsDataset schema parts).countRows = .ok parts.flatten.length := by
  have hcounts : (rowsDataset schema parts).partitions.mapM Partition.countRows =
      .ok (parts.map List.length) := by
    rw [rowsDataset, ExceptList.mapM_eq_ok, List.forall₂_iff_get]
    simp [rowsPartition, Partition.countRows]
  rw [Dataset.countRows, hcounts, List.length_flatten]
  rfl

end Counting

/-- What an action raises: before its tasks run, or while they run. -/
inductive ActionError
  | raised (e : PyError)
  | run (e : RunError)

def raising {α : Type} (x : Py α) : Except ActionError α := x.mapError .raised

lemma raising_eq_ok {α : Type} {x : Py α} {a : α} : raising x = .ok a ↔ x = .ok a := by
  cases x <;> simp [raising, Except.mapError]

section Actions

variable [PyRuntime F]

namespace DataFrame

/-- `_optimized_plan`. -/
def optimizedPlan (df : DataFrame F) : Py (LogicalPlan F) := do
  let analyzed ← analyze df.plan
  optimize (defaultRules df.config.optimizer) analyzed

/-- `_stages`. -/
def stages [PyHost F] (df : DataFrame F) : Py (List (Stage F)) := do
  let optimized ← df.optimizedPlan
  let physical ← planPhysical df.config.execution.shufflePartitions
    df.config.memory.spillThresholdBytes optimized
  buildStages physical

variable [PyHost F] [PyCsv F]

/-- `_collect_dataset`. The scheduler is built first, which reads the number of workers. -/
def collectDataset (df : DataFrame F) (root : String) (disk : Disk F) :
    Except ActionError (Dataset F) := do
  let _ ← raising (df.config.engine.numWorkers F)
  let stages ← raising df.stages
  (runPlan df.config.engine.maxTaskRetries executeTask root stages disk).mapError .run

def collect (df : DataFrame F) (root : String) (disk : Disk F) :
    Except ActionError (List (Record F)) := do
  let dataset ← df.collectDataset root disk
  raising dataset.iterRecords

def count (df : DataFrame F) (root : String) (disk : Disk F) : Except ActionError ℕ := do
  let dataset ← df.collectDataset root disk
  raising dataset.countRows

end DataFrame

end Actions

end MiniSpark
