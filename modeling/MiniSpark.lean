import MiniSpark.Aggregate
import MiniSpark.AggregateAccumulation
import MiniSpark.AggregateExecution
import MiniSpark.AggregateGroups
import MiniSpark.AggregateHistories
import MiniSpark.AggregateHomomorphism
import MiniSpark.AggregateSpilling
import MiniSpark.AggregateStates
import MiniSpark.Analyzer
import MiniSpark.AnalyzerSoundness
import MiniSpark.Asks
import MiniSpark.AttemptOutcomes
import MiniSpark.BlockFiles
import MiniSpark.Checkpoint
import MiniSpark.CheckpointOverwrite
import MiniSpark.CheckpointedQueries
import MiniSpark.Chunking
import MiniSpark.CollectedQueries
import MiniSpark.ColumnSafety
import MiniSpark.ConcurrentRuns
import MiniSpark.Conjunctions
import MiniSpark.Csv
import MiniSpark.Dag
import MiniSpark.DataFrame
import MiniSpark.DataSources
import MiniSpark.Dataset
import MiniSpark.Dealing
import MiniSpark.Emissions
import MiniSpark.ExactAggregates
import MiniSpark.ExactFloats
import MiniSpark.ExactGroups
import MiniSpark.ExactNumbers
import MiniSpark.ExceptList
import MiniSpark.Exchange
import MiniSpark.Expression
import MiniSpark.ExpressionTexts
import MiniSpark.Faults
import MiniSpark.GlobalAggregate
import MiniSpark.GroupHistories
import MiniSpark.GroupStages
import MiniSpark.HashJoin
import MiniSpark.Having
import MiniSpark.Interleaving
import MiniSpark.JoinExecution
import MiniSpark.JoinPushdown
import MiniSpark.KeyHashes
import MiniSpark.KeyKinds
import MiniSpark.KeyedFold
import MiniSpark.Kleene
import MiniSpark.LineageRecovery
import MiniSpark.LogicalPlan
import MiniSpark.LossRecovery
import MiniSpark.Md5
import MiniSpark.Memory
import MiniSpark.NaiveSemantics
import MiniSpark.NullPlacement
import MiniSpark.OneLoss
import MiniSpark.OperatorColumns
import MiniSpark.Operators
import MiniSpark.OptimizedQueries
import MiniSpark.Optimizer
import MiniSpark.OptimizerFields
import MiniSpark.OptimizerFixpoint
import MiniSpark.OptimizerRuns
import MiniSpark.OptimizerSchema
import MiniSpark.OptimizerSemantics
import MiniSpark.OrderBy
import MiniSpark.OrderedDict
import MiniSpark.OrdinaryRetry
import MiniSpark.Outcome
import MiniSpark.Parquet
import MiniSpark.ParquetPredicate
import MiniSpark.ParquetQueries
import MiniSpark.ParquetReads
import MiniSpark.PartFiles
import MiniSpark.Partitioner
import MiniSpark.Patching
import MiniSpark.PhysicalPlan
import MiniSpark.PlanEmulation
import MiniSpark.PlanExecution
import MiniSpark.PlanSemantics
import MiniSpark.PlannedStages
import MiniSpark.Planner
import MiniSpark.PredicatePushdown
import MiniSpark.Processes
import MiniSpark.QueryExecution
import MiniSpark.RangeExchange
import MiniSpark.ReadContract
import MiniSpark.RecoveredQueries
import MiniSpark.RecoveredRuns
import MiniSpark.RecoverySafety
import MiniSpark.Reiteration
import MiniSpark.Repr
import MiniSpark.ReprTexts
import MiniSpark.RowAgreement
import MiniSpark.RowKeys
import MiniSpark.RowOperators
import MiniSpark.RowTypes
import MiniSpark.RuleRefinement
import MiniSpark.RunBounds
import MiniSpark.RunLog
import MiniSpark.ScanPushdown
import MiniSpark.Scheduler
import MiniSpark.SelfDelimiting
import MiniSpark.Session
import MiniSpark.Shuffle
import MiniSpark.ShufflePartitioning
import MiniSpark.SimplifiedValues
import MiniSpark.SortExecution
import MiniSpark.SortOperator
import MiniSpark.SortOrder
import MiniSpark.SourceChunks
import MiniSpark.SpillAccounting
import MiniSpark.SpillDirectories
import MiniSpark.SpillRemoval
import MiniSpark.SpillThresholds
import MiniSpark.SplitRefinement
import MiniSpark.SqlAggregates
import MiniSpark.SqlColumns
import MiniSpark.SqlParser
import MiniSpark.SqlPositions
import MiniSpark.SqlPrecedence
import MiniSpark.SqlQueries
import MiniSpark.SqlRendering
import MiniSpark.SqlStatement
import MiniSpark.SqlTokenizer
import MiniSpark.SqlTotality
import MiniSpark.SqlWriting
import MiniSpark.StableSort
import MiniSpark.StageExecution
import MiniSpark.Stages
import MiniSpark.StreamedExecution
import MiniSpark.StringTexts
import MiniSpark.StuckTasks
import MiniSpark.Summaries
import MiniSpark.Tallies
import MiniSpark.TaskColumns
import MiniSpark.TaskExecution
import MiniSpark.TaskPrograms
import MiniSpark.TextLines
import MiniSpark.Traced
import MiniSpark.TypedQueries
import MiniSpark.UniqueReading
import MiniSpark.Value
import MiniSpark.Worker
import MiniSpark.WorkerPools
