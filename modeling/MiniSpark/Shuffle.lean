import MiniSpark.KeyedFold
import MiniSpark.RowOperators

/-!
# Shuffle storage

One block file for each stage, source task and target partition. The writer
keeps one open file for every target it has met, the reader checks the recorded
checksum of a block before it loads the rows, and the manager remembers which
blocks each stage registered last.
-/
namespace MiniSpark

variable {F : Type} [PyRuntime F]

/-- A file path, by its components. -/
abbrev Path := List String

/-- `shuffle_partition_dir(root_dir, stage_id, target) / f"block_{source_task_id}.pkl"`. -/
def blockPath (rootDir : String) (stageId sourceTaskId target : ℕ) : Path :=
  [rootDir, "stage_" ++ toString stageId, "partition_" ++ toString target,
    "block_" ++ toString sourceTaskId ++ ".pkl"]

/-- The files on the local disk. -/
abbrev Disk (F : Type) [PyRuntime F] [PyHost F] := Path → Option (PyHost.Bytes F)

/-- Write a whole file. -/
def Disk.write [PyHost F] (disk : Disk F) (path : Path) (raw : PyHost.Bytes F) : Disk F :=
  fun p => if p = path then some raw else disk p

structure ShuffleBlockMeta where
  stageId : ℕ
  sourceTaskId : ℕ
  targetPartition : ℕ
  path : Path
  recordCount : ℕ
  byteLength : ℕ
  checksum : String
  deriving DecidableEq, Repr

section Writer

/-- The rows appended to the file of each target so far. -/
abbrev BlockWriters (F : Type) := OrderedDict ℕ (List (Record F))

/-- The loop of `write_shuffle_partition`; `target` is
`partitioner.partition_for(key_fn(record))`. Rows before an exception stay written. -/
def writeLoop (target : Record F → Py ℕ) : List (Record F) → BlockWriters F →
    Py Unit × BlockWriters F
  | [], writers => (.ok (), writers)
  | record :: records, writers =>
      match target record with
      | .error e => (.error e, writers)
      | .ok t => writeLoop target records (writers.set t ((writers.get? t).getD [] ++ [record]))

variable [PyHost F]

/-- The metadata of one closed block file. -/
def blockMeta (rootDir : String) (stageId sourceTaskId target : ℕ) (rows : List (Record F)) :
    ShuffleBlockMeta where
  stageId := stageId
  sourceTaskId := sourceTaskId
  targetPartition := target
  path := blockPath rootDir stageId sourceTaskId target
  recordCount := rows.length
  byteLength := PyHost.byteLength (PyHost.pickle rows)
  checksum := PyHost.md5Hex (PyHost.pickle rows)

/-- Close every writer: its file holds the pickled rows. -/
def flushWriters (rootDir : String) (stageId sourceTaskId : ℕ) (writers : BlockWriters F)
    (disk : Disk F) : Disk F :=
  writers.items.foldl (fun d p =>
    d.write (blockPath rootDir stageId sourceTaskId p.1) (PyHost.pickle p.2)) disk

/-- `write_shuffle_partition`. -/
def writeShufflePartition (rootDir : String) (stageId sourceTaskId : ℕ)
    (records : List (Record F)) (target : Record F → Py ℕ) (disk : Disk F) :
    Py (List ShuffleBlockMeta) × Disk F :=
  let (outcome, writers) := writeLoop target records OrderedDict.empty
  (do outcome
      pure (writers.items.map (fun p => blockMeta rootDir stageId sourceTaskId p.1 p.2)),
    flushWriters rootDir stageId sourceTaskId writers disk)

end Writer

section Reader

variable [PyHost F]

/-- `_read_block`. -/
def readBlock (disk : Disk F) (block : ShuffleBlockMeta) : Py (List (Record F)) :=
  match disk block.path with
  | none => .error .fileNotFoundError
  | some raw =>
      if PyHost.md5Hex raw ≠ block.checksum then .error .shuffleChecksumError
      else PyHost.unpickle raw

/-- `read_shuffle_blocks`. -/
def readShuffleBlocks (disk : Disk F) (blocks : List ShuffleBlockMeta) : Py (List (Record F)) := do
  let parts ← blocks.mapM (readBlock disk)
  pure parts.flatten

end Reader

/-- `ShuffleManager._blocks`. -/
abbrev ShuffleManager := OrderedDict ℕ (List ShuffleBlockMeta)

namespace ShuffleManager

/-- `register_blocks`: overwrite, not append. -/
def registerBlocks (manager : ShuffleManager) (stageId : ℕ) (blocks : List ShuffleBlockMeta) :
    ShuffleManager := manager.set stageId blocks

/-- `blocks_for`. -/
def blocksFor (manager : ShuffleManager) (stageId target : ℕ) : List ShuffleBlockMeta :=
  ((manager.get? stageId).getD []).filter (fun b => b.targetPartition = target)

end ShuffleManager

end MiniSpark
