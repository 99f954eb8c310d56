import MiniSpark.Checkpoint
import MiniSpark.Csv

/-!
# Records in memory

`MemoryDataSource` cuts a list of records into consecutive chunks. A schema that is not given, or
has no fields, is taken from the first record.
-/
namespace MiniSpark

open Chunking

variable {F : Type}

/-- `infer_schema`. -/
def inferSchema (isPrintable : Char → Bool) (records : List (Record F)) : Py Schema :=
  match records with
  | [] => .error (.valueError "Cannot infer schema from an empty list of records")
  | first :: _ => Schema.make isPrintable
      (first.items.map (fun cell => ⟨cell.1, inferType cell.2, cell.2.isNone⟩))

/-- `schema or infer_schema(records)`; a schema is true when it has fields. -/
def schemaOrInferred (isPrintable : Char → Bool) (schema : Option Schema)
    (records : List (Record F)) : Py Schema :=
  match schema with
  | none => inferSchema isPrintable records
  | some s => if s.fields = [] then inferSchema isPrintable records else .ok s

/-- `_project`. -/
def projectRecords (columns : Option (List String)) (rows : List (Record F)) :
    Py (List (Record F)) :=
  rows.mapM (restrictRecord columns)

/-- The number of partitions of a source. -/
def memoryPartitionCount (numPartitions : ℤ) (total : ℕ) : ℕ :=
  (max 1 (min numPartitions (if total = 0 then 1 else total))).toNat

/-- The partitions of the chunks, or an empty partition where there is none. -/
def memoryPartitions (schema : Schema) (parts : List (ℕ × List (Record F))) :
    List (Partition F) :=
  if parts.isEmpty then [rowsPartition 0 schema []]
  else parts.map (fun part => rowsPartition part.1 schema part.2)

def memoryDataset (schema : Schema) (parts : List (ℕ × List (Record F))) : Dataset F where
  schema := schema
  partitions := memoryPartitions schema parts
  recomputable := by
    intro p hp
    unfold memoryPartitions at hp
    split at hp
    · obtain rfl := List.mem_singleton.mp hp
      exact fun _ => rfl
    · obtain ⟨part, -, rfl⟩ := List.mem_map.mp hp
      exact fun _ => rfl

/-- `MemoryDataSource(records, schema, num_partitions).read(columns)`. A filter is ignored. -/
def readMemory (isPrintable : Char → Bool) (records : List (Record F)) (schema : Option Schema)
    (numPartitions : ℤ) (columns : Option (List String)) : Py (Dataset F) := do
  let fullSchema ← schemaOrInferred isPrintable schema records
  let schema ← fullSchema.requested isPrintable columns
  let ranges := chunks (memoryPartitionCount numPartitions records.length) records.length
  let parts ← ranges.mapM (fun c => do
    let rows ← projectRecords columns (slice records c)
    pure (c.index, rows))
  pure (memoryDataset schema parts)

end MiniSpark
