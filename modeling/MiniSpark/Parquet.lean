import MiniSpark.Checkpoint
import MiniSpark.Chunking
import MiniSpark.ParquetPredicate

/-!
# Parquet directories

Each partition is written to a file named after its id; files of earlier writes under other
names stay. Reading enumerates all files of the directory and deals their row groups to
partitions in consecutive chunks.
-/
namespace MiniSpark

section Arrow

/-- `pyarrow.DataType`; `other` carries its `repr`. -/
inductive ArrowType
  | bool
  | integer (bits : ℕ) (signed : Bool)
  | floating (bits : ℕ)
  | string
  | largeString
  | null
  | other (repr : String)
  deriving DecidableEq

structure ArrowField where
  name : String
  type : ArrowType
  nullable : Bool
  deriving DecidableEq

/-- `_arrow_type_to_datatype`. -/
def arrowTypeToDatatype : ArrowType → Py DataType
  | .bool => .ok .bool
  | .integer _ _ => .ok .int
  | .floating _ => .ok .float
  | .string => .ok .string
  | .largeString => .ok .string
  | .null => .ok .null
  | .other repr => .error (.valueError ("Unsupported Parquet/Arrow type for MiniSpark: " ++ repr ++
      ". Only bool, integer, floating-point, string, and null are supported; " ++
      "date/timestamp/decimal/nested types are not implemented."))

/-- `_datatype_to_arrow_type`. -/
def datatypeToArrowType : DataType → ArrowType
  | .bool => .bool
  | .int => .integer 64 true
  | .float => .floating 64
  | .string => .string
  | .null => .null

/-- `_minispark_schema_to_arrow`. -/
def minisparkSchemaToArrow (schema : Schema) : List ArrowField :=
  schema.fields.map (fun f => ⟨f.name, datatypeToArrowType f.dataType, f.nullable⟩)

/-- `_arrow_schema_to_minispark`. -/
def arrowSchemaToMinispark (isPrintable : Char → Bool) (arrowSchema : List ArrowField) :
    Py Schema := do
  let fields ← arrowSchema.mapM (fun f => do
    let t ← arrowTypeToDatatype f.type
    pure (⟨f.name, t, f.nullable⟩ : Field))
  Schema.make isPrintable fields

/-- Tables, Parquet files and their row groups. -/
class PyArrow (F : Type) where
  Table : Type
  File : Type
  Fragment : Type
  fromPylist : List (Record F) → List ArrowField → Py Table
  toPylist : Table → List (Record F)
  writeTable : Table → File
  fileSchema : File → List ArrowField
  splitByRowGroup : File → List Fragment
  numRows : Fragment → ℕ
  toTable : Fragment → Option (List String) → Option (ArrowFilter F) → Py Table

end Arrow

section Source

variable (F : Type) [PyArrow F]

/-- The Parquet files of a directory, by name. -/
abbrev Directory := OrderedDict String (PyArrow.File F)

variable {F}

/-- `f"{n:05d}"`. -/
def zeroPad (n : ℕ) : String :=
  String.ofList (List.replicate (5 - (toString n).length) '0') ++ toString n

/-- `f"part-{partition_id:05d}.parquet"`. -/
def partName (partitionId : ℕ) : String := "part-" ++ zeroPad partitionId ++ ".parquet"

/-- The loop of `write_parquet_dataset`. Files before an exception stay written. -/
def writeParts (arrowSchema : List ArrowField) : List (Partition F) → Directory F →
    Py Unit × Directory F
  | [], dir => (.ok (), dir)
  | p :: ps, dir =>
      match (do let rows ← p.toList; PyArrow.fromPylist rows arrowSchema) with
      | .error e => (.error e, dir)
      | .ok table =>
          writeParts arrowSchema ps (dir.set (partName p.partitionId) (PyArrow.writeTable table))

/-- `write_parquet_dataset`. -/
def writeParquetDataset (dataset : Dataset F) (dir : Directory F) : Py Unit × Directory F :=
  writeParts (minisparkSchemaToArrow dataset.schema) dataset.partitions dir

/-- `pa_dataset.dataset(path, format="parquet")`: the files in the order of their names. -/
def Directory.listing (dir : Directory F) : List (PyArrow.File F) :=
  (dir.items.mergeSort (fun p q => decide (p.1 ≤ q.1))).map Prod.snd

/-- The schema of the dataset is that of its first file. -/
def datasetSchema (files : List (PyArrow.File F)) : List ArrowField :=
  match files with
  | [] => []
  | file :: _ => PyArrow.fileSchema file

/-- `_read_fragments`. -/
def readFragments (columns : Option (List String)) (paFilter : Option (ArrowFilter F))
    (fragments : List (PyArrow.Fragment F)) : Py (List (Record F)) := do
  let tables ← fragments.mapM (fun fragment => PyArrow.toTable fragment columns paFilter)
  pure (tables.flatMap PyArrow.toPylist)

/-- The number of partitions of a read; `self._num_partitions` is at least 1. -/
def parquetPartitions (numPartitions : ℤ) (rowGroups : ℕ) : ℕ :=
  (max 1 (min (max 1 numPartitions) (if rowGroups = 0 then 1 else rowGroups))).toNat

/-- A partition reads its row groups. -/
def fragmentPartition (schema : Schema) (columns : Option (List String))
    (paFilter : Option (ArrowFilter F)) (index : ℕ) (group : List (PyArrow.Fragment F)) :
    Partition F where
  partitionId := index
  schema := schema
  pass _ := readFragments columns paFilter group
  rowCount := some (group.map PyArrow.numRows).sum

/-- The partitions of `ParquetDataSource.read`. -/
def fragmentPartitions (numPartitions : ℤ) (schema : Schema) (columns : Option (List String))
    (paFilter : Option (ArrowFilter F)) (rowGroups : List (PyArrow.Fragment F)) :
    List (Partition F) :=
  let partitions := (Chunking.chunks (parquetPartitions numPartitions rowGroups.length)
    rowGroups.length).map (fun c =>
      fragmentPartition schema columns paFilter c.index (Chunking.slice rowGroups c))
  if partitions.isEmpty then [fragmentPartition schema columns paFilter 0 []] else partitions

lemma fragmentPartitions_recomputable (numPartitions : ℤ) (schema : Schema)
    (columns : Option (List String)) (paFilter : Option (ArrowFilter F))
    (rowGroups : List (PyArrow.Fragment F)) :
    ∀ p ∈ fragmentPartitions numPartitions schema columns paFilter rowGroups, p.Recomputable := by
  intro p hp
  unfold fragmentPartitions at hp
  dsimp only at hp
  split at hp
  · obtain rfl := List.mem_singleton.mp hp
    exact fun _ => rfl
  · obtain ⟨c, -, rfl⟩ := List.mem_map.mp hp
    exact fun _ => rfl

def fragmentDataset (numPartitions : ℤ) (schema : Schema) (columns : Option (List String))
    (paFilter : Option (ArrowFilter F)) (rowGroups : List (PyArrow.Fragment F)) : Dataset F where
  schema := schema
  partitions := fragmentPartitions numPartitions schema columns paFilter rowGroups
  recomputable := fragmentPartitions_recomputable _ _ _ _ _

variable [PyRuntime F]

/-- `ParquetDataSource(path, num_partitions).read(columns, filter)`. -/
def readParquet (numPartitions : ℤ) (dir : Directory F) (columns : Option (List String))
    (filter : Option (Expression F)) : Py (Dataset F) := do
  let files := dir.listing
  let fullSchema ← arrowSchemaToMinispark (PyRuntime.isPrintable F) (datasetSchema files)
  let schema ← fullSchema.requested (PyRuntime.isPrintable F) columns
  pure (fragmentDataset numPartitions schema columns (filter.bind translatePredicate)
    (files.flatMap PyArrow.splitByRowGroup))

end Source

section Laws

variable {F : Type}

/-- The type of a value; every type admits null. -/
def DataType.Admits : DataType → Value F → Prop
  | _, .none => True
  | .int, .int _ => True
  | .float, .float _ => True
  | .string, .str _ => True
  | .bool, .bool _ => True
  | _, _ => False

/-- The fields of the schema, in any order, each with a value of its type. -/
structure SupportedRow (schema : Schema) (r : Record F) : Prop where
  keys : r.keys.Perm schema.fieldNames
  typed : ∀ f ∈ schema.fields, ∀ v, r.get? f.name = some v → f.dataType.Admits v

/-- Equality of dictionaries. -/
structure SameDict (r r' : Record F) : Prop where
  keys : r'.keys.Perm r.keys
  get? : ∀ k, r'.get? k = r.get? k

/-- The same rows in any order. -/
def SameDicts (xs ys : List (Record F)) : Prop := ∃ zs, List.Forall₂ SameDict xs zs ∧ zs.Perm ys

/-- The rows of a fragment, and of a file. -/
def fragmentRows [PyArrow F] (fragment : PyArrow.Fragment F) : Py (List (Record F)) :=
  PyArrow.toPylist <$> PyArrow.toTable fragment none none

def fileRows [PyArrow F] (file : PyArrow.File F) : Py (List (Record F)) :=
  List.flatten <$> (PyArrow.splitByRowGroup file).mapM fragmentRows

/-- Tables keep the rows they are made of and survive writing and reading. -/
class LawfulPyArrow (F : Type) [PyArrow F] : Prop where
  toPylist_fromPylist : ∀ (schema : Schema) (rows : List (Record F)) (table : PyArrow.Table F),
    (∀ r ∈ rows, SupportedRow schema r) →
    PyArrow.fromPylist rows (minisparkSchemaToArrow schema) = .ok table →
    List.Forall₂ SameDict rows (PyArrow.toPylist table)
  fileRows_writeTable : ∀ table : PyArrow.Table F,
    fileRows (PyArrow.writeTable table) = .ok (PyArrow.toPylist table)
  fileSchema_writeTable : ∀ (rows : List (Record F)) (arrowSchema : List ArrowField) table,
    PyArrow.fromPylist rows arrowSchema = .ok table →
    PyArrow.fileSchema (PyArrow.writeTable table) = arrowSchema

/-- A table is its schema and its rows, a file is one row group. -/
instance exactArrow : PyArrow ℚ where
  Table := List ArrowField × List (Record ℚ)
  File := List ArrowField × List (Record ℚ)
  Fragment := List ArrowField × List (Record ℚ)
  fromPylist rows arrowSchema := .ok (arrowSchema, rows)
  toPylist table := table.2
  writeTable table := table
  fileSchema file := file.1
  splitByRowGroup file := [file]
  numRows fragment := fragment.2.length
  toTable fragment columns paFilter :=
    match columns, paFilter with
    | none, none => .ok fragment
    | _, _ => .error (.notImplementedError "pyarrow")

instance exactArrow_lawful : LawfulPyArrow ℚ where
  toPylist_fromPylist := by
    intro schema rows table _ h
    cases h
    exact List.forall₂_same.mpr (fun r _ => ⟨List.Perm.refl _, fun _ => rfl⟩)
  fileRows_writeTable := fun table => congrArg Except.ok (List.append_nil table.2)
  fileSchema_writeTable := by
    intro rows arrowSchema table h
    cases h
    rfl

end Laws

section Names

/-- Leading zeros do not change a number. -/
lemma ofDigitChars_zeros (k : ℕ) (cs : List Char) :
    Nat.ofDigitChars 10 (List.replicate k '0' ++ cs) 0 = Nat.ofDigitChars 10 cs 0 := by
  induction k with
  | zero => rfl
  | succ k ih => exact ih

lemma zeroPad_value (n : ℕ) : Nat.ofDigitChars 10 (zeroPad n).toList 0 = n := by
  rw [zeroPad, String.toList_append, String.toList_ofList, ofDigitChars_zeros]
  exact (congrArg (Nat.ofDigitChars 10 · 0) Nat.toList_repr).trans Nat.ofDigitChars_ten_toDigits

lemma zeroPad_inj {m n : ℕ} (h : zeroPad m = zeroPad n) : m = n := by
  rw [← zeroPad_value m, h, zeroPad_value]

lemma partName_inj {m n : ℕ} (h : partName m = partName n) : m = n := by
  simp only [partName, String.append_left_inj, String.append_right_inj] at h
  exact zeroPad_inj h

end Names

section Entries

variable {V : Type}

/-- A write replaces the entry of its key. -/
lemma items_set_perm (d : OrderedDict String V) (k : String) (v : V) :
    (d.set k v).items.Perm (d.items.filter (fun p => p.1 ≠ k) ++ [(k, v)]) := by
  have hother : ∀ ps : List (String × V), (∀ p ∈ ps, p.1 ≠ k) →
      ps.filter (fun p => p.1 ≠ k) = ps :=
    fun ps h => List.filter_eq_self.mpr (fun p hp => by simpa using h p hp)
  have hnodup := OrderedDict.distinct_keys_iff.mp d.distinct
  rw [OrderedDict.items_set]
  obtain ⟨hnone, hset⟩ | ⟨pre, p, post, hitems, hp, -, hset⟩ := OrderedDict.setItems_cases k v d.items
  · have hall : ∀ p ∈ d.items, p.1 ≠ k := by
      intro p hp he
      exact List.find?_eq_none.mp hnone p hp (by simp [he])
    rw [hset, hother _ hall]
  · obtain rfl := eq_of_beq hp
    rw [hitems, List.map_append, List.map_cons] at hnodup
    obtain ⟨-, hpost, hdisjoint⟩ := List.nodup_append.mp hnodup
    have hpre : ∀ q ∈ pre, q.1 ≠ p.1 := fun q hq =>
      hdisjoint q.1 (List.mem_map_of_mem hq) p.1 List.mem_cons_self
    have hpost' : ∀ q ∈ post, q.1 ≠ p.1 := fun q hq he =>
      (List.nodup_cons.mp hpost).1 (he ▸ List.mem_map_of_mem hq)
    rw [hset, hitems, List.filter_append, List.filter_cons_of_neg (by simp), hother _ hpre,
      hother _ hpost']
    exact List.perm_middle.trans
      (List.perm_append_comm : ([(p.1, v)] ++ (pre ++ post)).Perm (pre ++ post ++ [(p.1, v)]))

/-- Several writes under different keys: the other entries stay. -/
lemma items_foldl_set_perm {pairs : List (String × V)} (hpairs : (pairs.map Prod.fst).Nodup)
    (d : OrderedDict String V) :
    (pairs.foldl (fun d p => d.set p.1 p.2) d).items.Perm
      (d.items.filter (fun p => p.1 ∉ pairs.map Prod.fst) ++ pairs) := by
  induction pairs generalizing d with
  | nil => simp
  | cons p pairs ih =>
      obtain ⟨hp, hnodup⟩ := List.nodup_cons.mp hpairs
      have hset := (items_set_perm d p.1 p.2).filter (fun q => q.1 ∉ pairs.map Prod.fst)
      have hsingle : [p].filter (fun q => q.1 ∉ pairs.map Prod.fst) = [p] :=
        List.filter_cons_of_pos (by simpa using hp)
      have hboth : (d.items.filter (fun q => q.1 ≠ p.1)).filter (fun q => q.1 ∉ pairs.map Prod.fst) =
          d.items.filter (fun q => q.1 ∉ (p :: pairs).map Prod.fst) := by
        rw [List.filter_filter]
        refine List.filter_congr (fun q _ => ?_)
        rw [Bool.eq_iff_iff, Bool.and_eq_true, decide_eq_true_eq, decide_eq_true_eq,
          decide_eq_true_eq, List.map_cons, List.mem_cons, not_or]
        exact and_comm
      rw [List.filter_append, hboth, hsingle] at hset
      exact (ih hnodup (d.set p.1 p.2)).trans
        (by simpa using hset.append_right pairs)

end Entries

section Writing

variable {F : Type} [PyArrow F]

/-- The directories a sequence of writes leaves behind, failed writes included. -/
inductive Directory.Written : Directory F → Prop
  | empty : Written OrderedDict.empty
  | write {dir : Directory F} (dataset : Dataset F) : Written dir →
      Written (writeParquetDataset dataset dir).2

/-- The file holds a table of a dataset. -/
def HoldsTable (file : PyArrow.File F) : Prop :=
  ∃ (schema : Schema) (rows : List (Record F)) (table : PyArrow.Table F),
    PyArrow.fromPylist rows (minisparkSchemaToArrow schema) = .ok table ∧
      file = PyArrow.writeTable table

lemma writeParts_holdsTable {schema : Schema} {ps : List (Partition F)} {dir : Directory F}
    (h : ∀ e ∈ dir.items, HoldsTable e.2) :
    ∀ e ∈ (writeParts (minisparkSchemaToArrow schema) ps dir).2.items, HoldsTable e.2 := by
  induction ps generalizing dir with
  | nil => exact h
  | cons p ps ih =>
      unfold writeParts
      split
      · exact h
      · next table htable =>
          obtain ⟨rows, -, htable⟩ := ExceptList.bind_eq_ok.mp htable
          refine ih (fun e he => ?_)
          exact (OrderedDict.setItems_forall (P := fun _ => True)
            (fun q hq => ⟨trivial, h q hq⟩) trivial ⟨schema, rows, table, htable, rfl⟩ e he).2

lemma Directory.Written.holdsTable {dir : Directory F} (h : dir.Written) :
    ∀ e ∈ dir.items, HoldsTable e.2 := by
  induction h with
  | empty =>
      intro e he
      cases he
  | write dataset _ ih => exact writeParts_holdsTable ih

/-- The file written for a partition. -/
def WritesEntry (arrowSchema : List ArrowField) (p : Partition F)
    (e : String × PyArrow.File F) : Prop :=
  ∃ rows table, p.toList = .ok rows ∧ PyArrow.fromPylist rows arrowSchema = .ok table ∧
    e = (partName p.partitionId, PyArrow.writeTable table)

/-- A write that succeeds writes a file for every partition. -/
lemma writeParts_eq_ok {arrowSchema : List ArrowField} {ps : List (Partition F)}
    {dir dir' : Directory F} (h : writeParts arrowSchema ps dir = (.ok (), dir')) :
    ∃ entries, List.Forall₂ (WritesEntry arrowSchema) ps entries ∧
      dir' = entries.foldl (fun d e => d.set e.1 e.2) dir := by
  induction ps generalizing dir with
  | nil =>
      cases h
      exact ⟨[], .nil, rfl⟩
  | cons p ps ih =>
      unfold writeParts at h
      split at h
      · cases h
      · next table htable =>
          obtain ⟨rows, hrows, htable⟩ := ExceptList.bind_eq_ok.mp htable
          obtain ⟨entries, hentries, hdir⟩ := ih h
          exact ⟨_ :: entries, .cons ⟨rows, table, hrows, htable, rfl⟩ hentries, hdir⟩

/-- Different partitions are written to different files. -/
lemma entries_nodup {arrowSchema : List ArrowField} {ps : List (Partition F)}
    {entries : List (String × PyArrow.File F)}
    (h : List.Forall₂ (WritesEntry arrowSchema) ps entries)
    (hids : (ps.map Partition.partitionId).Nodup) :
    entries.map Prod.fst = ps.map (fun p => partName p.partitionId) ∧
      (entries.map Prod.fst).Nodup := by
  have hnames : entries.map Prod.fst = ps.map (fun p => partName p.partitionId) := by
    rw [← List.forall₂_eq_eq_eq, List.forall₂_map_left_iff, List.forall₂_map_right_iff]
    refine (h.imp (fun p e he => ?_)).flip
    obtain ⟨rows, table, -, -, rfl⟩ := he
    rfl
  refine ⟨hnames, ?_⟩
  have hmap : ps.map (fun p => partName p.partitionId) =
      (ps.map Partition.partitionId).map partName := by rw [List.map_map]; rfl
  rw [hnames, hmap]
  exact hids.map (fun _ _ => partName_inj)

end Writing

section Reading

variable {F : Type} [PyArrow F] [LawfulPyArrow F]

/-- The rows of a readable fragment, and of a readable file. -/
def rowsOf (fragment : PyArrow.Fragment F) : List (Record F) :=
  match fragmentRows fragment with
  | .ok rows => rows
  | .error _ => []

def rowsIn (file : PyArrow.File F) : List (Record F) :=
  (PyArrow.splitByRowGroup file).flatMap rowsOf

omit [LawfulPyArrow F] in
lemma fileRows_eq {file : PyArrow.File F} {rows : List (Record F)} (h : fileRows file = .ok rows) :
    rowsIn file = rows ∧
      ∀ g ∈ PyArrow.splitByRowGroup file, fragmentRows g = .ok (rowsOf g) := by
  obtain ⟨parts, hparts, rfl⟩ := ExceptList.map_eq_ok.mp h
  have heach : ∀ g ∈ PyArrow.splitByRowGroup file, fragmentRows g = .ok (rowsOf g) := by
    intro g hg
    obtain ⟨b, -, hb⟩ := ExceptList.mapM_ok_mem hparts hg
    rw [rowsOf, hb]
  have hmap := ExceptList.mapM_ok_of_forall heach
  rw [hparts] at hmap
  cases hmap
  exact ⟨rfl, heach⟩

lemma HoldsTable.rowsIn {file : PyArrow.File F} (h : HoldsTable file) :
    fileRows file = .ok (MiniSpark.rowsIn file) := by
  obtain ⟨schema, rows, table, -, rfl⟩ := h
  have hrows := LawfulPyArrow.fileRows_writeTable table
  rw [(fileRows_eq hrows).1]
  exact hrows

omit [LawfulPyArrow F] in
/-- A partition yields the rows of its row groups. -/
lemma readFragments_ok {group : List (PyArrow.Fragment F)}
    (h : ∀ g ∈ group, fragmentRows g = .ok (rowsOf g)) :
    readFragments none none group = .ok (group.flatMap rowsOf) := by
  have htables : ∀ g ∈ group, ∃ table, PyArrow.toTable g none none = .ok table ∧
      rowsOf g = PyArrow.toPylist table := by
    intro g hg
    obtain ⟨table, htable, hrows⟩ := ExceptList.map_eq_ok.mp (h g hg)
    exact ⟨table, htable, hrows.symm⟩
  obtain ⟨tables, hmap, hrel⟩ := ExceptList.mapM_ok_of_exists htables
  have hflat : tables.flatMap PyArrow.toPylist = group.flatMap rowsOf := by
    have heq : group.map rowsOf = tables.map PyArrow.toPylist := by
      rw [← List.forall₂_eq_eq_eq, List.forall₂_map_left_iff, List.forall₂_map_right_iff]
      exact hrel
    rw [List.flatMap, List.flatMap, heq]
  unfold readFragments
  rw [hmap, ExceptList.bind_ok, hflat]
  rfl

omit [LawfulPyArrow F] in
/-- Every row group is read once, whatever the number of partitions. -/
lemma fragmentPartitions_rows {numPartitions : ℤ} {schema : Schema}
    {rowGroups : List (PyArrow.Fragment F)}
    (h : ∀ g ∈ rowGroups, fragmentRows g = .ok (rowsOf g)) :
    ∃ parts, (fragmentPartitions numPartitions schema none none rowGroups).mapM Partition.toList =
      .ok parts ∧ parts.flatten = rowGroups.flatMap rowsOf := by
  have hpositive : 0 < parquetPartitions numPartitions rowGroups.length := by
    unfold parquetPartitions
    omega
  have hchunks := Chunking.flatMap_chunks rowGroups hpositive rowsOf
  have hslice : ∀ c ∈ Chunking.chunks (parquetPartitions numPartitions rowGroups.length)
      rowGroups.length, (fragmentPartition schema none none c.index
        (Chunking.slice rowGroups c)).toList = .ok ((Chunking.slice rowGroups c).flatMap rowsOf) :=
    fun c _ => readFragments_ok (fun g hg => h g
      (List.mem_of_mem_drop (List.mem_of_mem_take hg)))
  unfold fragmentPartitions
  dsimp only
  split
  · next hempty =>
      have hnil := List.map_eq_nil_iff.mp (List.isEmpty_iff.mp hempty)
      rw [hnil] at hchunks
      exact ⟨[[]], rfl, hchunks⟩
  · refine ⟨_, ?_, hchunks⟩
    rw [List.mapM_map]
    exact ExceptList.mapM_ok_of_forall hslice

end Reading

section RoundTrip

variable {F : Type} [PyArrow F] [PyRuntime F]

lemma arrowTypeToDatatype_datatypeToArrowType (t : DataType) :
    arrowTypeToDatatype (datatypeToArrowType t) = .ok t := by
  cases t <;> rfl

/-- A schema survives the translation to Arrow and back. -/
lemma arrowSchemaToMinispark_ok (isPrintable : Char → Bool) (schema : Schema) :
    arrowSchemaToMinispark isPrintable (minisparkSchemaToArrow schema) = .ok schema := by
  have hfields : (minisparkSchemaToArrow schema).mapM (fun f => do
      let t ← arrowTypeToDatatype f.type
      pure (⟨f.name, t, f.nullable⟩ : Field)) = .ok schema.fields := by
    rw [minisparkSchemaToArrow, List.mapM_map]
    have hmap := ExceptList.mapM_ok_of_forall (g := id)
      (f := fun f : Field => do
        let t ← arrowTypeToDatatype (datatypeToArrowType f.dataType)
        pure (⟨f.name, t, f.nullable⟩ : Field))
      (fun f (_ : f ∈ schema.fields) => by
        simp only [arrowTypeToDatatype_datatypeToArrowType]
        rfl)
    rw [List.map_id] at hmap
    exact hmap
  unfold arrowSchemaToMinispark
  rw [hfields]
  exact Schema.make_eq_ok.mpr rfl

variable [LawfulPyArrow F] {dir dir' : Directory F}

/-- A directory of written files can be read: its listing, file by file. -/
theorem readParquet_listing (h : ∀ e ∈ dir.items, HoldsTable e.2) (numPartitions : ℤ) :
    ∃ read parts, readParquet numPartitions dir none none = .ok read ∧
      arrowSchemaToMinispark (PyRuntime.isPrintable F) (datasetSchema dir.listing) =
        .ok read.schema ∧
      read.partitions.mapM Partition.toList = .ok parts ∧
      parts.flatten = dir.listing.flatMap rowsIn := by
  have hsorted : (dir.items.mergeSort (fun p q => decide (p.1 ≤ q.1))).Perm dir.items :=
    List.mergeSort_perm _ _
  have hfiles : ∀ file ∈ dir.listing, HoldsTable file := by
    intro file hfile
    obtain ⟨e, he, rfl⟩ := List.mem_map.mp hfile
    exact h e (hsorted.mem_iff.mp he)
  have hschema : ∃ schema, arrowSchemaToMinispark (PyRuntime.isPrintable F)
      (datasetSchema dir.listing) = .ok schema := by
    unfold datasetSchema
    split
    · exact ⟨⟨[], List.nodup_nil⟩, rfl⟩
    · next file files heq =>
        obtain ⟨schema, rows, table, htable, rfl⟩ := hfiles file (heq ▸ List.mem_cons_self)
        rw [LawfulPyArrow.fileSchema_writeTable rows _ table htable]
        exact ⟨schema, arrowSchemaToMinispark_ok _ schema⟩
  have hgroups : ∀ g ∈ dir.listing.flatMap PyArrow.splitByRowGroup,
      fragmentRows g = .ok (rowsOf g) := by
    intro g hg
    obtain ⟨file, hfile, hg⟩ := List.mem_flatMap.mp hg
    exact (fileRows_eq (hfiles file hfile).rowsIn).2 g hg
  obtain ⟨schema, hschema⟩ := hschema
  obtain ⟨parts, hparts, hflat⟩ : ∃ parts, (fragmentPartitions numPartitions schema none none
      (dir.listing.flatMap PyArrow.splitByRowGroup)).mapM Partition.toList = .ok parts ∧
      parts.flatten = (dir.listing.flatMap PyArrow.splitByRowGroup).flatMap rowsOf :=
    fragmentPartitions_rows hgroups
  refine ⟨fragmentDataset numPartitions schema none none
    (dir.listing.flatMap PyArrow.splitByRowGroup), parts, ?_, hschema, hparts, ?_⟩
  · unfold readParquet
    dsimp only
    rw [hschema]
    rfl
  · rw [hflat, List.flatMap_assoc]
    rfl

/-- A directory of written files can be read: every file, in some order. -/
theorem readParquet_rows (h : ∀ e ∈ dir.items, HoldsTable e.2) (numPartitions : ℤ) :
    ∃ read rows, readParquet numPartitions dir none none = .ok read ∧
      read.iterRecords = .ok rows ∧ rows.Perm (dir.items.flatMap (fun e => rowsIn e.2)) := by
  obtain ⟨read, parts, hread, -, hparts, hflat⟩ := readParquet_listing h numPartitions
  have hsorted : (dir.items.mergeSort (fun p q => decide (p.1 ≤ q.1))).Perm dir.items :=
    List.mergeSort_perm _ _
  refine ⟨read, parts.flatten, hread, ?_, ?_⟩
  · rw [Dataset.iterRecords, hparts]
    rfl
  · rw [hflat, Directory.listing, List.flatMap_map]
    exact hsorted.flatMap_right _

omit [PyRuntime F] in
/-- The rows of the written files are those of the dataset. -/
lemma entries_rows {schema : Schema} {ps : List (Partition F)}
    {entries : List (String × PyArrow.File F)}
    (h : List.Forall₂ (WritesEntry (minisparkSchemaToArrow schema)) ps entries)
    (hsupported : ∀ p ∈ ps, ∀ rows, p.toList = .ok rows → ∀ r ∈ rows, SupportedRow schema r) :
    ∃ parts, ps.mapM Partition.toList = .ok parts ∧
      List.Forall₂ SameDict parts.flatten (entries.flatMap (fun e => rowsIn e.2)) := by
  induction h with
  | nil => exact ⟨[], rfl, .nil⟩
  | @cons p e ps entries he _ ih =>
      obtain ⟨hp, hps⟩ := List.forall_mem_cons.mp hsupported
      obtain ⟨parts, hparts, hrel⟩ := ih hps
      obtain ⟨rows, table, hrows, htable, rfl⟩ := he
      have hsame := LawfulPyArrow.toPylist_fromPylist schema rows table (hp rows hrows) htable
      have hread := (fileRows_eq (LawfulPyArrow.fileRows_writeTable table)).1
      refine ⟨rows :: parts, ?_, ?_⟩
      · rw [List.mapM_cons, hrows, hparts]
        rfl
      · rw [List.flatten_cons, List.flatMap_cons, hread]
        exact List.rel_append hsame hrel

/-- Reading yields the rows of the dataset and no others. -/
def ReadsExactly (numPartitions : ℤ) (dir : Directory F) (dataset : Dataset F) : Prop :=
  ∃ read rows written, readParquet numPartitions dir none none = .ok read ∧
    read.iterRecords = .ok rows ∧ dataset.iterRecords = .ok written ∧ SameDicts written rows

/-- What was written is read back exactly when the other files of the directory hold no rows. -/
theorem parquet_roundTrip_iff {dataset : Dataset F} (hdir : dir.Written)
    (hids : (dataset.partitions.map Partition.partitionId).Nodup)
    (hsupported : ∀ p ∈ dataset.partitions, ∀ rows, p.toList = .ok rows →
      ∀ r ∈ rows, SupportedRow dataset.schema r)
    (hwrite : writeParquetDataset dataset dir = (.ok (), dir')) (numPartitions : ℤ) :
    ReadsExactly numPartitions dir' dataset ↔
      ∀ e ∈ dir.items, e.1 ∉ dataset.partitions.map (fun p => partName p.partitionId) →
        fileRows e.2 = .ok [] := by
  have hdir' : dir'.Written := by
    have hwritten := Directory.Written.write dataset hdir
    rw [hwrite] at hwritten
    exact hwritten
  obtain ⟨entries, hentries, rfl⟩ := writeParts_eq_ok hwrite
  obtain ⟨hnames, hnodup⟩ := entries_nodup hentries hids
  obtain ⟨parts, hparts, hsame⟩ := entries_rows hentries hsupported
  obtain ⟨read, rows, hread, hrows, hperm⟩ := readParquet_rows hdir'.holdsTable numPartitions
  have hdataset : dataset.iterRecords = .ok parts.flatten := by
    unfold Dataset.iterRecords
    rw [hparts]
    rfl
  -- The rows read are those of the files that were left and those of the files just written.
  have hitems := (items_foldl_set_perm hnodup dir).flatMap_right (fun e => rowsIn e.2)
  rw [hnames, List.flatMap_append] at hitems
  have hall := hperm.trans hitems
  constructor
  · rintro ⟨read', rows', written, hread', hrows', hwritten, zs, hzs, hzsperm⟩ e he hname
    cases hread.symm.trans hread'
    cases hrows.symm.trans hrows'
    cases hdataset.symm.trans hwritten
    have hlength : (dir.items.filter (fun e =>
        e.1 ∉ dataset.partitions.map (fun p => partName p.partitionId))).flatMap
          (fun e => rowsIn e.2) = [] := by
      have h1 := hall.length_eq
      have h2 := hzsperm.length_eq
      have h3 := hzs.length_eq
      have h4 := hsame.length_eq
      rw [List.length_append] at h1
      exact List.length_eq_zero_iff.mp (by omega)
    rw [(hdir.holdsTable e he).rowsIn]
    exact congrArg Except.ok (List.flatMap_eq_nil_iff.mp hlength e
      (List.mem_filter.mpr ⟨he, by simpa using hname⟩))
  · intro h
    have hleft : (dir.items.filter (fun e =>
        e.1 ∉ dataset.partitions.map (fun p => partName p.partitionId))).flatMap
          (fun e => rowsIn e.2) = [] := by
      rw [List.flatMap_eq_nil_iff]
      intro e he
      obtain ⟨he, hname⟩ := List.mem_filter.mp he
      exact (fileRows_eq (h e he (by simpa using hname))).1
    rw [hleft, List.nil_append] at hall
    exact ⟨read, rows, parts.flatten, hread, hrows, hdataset, _, hsame, hall.symm⟩

/-- One partition of one column. -/
def singlePart (x : ℤ) : Dataset ℚ :=
  rowsDataset ⟨[⟨"x", .int, true⟩], List.nodup_singleton "x"⟩ [[OrderedDict.ofList [("x", .int x)]]]

lemma singlePart_supported (x : ℤ) : ∀ p ∈ (singlePart x).partitions, ∀ rows, p.toList = .ok rows →
    ∀ r ∈ rows, SupportedRow (singlePart x).schema r := by
  intro p hp rows hrows r hr
  obtain rfl := List.mem_singleton.mp hp
  cases hrows
  obtain rfl := List.mem_singleton.mp hr
  refine ⟨List.Perm.refl _, fun f hf v hv => ?_⟩
  obtain rfl := List.mem_singleton.mp hf
  cases hv
  trivial

/-- The files of two partitions. -/
def twoFiles : Directory ℚ := (writeParquetDataset tablePair OrderedDict.empty).2

/-- The second file of an earlier write is read along with the new row. -/
theorem parquet_leftover_file :
    twoFiles.Written ∧ ((singlePart 3).partitions.map Partition.partitionId).Nodup ∧
      (∀ p ∈ (singlePart 3).partitions, ∀ rows, p.toList = .ok rows →
        ∀ r ∈ rows, SupportedRow (singlePart 3).schema r) ∧
      (writeParquetDataset (singlePart 3) twoFiles).1 = .ok () ∧
      ¬ ReadsExactly 4 (writeParquetDataset (singlePart 3) twoFiles).2 (singlePart 3) := by
  have hwritten : twoFiles.Written := .write tablePair .empty
  refine ⟨hwritten, by decide, singlePart_supported 3, rfl, ?_⟩
  rintro ⟨read, rows, written, hread, hrows, hdataset, zs, hzs, hperm⟩
  obtain ⟨read', rows', hread', hrows', hall⟩ :=
    readParquet_rows (Directory.Written.write (singlePart 3) hwritten).holdsTable 4
  cases hread.symm.trans hread'
  cases hrows.symm.trans hrows'
  cases hdataset
  have hlength := (hperm.trans hall).length_eq
  rw [← hzs.length_eq] at hlength
  exact absurd hlength (by decide)

/-- The theorem applied to a second write under the same name. -/
theorem parquet_roundTrip_overwritten :
    ReadsExactly 4 (writeParquetDataset (singlePart 3)
        (writeParquetDataset (singlePart 1) OrderedDict.empty).2).2 (singlePart 3) ↔
      ∀ e ∈ (writeParquetDataset (singlePart 1) OrderedDict.empty).2.items,
        e.1 ∉ (singlePart 3).partitions.map (fun p => partName p.partitionId) →
          fileRows e.2 = .ok [] :=
  parquet_roundTrip_iff (.write (singlePart 1) .empty) (by decide) (singlePart_supported 3) rfl 4

end RoundTrip

end MiniSpark
