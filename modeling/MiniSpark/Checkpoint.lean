import MiniSpark.BlockFiles
import MiniSpark.Dealing
import MiniSpark.SelfDelimiting

/-!
# Checkpoints

A checkpoint directory has one file of pickled rows for each partition and a metadata file with
the schema, the file and the row count of each partition. Writing is a sequence of file
operations, carried out one by one; the metadata file comes last.
-/
namespace MiniSpark

open SelfDelimiting

/-- `CheckpointPartitionMeta`. -/
structure CheckpointPartitionMeta where
  partitionId : ℕ
  path : Path
  rowCount : ℕ
  deriving DecidableEq

/-- `pickle.dump` and `pickle.load` of what a checkpoint holds. -/
class PyPickle (F : Type) where
  Byte : Type
  record : Codec (Record F) Byte PyError
  metadata : Codec (Schema × List CheckpointPartitionMeta) Byte PyError

/-- A pickled object stands for its bytes. -/
instance exactPickle : PyPickle ℚ where
  Byte := Record ℚ ⊕ (Schema × List CheckpointPartitionMeta)
  record := .atomic Sum.inl Sum.getLeft? (fun _ => rfl) .unpicklingError
  metadata := .atomic Sum.inr Sum.getRight? (fun _ => rfl) .unpicklingError

section Files

variable (F : Type) [PyPickle F]

abbrev Files := Path → Option (List (PyPickle.Byte F))

/-- `open(path, "wb")` and `f.write(bytes)`. -/
inductive FileOp
  | create (path : Path)
  | append (path : Path) (bytes : List (PyPickle.Byte F))

variable {F}

def FileOp.run (files : Files F) : FileOp F → Files F
  | .create path => fun p => if p = path then some [] else files p
  | .append path bytes => fun p =>
      if p = path then (files path).map (· ++ bytes) else files p

/-- The operations of a program, one after the other. -/
def Files.after (files : Files F) (ops : List (FileOp F)) : Files F := ops.foldl FileOp.run files

end Files

section Writing

variable {F : Type} [PyPickle F]

/-- `_partition_path`. -/
def partitionPath (root : String) (partitionId : ℕ) : Path :=
  [root, "partition_" ++ toString partitionId ++ ".pkl"]

/-- `root / _META_FILENAME`. -/
def metaPath (root : String) : Path := [root, "_meta.pkl"]

/-- What a dataset holds: its schema, and the rows of each partition under its id. -/
structure Contents (F : Type) where
  schema : Schema
  parts : List (ℕ × List (Record F))
  distinct : (parts.map Prod.fst).Nodup

namespace Contents

def rows (d : Contents F) : List (Record F) := d.parts.flatMap Prod.snd

def ids (d : Contents F) : List ℕ := d.parts.map Prod.fst

end Contents

/-- The file of one partition. -/
def partitionOps (root : String) (part : ℕ × List (Record F)) : List (FileOp F) :=
  .create (partitionPath root part.1) ::
    part.2.map (fun r => .append (partitionPath root part.1) (PyPickle.record.encode r))

def partitionMeta (root : String) (part : ℕ × List (Record F)) : CheckpointPartitionMeta :=
  ⟨part.1, partitionPath root part.1, part.2.length⟩

/-- The pickled metadata. -/
def metadataBytes (root : String) (schema : Schema) (parts : List (ℕ × List (Record F))) :
    List (PyPickle.Byte F) :=
  PyPickle.metadata.encode (schema, parts.map (partitionMeta root))

def metadataOps (root : String) (schema : Schema) (parts : List (ℕ × List (Record F))) :
    List (FileOp F) :=
  [.create (metaPath root), .append (metaPath root) (metadataBytes root schema parts)]

/-- The file operations of `write_checkpoint`. -/
def checkpointOps (root : String) (schema : Schema) (parts : List (ℕ × List (Record F))) :
    List (FileOp F) :=
  parts.flatMap (partitionOps root) ++ metadataOps root schema parts

/-- A partition whose rows may come from files: what iterating it yields over the files as they
are when the iteration starts. -/
structure FilePartition (F : Type) [PyPickle F] where
  partitionId : ℕ
  records : Files F → Py (List (Record F))

/-- A dataset whose partitions are computed when they are iterated. -/
structure FileDataset (F : Type) [PyPickle F] where
  schema : Schema
  partitions : List (FilePartition F)

/-- A dataset that no file changes. -/
def Dataset.inMemory (dataset : Dataset F) : FileDataset F where
  schema := dataset.schema
  partitions := dataset.partitions.map (fun p => ⟨p.partitionId, fun _ => p.toList⟩)

/-- The loop over the partitions: each file is opened, and so truncated, before its partition is
iterated. -/
def writePartitions (root : String) :
    List (FilePartition F) → Files F → Py (Files F × List (ℕ × List (Record F)))
  | [], files => pure (files, [])
  | p :: ps, files => do
      let rows ← p.records (FileOp.run files (.create (partitionPath root p.partitionId)))
      let (files', parts) ←
        writePartitions root ps (files.after (partitionOps root (p.partitionId, rows)))
      pure (files', (p.partitionId, rows) :: parts)

/-- `write_checkpoint`, when it completes. -/
def writeCheckpoint (dataset : FileDataset F) (root : String) (files : Files F) :
    Py (Files F) := do
  let (files', parts) ← writePartitions root dataset.partitions files
  pure (files'.after (metadataOps root dataset.schema parts))

end Writing

section Reading

variable {F : Type} [PyPickle F]

/-- `record[name]`. -/
def recordItem (record : Record F) (name : String) : Py (Value F) :=
  match record.get? name with
  | some v => .ok v
  | none => .error (.keyError name)

/-- `{name: record[name] for name in columns}`, or the record itself. -/
def restrictRecord : Option (List String) → Record F → Py (Record F)
  | none, record => .ok record
  | some columns, record => do
      let values ← columns.mapM (recordItem record)
      pure (OrderedDict.ofList (columns.zip values))

/-- `_read_checkpoint_partition`. -/
def readCheckpointPartition (files : Files F) (path : Path) (columns : Option (List String)) :
    Py (List (Record F)) :=
  match files path with
  | none => .error .fileNotFoundError
  | some raw => PyPickle.record.readEach (restrictRecord columns) raw

/-- `CheckpointDataSource`. -/
structure CheckpointDataSource where
  schema : Schema
  parts : List CheckpointPartitionMeta

namespace CheckpointDataSource

/-- `CheckpointDataSource(directory)`. -/
def make (root : String) (files : Files F) : Py CheckpointDataSource :=
  match files (metaPath root) with
  | none => .error .fileNotFoundError
  | some raw =>
      match PyPickle.metadata.decode raw with
      | .ok (m, _) => .ok ⟨m.1, m.2⟩
      | .error .endOfFile => .error .eofError
      | .error (.invalid e) => .error e

/-- The partitions of `read`: a file is read when its partition is iterated. -/
def dataset (source : CheckpointDataSource) (files : Files F) (columns : Option (List String))
    (schema : Schema) : Dataset F where
  schema := schema
  partitions := source.parts.map (fun p =>
    ⟨p.partitionId, schema, fun _ => readCheckpointPartition files p.path columns, some p.rowCount⟩)
  recomputable := by
    intro p hp
    obtain ⟨m, -, rfl⟩ := List.mem_map.mp hp
    exact fun _ => rfl

/-- The same partitions over whatever the files hold when one is iterated. -/
def fileDataset (source : CheckpointDataSource) (columns : Option (List String))
    (schema : Schema) : FileDataset F where
  schema := schema
  partitions := source.parts.map (fun p =>
    ⟨p.partitionId, fun files => readCheckpointPartition files p.path columns⟩)

variable [PyRuntime F]

/-- `read(columns)`. -/
def read (source : CheckpointDataSource) (files : Files F) (columns : Option (List String)) :
    Py (Dataset F) := do
  let schema ← source.schema.requested (PyRuntime.isPrintable F) columns
  pure (source.dataset files columns schema)

end CheckpointDataSource

end Reading

section Paths

lemma partitionPath_inj {root : String} {i j : ℕ} :
    partitionPath root i = partitionPath root j ↔ i = j := by
  constructor
  · intro h
    simp only [partitionPath, List.cons.injEq, String.append_left_inj, String.append_right_inj,
      true_and, and_true] at h
    exact toString_nat_inj h
  · rintro rfl
    rfl

lemma partitionPath_ne_metaPath (root : String) (i : ℕ) : partitionPath root i ≠ metaPath root := by
  intro h
  simp only [partitionPath, metaPath, List.cons.injEq, true_and, and_true] at h
  have hhead := congrArg (fun s : String => s.toList.head?) h
  simp at hhead

end Paths

section Operations

variable {F : Type} [PyPickle F] {root : String} {files : Files F}

lemma Files.after_append (ops ops' : List (FileOp F)) :
    files.after (ops ++ ops') = (files.after ops).after ops' := List.foldl_append

/-- The rows as they are pickled one after the other. -/
def rowBytes (rows : List (Record F)) : List (PyPickle.Byte F) :=
  rows.flatMap PyPickle.record.encode

lemma after_appends {path : Path} {bytes : List (PyPickle.Byte F)} (rows : List (Record F))
    (h : files path = some bytes) (p : Path) :
    (files.after (rows.map (fun r => .append path (PyPickle.record.encode r)))) p =
      if p = path then some (bytes ++ rowBytes rows) else files p := by
  induction rows generalizing files bytes with
  | nil =>
      by_cases hp : p = path
      · simp [Files.after, rowBytes, hp, h]
      · simp [Files.after, hp]
  | cons r rows ih =>
      have hstep : FileOp.run files (.append path (PyPickle.record.encode r)) path =
          some (bytes ++ PyPickle.record.encode r) := by simp [FileOp.run, h]
      have hrest := ih hstep
      by_cases hp : p = path
      · simpa [Files.after, rowBytes, hp] using hrest
      · simpa [Files.after, hp, FileOp.run] using hrest

/-- A written file holds its rows; other files are left alone. -/
lemma after_partitionOps (part : ℕ × List (Record F)) (p : Path) :
    (files.after (partitionOps root part)) p =
      if p = partitionPath root part.1 then some (rowBytes part.2) else files p := by
  have hcreate : FileOp.run files (.create (partitionPath root part.1)) (partitionPath root part.1) =
      some [] := by simp [FileOp.run]
  have happends := after_appends part.2 hcreate p
  by_cases hp : p = partitionPath root part.1
  · simpa [partitionOps, Files.after, hp] using happends
  · simpa [partitionOps, Files.after, hp, FileOp.run] using happends

lemma after_parts_of_ne {parts : List (ℕ × List (Record F))} {p : Path}
    (h : ∀ part ∈ parts, p ≠ partitionPath root part.1) :
    (files.after (parts.flatMap (partitionOps root))) p = files p := by
  induction parts generalizing files with
  | nil => rfl
  | cons part parts ih =>
      obtain ⟨hpart, hparts⟩ := List.forall_mem_cons.mp h
      rw [List.flatMap_cons, Files.after_append, ih hparts, after_partitionOps, if_neg hpart]

/-- After all files of different partitions are written each one holds its rows. -/
lemma after_parts_of_mem {parts : List (ℕ × List (Record F))}
    (hdistinct : (parts.map Prod.fst).Nodup) {part : ℕ × List (Record F)} (h : part ∈ parts) :
    (files.after (parts.flatMap (partitionOps root))) (partitionPath root part.1) =
      some (rowBytes part.2) := by
  induction parts generalizing files with
  | nil => cases h
  | cons first parts ih =>
      rw [List.map_cons, List.nodup_cons] at hdistinct
      rw [List.flatMap_cons, Files.after_append]
      cases List.mem_cons.mp h with
      | inl he =>
          subst he
          have hother : ∀ q ∈ parts, partitionPath root part.1 ≠ partitionPath root q.1 :=
            fun q hq he => hdistinct.1
              (partitionPath_inj.mp he ▸ List.mem_map_of_mem hq)
          rw [after_parts_of_ne hother, after_partitionOps, if_pos rfl]
      | inr hmem => exact ih hdistinct.2 hmem

lemma after_metadataOps (schema : Schema) (parts : List (ℕ × List (Record F))) (p : Path) :
    (files.after (metadataOps root schema parts)) p =
      if p = metaPath root then some (metadataBytes root schema parts) else files p := by
  by_cases hp : p = metaPath root
  · simp [metadataOps, Files.after, FileOp.run, hp]
  · simp [metadataOps, Files.after, FileOp.run, hp]

end Operations

section Stored

variable {F : Type} [PyPickle F] {root : String} {files files' : Files F} {d : Contents F}

/-- The directory holds a complete checkpoint of `d`. -/
structure Contents.StoredIn (d : Contents F) (root : String) (files : Files F) : Prop where
  metadata : files (metaPath root) = some (metadataBytes root d.schema d.parts)
  partition : ∀ part ∈ d.parts, files (partitionPath root part.1) = some (rowBytes part.2)

/-- Whatever the directory held before. -/
lemma storedIn_after (d : Contents F) (root : String) (files : Files F) :
    d.StoredIn root (files.after (checkpointOps root d.schema d.parts)) where
  metadata := by
    rw [checkpointOps, Files.after_append, after_metadataOps, if_pos rfl]
  partition part hpart := by
    rw [checkpointOps, Files.after_append, after_metadataOps,
      if_neg (partitionPath_ne_metaPath root part.1)]
    exact after_parts_of_mem d.distinct hpart

/-- Opening gives the schema and the partitions of the metadata. -/
lemma make_of_metadata (h : files (metaPath root) = some (metadataBytes root d.schema d.parts)) :
    CheckpointDataSource.make root files = .ok ⟨d.schema, d.parts.map (partitionMeta root)⟩ := by
  have hdecode := (PyPickle.metadata (F := F)).decode_encode
    (d.schema, d.parts.map (partitionMeta root)) []
  rw [List.append_nil] at hdecode
  unfold CheckpointDataSource.make
  rw [h]
  simp only [metadataBytes, hdecode]

/-- A partition file reads back its rows, narrowed to the columns. -/
lemma Contents.StoredIn.readPartition (h : d.StoredIn root files)
    (columns : Option (List String)) {part : ℕ × List (Record F)} (hpart : part ∈ d.parts) :
    readCheckpointPartition files (partitionPath root part.1) columns =
      part.2.mapM (restrictRecord columns) := by
  have hread := Codec.readEach_encode (c := PyPickle.record) (f := restrictRecord columns) part.2 []
  rw [List.append_nil] at hread
  unfold readCheckpointPartition
  rw [h.partition part hpart]
  refine hread.trans ?_
  cases part.2.mapM (restrictRecord columns) <;> simp

end Stored

section Columns

variable {F : Type}

/-- The row under the requested columns. -/
def RowRestricted (columns : Option (List String)) (r r' : Record F) : Prop :=
  match columns with
  | none => r' = r
  | some names => r'.keys = names ∧ ∀ n ∈ names, r'.get? n = r.get? n

lemma restrictRecord_ok {columns : Option (List String)} {r : Record F}
    (hcolumns : ∀ names ∈ columns, names.Nodup) (hr : ∀ names ∈ columns, ∀ n ∈ names, n ∈ r.keys) :
    ∃ r', restrictRecord columns r = .ok r' ∧ RowRestricted columns r r' := by
  cases columns with
  | none => exact ⟨r, rfl, rfl⟩
  | some names =>
      have hnodup := hcolumns names rfl
      have hvalues : ∀ n ∈ names, ∃ v, recordItem r n = .ok v ∧ r.get? n = some v := by
        intro n hn
        obtain ⟨v, hv⟩ := Option.isSome_iff_exists.mp
          (OrderedDict.isSome_get?_iff.mpr (hr names rfl n hn))
        exact ⟨v, by rw [recordItem, hv], hv⟩
      obtain ⟨values, hmap, hrel⟩ := ExceptList.mapM_ok_of_exists hvalues
      have hlength : names.length = values.length := hrel.length_eq
      have hfst : (names.zip values).map Prod.fst = names :=
        List.map_fst_zip (by rw [hlength])
      refine ⟨OrderedDict.ofList (names.zip values), ?_, ?_, ?_⟩
      · simp only [restrictRecord, hmap]
        rfl
      · rw [OrderedDict.keys_ofList (by rw [hfst]; exact hnodup), hfst]
      · intro n hn
        obtain ⟨i, hi, rfl⟩ := List.getElem_of_mem hn
        have hv := List.Forall₂.get hrel hi (hlength ▸ hi)
        have hmem : (names[i], values[i]) ∈ names.zip values := by
          rw [List.mem_iff_getElem]
          exact ⟨i, by simp [← hlength, hi], by simp⟩
        rw [OrderedDict.get?_ofList_of_mem (by rw [hfst]; exact hnodup) hmem]
        exact hv.symm

end Columns

section RoundTrip

variable {F : Type}

/-- The rows of the partition are the same however the files at these paths change. -/
def FilePartition.Ignores [PyPickle F] (p : FilePartition F) (files : Files F) (paths : List Path) :
    Prop :=
  ∀ files', (∀ path ∉ paths, files' path = files path) → p.records files' = p.records files

/-- No partition reads its own file or that of an earlier partition. -/
def FileDataset.KeepsOff [PyPickle F] (dataset : FileDataset F) (root : String) (files : Files F) :
    Prop :=
  ∀ done p rest, dataset.partitions = done ++ p :: rest →
    p.Ignores files ((done ++ [p]).map (fun q => partitionPath root q.partitionId))

lemma Dataset.keepsOff [PyPickle F] (dataset : Dataset F) (root : String) (files : Files F) :
    dataset.inMemory.KeepsOff root files := by
  intro done p rest hsplit files' _
  have hp : p ∈ dataset.inMemory.partitions := by rw [hsplit]; simp
  obtain ⟨q, -, rfl⟩ := List.mem_map.mp hp
  rfl

/-- The partition yields the rows under the requested columns, on every pass. -/
def Partition.YieldsRestricted (columns : Option (List String)) (rows : List (Record F))
    (p : Partition F) : Prop :=
  (∀ r ∈ rows, ∀ names ∈ columns, ∀ n ∈ names, n ∈ r.keys) →
    ∃ rows', (∀ k, p.pass k = .ok rows') ∧ List.Forall₂ (RowRestricted columns) rows rows'

variable [PyPickle F] [PyRuntime F] {root : String} {files files' : Files F}

section Loop

omit [PyRuntime F]

variable {ps : List (FilePartition F)} {parts : List (ℕ × List (Record F))}

/-- The loop writes the files of the rows it iterates over. -/
lemma writePartitions_files (h : writePartitions root ps files = .ok (files', parts)) :
    files' = files.after (parts.flatMap (partitionOps root)) := by
  induction ps generalizing files parts with
  | nil =>
      cases h
      rfl
  | cons p ps ih =>
      obtain ⟨rows, -, h⟩ := ExceptList.bind_eq_ok.mp h
      obtain ⟨⟨files₁, parts₁⟩, hrest, h⟩ := ExceptList.bind_eq_ok.mp h
      cases h
      rw [List.flatMap_cons, Files.after_append]
      exact ih hrest

lemma writePartitions_ids (h : writePartitions root ps files = .ok (files', parts)) :
    parts.map Prod.fst = ps.map FilePartition.partitionId := by
  induction ps generalizing files parts with
  | nil =>
      cases h
      rfl
  | cons p ps ih =>
      obtain ⟨rows, -, h⟩ := ExceptList.bind_eq_ok.mp h
      obtain ⟨⟨files₁, parts₁⟩, hrest, h⟩ := ExceptList.bind_eq_ok.mp h
      cases h
      rw [List.map_cons, List.map_cons, ih hrest]

/-- Partitions that read no file opened before them yield what they did before the write,
when only the files `opened` have changed since. -/
lemma writePartitions_rows {start : Files F} (opened : List Path)
    (hsame : ∀ path ∉ opened, files path = start path)
    (hignores : ∀ done p rest, ps = done ++ p :: rest → p.Ignores start
      (opened ++ (done ++ [p]).map (fun q => partitionPath root q.partitionId)))
    (h : writePartitions root ps files = .ok (files', parts)) :
    List.Forall₂ (fun p part => part.1 = p.partitionId ∧ p.records start = .ok part.2) ps parts := by
  induction ps generalizing files parts opened with
  | nil =>
      cases h
      exact List.Forall₂.nil
  | cons p ps ih =>
      obtain ⟨rows, hrows, h⟩ := ExceptList.bind_eq_ok.mp h
      obtain ⟨⟨files₁, parts₁⟩, hrest, h⟩ := ExceptList.bind_eq_ok.mp h
      cases h
      have hnow : ∀ path ∉ opened ++ [partitionPath root p.partitionId],
          path ≠ partitionPath root p.partitionId ∧ files path = start path := by
        intro path hpath
        rw [List.mem_append, List.mem_singleton, not_or] at hpath
        exact ⟨hpath.2, hsame path hpath.1⟩
      have hstart : p.records start = .ok rows := by
        rw [← hrows]
        refine (hignores [] p ps rfl _ (fun path hpath => ?_)).symm
        obtain ⟨hne, hpath⟩ := hnow path hpath
        exact (if_neg hne).trans hpath
      refine List.Forall₂.cons ⟨rfl, hstart⟩ (ih (opened ++
        [partitionPath root p.partitionId]) (fun path hpath => ?_) (fun done q rest hsplit => ?_)
        hrest)
      · obtain ⟨hne, hpath⟩ := hnow path hpath
        rw [after_partitionOps, if_neg hne, hpath]
      · have hq := hignores (p :: done) q rest (by rw [hsplit]; rfl)
        rwa [List.append_assoc]

lemma writeCheckpoint_of_loop {dataset : FileDataset F}
    (h : writePartitions root dataset.partitions files =
      .ok (files.after (parts.flatMap (partitionOps root)), parts)) :
    writeCheckpoint dataset root files =
      .ok (files.after (checkpointOps root dataset.schema parts)) := by
  rw [writeCheckpoint, h, ExceptList.bind_ok, checkpointOps, Files.after_append]
  rfl

/-- What a write that completes leaves. -/
lemma writeCheckpoint_eq_ok {dataset : FileDataset F}
    (h : writeCheckpoint dataset root files = .ok files') :
    ∃ parts, writePartitions root dataset.partitions files =
        .ok (files.after (parts.flatMap (partitionOps root)), parts) ∧
      files' = files.after (checkpointOps root dataset.schema parts) := by
  obtain ⟨⟨files₁, parts⟩, hloop, h⟩ := ExceptList.bind_eq_ok.mp h
  obtain rfl := writePartitions_files hloop
  cases h
  exact ⟨parts, hloop, by rw [checkpointOps, Files.after_append]⟩

end Loop

omit [PyRuntime F] in
/-- Reading a stored checkpoint, partition by partition. -/
lemma Contents.StoredIn.dataset {d : Contents F} (h : d.StoredIn root files)
    (columns : Option (List String)) (schema : Schema) :
    List.Forall₂ (fun part p => p.partitionId = part.1 ∧ p.rowCount = some part.2.length ∧
        ∀ k, p.pass k = part.2.mapM (restrictRecord columns))
      d.parts (CheckpointDataSource.dataset ⟨d.schema, d.parts.map (partitionMeta root)⟩ files
        columns schema).partitions := by
  simp only [CheckpointDataSource.dataset]
  rw [List.map_map, List.forall₂_map_right_iff, List.forall₂_same]
  exact fun part hpart => ⟨rfl, rfl, fun _ => h.readPartition columns hpart⟩

/-- A checkpoint is read back as it was written, whatever the directory held before, if the
partitions written do not read the files that are opened for writing before they are iterated. -/
theorem checkpoint_roundTrip {dataset : FileDataset F} {columns : Option (List String)}
    (hids : (dataset.partitions.map FilePartition.partitionId).Nodup)
    (hkeeps : dataset.KeepsOff root files)
    (hwrite : writeCheckpoint dataset root files = .ok files')
    (hcolumns : ∀ names ∈ columns, names.Nodup ∧ ∀ n ∈ names, n ∈ dataset.schema.fieldNames) :
    ∃ source read, CheckpointDataSource.make root files' = .ok source ∧
      source.read files' columns = .ok read ∧
      SchemaRestricted columns dataset.schema read.schema ∧
      List.Forall₂ (fun p q => q.partitionId = p.partitionId ∧ ∃ rows, p.records files = .ok rows ∧
        q.rowCount = some rows.length ∧ q.YieldsRestricted columns rows)
        dataset.partitions read.partitions := by
  obtain ⟨parts, hloop, rfl⟩ := writeCheckpoint_eq_ok hwrite
  let d : Contents F := ⟨dataset.schema, parts, by rw [writePartitions_ids hloop]; exact hids⟩
  have hstored := storedIn_after d root files
  obtain ⟨schema, hschema, hrestricted⟩ := exists_requested (PyRuntime.isPrintable F) hcolumns
  refine ⟨_, CheckpointDataSource.dataset ⟨d.schema, d.parts.map (partitionMeta root)⟩
    (files.after (checkpointOps root dataset.schema parts)) columns schema,
    make_of_metadata hstored.metadata, ?_, hrestricted, ?_⟩
  · simp only [CheckpointDataSource.read, d, hschema]
    rfl
  have hparts := writePartitions_rows [] (fun _ _ => rfl) hkeeps hloop
  refine (Dealing.forall₂_through hparts (hstored.dataset columns schema).flip).imp ?_
  rintro p q ⟨part, ⟨hid, hrows⟩, hqid, hcount, hpass⟩
  refine ⟨hqid.trans hid, part.2, hrows, hcount, fun hkeys => ?_⟩
  obtain ⟨rows', hmap, hrel⟩ := ExceptList.mapM_ok_of_exists (fun r hr =>
    restrictRecord_ok (fun names hn => (hcolumns names hn).1) (hkeys r hr))
  exact ⟨rows', fun k => (hpass k).trans hmap, hrel⟩

/-- Two partitions of one column. -/
def tablePair : Dataset ℚ :=
  rowsDataset ⟨[⟨"x", .int, true⟩], List.nodup_singleton "x"⟩
    [[OrderedDict.ofList [("x", .int 1)]], [OrderedDict.ofList [("x", .int 2)]]]

lemma requested_twice : tablePair.schema.requested (PyRuntime.isPrintable ℚ) (some ["x", "x"]) =
    .error (.valueError "Schema has duplicate field names: ['x', 'x']") := by decide +kernel

omit [PyRuntime F] in
lemma readCheckpointPartition_empty {path : Path} (h : files path = some [])
    (columns : Option (List String)) : readCheckpointPartition files path columns = .ok [] := by
  unfold readCheckpointPartition
  rw [h]
  exact Codec.readEach_nil

omit [PyRuntime F] in
/-- The partitions of a checkpoint that is written over itself yield nothing: their files are
truncated first. -/
lemma writePartitions_itself (parts : List (ℕ × List (Record F))) (columns : Option (List String)) :
    writePartitions root ((parts.map (partitionMeta root)).map (fun p =>
        ⟨p.partitionId, fun files => readCheckpointPartition files p.path columns⟩)) files =
      .ok (files.after ((parts.map (fun part => (part.1, []))).flatMap (partitionOps root)),
        parts.map (fun part => (part.1, []))) := by
  induction parts generalizing files with
  | nil => rfl
  | cons part parts ih =>
      have hempty : readCheckpointPartition
          (FileOp.run files (.create (partitionPath root part.1))) (partitionPath root part.1)
          columns = .ok [] := readCheckpointPartition_empty (if_pos rfl) columns
      simp only [List.map_cons, List.flatMap_cons, Files.after_append, writePartitions,
        partitionMeta, hempty, ExceptList.bind_ok]
      exact congrArg (· >>= _) ih

omit [PyRuntime F] in
/-- A checkpoint that is written over itself is empty. -/
lemma writeCheckpoint_itself (d : Contents F) (root : String) (files : Files F)
    (columns : Option (List String)) :
    ∃ files', writeCheckpoint (CheckpointDataSource.fileDataset
        ⟨d.schema, d.parts.map (partitionMeta root)⟩ columns d.schema) root files = .ok files' ∧
      ∀ part ∈ d.parts, readCheckpointPartition files' (partitionPath root part.1) columns =
        .ok [] := by
  let emptied : Contents F :=
    ⟨d.schema, d.parts.map (fun part => (part.1, [])), by simpa [Function.comp_def] using d.distinct⟩
  have hstored := storedIn_after emptied root files
  refine ⟨files.after (checkpointOps root d.schema emptied.parts), ?_, fun part hpart => ?_⟩
  · exact writeCheckpoint_of_loop (writePartitions_itself d.parts columns)
  · have hemptied : (part.1, []) ∈ emptied.parts :=
      List.mem_map_of_mem (f := fun part => (part.1, [])) hpart
    exact hstored.readPartition columns hemptied

/-- What a checkpoint of the two partitions holds. -/
def tablePairContents : Contents ℚ where
  schema := tablePair.schema
  parts := [(0, [OrderedDict.ofList [("x", .int 1)]]), (1, [OrderedDict.ofList [("x", .int 2)]])]
  distinct := by decide

/-- Asking for a column twice raises; and a checkpoint written over itself loses its rows. -/
theorem checkpoint_overwrites_itself :
    ∃ files source files', writeCheckpoint tablePair.inMemory "dir" (fun _ => none) = .ok files ∧
      CheckpointDataSource.make "dir" files = .ok source ∧
      ((∀ n ∈ ["x", "x"], n ∈ tablePair.schema.fieldNames) ∧
        source.read files (some ["x", "x"]) =
          .error (.valueError "Schema has duplicate field names: ['x', 'x']")) ∧
      (source.fileDataset none tablePair.schema).partitions.map (fun p => p.records files) =
        [.ok [OrderedDict.ofList [("x", .int 1)]], .ok [OrderedDict.ofList [("x", .int 2)]]] ∧
      writeCheckpoint (source.fileDataset none tablePair.schema) "dir" files = .ok files' ∧
      (source.fileDataset none tablePair.schema).partitions.map (fun p => p.records files') =
        [.ok [], .ok []] := by
  let files : Files ℚ := Files.after (fun _ => none)
    (checkpointOps "dir" tablePairContents.schema tablePairContents.parts)
  have hstored : tablePairContents.StoredIn "dir" files := storedIn_after tablePairContents "dir" _
  obtain ⟨files', hwrite, hempty⟩ :=
    writeCheckpoint_itself tablePairContents "dir" files none
  have hfirst : (0, [OrderedDict.ofList [("x", .int 1)]]) ∈ tablePairContents.parts :=
    List.mem_cons_self
  have hsecond : (1, [OrderedDict.ofList [("x", .int 2)]]) ∈ tablePairContents.parts :=
    List.mem_cons_of_mem _ List.mem_cons_self
  refine ⟨files, _, files', rfl, make_of_metadata hstored.metadata, ⟨by decide, ?_⟩, ?_, hwrite, ?_⟩
  · unfold CheckpointDataSource.read
    rw [tablePairContents, requested_twice]
    rfl
  · exact congrArg₂ (fun x y => [x, y]) (hstored.readPartition none hfirst)
      (hstored.readPartition none hsecond)
  · exact congrArg₂ (fun x y => [x, y]) (hempty _ hfirst) (hempty _ hsecond)

/-- The theorem applied to one column of two partitions. -/
theorem checkpoint_roundTrip_pair :
    ∃ files' source read, writeCheckpoint tablePair.inMemory "dir" (fun _ => none) = .ok files' ∧
      CheckpointDataSource.make "dir" files' = .ok source ∧
      source.read files' (some ["x"]) = .ok read ∧
      SchemaRestricted (some ["x"]) tablePair.schema read.schema ∧
      List.Forall₂ (fun p q => q.partitionId = p.partitionId ∧ ∃ rows,
        p.records (fun _ => none) = .ok rows ∧
        q.rowCount = some rows.length ∧ q.YieldsRestricted (some ["x"]) rows)
        tablePair.inMemory.partitions read.partitions := by
  have hcolumns : ∀ names ∈ some ["x"], names.Nodup ∧
      ∀ n ∈ names, n ∈ tablePair.schema.fieldNames := by
    intro names hnames
    cases hnames
    decide
  have hwrite : writeCheckpoint tablePair.inMemory "dir" (fun _ => none) = .ok _ := rfl
  obtain ⟨source, read, hread⟩ := checkpoint_roundTrip (by decide)
    (tablePair.keepsOff "dir" fun _ => none) hwrite hcolumns
  exact ⟨_, source, read, hwrite, hread⟩

end RoundTrip

end MiniSpark
