import MiniSpark.Expression

/-!
# Schemas, partitions and datasets

A schema has no two fields of one name; the constructor of the source raises
otherwise. A partition is a factory: `pass k` is what its `k`-th iteration
yields. The partitions of a dataset honour the recomputability contract, so
every pass yields the same rows.
-/
namespace MiniSpark

inductive DataType
  | int | float | string | bool | null
  deriving DecidableEq, Repr

structure Field where
  name : String
  dataType : DataType
  nullable : Bool
  deriving DecidableEq, Repr

structure Schema where
  fields : List Field
  distinct : (fields.map Field.name).Nodup
  deriving DecidableEq

namespace Schema

def fieldNames (s : Schema) : List String := s.fields.map Field.name

def hasField (s : Schema) (name : String) : Bool := decide (name ∈ s.fieldNames)

def getField? (s : Schema) (name : String) : Option Field :=
  s.fields.find? (fun f => f.name == name)

/-- `Schema(fields)`. -/
def make (isPrintable : Char → Bool) (fields : List Field) : Py Schema :=
  if h : (fields.map Field.name).Nodup then .ok ⟨fields, h⟩
  else .error (.valueError ("Schema has duplicate field names: " ++
    reprNames isPrintable (fields.map Field.name)))

/-- `get_field`. -/
def getField (isPrintable : Char → Bool) (s : Schema) (name : String) : Py Field :=
  match s.getField? name with
  | some f => .ok f
  | none => .error (.keyError ("Column '" ++ name ++ "' not found in schema. Available columns: " ++
      reprNames isPrintable s.fieldNames))

/-- `select(names)`. -/
def select (isPrintable : Char → Bool) (s : Schema) (names : List String) : Py Schema := do
  let fields ← names.mapM (s.getField isPrintable)
  make isPrintable fields

/-- `full_schema.select(columns) if columns is not None else full_schema`. -/
def requested (isPrintable : Char → Bool) (full : Schema) : Option (List String) → Py Schema
  | some columns => full.select isPrintable columns
  | none => .ok full

@[ext] theorem ext {s t : Schema} (h : s.fields = t.fields) : s = t := by
  cases s; cases t; cases h; rfl

theorem make_eq_ok {isPrintable : Char → Bool} {fields : List Field} {s : Schema} :
    make isPrintable fields = .ok s ↔ s.fields = fields := by
  unfold make
  by_cases h : (fields.map Field.name).Nodup
  · rw [dif_pos h, Except.ok.injEq]
    constructor
    · rintro rfl
      rfl
    · exact fun he => ext he.symm
  · rw [dif_neg h]
    constructor
    · intro he
      exact absurd he (by simp)
    · intro he
      exact absurd (he ▸ s.distinct) h

theorem make_ok_of_nodup (isPrintable : Char → Bool) {fields : List Field}
    (h : (fields.map Field.name).Nodup) : ∃ s, make isPrintable fields = .ok s ∧ s.fields = fields :=
  ⟨⟨fields, h⟩, make_eq_ok.mpr rfl, rfl⟩

@[simp] theorem hasField_iff (s : Schema) (name : String) :
    s.hasField name = true ↔ name ∈ s.fieldNames := by simp [hasField]

theorem fieldNames_nodup (s : Schema) : s.fieldNames.Nodup := s.distinct

/-- A field is found under its name. -/
lemma getField?_of_mem {s : Schema} {f : Field} (h : f ∈ s.fields) :
    s.getField? f.name = some f := by
  cases hf : s.getField? f.name with
  | none => exact absurd (List.find?_eq_none.mp hf f h) (by simp)
  | some g =>
      have hname : g.name = f.name := by simpa using List.find?_some hf
      rw [List.inj_on_of_nodup_map s.distinct (List.mem_of_find?_eq_some hf) h hname]

/-- Names of fields are looked up in the order of the request. -/
lemma exists_getFields (isPrintable : Char → Bool) {s : Schema} {names : List String}
    (hmem : ∀ n ∈ names, n ∈ s.fieldNames) :
    ∃ fields, names.mapM (s.getField isPrintable) = .ok fields ∧ fields.map Field.name = names ∧
      ∀ f ∈ fields, f ∈ s.fields := by
  have hfields : ∀ n ∈ names, ∃ f, s.getField isPrintable n = .ok f ∧ f.name = n ∧ f ∈ s.fields := by
    intro n hn
    obtain ⟨f, hf, rfl⟩ := List.mem_map.mp (hmem n hn)
    refine ⟨f, ?_, rfl, hf⟩
    unfold getField
    rw [getField?_of_mem hf]
  obtain ⟨fields, hmap, hrel⟩ := ExceptList.mapM_ok_of_exists hfields
  refine ⟨fields, hmap, ?_, ?_⟩
  · rw [← List.forall₂_eq_eq_eq, List.forall₂_map_left_iff]
    exact (hrel.imp (fun _ _ h => h.1)).flip
  · intro f hf
    obtain ⟨i, hi, rfl⟩ := List.getElem_of_mem hf
    exact (List.Forall₂.get hrel (hrel.length_eq ▸ hi) hi).2

/-- Different names of fields can be selected, in the order of the request. -/
theorem exists_select (isPrintable : Char → Bool) {s : Schema} {names : List String}
    (hnodup : names.Nodup) (hmem : ∀ n ∈ names, n ∈ s.fieldNames) :
    ∃ t, s.select isPrintable names = .ok t ∧ t.fieldNames = names ∧
      ∀ f ∈ t.fields, f ∈ s.fields := by
  obtain ⟨fields, hmap, hnames, hfields⟩ := exists_getFields isPrintable hmem
  obtain ⟨t, ht, htfields⟩ := make_ok_of_nodup isPrintable (hnames.symm ▸ hnodup)
  refine ⟨t, ?_, ?_, ?_⟩
  · unfold select
    rw [hmap]
    exact ht
  · rw [fieldNames, htfields, hnames]
  · intro f hf
    exact hfields f (htfields ▸ hf)

/-- A selection that names a field twice fails. -/
theorem select_repeated (isPrintable : Char → Bool) {s : Schema} {names : List String}
    (hmem : ∀ n ∈ names, n ∈ s.fieldNames) (hrepeated : ¬ names.Nodup) :
    s.select isPrintable names =
      .error (.valueError ("Schema has duplicate field names: " ++ reprNames isPrintable names)) := by
  obtain ⟨fields, hmap, hnames, -⟩ := exists_getFields isPrintable hmem
  rw [select, hmap, ExceptList.bind_ok, make, dif_neg (by rwa [hnames]), hnames]

end Schema

/-- The fields of the requested columns, in the order of the request. -/
def SchemaRestricted (columns : Option (List String)) (s s' : Schema) : Prop :=
  match columns with
  | none => s' = s
  | some names => s'.fieldNames = names ∧ ∀ f ∈ s'.fields, f ∈ s.fields

/-- The schema of a read, for different names of fields. -/
theorem exists_requested (isPrintable : Char → Bool) {full : Schema}
    {columns : Option (List String)}
    (hcolumns : ∀ names ∈ columns, names.Nodup ∧ ∀ n ∈ names, n ∈ full.fieldNames) :
    ∃ schema, full.requested isPrintable columns = .ok schema ∧
      SchemaRestricted columns full schema := by
  cases columns with
  | none => exact ⟨full, rfl, rfl⟩
  | some names =>
      obtain ⟨hnodup, hmem⟩ := hcolumns names rfl
      exact Schema.exists_select isPrintable hnodup hmem

/-- `Partition`: `pass k` is the outcome of the `k`-th complete iteration. -/
structure Partition (F : Type) where
  partitionId : ℕ
  schema : Schema
  pass : ℕ → Py (List (Record F))
  rowCount : Option ℕ

/-- Every iteration yields what the first one did. -/
def Partition.Recomputable {F : Type} (p : Partition F) : Prop := ∀ k, p.pass k = p.pass 0

/-- `to_list`: the first pass. -/
def Partition.toList {F : Type} (p : Partition F) : Py (List (Record F)) := p.pass 0

structure Dataset (F : Type) where
  schema : Schema
  partitions : List (Partition F)
  recomputable : ∀ p ∈ partitions, p.Recomputable

namespace Dataset

variable {F : Type}

def numPartitions (d : Dataset F) : ℕ := d.partitions.length

/-- `partition(i)`. -/
def partition (d : Dataset F) (i : ℕ) : Py (Partition F) :=
  match d.partitions[i]? with
  | some p => .ok p
  | none => .error .indexError

/-- `iter_records`: every record of every partition, in order. -/
def iterRecords (d : Dataset F) : Py (List (Record F)) := do
  let parts ← d.partitions.mapM Partition.toList
  pure parts.flatten

end Dataset

/-- A partition holding the given rows, as `functools.partial(iter, rows)` makes one. -/
def rowsPartition {F : Type} (partitionId : ℕ) (schema : Schema) (rows : List (Record F)) :
    Partition F where
  partitionId := partitionId
  schema := schema
  pass := fun _ => .ok rows
  rowCount := some rows.length

/-- `_results_to_dataset`: one partition for each list of rows. -/
def rowsDataset {F : Type} (schema : Schema) (parts : List (List (Record F))) : Dataset F where
  schema := schema
  partitions := parts.mapIdx (fun i rows => rowsPartition i schema rows)
  recomputable := by
    intro p hp
    obtain ⟨i, hi, rfl⟩ := List.mem_mapIdx.mp hp
    exact fun _ => rfl

lemma rowsDataset_toLists {F : Type} (schema : Schema) (parts : List (List (Record F))) :
    (rowsDataset schema parts).partitions.mapM Partition.toList = .ok parts := by
  rw [rowsDataset, ExceptList.mapM_eq_ok, List.forall₂_iff_get]
  simp [rowsPartition, Partition.toList]

theorem rowsDataset_iterRecords {F : Type} (schema : Schema) (parts : List (List (Record F))) :
    (rowsDataset schema parts).iterRecords = .ok parts.flatten := by
  rw [Dataset.iterRecords, rowsDataset_toLists]
  rfl

/-- A dataset of rows determines the rows of its partitions. -/
lemma rowsDataset_injective {F : Type} {schema : Schema} {parts parts' : List (List (Record F))}
    (h : rowsDataset schema parts = rowsDataset schema parts') : parts = parts' := by
  have hlists := rowsDataset_toLists schema parts
  rw [h, rowsDataset_toLists] at hlists
  exact (Except.ok.inj hlists).symm

end MiniSpark
