import MiniSpark.Chunking
import MiniSpark.Dataset
import MiniSpark.TextLines
import Mathlib.Data.List.Dedup
import Mathlib.Data.List.Sort

/-!
# The CSV source

A read passes three times over the file: it counts the rows, infers a schema from the first
ones, and notes where the first row of each partition starts. A partition seeks there and reads
as many lines as it has rows. An index into the text stands for a byte offset.
-/
namespace MiniSpark

open TextLines Chunking

section Model

/-- `int(raw)`, `float(raw)` and `csv.reader` on a single line. -/
class PyCsv (F : Type) where
  parseInt : String → Option ℤ
  parseFloat : String → Option F
  parseLine : List Char → List String

variable {F : Type} [PyCsv F]

/-- `_try_parse`. -/
def tryParse (raw : String) : Value F :=
  if raw = "" then .none
  else match (PyCsv.parseInt F raw) with
    | some i => .int i
    | none =>
        match (PyCsv.parseFloat raw : Option F) with
        | some x => .float x
        | none => .str raw

/-- `infer_type`. -/
def inferType : Value F → DataType
  | .bool _ => .bool
  | .int _ => .int
  | .float _ => .float
  | .str _ => .string
  | .none => .null
  | .pair _ _ => .string

/-- `zip(header, row, strict=True)`, once it is used up. -/
def zipStrict (header row : List String) : Py (List (String × String)) :=
  if row.length < header.length then
    .error (.valueError "zip() argument 2 is shorter than argument 1")
  else if header.length < row.length then
    .error (.valueError "zip() argument 2 is longer than argument 1")
  else .ok (header.zip row)

/-- The types and the nulls met so far. -/
structure Inference where
  columnTypes : OrderedDict String DataType
  sawNull : OrderedDict String Bool

/-- The body of the inner loop of `_infer_schema_from_sample`. -/
def inferCell (F : Type) [PyCsv F] (s : Inference) (cell : String × String) : Inference :=
  match (tryParse cell.2 : Value F) with
  | .none => { s with sawNull := s.sawNull.set cell.1 true }
  | value =>
      match s.columnTypes.get? cell.1 with
      | none => { s with columnTypes := s.columnTypes.set cell.1 (inferType value) }
      | some current =>
          if current ≠ inferType value then
            { s with columnTypes := s.columnTypes.set cell.1 .string }
          else s

def inferRow (F : Type) [PyCsv F] (header : List String) (s : Inference) (row : List String) :
    Py Inference := do
  let cells ← zipStrict header row
  pure (cells.foldl (inferCell F) s)

/-- `_SCHEMA_SAMPLE_ROWS`. -/
def schemaSampleRows : ℕ := 1000

/-- The rows of `csv.reader(f)`. No field has a line break in it, so they are those of the
single lines. -/
def csvRows (F : Type) [PyCsv F] (text : List Char) : List (List String) :=
  (lines text).map (PyCsv.parseLine F)

/-- `_infer_schema_from_sample`. -/
def inferSchemaFromSample (F : Type) [PyCsv F] (isPrintable : Char → Bool) (text : List Char)
    (header : List String) : Py Schema :=
  match csvRows F text with
  | [] => .error .stopIteration
  | _ :: rows => do
      let s ← (rows.take schemaSampleRows).foldlM (inferRow F header)
        ⟨OrderedDict.empty, OrderedDict.ofList (header.map (fun name => (name, false)))⟩
      Schema.make isPrintable (header.map (fun name =>
        ⟨name, (s.columnTypes.get? name).getD .string, (s.sawNull.get? name).getD true⟩))

/-- `wanted is None or name in wanted`. -/
def wantsName (wanted : Option (List String)) (name : String) : Bool :=
  match wanted with
  | none => true
  | some names => decide (name ∈ names)

/-- `_coerce_row`. -/
def coerceRow (header row : List String) (wanted : Option (List String)) : Py (Record F) := do
  let cells ← zipStrict header row
  pure (OrderedDict.ofList ((cells.filter (fun cell => wantsName wanted cell.1)).map
    (fun cell => (cell.1, tryParse cell.2))))

/-- The loop of `_count_rows`, after the header. -/
def countLines (text : List Char) : ℕ :=
  if _h : text = [] then 0 else countLines (readline text).2 + 1
termination_by text.length
decreasing_by exact readline_shorter _h

/-- `_count_rows`. -/
def countRows (text : List Char) : ℕ := countLines (readline text).2

/-- The loop of `_locate_partition_offsets`: `rest` is what is left at `pos`. -/
def locateLoop (rest : List Char) (wanted : List ℕ) (rowIdx pos : ℕ)
    (offsets : OrderedDict ℕ ℕ) : OrderedDict ℕ ℕ :=
  match wanted with
  | [] => offsets
  | w :: ws =>
      if _h : rest = [] then (w :: ws).foldl (fun d row => d.set row pos) offsets
      else
        let line := (readline rest).1
        if rowIdx = w then
          locateLoop (readline rest).2 ws (rowIdx + 1) (pos + line.length) (offsets.set rowIdx pos)
        else locateLoop (readline rest).2 (w :: ws) (rowIdx + 1) (pos + line.length) offsets
termination_by rest.length
decreasing_by all_goals exact readline_shorter _h

/-- `_locate_partition_offsets`. -/
def locatePartitionOffsets (text : List Char) (startRows : List ℕ) : OrderedDict ℕ ℕ :=
  locateLoop (readline text).2 (startRows.dedup.mergeSort (fun a b => decide (a ≤ b))) 0
    (readline text).1.length OrderedDict.empty

/-- The loop of `_read_csv_range`. -/
def readLines (header : List String) (wanted : Option (List String)) :
    ℕ → List Char → Py (List (Record F))
  | 0, _ => .ok []
  | n + 1, rest =>
      if rest = [] then .ok []
      else do
        let record ← coerceRow header (PyCsv.parseLine F (readline rest).1) wanted
        let records ← readLines header wanted n (readline rest).2
        pure (record :: records)

/-- `_read_csv_range`. -/
def readCsvRange (text : List Char) (header : List String) (start stop offset : ℕ)
    (columns : Option (List String)) : Py (List (Record F)) :=
  readLines header columns (stop - start) (text.drop offset)

/-- A partition of `read`. -/
def csvPartition (text : List Char) (header : List String) (columns : Option (List String))
    (schema : Schema) (c : Chunk) (offset : ℕ) : Partition F where
  partitionId := c.index
  schema := schema
  pass _ := readCsvRange text header c.start c.stop offset columns
  rowCount := some (c.stop - c.start)

/-- `offsets[start]`. -/
def offsetOf (offsets : OrderedDict ℕ ℕ) (start : ℕ) : Py ℕ :=
  match offsets.get? start with
  | some offset => .ok offset
  | none => .error (.keyError (toString start))

/-- The number of partitions of a read. -/
def csvPartitionCount (numPartitions : ℤ) (rowCount : ℕ) : ℕ :=
  (max 1 (min numPartitions (if rowCount = 0 then 1 else rowCount))).toNat

/-- The partitions of the ranges and their offsets, or an empty partition where there is none. -/
def csvPartitions (text : List Char) (header : List String) (columns : Option (List String))
    (schema : Schema) (located : List (Chunk × ℕ)) : List (Partition F) :=
  if located.isEmpty then [rowsPartition 0 schema []]
  else located.map (fun l => csvPartition text header columns schema l.1 l.2)

def csvDataset (text : List Char) (header : List String) (columns : Option (List String))
    (schema : Schema) (located : List (Chunk × ℕ)) : Dataset F where
  schema := schema
  partitions := csvPartitions text header columns schema located
  recomputable := by
    intro p hp
    unfold csvPartitions at hp
    split at hp
    · obtain rfl := List.mem_singleton.mp hp
      exact fun _ => rfl
    · obtain ⟨l, -, rfl⟩ := List.mem_map.mp hp
      exact fun _ => rfl

variable [PyRuntime F]

/-- `CSVDataSource(path, num_partitions=n).read(columns)`. -/
def readCsv (text : List Char) (numPartitions : ℤ) (columns : Option (List String)) :
    Py (Dataset F) := do
  let header := PyCsv.parseLine F (readline text).1
  let rowCount := countRows text
  let fullSchema ← inferSchemaFromSample F (PyRuntime.isPrintable F) text header
  let schema ← fullSchema.requested (PyRuntime.isPrintable F) columns
  let ranges := chunks (csvPartitionCount numPartitions rowCount) rowCount
  let offsets := locatePartitionOffsets text (ranges.map Chunk.start)
  let located ← ranges.mapM (fun c => do
    let offset ← offsetOf offsets c.start
    pure (c, offset))
  pure (csvDataset text header columns schema located)

end Model

section Counting

lemma countLines_eq (text : List Char) : countLines text = (lines text).length := by
  fun_induction countLines text with
  | case1 => rw [lines_nil, List.length_nil]
  | case2 text h ih => rw [ih, lines_of_ne_nil h, List.length_cons]

/-- The lines after the header. -/
def dataLines (text : List Char) : List (List Char) := lines (readline text).2

/-- The first pass counts the data lines. -/
theorem countRows_eq (text : List Char) : countRows text = (dataLines text).length :=
  countLines_eq _

end Counting

section Offsets

variable {text : List Char}

/-- What the second pass promises of a row: the offset is where the row starts, or the end of
the text. -/
def Locates (text : List Char) (offsets : OrderedDict ℕ ℕ) (row : ℕ) : Prop :=
  ∃ offset, offsets.get? row = some offset ∧ text.drop offset = skip (row + 1) text

lemma drop_readline {rest : List Char} {pos : ℕ} (hrest : text.drop pos = rest) :
    text.drop (pos + (readline rest).1.length) = (readline rest).2 := by
  have hleft : ((readline rest).1 ++ (readline rest).2).drop (readline rest).1.length =
      (readline rest).2 := List.drop_left
  rw [readline_append] at hleft
  rw [← List.drop_drop, hrest, hleft]

lemma get?_foldl_set_pos {rows : List ℕ} {pos : ℕ} (offsets : OrderedDict ℕ ℕ) {row : ℕ} :
    (rows.foldl (fun d row => d.set row pos) offsets).get? row =
      if row ∈ rows then some pos else offsets.get? row := by
  induction rows generalizing offsets with
  | nil => rfl
  | cons r rows ih =>
      rw [List.foldl_cons, ih, OrderedDict.get?_set]
      by_cases hrow : row ∈ rows
      · rw [if_pos hrow, if_pos (List.mem_cons_of_mem r hrow)]
      · by_cases hr : r = row
        · simp [hr, hrow]
        · have hne : row ≠ r := fun h => hr h.symm
          simp [hr, hrow, hne]

/-- The loop over the lines and the sorted rows: rows that were asked for are located, other
entries stay. -/
lemma locateLoop_locates {rest : List Char} {wanted : List ℕ} {rowIdx pos : ℕ}
    {offsets : OrderedDict ℕ ℕ} (hsorted : wanted.Pairwise (· < ·))
    (hnext : ∀ w ∈ wanted, rowIdx ≤ w) (hrest : text.drop pos = rest)
    (hskip : rest = skip (rowIdx + 1) text) :
    (∀ w ∈ wanted, Locates text (locateLoop rest wanted rowIdx pos offsets) w) ∧
      ∀ row ∉ wanted, (locateLoop rest wanted rowIdx pos offsets).get? row = offsets.get? row := by
  fun_induction locateLoop rest wanted rowIdx pos offsets with
  | case1 => exact ⟨by simp, fun _ _ => rfl⟩
  | case2 rowIdx pos offsets w ws =>
      refine ⟨fun row hrow => ⟨pos, ?_, ?_⟩, fun row hrow => ?_⟩
      · rw [get?_foldl_set_pos, if_pos hrow]
      · have hle := hnext row hrow
        rw [hrest, skip_of_le hskip.symm (by omega)]
      · rw [get?_foldl_set_pos, if_neg hrow]
  | case3 rest pos offsets w ws hne line ih =>
      obtain ⟨hlater, hws⟩ := List.pairwise_cons.mp hsorted
      have hread : (readline rest).2 = skip (w + 1 + 1) text := by rw [skip_succ, ← hskip]
      obtain ⟨hlocated, hother⟩ := ih hws (fun v hv => hlater v hv) (drop_readline hrest) hread
      constructor
      · intro row hrow
        cases List.mem_cons.mp hrow with
        | inl he =>
            subst he
            have hfresh : row ∉ ws := fun h => Nat.lt_irrefl row (hlater row h)
            refine ⟨pos, ?_, by rw [hrest, hskip]⟩
            rw [hother row hfresh, OrderedDict.get?_set, if_pos (beq_self_eq_true row)]
        | inr hmem => exact hlocated row hmem
      · intro row hrow
        rw [List.mem_cons, not_or] at hrow
        rw [hother row hrow.2, OrderedDict.get?_set,
          if_neg (fun h => hrow.1 (beq_iff_eq.mp h).symm)]
  | case4 rest rowIdx pos offsets w ws hne line hrow ih =>
      have hread : (readline rest).2 = skip (rowIdx + 1 + 1) text := by rw [skip_succ, ← hskip]
      refine ih hsorted (fun v hv => ?_) (drop_readline hrest) hread
      obtain ⟨hlater, -⟩ := List.pairwise_cons.mp hsorted
      have hw := hnext w List.mem_cons_self
      cases List.mem_cons.mp hv with
      | inl he => omega
      | inr hmem =>
          have := hlater v hmem
          omega

/-- Every requested row is located. -/
theorem locatePartitionOffsets_locates (text : List Char) {rows : List ℕ} {row : ℕ}
    (h : row ∈ rows) : Locates text (locatePartitionOffsets text rows) row := by
  have hperm := List.mergeSort_perm rows.dedup (fun a b => decide (a ≤ b))
  have hle : (rows.dedup.mergeSort (fun a b => decide (a ≤ b))).Pairwise (fun a b => a ≤ b) := by
    exact List.pairwise_mergeSort' (fun a b : ℕ => a ≤ b) rows.dedup
  have hlt := hle.and (hperm.nodup_iff.mpr (List.nodup_dedup rows))
  have hsorted : (rows.dedup.mergeSort (fun a b => decide (a ≤ b))).Pairwise (· < ·) :=
    hlt.imp (fun h => Nat.lt_of_le_of_ne h.1 h.2)
  refine (locateLoop_locates hsorted (fun _ _ => Nat.zero_le _) ?_ rfl).1 row ?_
  · have hdrop := drop_readline (show text.drop 0 = text from rfl)
    rwa [Nat.zero_add] at hdrop
  · exact hperm.mem_iff.mpr (List.mem_dedup.mpr h)

end Offsets

section Lines

variable {F : Type} [PyCsv F] {header : List String} {wanted : Option (List String)}

/-- The third pass parses the next lines, as far as there are any. -/
lemma readLines_eq (n : ℕ) (rest : List Char) :
    (readLines header wanted n rest : Py (List (Record F))) = ((lines rest).take n).mapM
      (fun line => coerceRow header (PyCsv.parseLine F line) wanted) := by
  induction n generalizing rest with
  | zero => rfl
  | succ n ih =>
      rw [readLines]
      by_cases h : rest = []
      · subst h
        simp
      · rw [if_neg h, lines_of_ne_nil h, List.take_succ_cons, List.mapM_cons, ih]

/-- The parsed values of a line under the requested names. -/
structure LineRecord (header : List String) (columns : Option (List String)) (line : List Char)
    (r : Record F) : Prop where
  keys : r.keys = header.filter (wantsName columns)
  value : ∀ (i : ℕ) (name raw : String), header[i]? = some name →
    (PyCsv.parseLine F line)[i]? = some raw → wantsName columns name = true →
      r.get? name = some (tryParse raw)

lemma zipStrict_eq {row : List String} (h : row.length = header.length) :
    zipStrict header row = .ok (header.zip row) := by
  rw [zipStrict, if_neg (by omega), if_neg (by omega)]

/-- A line with a field for each name becomes a record. -/
lemma coerceRow_lineRecord {line : List Char} (hnodup : header.Nodup)
    (hlength : (PyCsv.parseLine F line).length = header.length) :
    ∃ r, (coerceRow header (PyCsv.parseLine F line) wanted : Py (Record F)) = .ok r ∧
      LineRecord header wanted line r := by
  have hnames : ((((header.zip (PyCsv.parseLine F line)).filter
      (fun cell => wantsName wanted cell.1)).map
        (fun cell => (cell.1, (tryParse cell.2 : Value F)))).map Prod.fst) =
      header.filter (wantsName wanted) := by
    have hfst : (header.zip (PyCsv.parseLine F line)).map Prod.fst = header :=
      List.map_fst_zip (by omega)
    conv_rhs => rw [← hfst, List.filter_map]
    rw [List.map_map]
    rfl
  have hdistinct := hnames ▸ hnodup.filter (wantsName wanted)
  refine ⟨_, by rw [coerceRow, zipStrict_eq hlength]; rfl, ?_, ?_⟩
  · rw [OrderedDict.keys_ofList hdistinct, hnames]
  · intro i name raw hname hraw hwanted
    refine OrderedDict.get?_ofList_of_mem hdistinct (List.mem_map.mpr ⟨(name, raw), ?_, rfl⟩)
    have hcell : (header.zip (PyCsv.parseLine F line))[i]? = some (name, raw) :=
      List.getElem?_zip_eq_some.mpr ⟨hname, hraw⟩
    exact List.mem_filter.mpr ⟨List.mem_of_getElem? hcell, hwanted⟩

end Lines

section Reading

variable {F : Type} [PyCsv F] {text : List Char} {header : List String}
  {columns : Option (List String)}

/-- A sample whose rows have a field for each name determines a schema of these names. -/
lemma inferSchemaFromSample_ok (isPrintable : Char → Bool) (htext : text ≠ [])
    (hnodup : header.Nodup)
    (hfields : ∀ line ∈ dataLines text, (PyCsv.parseLine F line).length = header.length) :
    ∃ s, inferSchemaFromSample F isPrintable text header = .ok s ∧ s.fieldNames = header := by
  have hfold : ∀ (rows : List (List String)), (∀ row ∈ rows, row.length = header.length) →
      ∀ s, ∃ t, rows.foldlM (inferRow F header) s = .ok t := by
    intro rows
    induction rows with
    | nil => exact fun _ s => ⟨s, rfl⟩
    | cons row rows ih =>
        intro hrows s
        obtain ⟨hrow, hrest⟩ := List.forall_mem_cons.mp hrows
        rw [List.foldlM_cons, inferRow, zipStrict_eq hrow]
        exact ih hrest _
  have hrows : csvRows F text = PyCsv.parseLine F (readline text).1 ::
      (dataLines text).map (PyCsv.parseLine F) := by
    rw [csvRows, lines_of_ne_nil htext, List.map_cons, dataLines]
  have hsample : ∀ row ∈ ((dataLines text).map (PyCsv.parseLine F)).take schemaSampleRows,
      row.length = header.length := by
    intro row hrow
    obtain ⟨line, hline, rfl⟩ := List.mem_map.mp (List.mem_of_mem_take hrow)
    exact hfields line hline
  obtain ⟨t, ht⟩ := hfold _ hsample
    ⟨OrderedDict.empty, OrderedDict.ofList (header.map (fun name => (name, false)))⟩
  have hnames : (header.map (fun name => (⟨name, (t.columnTypes.get? name).getD .string,
      (t.sawNull.get? name).getD true⟩ : Field))).map Field.name = header := by
    simp [Function.comp_def]
  obtain ⟨s, hs, hsfields⟩ := Schema.make_ok_of_nodup isPrintable (hnames.symm ▸ hnodup)
  refine ⟨s, ?_, by rw [Schema.fieldNames, hsfields, hnames]⟩
  rw [inferSchemaFromSample, hrows]
  dsimp only
  rw [ht]
  exact hs

/-- Seeking to a located row and reading its range yields the records of its lines. -/
lemma readCsvRange_eq {records : List (Record F)} (hrecords : (dataLines text).mapM
      (fun line => coerceRow header (PyCsv.parseLine F line) columns) = .ok records)
    {c : Chunk} {offset : ℕ} (hoffset : text.drop offset = skip (c.start + 1) text) :
    readCsvRange text header c.start c.stop offset columns = .ok (slice records c) := by
  have hlines : lines (text.drop offset) = (dataLines text).drop c.start := by
    rw [hoffset, skip, lines_skip, dataLines]
  rw [readCsvRange, readLines_eq, hlines, ExceptList.mapM_eq_ok]
  exact List.forall₂_take _ (List.forall₂_drop _ (ExceptList.mapM_eq_ok.mp hrecords))

/-- A partition and the rows that each of its iterations yields. -/
def YieldsRows (p : Partition F) (rows : List (Record F)) : Prop :=
  (∀ k, p.pass k = .ok rows) ∧ p.rowCount = some rows.length

/-- The partitions of located ranges yield the slices of the records. -/
lemma csvPartitions_yield {records : List (Record F)} (hrecords : (dataLines text).mapM
      (fun line => coerceRow header (PyCsv.parseLine F line) columns) = .ok records)
    (schema : Schema) {n : ℕ} (hn : 0 < n) {located : List (Chunk × ℕ)}
    (hlocated : List.Forall₂ (fun c l => l.1 = c ∧ text.drop l.2 = skip (c.start + 1) text)
      (chunks n records.length) located) :
    ∃ parts, List.Forall₂ YieldsRows (csvPartitions text header columns schema located) parts ∧
      parts.flatten = records := by
  have hflatten := flatMap_slice records hn
  unfold csvPartitions
  split
  · next hempty =>
      -- no range is left only where there is no record
      have hnil : chunks n records.length = [] := by
        rw [List.isEmpty_iff.mp hempty] at hlocated
        exact List.forall₂_nil_right_iff.mp hlocated
      rw [hnil] at hflatten
      exact ⟨[[]], .cons ⟨fun _ => rfl, rfl⟩ .nil, hflatten⟩
  · refine ⟨(chunks n records.length).map (slice records), ?_, hflatten⟩
    rw [List.forall₂_map_left_iff, List.forall₂_map_right_iff]
    refine (List.forall₂_iff_get.mpr ⟨hlocated.length_eq.symm, fun i hl hc => ?_⟩)
    obtain ⟨he, hoffset⟩ := hlocated.get hc hl
    have hbounds := chunk_bounds (List.get_mem (chunks n records.length) ⟨i, hc⟩)
    rw [he]
    refine ⟨fun _ => readCsvRange_eq hrecords hoffset, ?_⟩
    rw [csvPartition, slice, List.length_take, List.length_drop, Option.some.injEq]
    omega

/-- Every range of a file is located. -/
lemma exists_located (text : List Char) (n : ℕ) : ∃ located : List (Chunk × ℕ),
    (chunks n (countRows text)).mapM (fun c => (do
      let offset ← offsetOf (locatePartitionOffsets text
        ((chunks n (countRows text)).map Chunk.start)) c.start
      pure (c, offset) : Py (Chunk × ℕ))) = .ok located ∧
    List.Forall₂ (fun c l => l.1 = c ∧ text.drop l.2 = skip (c.start + 1) text)
      (chunks n (countRows text)) located := by
  refine ExceptList.mapM_ok_of_exists (fun c hc => ?_)
  obtain ⟨offset, hget, hdrop⟩ :=
    locatePartitionOffsets_locates text (List.mem_map_of_mem (f := Chunk.start) hc)
  exact ⟨(c, offset), by rw [offsetOf, hget]; rfl, rfl, hdrop⟩

variable [PyRuntime F]

/-- A file whose lines have a field for each name can be read. -/
lemma readCsv_ok (htext : text ≠ []) (hnodup : (PyCsv.parseLine F (readline text).1).Nodup)
    (hfields : ∀ line ∈ dataLines text,
      (PyCsv.parseLine F line).length = (PyCsv.parseLine F (readline text).1).length)
    (numPartitions : ℤ) : ∃ full : Dataset F, readCsv text numPartitions none = .ok full := by
  obtain ⟨schema, hschema, -⟩ :=
    inferSchemaFromSample_ok (PyRuntime.isPrintable F) htext hnodup hfields
  obtain ⟨located, hlocated, -⟩ :=
    exists_located text (csvPartitionCount numPartitions (countRows text))
  refine ⟨csvDataset text (PyCsv.parseLine F (readline text).1) none schema located, ?_⟩
  simp only [readCsv, hschema, ExceptList.bind_ok, Schema.requested, hlocated]
  rfl

/-- A read yields one record for each data line, in the order of the file. -/
theorem readCsv_lineRecords (htext : text ≠ [])
    (hnodup : (PyCsv.parseLine F (readline text).1).Nodup)
    (hfields : ∀ line ∈ dataLines text,
      (PyCsv.parseLine F line).length = (PyCsv.parseLine F (readline text).1).length)
    (hcolumns : ∀ names ∈ columns,
      names.Nodup ∧ ∀ n ∈ names, n ∈ PyCsv.parseLine F (readline text).1) (numPartitions : ℤ) :
    ∃ (d : Dataset F) (parts : List (List (Record F))), readCsv text numPartitions columns = .ok d ∧
      List.Forall₂ YieldsRows d.partitions parts ∧
      List.Forall₂ (LineRecord (PyCsv.parseLine F (readline text).1) columns) (dataLines text)
        parts.flatten := by
  obtain ⟨full, hfull, hnames⟩ :=
    inferSchemaFromSample_ok (PyRuntime.isPrintable F) htext hnodup hfields
  obtain ⟨schema, hschema, -⟩ := exists_requested (PyRuntime.isPrintable F) (hnames.symm ▸ hcolumns)
  have hrecord : ∀ line ∈ dataLines text, ∃ r, coerceRow (PyCsv.parseLine F (readline text).1)
      (PyCsv.parseLine F line) columns = .ok r ∧
        LineRecord (PyCsv.parseLine F (readline text).1) columns line r :=
    fun line hline => coerceRow_lineRecord hnodup (hfields line hline)
  obtain ⟨records, hrecords, hlines⟩ := ExceptList.mapM_ok_of_exists hrecord
  have hcount : records.length = countRows text := by
    rw [countRows_eq, hlines.length_eq]
  have hpos : 0 < csvPartitionCount numPartitions (countRows text) := by
    unfold csvPartitionCount
    omega
  obtain ⟨located, hlocated, hrel⟩ :=
    exists_located text (csvPartitionCount numPartitions (countRows text))
  obtain ⟨parts, hparts, hflatten⟩ :=
    csvPartitions_yield hrecords schema hpos (by rw [hcount]; exact hrel)
  refine ⟨csvDataset text _ columns schema located, parts, ?_, hparts, ?_⟩
  · rw [readCsv]
    dsimp only
    rw [hfull, ExceptList.bind_ok, hschema, ExceptList.bind_ok, hlocated]
    rfl
  · rw [hflatten]
    exact hlines

/-- A read of repeated columns fails, whatever the lines are. -/
theorem readCsv_repeated (htext : text ≠ [])
    (hnodup : (PyCsv.parseLine F (readline text).1).Nodup)
    (hfields : ∀ line ∈ dataLines text,
      (PyCsv.parseLine F line).length = (PyCsv.parseLine F (readline text).1).length)
    {names : List String} (hmem : ∀ n ∈ names, n ∈ PyCsv.parseLine F (readline text).1)
    (hrepeated : ¬ names.Nodup) (numPartitions : ℤ) :
    (readCsv text numPartitions (some names) : Py (Dataset F)) = .error (.valueError
      ("Schema has duplicate field names: " ++ reprNames (PyRuntime.isPrintable F) names)) := by
  obtain ⟨full, hfull, hnames⟩ :=
    inferSchemaFromSample_ok (PyRuntime.isPrintable F) htext hnodup hfields
  have hselect := Schema.select_repeated (PyRuntime.isPrintable F) (hnames.symm ▸ hmem) hrepeated
  rw [readCsv]
  dsimp only
  rw [hfull, ExceptList.bind_ok, Schema.requested, hselect, ExceptList.bind_error]

/-- The fields of a line without quotes, for texts without decimal numbers. -/
instance plainCsv : PyCsv ℚ where
  parseInt raw := raw.toInt?
  parseFloat _ := none
  parseLine line := ((line.filter (fun c => c ≠ '\n' ∧ c ≠ '\r')).splitOn ',').map String.ofList

/-- A header and two lines, the last of them without a terminator, in more partitions than rows. -/
theorem readCsv_lineRecords_two :
    ∃ (d : Dataset ℚ) (parts : List (List (Record ℚ))),
      readCsv ['x', ',', 'y', '\n', '1', ',', '2', '\n', '3', ','] 7 (some ["y"]) = .ok d ∧
        List.Forall₂ YieldsRows d.partitions parts ∧
        List.Forall₂ (LineRecord (PyCsv.parseLine ℚ
          (readline ['x', ',', 'y', '\n', '1', ',', '2', '\n', '3', ',']).1) (some ["y"]))
          (dataLines ['x', ',', 'y', '\n', '1', ',', '2', '\n', '3', ',']) parts.flatten := by
  have hlines : dataLines ['x', ',', 'y', '\n', '1', ',', '2', '\n', '3', ','] =
      [['1', ',', '2', '\n'], ['3', ',']] := by
    simp [dataLines, readline, lines_of_ne_nil]
  refine readCsv_lineRecords (by simp) (by decide) ?_ ?_ 7
  · rw [hlines]
    decide
  · rintro names ⟨⟩
    decide

/-- Two requests that no file can answer: a column named twice, and any column of a file that
has no header line. -/
theorem readCsv_unanswered :
    (readCsv ['x', '\n', '1', '\n'] 4 (some ["x", "x"]) : Py (Dataset ℚ)) =
        .error (.valueError "Schema has duplicate field names: ['x', 'x']") ∧
      (readCsv [] 4 none : Py (Dataset ℚ)) = .error .stopIteration := by
  have hlines : dataLines ['x', '\n', '1', '\n'] = [['1', '\n']] := by
    simp [dataLines, readline, lines_of_ne_nil]
  constructor
  · refine readCsv_repeated (by simp) (by decide) ?_ (by decide) (by decide) 4
    rw [hlines]
    decide
  · simp [readCsv, inferSchemaFromSample, csvRows]

end Reading

end MiniSpark
