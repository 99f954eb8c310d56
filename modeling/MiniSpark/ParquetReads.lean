import MiniSpark.DataSources
import MiniSpark.Parquet

/-!
# Reading Parquet under the hints of the planner

The storage engine leaves out the columns it is not asked for and the rows on which the pushed
filter is not true. A read meets the contract of a source exactly when every row that the
condition accepts also passes what is pushed of it.
-/
namespace MiniSpark

variable {F : Type} [PyRuntime F] [PyArrow F]

section Engine

/-- What the storage engine makes of the hints of a read, where it can evaluate the filter: the
rows the filter is true on, in their order, under the columns asked for. -/
structure ArrowKernel.Reads (kernel : ArrowKernel F) : Prop where
  filtered : ∀ (g : PyArrow.Fragment F) (f : ArrowFilter F) table table',
    PyArrow.toTable g none none = .ok table → PyArrow.toTable g none (some f) = .ok table' →
    PyArrow.toPylist table' =
      (PyArrow.toPylist table).filter (fun r => decide (f.eval kernel r = some true))
  projected : ∀ file : PyArrow.File F, ∀ g ∈ PyArrow.splitByRowGroup file, ∀ names : List String,
    names.Nodup → names ⊆ (PyArrow.fileSchema file).map ArrowField.name → ∀ paFilter table,
    PyArrow.toTable g none paFilter = .ok table →
    ∃ table', PyArrow.toTable g (some names) paFilter = .ok table' ∧
      List.Forall₂ (RowRestricted (some names)) (PyArrow.toPylist table) (PyArrow.toPylist table')

omit [PyRuntime F] in
/-- The row groups of a directory, in the order they are dealt to partitions. -/
def Directory.rowGroups (dir : Directory F) : List (PyArrow.Fragment F) :=
  dir.listing.flatMap PyArrow.splitByRowGroup

omit [PyRuntime F] in
/-- The storage engine can evaluate the filter on every row group. -/
def Directory.Evaluates (dir : Directory F) (f : ArrowFilter F) : Prop :=
  ∀ g ∈ dir.rowGroups, ∃ table, PyArrow.toTable g none (some f) = .ok table

omit [PyRuntime F] in
/-- The files have one schema. -/
def Directory.OneSchema (dir : Directory F) : Prop :=
  ∀ file ∈ dir.listing, PyArrow.fileSchema file = datasetSchema dir.listing

/-- `ParquetDataSource(path, num_partitions)` over the files of the path. -/
def parquetSource (numPartitions : ℤ) (dir : Directory F) : ScanSource F where
  read columns filterExpr := readParquet numPartitions dir columns filterExpr

omit [PyArrow F] in
/-- A row that the condition accepts passes what is pushed of it: the condition without its
dropped conjuncts still holds, and does so by comparisons of values. -/
def PassesPushed (e : Expression F) (r : Record F) : Prop :=
  pushable e = true → holds e r = .ok true →
    holds (kept e) r = .ok true ∧ RestsOnValues r (kept e) true

omit [PyArrow F] in
/-- For a row that is accepted, passing is what the storage engine evaluates. -/
lemma passesPushed_iff (kernel : ArrowKernel F) {e : Expression F} {f : ArrowFilter F}
    {r : Record F} (hf : translatePredicate e = some f) :
    PassesPushed e r ↔ (accepts (some e) r = true → f.eval kernel r = some true) := by
  have hpushable : pushable e = true := by rw [pushable_eq_isSome, hf, Option.isSome_some]
  have haccepts : accepts (some e) r = true ↔ holds e r = .ok true := by
    simp only [accepts, ExceptList.verdict]
    cases holds e r <;> simp
  rw [haccepts]
  refine ⟨fun h hholds => ?_, fun h _ hholds => ?_⟩
  · obtain ⟨v, hv, -⟩ := holds_eq_ok.mp hholds
    exact (eval_translatePredicate kernel hf hv true).mpr (h hpushable hholds)
  · obtain ⟨v, hv, -⟩ := holds_eq_ok.mp hholds
    exact (eval_translatePredicate kernel hf hv true).mp (h hholds)

end Engine

section Narrowing

variable {columns : Option (List String)} {filterExpr : Option (Expression F)}

omit [PyArrow F] in
lemma NarrowsRows.append {xs ys outs outs' : List (Record F)}
    (h : NarrowsRows columns filterExpr xs outs) (h' : NarrowsRows columns filterExpr ys outs') :
    NarrowsRows columns filterExpr (xs ++ ys) (outs ++ outs') := by
  obtain ⟨kept, hsub, hsup, hrows⟩ := h
  obtain ⟨kept', hsub', hsup', hrows'⟩ := h'
  refine ⟨kept ++ kept', hsub.append hsub', ?_, List.rel_append hrows hrows'⟩
  rw [List.filter_append]
  exact hsup.append hsup'

omit [PyArrow F] in
/-- Rows chosen by a test that every accepted row passes, under the columns asked for. -/
lemma narrowsRows_of_filter {rows out : List (Record F)} {p : Record F → Bool}
    (hp : ∀ r ∈ rows, accepts filterExpr r = true → p r = true)
    (hout : List.Forall₂ (RowRestricted columns) (rows.filter p) out) :
    NarrowsRows columns filterExpr rows out := by
  refine ⟨rows.filter p, List.filter_sublist, ?_,
    hout.imp fun _ _ h => (RowRestricted.restricts h).narrows⟩
  have hboth : rows.filter (accepts filterExpr) = (rows.filter p).filter (accepts filterExpr) := by
    rw [List.filter_filter]
    refine List.filter_congr (fun r hr => ?_)
    cases haccepts : accepts filterExpr r with
    | false => rfl
    | true => rw [hp r hr haccepts, Bool.and_self]
  rw [hboth]
  exact List.filter_sublist

/-- The pushed filter of a row group: what is read under it, and the rows it is true on. -/
lemma toTable_filtered {kernel : ArrowKernel F} (h : kernel.Reads) {g : PyArrow.Fragment F}
    {table : PyArrow.Table F} (htable : PyArrow.toTable g none none = .ok table)
    (heval : ∀ f, filterExpr.bind translatePredicate = some f →
      ∃ t, PyArrow.toTable g none (some f) = .ok t) :
    ∃ table', PyArrow.toTable g none (filterExpr.bind translatePredicate) = .ok table' ∧
      PyArrow.toPylist table' = (PyArrow.toPylist table).filter (fun r =>
        (filterExpr.bind translatePredicate).all (fun f => decide (f.eval kernel r = some true))) := by
  cases hf : filterExpr.bind translatePredicate with
  | none => exact ⟨table, htable, (List.filter_eq_self.mpr (fun _ _ => rfl)).symm⟩
  | some f =>
      obtain ⟨table', htable'⟩ := heval f hf
      exact ⟨table', htable', h.filtered g f table table' htable htable'⟩

/-- A row group read under the hints: its rows, narrowed. -/
theorem toTable_narrows {kernel : ArrowKernel F} (h : kernel.Reads) {file : PyArrow.File F}
    {g : PyArrow.Fragment F} (hg : g ∈ PyArrow.splitByRowGroup file)
    (hnodup : ∀ names ∈ columns, names.Nodup)
    (hnames : ∀ names ∈ columns, names ⊆ (PyArrow.fileSchema file).map ArrowField.name)
    {table : PyArrow.Table F} (htable : PyArrow.toTable g none none = .ok table)
    (heval : ∀ f, filterExpr.bind translatePredicate = some f →
      ∃ t, PyArrow.toTable g none (some f) = .ok t)
    (hpasses : ∀ e ∈ filterExpr, ∀ r ∈ PyArrow.toPylist table, PassesPushed e r) :
    ∃ table', PyArrow.toTable g columns (filterExpr.bind translatePredicate) = .ok table' ∧
      NarrowsRows columns filterExpr (PyArrow.toPylist table) (PyArrow.toPylist table') := by
  obtain ⟨filtered, hfiltered, hrows⟩ := toTable_filtered h htable heval
  have hpass : ∀ r ∈ PyArrow.toPylist table, accepts filterExpr r = true →
      (filterExpr.bind translatePredicate).all
        (fun f => decide (f.eval kernel r = some true)) = true := by
    intro r hr haccepts
    cases hf : filterExpr.bind translatePredicate with
    | none => rfl
    | some f =>
        obtain ⟨e, rfl, hf⟩ := Option.bind_eq_some_iff.mp hf
        simpa using (passesPushed_iff kernel hf).mp (hpasses e rfl r hr) haccepts
  cases columns with
  | none =>
      refine ⟨filtered, hfiltered, narrowsRows_of_filter hpass ?_⟩
      rw [← hrows]
      exact List.forall₂_same.mpr (fun _ _ => rfl)
  | some names =>
      obtain ⟨table', htable', hrestricted⟩ :=
        h.projected file g hg names (hnodup names rfl) (hnames names rfl) _ _ hfiltered
      rw [hrows] at hrestricted
      exact ⟨table', htable', narrowsRows_of_filter hpass hrestricted⟩

end Narrowing

section Source

variable {columns : Option (List String)} {filterExpr : Option (Expression F)} {dir : Directory F}

omit [PyRuntime F] in
lemma Directory.mem_rowGroups {g : PyArrow.Fragment F} :
    g ∈ dir.rowGroups ↔ ∃ file ∈ dir.listing, g ∈ PyArrow.splitByRowGroup file :=
  List.mem_flatMap

omit [PyRuntime F] in
/-- The names of the schema are the columns of every file. -/
lemma Directory.OneSchema.names (h : dir.OneSchema) {isPrintable : Char → Bool} {schema : Schema}
    (hschema : arrowSchemaToMinispark isPrintable (datasetSchema dir.listing) = .ok schema)
    {file : PyArrow.File F} (hfile : file ∈ dir.listing) :
    (PyArrow.fileSchema file).map ArrowField.name = schema.fieldNames := by
  obtain ⟨fields, hfields, hmake⟩ := ExceptList.bind_eq_ok.mp hschema
  have hrel := ExceptList.mapM_eq_ok.mp hfields
  rw [h file hfile, Schema.fieldNames, Schema.make_eq_ok.mp hmake, ← List.forall₂_eq_eq_eq,
    List.forall₂_map_left_iff, List.forall₂_map_right_iff]
  refine hrel.imp (fun f field hfield => ?_)
  obtain ⟨t, -, hfield⟩ := ExceptList.bind_eq_ok.mp hfield
  cases hfield
  rfl

/-- A group of row groups read under the hints: its rows, narrowed. -/
lemma readFragments_narrows {group : List (PyArrow.Fragment F)} {rows : List (Record F)}
    (hgroup : ∀ g ∈ group, ∀ table, PyArrow.toTable g none none = .ok table →
      (∀ r ∈ PyArrow.toPylist table, r ∈ rows) →
      ∃ table', PyArrow.toTable g columns (filterExpr.bind translatePredicate) = .ok table' ∧
        NarrowsRows columns filterExpr (PyArrow.toPylist table) (PyArrow.toPylist table'))
    (hrows : readFragments none none group = .ok rows) :
    ∃ out, readFragments columns (filterExpr.bind translatePredicate) group = .ok out ∧
      NarrowsRows columns filterExpr rows out := by
  obtain ⟨tables, htables, hflat⟩ := ExceptList.bind_eq_ok.mp hrows
  cases hflat
  have hrel := ExceptList.mapM_eq_ok.mp htables
  have hall : ∃ tables', List.Forall₂ (fun g table' =>
      PyArrow.toTable g columns (filterExpr.bind translatePredicate) = .ok table') group tables' ∧
      NarrowsRows columns filterExpr (tables.flatMap PyArrow.toPylist)
        (tables'.flatMap PyArrow.toPylist) := by
    clear htables hrows
    induction hrel with
    | nil => exact ⟨[], .nil, .refl columns filterExpr []⟩
    | @cons g table group tables hg _ ih =>
        obtain ⟨table', htable', hnarrow⟩ := hgroup g List.mem_cons_self table hg
          (fun r hr => List.mem_append_left _ hr)
        obtain ⟨tables', htables', hnarrows⟩ := ih (fun g' hg' t ht hmem =>
          hgroup g' (List.mem_cons_of_mem _ hg') t ht
            (fun r hr => List.mem_append_right _ (hmem r hr)))
        exact ⟨table' :: tables', .cons htable' htables', hnarrow.append hnarrows⟩
  obtain ⟨tables', htables', hnarrow⟩ := hall
  refine ⟨_, ?_, hnarrow⟩
  rw [readFragments, ExceptList.mapM_eq_ok.mpr htables', ExceptList.bind_ok]
  rfl

omit [PyRuntime F] in
/-- The partitions of a read deal the row groups the same way under any hints. -/
lemma fragmentPartitions_forall₂ {R : Partition F → Partition F → Prop} {numPartitions : ℤ}
    {schema schema' : Schema} {columns' : Option (List String)}
    {paFilter paFilter' : Option (ArrowFilter F)} {rowGroups : List (PyArrow.Fragment F)}
    (h : ∀ index group, group ⊆ rowGroups → R (fragmentPartition schema columns paFilter index group)
      (fragmentPartition schema' columns' paFilter' index group)) :
    List.Forall₂ R (fragmentPartitions numPartitions schema columns paFilter rowGroups)
      (fragmentPartitions numPartitions schema' columns' paFilter' rowGroups) := by
  unfold fragmentPartitions
  cases hchunks : Chunking.chunks (parquetPartitions numPartitions rowGroups.length)
      rowGroups.length with
  | nil => exact .cons (h 0 [] (List.nil_subset _)) .nil
  | cons c cs =>
      simp only [List.map_cons, List.isEmpty_cons, Bool.false_eq_true, if_false]
      rw [← List.map_cons (f := fun c => fragmentPartition schema columns paFilter c.index
          (Chunking.slice rowGroups c)), ← List.map_cons (f := fun c =>
          fragmentPartition schema' columns' paFilter' c.index (Chunking.slice rowGroups c)),
        List.forall₂_map_left_iff, List.forall₂_map_right_iff]
      exact List.forall₂_same.mpr (fun c _ => h c.index _
        (fun g hg => List.mem_of_mem_drop (List.mem_of_mem_take hg)))

variable {numPartitions : ℤ} {full : Dataset F}

/-- A Parquet source answers under a filter whose accepted rows pass what is pushed. -/
theorem parquetSource_answersFilter {kernel : ArrowKernel F} (h : kernel.Reads)
    (hschema : dir.OneSchema) (hfull : (parquetSource numPartitions dir).read none none = .ok full)
    (heval : ∀ e ∈ filterExpr, ∀ f, translatePredicate e = some f → dir.Evaluates f)
    (hpasses : ∀ e ∈ filterExpr, ∀ p ∈ full.partitions, ∀ rows, p.toList = .ok rows →
      ∀ r ∈ rows, PassesPushed e r) :
    (parquetSource numPartitions dir).AnswersFilter full filterExpr where
  reads := hfull
  narrowed columns hnodup hw := by
    obtain ⟨fullSchema, hfullSchema, hread⟩ := ExceptList.bind_eq_ok.mp hfull
    obtain ⟨requested, hrequested, hread⟩ := ExceptList.bind_eq_ok.mp hread
    cases hrequested
    cases hread
    obtain ⟨s, hs, hrestricted⟩ := exists_requested_of_hints hnodup hw
    have hgroup : ∀ g ∈ dir.rowGroups, ∀ table, PyArrow.toTable g none none = .ok table →
        (∀ e ∈ filterExpr, ∀ r ∈ PyArrow.toPylist table, PassesPushed e r) →
        ∃ table', PyArrow.toTable g columns (filterExpr.bind translatePredicate) = .ok table' ∧
          NarrowsRows columns filterExpr (PyArrow.toPylist table) (PyArrow.toPylist table') := by
      intro g hg table htable hpass
      obtain ⟨file, hfile, hg'⟩ := Directory.mem_rowGroups.mp hg
      refine toTable_narrows h hg' hnodup (fun names hcs => ?_) htable (fun f hf => ?_) hpass
      · rw [hschema.names hfullSchema hfile]
        exact hw.1 names hcs
      · obtain ⟨e, he, hf⟩ := Option.bind_eq_some_iff.mp hf
        exact heval e he f hf g hg
    have hparts : List.Forall₂ (fun p q : Partition F => p ∈ (fragmentPartitions numPartitions
        fullSchema none none dir.rowGroups) → ∀ rows, p.toList = .ok rows →
          ∃ out, q.toList = .ok out ∧ NarrowsRows columns filterExpr rows out)
        (fragmentPartitions numPartitions fullSchema none none dir.rowGroups)
        (fragmentPartitions numPartitions s columns (filterExpr.bind translatePredicate)
          dir.rowGroups) := by
      refine fragmentPartitions_forall₂ (fun index group hsub hp rows hrows => ?_)
      exact readFragments_narrows (fun g hg table htable hmem => hgroup g (hsub hg) table htable
        (fun e he r hr => hpasses e he _ hp rows hrows r (hmem r hr))) hrows
    refine ⟨fragmentDataset numPartitions s columns (filterExpr.bind translatePredicate)
      dir.rowGroups, ?_, hrestricted.narrows, hparts.length_eq.symm, fun i p q hp hq rows hrows => ?_⟩
    · have hs' : fullSchema.requested (PyRuntime.isPrintable F) columns = .ok s := hs
      simp only [parquetSource, readParquet, hfullSchema, ExceptList.bind_ok, hs']
      rfl
    · obtain ⟨hi, rfl⟩ := List.getElem?_eq_some_iff.mp hp
      obtain ⟨hi', rfl⟩ := List.getElem?_eq_some_iff.mp hq
      exact hparts.get hi hi' (List.getElem_mem hi) rows hrows

/-- A group of row groups read under a filter alone: the rows it is true on. -/
lemma readFragments_filtered {kernel : ArrowKernel F} (h : kernel.Reads) {f : ArrowFilter F}
    {group : List (PyArrow.Fragment F)} {rows : List (Record F)}
    (heval : ∀ g ∈ group, ∃ t, PyArrow.toTable g none (some f) = .ok t)
    (hrows : readFragments none none group = .ok rows) :
    readFragments none (some f) group =
      .ok (rows.filter (fun r => decide (f.eval kernel r = some true))) := by
  obtain ⟨tables, htables, hflat⟩ := ExceptList.bind_eq_ok.mp hrows
  cases hflat
  obtain ⟨tables', htables', -⟩ := ExceptList.mapM_ok_of_exists (S := fun _ _ => True)
    (fun g hg => (heval g hg).imp (fun _ ht => ⟨ht, trivial⟩))
  have hrel := ExceptList.mapM_eq_ok.mp htables
  have hrel' := ExceptList.mapM_eq_ok.mp htables'
  have hflat : tables'.flatMap PyArrow.toPylist = (tables.flatMap PyArrow.toPylist).filter
      (fun r => decide (f.eval kernel r = some true)) := by
    rw [List.filter_flatMap, List.flatMap, List.flatMap]
    congr 1
    rw [← List.forall₂_eq_eq_eq, List.forall₂_map_left_iff, List.forall₂_map_right_iff]
    refine (Dealing.forall₂_through hrel'.flip hrel.flip).imp ?_
    rintro table' table ⟨g, htable', htable⟩
    exact h.filtered g f table table' htable htable'
  rw [readFragments, htables', ExceptList.bind_ok, hflat]
  rfl

/-- A Parquet source answers under a condition when every row that the condition accepts passes
what is pushed of it, and only then. -/
lemma answersFilter_iff_passesPushed {kernel : ArrowKernel F} (h : kernel.Reads)
    (hschema : dir.OneSchema) (hfull : (parquetSource numPartitions dir).read none none = .ok full)
    {e : Expression F} (hknown : e.referencedColumns ⊆ full.schema.fieldNames)
    (heval : ∀ f, translatePredicate e = some f → dir.Evaluates f) :
    (parquetSource numPartitions dir).AnswersFilter full (some e) ↔
      ∀ p ∈ full.partitions, ∀ rows, p.toList = .ok rows → ∀ r ∈ rows, PassesPushed e r := by
  constructor
  · intro hanswers p hp rows hrows r hr
    cases hf : translatePredicate e with
    | none =>
        intro hpushable
        rw [pushable_eq_isSome, hf] at hpushable
        cases hpushable
    | some f =>
        rw [passesPushed_iff kernel hf]
        intro haccepts
        obtain ⟨d, hd, hnarrow⟩ := hanswers.narrowed none (by simp)
          ⟨by simp, fun e' he' => by cases he'; exact hknown⟩
        obtain ⟨fullSchema, hfullSchema, hread⟩ := ExceptList.bind_eq_ok.mp hfull
        cases hread
        obtain ⟨s, hs, hread⟩ := ExceptList.bind_eq_ok.mp hd
        obtain rfl := Except.ok.inj (hfullSchema.symm.trans hs)
        cases hread
        -- the same row groups, read under the filter
        have hparts : List.Forall₂ (fun p q : Partition F => ∀ rows, p.toList = .ok rows →
            q.toList = .ok (rows.filter (fun r => decide (f.eval kernel r = some true))))
            (fragmentPartitions numPartitions fullSchema none none dir.rowGroups)
            (fragmentPartitions numPartitions fullSchema none (some f) dir.rowGroups) :=
          fragmentPartitions_forall₂ (fun index group hsub rows hrows =>
            readFragments_filtered h (fun g hg => heval f hf g (hsub hg)) hrows)
        obtain ⟨i, hi, rfl⟩ := List.getElem_of_mem hp
        have hi' := hparts.length_eq ▸ hi
        have hq := hparts.get hi hi' rows hrows
        obtain ⟨out, hout, hrel⟩ := hnarrow.rows i _ _ (List.getElem?_eq_getElem hi)
          (by
            rw [Option.bind_some, hf]
            exact List.getElem?_eq_getElem hi') rows hrows
        obtain rfl := Except.ok.inj (hout.symm.trans hq)
        obtain ⟨kept, -, hsup, hkept⟩ := hrel
        have hsame : List.Forall₂ Eq (rows.filter (fun r => decide (f.eval kernel r = some true)))
            kept := hkept.flip
        rw [List.forall₂_eq_eq_eq] at hsame
        have hmem := hsup.subset (List.mem_filter.mpr ⟨hr, haccepts⟩)
        rw [← hsame] at hmem
        exact of_decide_eq_true (List.mem_filter.mp hmem).2
  · intro hpasses
    refine parquetSource_answersFilter h hschema hfull (fun e' he' => ?_) (fun e' he' => ?_)
    · cases he'
      exact heval
    · cases he'
      exact hpasses

/-- A row group read under some names has rows with these names only. -/
lemma toTable_keys {kernel : ArrowKernel F} (h : kernel.Reads) {file : PyArrow.File F}
    {g : PyArrow.Fragment F} (hg : g ∈ PyArrow.splitByRowGroup file) {names : List String}
    (hnodup : names.Nodup) (hnames : names ⊆ (PyArrow.fileSchema file).map ArrowField.name)
    {table table' : PyArrow.Table F} (htable : PyArrow.toTable g none none = .ok table)
    (heval : ∀ f, filterExpr.bind translatePredicate = some f →
      ∃ t, PyArrow.toTable g none (some f) = .ok t)
    (htable' : PyArrow.toTable g (some names) (filterExpr.bind translatePredicate) = .ok table') :
    ∀ r ∈ PyArrow.toPylist table', r.keys = names := by
  obtain ⟨filtered, hfiltered, -⟩ := toTable_filtered h htable heval
  obtain ⟨projected, hprojected, hrestricted⟩ :=
    h.projected file g hg names hnodup hnames _ _ hfiltered
  obtain rfl := Except.ok.inj (hprojected.symm.trans htable')
  intro r hr
  obtain ⟨r', -, hkeys, -⟩ := Dealing.exists_partner hrestricted hr
  exact hkeys

/-- A read of some names yields rows with these names only. -/
lemma parquetSource_keys {kernel : ArrowKernel F} (h : kernel.Reads)
    (hschema : dir.OneSchema) (hfull : (parquetSource numPartitions dir).read none none = .ok full)
    (heval : ∀ e ∈ filterExpr, ∀ f, translatePredicate e = some f → dir.Evaluates f)
    {names : List String} (hnodup : names.Nodup) (hnames : names ⊆ full.schema.fieldNames)
    {d : Dataset F} (hd : (parquetSource numPartitions dir).read (some names) filterExpr = .ok d) :
    List.Forall₂ (fun p q => ∀ rows out, p.toList = .ok rows → q.toList = .ok out →
      ∀ r ∈ out, r.keys = names) full.partitions d.partitions := by
  obtain ⟨fullSchema, hfullSchema, hread⟩ := ExceptList.bind_eq_ok.mp hfull
  obtain ⟨requested, hrequested, hread⟩ := ExceptList.bind_eq_ok.mp hread
  cases hrequested
  cases hread
  obtain ⟨fullSchema', hfullSchema', hread⟩ := ExceptList.bind_eq_ok.mp hd
  obtain rfl := Except.ok.inj (hfullSchema.symm.trans hfullSchema')
  obtain ⟨s, -, hread⟩ := ExceptList.bind_eq_ok.mp hread
  cases hread
  refine fragmentPartitions_forall₂ (fun index group hsub rows out hrows hout r hr => ?_)
  obtain ⟨tables, htables, -⟩ := ExceptList.bind_eq_ok.mp hrows
  obtain ⟨tables', htables', hflat⟩ := ExceptList.bind_eq_ok.mp hout
  cases hflat
  obtain ⟨table', hmem, hr⟩ := List.mem_flatMap.mp hr
  obtain ⟨g, hg, htable'⟩ := Dealing.exists_partner (ExceptList.mapM_eq_ok.mp htables') hmem
  obtain ⟨table, -, htable⟩ := Dealing.exists_partner (ExceptList.mapM_eq_ok.mp htables).flip hg
  obtain ⟨file, hfile, hgfile⟩ := Directory.mem_rowGroups.mp (hsub hg)
  refine toTable_keys h hgfile hnodup ?_ htable (fun f hf => ?_) htable' r hr
  · rw [hschema.names hfullSchema hfile]
    exact hnames
  · obtain ⟨e, he, hf⟩ := Option.bind_eq_some_iff.mp hf
    exact heval e he f hf g (hsub hg)

/-- A Parquet source answers under a condition exactly when every row that the condition accepts
passes what is pushed of it; the rows it reads under some names have these names only. -/
theorem parquetSource_answersFilter_iff {kernel : ArrowKernel F} (h : kernel.Reads)
    (hschema : dir.OneSchema) (hfull : (parquetSource numPartitions dir).read none none = .ok full)
    {e : Expression F} (hknown : e.referencedColumns ⊆ full.schema.fieldNames)
    (heval : ∀ f, translatePredicate e = some f → dir.Evaluates f) :
    ((parquetSource numPartitions dir).AnswersFilter full (some e) ↔
      ∀ p ∈ full.partitions, ∀ rows, p.toList = .ok rows → ∀ r ∈ rows, PassesPushed e r) ∧
    ∀ names d, names.Nodup → names ⊆ full.schema.fieldNames →
      (parquetSource numPartitions dir).read (some names) (some e) = .ok d →
      List.Forall₂ (fun p q => ∀ rows out, p.toList = .ok rows → q.toList = .ok out →
        ∀ r ∈ out, r.keys = names) full.partitions d.partitions :=
  ⟨answersFilter_iff_passesPushed h hschema hfull hknown heval, fun _ _ hnodup hnames hd =>
    parquetSource_keys h hschema hfull (fun _ he => by cases he; exact heval) hnodup hnames hd⟩

end Source

section Examples

/-- Rows under a schema, each with its columns. -/
structure ArrowTable where
  schema : List ArrowField
  rows : List (Record ℚ)
  keys : ∀ r ∈ rows, r.keys = schema.map ArrowField.name

namespace ArrowTable

/-- The rows the filter is true on. -/
def filter (t : ArrowTable) : Option (ArrowFilter ℚ) → ArrowTable
  | none => t
  | some f => ⟨t.schema, t.rows.filter (fun r => decide (f.eval (interpreterKernel ℚ) r = some true)),
      fun r hr => t.keys r (List.mem_of_mem_filter hr)⟩

/-- The row under these columns, null where it has none. -/
def pick (names : List String) (h : names.Nodup) (r : Record ℚ) : Record ℚ where
  items := names.map (fun n => (n, (r.get? n).getD .none))
  distinct := by
    rw [List.map_map]
    exact OrderedDict.distinct_keys_iff.mpr (by simpa [Function.comp_def] using h)

lemma pick_keys (names : List String) (h : names.Nodup) (r : Record ℚ) :
    (pick names h r).keys = names := by
  simp [OrderedDict.keys, pick, Function.comp_def]

lemma pick_get? {names : List String} (h : names.Nodup) {r : Record ℚ} {n : String}
    (hn : n ∈ names) (hr : n ∈ r.keys) : (pick names h r).get? n = r.get? n := by
  obtain ⟨v, hv⟩ := Option.isSome_iff_exists.mp (OrderedDict.isSome_get?_iff.mpr hr)
  rw [hv, OrderedDict.get?_eq_some_iff]
  exact List.mem_map.mpr ⟨n, hn, by rw [hv, Option.getD_some]⟩

def select (t : ArrowTable) (names : List String) (h : names.Nodup) : ArrowTable where
  schema := names.map (fun n =>
    { (t.schema.find? (fun f => f.name == n)).getD ⟨n, .null, true⟩ with name := n })
  rows := t.rows.map (pick names h)
  keys := by
    intro r hr
    obtain ⟨r', -, rfl⟩ := List.mem_map.mp hr
    rw [pick_keys, List.map_map]
    exact (List.map_id names).symm

end ArrowTable

/-- A file is one row group, and a read honours its hints. -/
@[reducible] def scanningArrow : PyArrow ℚ where
  Table := ArrowTable
  File := ArrowTable
  Fragment := ArrowTable
  fromPylist rows arrowSchema :=
    if h : ∀ r ∈ rows, r.keys = arrowSchema.map ArrowField.name then .ok ⟨arrowSchema, rows, h⟩
    else .error (.valueError "columns")
  toPylist table := table.rows
  writeTable table := table
  fileSchema file := file.schema
  splitByRowGroup file := [file]
  numRows fragment := fragment.rows.length
  toTable fragment columns paFilter :=
    match columns with
    | none => .ok (fragment.filter paFilter)
    | some names =>
        if h : names.Nodup ∧ ∀ n ∈ names, n ∈ fragment.schema.map ArrowField.name then
          .ok ((fragment.filter paFilter).select names h.1)
        else .error (.valueError "No match for FieldRef")

lemma scanningArrow_reads :
    @ArrowKernel.Reads ℚ _ scanningArrow (interpreterKernel ℚ) := by
  refine @ArrowKernel.Reads.mk ℚ _ scanningArrow _ (fun g f table table' h h' => ?_)
    (fun file g hg names hnodup hnames paFilter table h => ?_)
  · cases h
    cases h'
    rfl
  · obtain rfl := List.mem_singleton.mp hg
    cases h
    refine ⟨_, dif_pos ⟨hnodup, fun n hn => hnames hn⟩, ?_⟩
    have hrows : ∀ r ∈ (ArrowTable.filter g paFilter).rows,
        RowRestricted (some names) r (ArrowTable.pick names hnodup r) := by
      intro r hr
      have hkeys := (ArrowTable.filter g paFilter).keys r hr
      have hschema : (ArrowTable.filter g paFilter).schema = g.schema := by cases paFilter <;> rfl
      refine ⟨ArrowTable.pick_keys names hnodup r, fun n hn => ArrowTable.pick_get? hnodup hn ?_⟩
      rw [hkeys, hschema]
      exact hnames hn
    exact List.forall₂_map_right_iff.mpr (List.forall₂_same.mpr hrows)

/-- A row group of one record. -/
def abRowGroup (r : Record ℚ) (hr : r ∈ abRecords) : ArrowTable where
  schema := minisparkSchemaToArrow abSchema
  rows := [r]
  keys := by
    intro r' hr'
    obtain rfl := List.mem_singleton.mp hr'
    simp only [abRecords, List.mem_cons, List.not_mem_nil, or_false] at hr
    rcases hr with rfl | rfl <;> rfl

def abRowGroups : List ArrowTable := abRecords.attach.map (fun r => abRowGroup r.1 r.2)

def abFiles : @Directory ℚ scanningArrow :=
  OrderedDict.ofList (["part-00000.parquet", "part-00001.parquet"].zip abRowGroups)

lemma abFiles_listing : @Directory.listing ℚ scanningArrow abFiles = abRowGroups := by
  unfold Directory.listing
  rw [List.mergeSort_of_pairwise (by decide)]
  rfl

/-- Two records on disk, in two partitions. -/
def abOnDisk : Dataset ℚ := @fragmentDataset ℚ scanningArrow 2 abSchema none none abRowGroups

def abParquet : ScanSource ℚ := @parquetSource ℚ _ scanningArrow 2 abFiles

lemma abParquet_reads : abParquet.read none none = .ok abOnDisk := by
  simp only [abParquet, parquetSource, readParquet, abFiles_listing]
  rfl

lemma abFiles_oneSchema : @Directory.OneSchema ℚ scanningArrow abFiles := by
  intro file hfile
  rw [abFiles_listing] at hfile ⊢
  rcases List.mem_pair.mp hfile with rfl | rfl <;> rfl

/-- Both records have a number under `a`. -/
lemma abRecords_pass : ∀ r ∈ abRecords, PassesPushed aAbove r := by
  intro r hr _ hholds
  refine ⟨hholds, ?_, fun v hv => ?_⟩
  · intro v hv
    simp only [abRecords, List.mem_cons, List.not_mem_nil, or_false] at hr
    rcases hr with rfl | rfl <;> cases hv <;> rfl
  · cases hv
    rfl

lemma abOnDisk_rows {p : Partition ℚ} (hp : p ∈ abOnDisk.partitions) {rows : List (Record ℚ)}
    (hrows : p.toList = .ok rows) : rows ⊆ abRecords := by
  have hpartitions : ∀ q ∈ abOnDisk.partitions,
      q.toList = .ok [abRecords[0]] ∨ q.toList = .ok [abRecords[1]] := by
    decide +kernel
  intro r hr
  rcases hpartitions p hp with h | h
  · obtain rfl := Except.ok.inj (h.symm.trans hrows)
    exact List.mem_singleton.mp hr ▸ List.mem_cons_self
  · obtain rfl := Except.ok.inj (h.symm.trans hrows)
    exact List.mem_singleton.mp hr ▸ List.mem_cons_of_mem _ List.mem_cons_self

/-- Two files under the filter `a > 20`. -/
theorem parquetSource_answersFilter_iff_above :
    (abParquet.AnswersFilter abOnDisk (some aAbove) ↔
      ∀ p ∈ abOnDisk.partitions, ∀ rows, p.toList = .ok rows → ∀ r ∈ rows, PassesPushed aAbove r) ∧
    ∀ names d, names.Nodup → names ⊆ abOnDisk.schema.fieldNames →
      abParquet.read (some names) (some aAbove) = .ok d →
      List.Forall₂ (fun p q => ∀ rows out, p.toList = .ok rows → q.toList = .ok out →
        ∀ r ∈ out, r.keys = names) abOnDisk.partitions d.partitions :=
  @parquetSource_answersFilter_iff ℚ _ scanningArrow _ _ _ _ scanningArrow_reads abFiles_oneSchema
    abParquet_reads _ (by decide) (fun f _ g _ => ⟨_, rfl⟩)

end Examples

end MiniSpark
