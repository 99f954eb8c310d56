import MiniSpark.PlanEmulation
import MiniSpark.RowAgreement
import MiniSpark.SplitRefinement

/-!
# Scan pushdown

A source may answer a read with hints by fewer columns and fewer rows. What stays is
settled at every scan: the columns cover everything evaluated between the scan and the
next projection, and a dropped row fails the conjunction of the filters above the scan,
all of which are still in the plan. So the re-read plan emulates the original one,
operator by operator.
-/
namespace MiniSpark

variable {F : Type} [PyRuntime F]

section Contract

omit [PyRuntime F] in
/-- Under the requested columns the row has the values of the full row. -/
def NarrowsRow (columns : Option (List String)) (r r' : Record F) : Prop :=
  match columns with
  | none => r' = r
  | some names => Agree (· ∈ names) r r'

/-- The filter is truthy on the row, without error; no filter accepts every row. -/
def accepts (filterExpr : Option (Expression F)) (r : Record F) : Bool :=
  match filterExpr with
  | none => true
  | some e => ExceptList.verdict (holds e) r

/-- Some of the rows in their order, among them all that the filter accepts, each narrowed to
the columns. -/
def NarrowsRows (columns : Option (List String)) (filterExpr : Option (Expression F))
    (rows out : List (Record F)) : Prop :=
  ∃ kept : List (Record F), kept.Sublist rows ∧ (rows.filter (accepts filterExpr)).Sublist kept ∧
    List.Forall₂ (NarrowsRow columns) kept out

omit [PyRuntime F] in
/-- The requested columns are declared as in the full schema. -/
def NarrowsSchema (columns : Option (List String)) (s s' : Schema) : Prop :=
  match columns with
  | none => s' = s
  | some names => ∀ n ∈ names, s'.getField? n = s.getField? n

/-- The same partitions, each narrowed. -/
structure NarrowsDataset (columns : Option (List String)) (filterExpr : Option (Expression F))
    (full d : Dataset F) : Prop where
  schema : NarrowsSchema columns full.schema d.schema
  numPartitions : d.numPartitions = full.numPartitions
  rows : ∀ (i : ℕ) (p q : Partition F), full.partitions[i]? = some p → d.partitions[i]? = some q →
    ∀ rows, p.toList = .ok rows → ∃ out, q.toList = .ok out ∧
      NarrowsRows columns filterExpr rows out

omit [PyRuntime F] in
/-- The hints mention these columns only. -/
def HintsWithin (names : List String) (columns : Option (List String))
    (filterExpr : Option (Expression F)) : Prop :=
  (∀ cs ∈ columns, cs ⊆ names) ∧ ∀ e ∈ filterExpr, e.referencedColumns ⊆ names

omit [PyRuntime F] in
lemma hintsWithin_none (names : List String) :
    HintsWithin names none (none : Option (Expression F)) := ⟨by simp, by simp⟩

omit [PyRuntime F] in
/-- The columns asked for, or all of them. -/
lemma HintsWithin.getD_subset {names : List String} {columns : Option (List String)}
    {filterExpr : Option (Expression F)} (h : HintsWithin names columns filterExpr) :
    columns.getD names ⊆ names := by
  cases columns with
  | none => exact List.Subset.refl _
  | some cs => exact h.1 cs rfl

/-- The contract of `DataSource.read`: hints about columns the source has are answered by a
narrower dataset, or ignored. -/
structure ScanSource.Conforms (source : ScanSource F) (full : Dataset F) : Prop where
  reads : source.read none none = .ok full
  narrowed : ∀ columns filterExpr, HintsWithin full.schema.fieldNames columns filterExpr →
    ∃ d, source.read columns filterExpr = .ok d ∧ NarrowsDataset columns filterExpr full d

/-- Every scan holds what its source reads without hints, and the source conforms. -/
def LogicalPlan.SourcesConform : LogicalPlan F → Prop
  | .scan dataset _ source => ∀ s ∈ source, s.Conforms dataset
  | .filter child _ => child.SourcesConform
  | .project child _ => child.SourcesConform
  | .aggregate child _ _ => child.SourcesConform
  | .join left right _ _ _ => left.SourcesConform ∧ right.SourcesConform
  | .sort child _ => child.SourcesConform

end Contract

section Narrowing

variable {columns : Option (List String)} {filterExpr : Option (Expression F)}

omit [PyRuntime F] in
theorem NarrowsRow.refl (columns : Option (List String)) (r : Record F) :
    NarrowsRow columns r r := by
  cases columns with
  | none => rfl
  | some names => exact Agree.refl _ r

omit [PyRuntime F] in
/-- Narrowed rows agree on names every requested list covers. -/
theorem NarrowsRow.agree {r r' : Record F} (h : NarrowsRow columns r r') {names : List String}
    (hcov : ∀ cs ∈ columns, names ⊆ cs) : Agree (· ∈ names) r r' := by
  intro n hn
  cases columns with
  | none =>
      obtain rfl : r' = r := h
      rfl
  | some cs => exact h n (hcov cs rfl hn)

omit [PyRuntime F] in
theorem NarrowsRow.mono {columns' : Option (List String)} {r r' : Record F}
    (h : NarrowsRow columns' r r') (hsub : ∀ cs ∈ columns, ∀ cs' ∈ columns', cs ⊆ cs')
    (hnone : columns = none → columns' = none) : NarrowsRow columns r r' := by
  cases columns with
  | none =>
      rw [hnone rfl] at h
      exact h
  | some cs =>
      intro n hn
      cases columns' with
      | none =>
          obtain rfl : r' = r := h
          rfl
      | some cs' => exact h n (hsub cs rfl cs' rfl hn)

theorem NarrowsRows.refl (columns : Option (List String)) (filterExpr : Option (Expression F))
    (rows : List (Record F)) : NarrowsRows columns filterExpr rows rows :=
  ⟨rows, List.Sublist.refl rows, List.filter_sublist,
    List.forall₂_same.mpr (fun r _ => NarrowsRow.refl columns r)⟩

/-- Without a filter no row is dropped. -/
theorem NarrowsRows.all {rows out : List (Record F)} (h : NarrowsRows columns none rows out) :
    List.Forall₂ (NarrowsRow columns) rows out := by
  obtain ⟨kept, hsub, hsup, hrows⟩ := h
  have hfilter : rows.filter (accepts none) = rows := by
    rw [List.filter_eq_self]
    intro r _
    rfl
  rw [hfilter] at hsup
  rwa [hsub.antisymm hsup] at hrows

/-- Without hints nothing changes. -/
theorem narrowsRows_none {rows out : List (Record F)} :
    NarrowsRows none none rows out ↔ out = rows := by
  constructor
  · intro h
    have hsame : List.Forall₂ Eq out rows := h.all.flip
    rwa [List.forall₂_eq_eq_eq] at hsame
  · rintro rfl
    exact NarrowsRows.refl none none out

/-- The filter that `walkForPushdown` carries below a filter node. -/
abbrev combinedFilter (filterExpr : Option (Expression F)) (condition : Expression F) :
    Expression F :=
  match filterExpr with
  | none => condition
  | some e => .binary .and e condition

omit [PyRuntime F] in
/-- The hints below a filter node. -/
lemma HintsWithin.below_filter {names : List String} {condition : Expression F}
    (h : HintsWithin names columns filterExpr) (hcond : condition.referencedColumns ⊆ names) :
    HintsWithin names (columns.map (fun names => names ++ condition.referencedColumns))
      (some (combinedFilter filterExpr condition)) := by
  refine ⟨fun cs hcs => ?_, fun e he => ?_⟩
  · obtain ⟨names', hnames, rfl⟩ := Option.map_eq_some_iff.mp hcs
    exact List.append_subset.mpr ⟨h.1 names' hnames, hcond⟩
  · obtain rfl : combinedFilter filterExpr condition = e := by simpa using he
    cases filterExpr with
    | none => exact hcond
    | some outer => exact List.append_subset.mpr ⟨h.2 outer rfl, hcond⟩

/-- Where the condition has a value, the combined filter is the conjunction. -/
theorem accepts_combinedFilter {condition : Expression F} {r : Record F} {t : Bool}
    (h : holds condition r = .ok t) :
    accepts (some (combinedFilter filterExpr condition)) r = (t && accepts filterExpr r) := by
  obtain ⟨v, hv, rfl⟩ := ExceptList.map_eq_ok.mp h
  cases filterExpr with
  | none => simp [accepts, ExceptList.verdict, h]
  | some e =>
      simp only [accepts, ExceptList.verdict, holds, Expression.evaluate, hv]
      cases e.evaluate r with
      | error _ => simp [Functor.map, Except.map]
      | ok a => simp [Functor.map, Except.map, BinaryOp.op, Value.truthy, Bool.and_comm]

/-- A filter node over narrowed rows: what it keeps is narrowed as its own hints say. -/
theorem filterRows_narrows {condition : Expression F} {rows rows' out : List (Record F)}
    (h : NarrowsRows (columns.map (fun names => names ++ condition.referencedColumns))
      (some (combinedFilter filterExpr condition)) rows rows')
    (hout : filterRows condition rows = .ok out) :
    ∃ out', filterRows condition rows' = .ok out' ∧ NarrowsRows columns filterExpr out out' := by
  obtain ⟨kept, hsub, hsup, hrows⟩ := h
  obtain ⟨hall, rfl⟩ := ExceptList.filterE_eq_ok.mp hout
  have hkept : filterRows condition kept = .ok (kept.filter (ExceptList.verdict (holds condition))) :=
    ExceptList.filterE_eq_ok.mpr ⟨fun r hr => hall r (hsub.subset hr), rfl⟩
  obtain ⟨out', hout', hrel⟩ := ExceptList.filterE_rel hrows (fun r _ r' hr t ht => by
    obtain ⟨v, hv, rfl⟩ := ExceptList.map_eq_ok.mp ht
    have hagree : Agree (· ∈ condition.referencedColumns) r r' := by
      refine hr.agree (fun cs hcs => ?_)
      obtain ⟨names, -, rfl⟩ := Option.map_eq_some_iff.mp hcs
      exact List.subset_append_right _ _
    exact ExceptList.map_eq_ok.mpr ⟨v, evaluate_of_agree (fun _ hn => hn) hagree hv, rfl⟩) hkept
  refine ⟨out', hout', kept.filter (ExceptList.verdict (holds condition)), hsub.filter _, ?_, ?_⟩
  · -- a row that the condition and the outer filter keep passes the combined filter
    have hboth : (rows.filter (ExceptList.verdict (holds condition))).filter (accepts filterExpr) =
        (rows.filter (accepts (some (combinedFilter filterExpr condition)))).filter
          (ExceptList.verdict (holds condition)) := by
      rw [List.filter_filter, List.filter_filter]
      refine List.filter_congr (fun r hr => ?_)
      obtain ⟨t, ht⟩ := hall r hr
      rw [accepts_combinedFilter ht, ExceptList.verdict_of_ok ht]
      cases t <;> simp
    rw [hboth]
    exact hsup.filter _
  · refine hrel.imp (fun r r' hr => hr.mono ?_ ?_)
    · intro cs hcs cs' hcs'
      rw [Option.mem_def] at hcs
      subst hcs
      obtain rfl : cs ++ condition.referencedColumns = cs' := by simpa using hcs'
      exact List.subset_append_left _ _
    · rintro rfl
      rfl

/-- A project node over rows narrowed to what it reads. -/
theorem projectRows_narrows {names : List String} {es : List (Expression F)}
    {rows rows' out : List (Record F)}
    (h : NarrowsRows (some (es.flatMap Expression.referencedColumns)) none rows rows')
    (hout : projectRows names es rows = .ok out) : projectRows names es rows' = .ok out := by
  refine projectRows_agree h.all (fun e he n hn => ?_)
    (List.forall₂_same.mpr (fun e _ => .refl e)) hout
  exact List.mem_flatMap.mpr ⟨e, he, hn⟩

omit [PyRuntime F] in
theorem NarrowsSchema.mono {columns columns' : Option (List String)} {s s' : Schema}
    (h : NarrowsSchema columns' s s') (hsub : ∀ cs ∈ columns, ∀ cs' ∈ columns', cs ⊆ cs')
    (hnone : columns = none → columns' = none) : NarrowsSchema columns s s' := by
  cases columns with
  | none =>
      rw [hnone rfl] at h
      exact h
  | some cs =>
      intro n hn
      cases columns' with
      | none =>
          obtain rfl : s' = s := h
          rfl
      | some cs' => exact h n (hsub cs rfl cs' rfl hn)

theorem NarrowsRows.mono {columns columns' : Option (List String)}
    {filterExpr : Option (Expression F)} {rows out : List (Record F)}
    (h : NarrowsRows columns' filterExpr rows out)
    (hsub : ∀ cs ∈ columns, ∀ cs' ∈ columns', cs ⊆ cs') (hnone : columns = none → columns' = none) :
    NarrowsRows columns filterExpr rows out := by
  obtain ⟨kept, hlow, hhigh, hrows⟩ := h
  exact ⟨kept, hlow, hhigh, hrows.imp fun _ _ hr => hr.mono hsub hnone⟩

end Narrowing

section Walk

variable [PyHost F] {n : ℕ} {spill : ℤ}

/-- What the walk makes of a node, given the hints from above. -/
structure Pushed (columns : Option (List String)) (filterExpr : Option (Expression F))
    (plan plan' : LogicalPlan F) (physical physical' : PhysicalPlan F) : Prop where
  schema : ∀ s, plan.schema = .ok s → ∃ s', plan'.schema = .ok s' ∧ NarrowsSchema columns s s'
  emulates : Emulates (NarrowsRows columns filterExpr) physical physical'
  executable : isOracleExecutable physical' = isOracleExecutable physical

variable {columns : Option (List String)} {filterExpr : Option (Expression F)}
  {plan plan' : LogicalPlan F} {physical physical' : PhysicalPlan F}

/-- A node that yields the same rows meets any hints. -/
lemma Pushed.of_same (hschema : plan'.schema = plan.schema) (h : Emulates Eq physical physical')
    (hexec : isOracleExecutable physical' = isOracleExecutable physical)
    (columns : Option (List String)) (filterExpr : Option (Expression F)) :
    Pushed columns filterExpr plan plan' physical physical' where
  schema s hs := by
    refine ⟨s, hschema.trans hs, ?_⟩
    cases columns with
    | none => rfl
    | some cs => exact fun _ _ => rfl
  emulates := h.mono (by
    rintro rows _ rfl
    exact NarrowsRows.refl columns filterExpr rows)
  executable := hexec

/-- Without hints a node is the same. -/
lemma Pushed.same (h : Pushed none none plan plan' physical physical') :
    (∀ s, plan.schema = .ok s → plan'.schema = .ok s) ∧ Emulates Eq physical physical' := by
  refine ⟨fun s hs => ?_, h.emulates.mono (fun rows rows' hr => (narrowsRows_none.mp hr).symm)⟩
  obtain ⟨s', hs', hnarrow⟩ := h.schema s hs
  obtain rfl : s' = s := hnarrow
  exact hs'

omit [PyHost F] in
lemma mem_sortedNames {names : List String} {c : String} : c ∈ sortedNames names ↔ c ∈ names := by
  rw [sortedNames, List.mem_mergeSort, List.mem_dedup]

/-- A scan that is read again. -/
lemma rereadScan_pushed {dataset : Dataset F} (sourceName : String) {source : ScanSource F}
    (hsource : source.Conforms dataset)
    (hw : HintsWithin dataset.schema.fieldNames columns filterExpr) :
    ∃ d, rereadScan sourceName source columns filterExpr = .ok (.scan d sourceName (some source)) ∧
      Pushed columns filterExpr (.scan dataset sourceName (some source))
        (.scan d sourceName (some source)) (.scanExec dataset sourceName)
        (.scanExec d sourceName) := by
  -- the columns asked for are those of the hint, and those the filter reads
  obtain ⟨asked, hasked, hsub, hnone, hknown⟩ : ∃ asked : Option (List String),
      rereadScan sourceName source columns filterExpr = (do
        let d ← source.read asked filterExpr
        pure (.scan d sourceName (some source))) ∧
      (∀ cs ∈ columns, ∀ cs' ∈ asked, cs ⊆ cs') ∧ (columns = none → asked = none) ∧
      HintsWithin dataset.schema.fieldNames asked filterExpr := by
    refine ⟨_, rfl, ?_, ?_, ?_, hw.2⟩
    · intro cs hcs cs' hcs' c hc
      rw [Option.mem_def] at hcs
      subst hcs
      cases filterExpr with
      | none =>
          obtain rfl : sortedNames cs = cs' := by simpa using hcs'
          exact mem_sortedNames.mpr hc
      | some e =>
          obtain rfl : sortedNames (cs ++ e.referencedColumns) = cs' := by simpa using hcs'
          exact mem_sortedNames.mpr (List.mem_append_left _ hc)
    · rintro rfl
      cases filterExpr <;> rfl
    · intro cs' hcs' c hc
      cases columns with
      | none => cases filterExpr <;> simp at hcs'
      | some cs =>
          have hcs : cs ⊆ dataset.schema.fieldNames := hw.1 cs rfl
          cases filterExpr with
          | none =>
              obtain rfl : sortedNames cs = cs' := by simpa using hcs'
              exact hcs (mem_sortedNames.mp hc)
          | some e =>
              obtain rfl : sortedNames (cs ++ e.referencedColumns) = cs' := by simpa using hcs'
              obtain hc | hc := List.mem_append.mp (mem_sortedNames.mp hc)
              · exact hcs hc
              · exact hw.2 e rfl hc
  obtain ⟨d, hd, hnarrow⟩ := hsource.narrowed asked filterExpr hknown
  refine ⟨d, by rw [hasked, hd]; rfl, ?_, ?_, rfl⟩
  · intro s hs
    cases hs
    exact ⟨d.schema, rfl, hnarrow.schema.mono hsub hnone⟩
  · intro m hm
    cases hm
    refine ⟨_, rfl, hnarrow.numPartitions, fun pid part hpart => ?_⟩
    simp only [Dataset.partition] at hpart ⊢
    split at hpart
    · next p hp =>
        cases hpart
        have hlt : pid < d.partitions.length := by
          have := (List.getElem?_eq_some_iff.mp hp).1
          have hlen : d.partitions.length = dataset.partitions.length := hnarrow.numPartitions
          omega
        refine ⟨d.partitions[pid], by rw [List.getElem?_eq_getElem hlt], fun rows hrows => ?_⟩
        obtain ⟨out, hout, hnarrows⟩ :=
          hnarrow.rows pid part _ hp (List.getElem?_eq_getElem hlt) rows hrows
        exact ⟨out, hout, hnarrows.mono hsub hnone⟩
    · cases hpart

omit [PyHost F] in
/-- The output fields of columns depend on the columns they read. -/
lemma columnField_narrows {e : Expression F} {s s' : Schema} {names : List String}
    (h : NarrowsSchema (some names) s s') (hsub : e.referencedColumns ⊆ names) :
    columnField e s' = columnField e s := by
  unfold columnField
  cases he : e.unalias with
  | column name =>
      have hmem : name ∈ e.referencedColumns := by
        rw [← Expression.referencedColumns_unalias, he]
        exact List.mem_singleton_self name
      have hsame : s'.getField? name = s.getField? name := h name (hsub hmem)
      simp only [hsame]
  | _ => rfl

/-- Walking down an accepted plan reads every scan again as far as the hints allow, and the new
plan yields what the hints promise. -/
theorem walkForPushdown_pushed (ha : plan.Analyzed) (hs : plan.SourcesConform)
    (hw : HintsWithin plan.outputNames columns filterExpr)
    (hp : translate n spill plan = .ok physical) :
    ∃ plan' physical', walkForPushdown plan columns filterExpr = .ok plan' ∧
      translate n spill plan' = .ok physical' ∧
      Pushed columns filterExpr plan plan' physical physical' := by
  induction plan generalizing columns filterExpr physical with
  | scan dataset sourceName source =>
      cases hp
      have hsame : Pushed columns filterExpr (.scan dataset sourceName source)
          (.scan dataset sourceName source) (.scanExec dataset sourceName)
          (.scanExec dataset sourceName) :=
        .of_same rfl (.refl _ fun _ => rfl) rfl columns filterExpr
      cases source with
      | none => exact ⟨_, _, rfl, rfl, hsame⟩
      | some s =>
          by_cases hnone : columns = none ∧ filterExpr.isNone
          · exact ⟨_, _, by rw [walkForPushdown, if_pos hnone], rfl, hsame⟩
          · obtain ⟨d, hd, hpushed⟩ := rereadScan_pushed sourceName (hs s rfl) hw
            exact ⟨_, _, by rw [walkForPushdown, if_neg hnone, hd], rfl, hpushed⟩
  | filter child condition ih =>
      obtain ⟨c, hc, hp⟩ := ExceptList.bind_eq_ok.mp hp
      cases hp
      have hcond : condition.referencedColumns ⊆ child.outputNames := ha.2
      obtain ⟨child', c', hwalk, hc', hpushed⟩ := ih ha.1 hs (hw.below_filter hcond) hc
      refine ⟨.filter child' condition, .filterExec c' condition, ?_, ?_, ?_, ?_, hpushed.executable⟩
      · cases filterExpr with
        | none => exact ExceptList.bind_eq_ok.mpr ⟨child', hwalk, rfl⟩
        | some outer => exact ExceptList.bind_eq_ok.mpr ⟨child', hwalk, rfl⟩
      · rw [translate, hc']
        rfl
      · intro s hs
        obtain ⟨s', hs', hnarrow⟩ := hpushed.schema s hs
        refine ⟨s', hs', hnarrow.mono ?_ ?_⟩
        · intro cs hcs cs' hcs'
          obtain ⟨names, hnames, rfl⟩ := Option.map_eq_some_iff.mp hcs'
          obtain rfl := Option.some.inj (hcs.symm.trans hnames)
          exact List.subset_append_left _ _
        · rintro rfl
          rfl
      · exact hpushed.emulates.filterExec fun rows rows' out h hout => filterRows_narrows h hout
  | project child es ih =>
      obtain ⟨c, hc, hp⟩ := ExceptList.bind_eq_ok.mp hp
      obtain ⟨schema, hschema, hp⟩ := ExceptList.bind_eq_ok.mp hp
      cases hp
      obtain ⟨s, hchild⟩ := ha.1.schema_ok
      have hw' : HintsWithin child.outputNames (some (es.flatMap Expression.referencedColumns))
          (none : Option (Expression F)) := by
        refine ⟨fun cs hcs c hc => ?_, by simp⟩
        obtain rfl : es.flatMap Expression.referencedColumns = cs := by simpa using hcs
        obtain ⟨e, he, hce⟩ := List.mem_flatMap.mp hc
        exact ha.2.1 e he c hce
      obtain ⟨child', c', hwalk, hc', hpushed⟩ := ih ha.1 hs hw' hc
      obtain ⟨s', hchild', hnarrow⟩ := hpushed.schema s hchild
      have hsame : (LogicalPlan.project child' es).schema = (LogicalPlan.project child es).schema := by
        have hfields : es.mapM (fun e => child'.schema >>= outputField e) =
            es.mapM (fun e => child.schema >>= outputField e) := by
          refine ExceptList.mapM_congr (fun e he => ?_)
          have hsub : e.referencedColumns ⊆ es.flatMap Expression.referencedColumns :=
            fun c hc => List.mem_flatMap.mpr ⟨e, he, hc⟩
          rw [hchild, hchild', ExceptList.bind_ok, ExceptList.bind_ok, outputField_eq,
            outputField_eq, columnField_narrows hnarrow hsub]
        rw [LogicalPlan.schema, LogicalPlan.schema, hfields]
      have hemulates : Emulates Eq (.projectExec c es schema) (.projectExec c' es schema) :=
        hpushed.emulates.projectExec rfl fun rows rows' out h hout => projectRows_narrows h hout
      refine ⟨.project child' es, .projectExec c' es schema, ?_, ?_,
        .of_same hsame hemulates hpushed.executable columns filterExpr⟩
      · exact ExceptList.bind_eq_ok.mpr ⟨child', hwalk, rfl⟩
      · rw [translate, hc', ExceptList.bind_ok, hsame, hschema]
        rfl
  | aggregate child groupBy aggregates ih =>
      obtain ⟨c, hc, hp⟩ := ExceptList.bind_eq_ok.mp hp
      obtain ⟨childSchema, hchild, hp⟩ := ExceptList.bind_eq_ok.mp hp
      obtain ⟨schema, hschema, hp⟩ := ExceptList.bind_eq_ok.mp hp
      obtain ⟨child', c', hwalk, hc', hpushed⟩ := ih ha.1 hs
        (hintsWithin_none _) hc
      obtain ⟨hsame, hemulates⟩ := hpushed.same
      obtain ⟨physical', hp', hemulates', hexec⟩ := hemulates.planAggregate hp
      have hchild' := hsame childSchema hchild
      have hschema' : (LogicalPlan.aggregate child' groupBy aggregates).schema =
          (LogicalPlan.aggregate child groupBy aggregates).schema := by
        rw [LogicalPlan.schema, LogicalPlan.schema, hchild, hchild']
      refine ⟨.aggregate child' groupBy aggregates, physical', ?_, ?_,
        .of_same hschema' hemulates' hexec columns filterExpr⟩
      · exact ExceptList.bind_eq_ok.mpr ⟨child', hwalk, rfl⟩
      · rw [translate, hc', ExceptList.bind_ok, hchild', ExceptList.bind_ok, hschema', hschema,
          ExceptList.bind_ok, hp']
  | join left right on how broadcast ihl ihr =>
      obtain ⟨l, hl, hp⟩ := ExceptList.bind_eq_ok.mp hp
      obtain ⟨r, hr, hp⟩ := ExceptList.bind_eq_ok.mp hp
      obtain ⟨schema, hschema, hp⟩ := ExceptList.bind_eq_ok.mp hp
      cases hp
      obtain ⟨left', l', hwalkl, hl', hpushedl⟩ := ihl ha.1 hs.1
        (hintsWithin_none _) hl
      obtain ⟨right', r', hwalkr, hr', hpushedr⟩ := ihr ha.2.1 hs.2
        (hintsWithin_none _) hr
      obtain ⟨hsamel, hemulatesl⟩ := hpushedl.same
      obtain ⟨hsamer, hemulatesr⟩ := hpushedr.same
      obtain ⟨hemulates, hexec⟩ := hemulatesl.planJoin hemulatesr n on broadcast schema
      obtain ⟨ls, hls⟩ := ha.1.schema_ok
      obtain ⟨rs, hrs⟩ := ha.2.1.schema_ok
      have hschema' : (LogicalPlan.join left' right' on how broadcast).schema =
          (LogicalPlan.join left right on how broadcast).schema := by
        rw [LogicalPlan.schema, LogicalPlan.schema, hls, hsamel ls hls, hrs, hsamer rs hrs]
      refine ⟨.join left' right' on how broadcast, _, ?_, ?_,
        .of_same hschema' hemulates hexec columns filterExpr⟩
      · exact ExceptList.bind_eq_ok.mpr ⟨left', hwalkl,
          ExceptList.bind_eq_ok.mpr ⟨right', hwalkr, rfl⟩⟩
      · rw [translate, hl', ExceptList.bind_ok, hr', ExceptList.bind_ok, hschema', hschema]
        rfl
  | sort child keys ih =>
      obtain ⟨c, hc, hp⟩ := ExceptList.bind_eq_ok.mp hp
      obtain ⟨schema, hschema, hp⟩ := ExceptList.bind_eq_ok.mp hp
      obtain ⟨child', c', hwalk, hc', hpushed⟩ := ih ha.1 hs
        (hintsWithin_none _) hc
      obtain ⟨hsame, hemulates⟩ := hpushed.same
      obtain ⟨physical', hp', hemulates', hexec⟩ := hemulates.planSort hpushed.executable hp
      have hschema' : child'.schema = child.schema := (hsame schema hschema).trans hschema.symm
      have hsorted : (LogicalPlan.sort child' keys).schema = (LogicalPlan.sort child keys).schema :=
        hschema'
      refine ⟨.sort child' keys, physical', ?_, ?_,
        .of_same hsorted hemulates' hexec columns filterExpr⟩
      · exact ExceptList.bind_eq_ok.mpr ⟨child', hwalk, rfl⟩
      · rw [translate, hc', ExceptList.bind_ok, hschema', hschema, ExceptList.bind_ok, hp']

end Walk

/-- Scan pushdown preserves meaning: what a plan returns over its original scans, the plan with
re-read scans returns as well, partition by partition. -/
theorem pushdownScanReads_preserves [PyHost F] {plan analyzed : LogicalPlan F} {n : ℕ} {spill : ℤ}
    {physical : PhysicalPlan F} {stages : List (Stage F)} {dataset : Dataset F} (maxRetries : ℕ)
    (root : String) (disk : Disk F) (hanalyze : analyze plan = .ok analyzed)
    (hsources : plan.SourcesConform) (hplan : translate n spill plan = .ok physical)
    (hstages : buildStages physical = .ok stages)
    (hrun : runPlan maxRetries executeTask root stages disk = .ok dataset) :
    ∃ plan' physical' stages', pushdownScanReads plan = .ok plan' ∧
      translate n spill plan' = .ok physical' ∧ buildStages physical' = .ok stages' ∧
      runPlan maxRetries executeTask root stages' disk = .ok dataset := by
  have ha := analyzed_of_analyze hanalyze
  obtain ⟨plan', physical', hwalk, hplan', hpushed⟩ :=
    walkForPushdown_pushed ha hsources (hintsWithin_none _) hplan
  obtain ⟨hschema, hemulates⟩ := hpushed.same
  obtain ⟨_, hstages₁, hmeans⟩ :=
    runPlan_of_unsplit (translate_unsplit hplan) maxRetries root disk
  obtain rfl := Except.ok.inj (hstages₁.symm.trans hstages)
  obtain ⟨parts, hparts, rfl⟩ := (hmeans dataset).mp hrun
  obtain ⟨stages', hstages', hmeans'⟩ :=
    runPlan_of_unsplit (translate_unsplit hplan') maxRetries root disk
  have hsame : physical'.schema = physical.schema := by
    have h := hschema _ (translate_schema hplan)
    rw [translate_schema hplan'] at h
    exact Except.ok.inj h
  refine ⟨plan', physical', stages', hwalk, hplan', hstages', (hmeans' _).mpr ⟨parts, ?_, ?_⟩⟩
  · exact hemulates.denotedRows hparts
  · rw [hsame]

section Examples

/-- The fields of the requested columns. -/
def Schema.narrow (s : Schema) (columns : Option (List String)) : Schema where
  fields := s.fields.filter (fun f => columns.all (fun names => f.name ∈ names))
  distinct := s.distinct.sublist (List.filter_sublist.map _)

omit [PyRuntime F] in
/-- The items of the requested columns. -/
def narrowRecord (columns : Option (List String)) (r : Record F) : Record F where
  items := r.items.filter (fun p => columns.all (fun names => p.1 ∈ names))
  distinct := r.distinct.sublist (List.filter_sublist.map _)

/-- A source that drops every row its filter rejects and every column not asked for. -/
def exactSource (schema : Schema) (parts : List (List (Record F))) : ScanSource F where
  read columns filterExpr := .ok (rowsDataset (schema.narrow columns)
    (parts.map (fun rows => (rows.filter (accepts filterExpr)).map (narrowRecord columns))))

omit [PyRuntime F] in
lemma narrowRecord_narrows (columns : Option (List String)) (r : Record F) :
    NarrowsRow columns r (narrowRecord columns r) := by
  cases columns with
  | none => exact OrderedDict.ext (List.filter_eq_self.mpr (fun _ _ => rfl))
  | some names =>
      intro n hn
      rw [OrderedDict.get?, OrderedDict.get?, OrderedDict.findItem, OrderedDict.findItem,
        narrowRecord, List.find?_filter]
      congr 2
      funext p
      by_cases hp : p.1 = n
      · subst hp
        simp [hn]
      · simp [hp]

lemma Schema.narrow_narrows (s : Schema) (columns : Option (List String)) :
    NarrowsSchema columns s (s.narrow columns) := by
  cases columns with
  | none => exact Schema.ext (List.filter_eq_self.mpr (fun _ _ => rfl))
  | some names =>
      intro n hn
      rw [Schema.getField?, Schema.getField?, Schema.narrow, List.find?_filter]
      congr 1
      funext f
      by_cases hf : f.name = n
      · subst hf
        simp [hn]
      · simp [hf]

/-- Such a source conforms. -/
theorem exactSource_conforms (schema : Schema) (parts : List (List (Record F))) :
    (exactSource schema parts).Conforms (rowsDataset schema parts) where
  reads := by
    have hschema : schema.narrow none = schema := schema.narrow_narrows none
    have hrows : ∀ rows ∈ parts,
        (rows.filter (accepts none)).map (narrowRecord none) = rows := by
      intro rows _
      have hkeep : rows.filter (accepts none) = rows := List.filter_eq_self.mpr (fun _ _ => rfl)
      rw [hkeep]
      exact (List.map_congr_left (fun r _ => narrowRecord_narrows none r)).trans (List.map_id rows)
    show Except.ok (rowsDataset (schema.narrow none) _) = _
    rw [hschema, List.map_congr_left hrows, List.map_id']
  narrowed columns filterExpr _ := by
    refine ⟨_, rfl, schema.narrow_narrows columns, ?_, ?_⟩
    · simp [Dataset.numPartitions, rowsDataset]
    · intro i p q hp hq rows hrows
      simp only [rowsDataset, List.getElem?_mapIdx, List.getElem?_map, Option.map_map,
        Option.map_eq_some_iff] at hp hq
      obtain ⟨part, hpart, rfl⟩ := hp
      obtain ⟨part', hpart', rfl⟩ := hq
      obtain rfl := Option.some.inj (hpart.symm.trans hpart')
      cases hrows
      refine ⟨_, rfl, rows.filter (accepts filterExpr), List.filter_sublist,
        List.Sublist.refl _, ?_⟩
      rw [List.forall₂_map_right_iff]
      exact List.forall₂_same.mpr (fun r _ => narrowRecord_narrows columns r)

/-- Two partitions of a table with three columns. -/
def abcParts : List (List (List (Value ℚ))) :=
  [[[.int 1, .int 2, .none], [.int 3, .int 40, .int 5]], [[.int 2, .int 30, .int 7]]]

def abcSchema : Schema := ⟨["a", "b", "c"].map (fun c => ⟨c, .int, true⟩), by decide⟩

/-- The table, over a source that honours every hint. -/
def abcTable : LogicalPlan ℚ :=
  .scan (rowsDataset abcSchema (intRows ["a", "b", "c"] abcParts)) "memory"
    (some (exactSource abcSchema (intRows ["a", "b", "c"] abcParts)))

/-- A filter and a rename below a sort: `b` and `a` are read, and only rows with a large `b`. -/
def prunedSort : LogicalPlan ℚ :=
  .sort (.project (.filter abcTable (.binary .greaterThan (.column "b") (.literal (.int 20))))
    [.aliased (.column "a") "x"]) [(.column "x", false)]

theorem prunedSort_means : ∃ physical parts, translate 2 neverSpill prunedSort = .ok physical ∧
    denotedRows physical = .ok parts := by
  have hok : (translate 2 neverSpill prunedSort >>= denotedRows).isOk = true := by decide +kernel
  cases hplan : translate 2 neverSpill prunedSort with
  | error e =>
      rw [hplan] at hok
      cases hok
  | ok physical =>
      rw [hplan, ExceptList.bind_ok] at hok
      cases hparts : denotedRows physical with
      | error e =>
          rw [hparts] at hok
          cases hok
      | ok parts => exact ⟨physical, parts, rfl, hparts⟩

theorem pushdownScanReads_preserves_sort : ∃ physical stages dataset,
    translate 2 neverSpill prunedSort = .ok physical ∧ buildStages physical = .ok stages ∧
    runPlan 0 executeTask "root" stages (fun _ => none) = .ok dataset ∧
    ∃ plan' physical' stages', pushdownScanReads prunedSort = .ok plan' ∧
      translate 2 neverSpill plan' = .ok physical' ∧ buildStages physical' = .ok stages' ∧
      runPlan 0 executeTask "root" stages' (fun _ => none) = .ok dataset := by
  obtain ⟨physical, parts, hplan, hparts⟩ := prunedSort_means
  obtain ⟨stages, hstages, hmeans⟩ :=
    runPlan_of_unsplit (translate_unsplit hplan) 0 "root" (fun _ => none)
  have hrun := (hmeans _).mpr ⟨parts, hparts, rfl⟩
  refine ⟨physical, stages, _, hplan, hstages, hrun, ?_⟩
  have hnames : NamesOk [(.aliased (.column "a") "x" : Expression ℚ)] := ⟨by decide, by decide⟩
  have hprints : prunedSort.Prints := ⟨⟨trivial, by decide⟩, by decide⟩
  refine pushdownScanReads_preserves 0 "root" (fun _ => none)
    (analyze_eq_ok.mpr ⟨rfl, ?_, hprints⟩) ?_ hplan hstages hrun
  · simp [hnames, prunedSort, abcTable, LogicalPlan.Analyzed, LogicalPlan.Provides, LogicalPlan.outputNames,
      Expression.referencedColumns, Expression.isColumn, Expression.columnName, abcSchema,
      Schema.fieldNames, rowsDataset]
  · intro s hs
    obtain rfl := Option.some.inj hs
    exact exactSource_conforms _ _

end Examples

end MiniSpark
