import MiniSpark.ScanPushdown

/-!
# Sources that are asked for each column once

The planner asks a source for a sorted list of different columns, under the filters between the
scan and the next node of another kind. That is all a source need answer: the sources of the
engine raise when a column is asked for twice, and one that drops rows may be right about some
filters only. A source that ignores the hints it does not answer conforms, and is planned alike
where every read is answered.
-/
namespace MiniSpark

variable {F : Type} [PyRuntime F]

section Contract

/-- The contract of `DataSource.read` for lists of different columns. -/
structure ScanSource.Answers (source : ScanSource F) (full : Dataset F) : Prop where
  reads : source.read none none = .ok full
  narrowed : ∀ columns filterExpr, (∀ names ∈ columns, names.Nodup) →
    HintsWithin full.schema.fieldNames columns filterExpr →
    ∃ d, source.read columns filterExpr = .ok d ∧ NarrowsDataset columns filterExpr full d

/-- The contract for one filter. -/
structure ScanSource.AnswersFilter (source : ScanSource F) (full : Dataset F)
    (filterExpr : Option (Expression F)) : Prop where
  reads : source.read none none = .ok full
  narrowed : ∀ columns, (∀ names ∈ columns, names.Nodup) →
    HintsWithin full.schema.fieldNames columns filterExpr →
    ∃ d, source.read columns filterExpr = .ok d ∧ NarrowsDataset columns filterExpr full d

lemma ScanSource.Answers.answersFilter {source : ScanSource F} {full : Dataset F}
    (h : source.Answers full) (filterExpr : Option (Expression F)) :
    source.AnswersFilter full filterExpr where
  reads := h.reads
  narrowed columns := h.narrowed columns filterExpr

namespace LogicalPlan

/-- Every scan holds what its source reads without hints, and the source answers. -/
def SourcesAnswer : LogicalPlan F → Prop
  | .scan dataset _ source => ∀ s ∈ source, s.Answers dataset
  | .filter child _ => child.SourcesAnswer
  | .project child _ => child.SourcesAnswer
  | .aggregate child _ _ => child.SourcesAnswer
  | .join left right _ _ _ => left.SourcesAnswer ∧ right.SourcesAnswer
  | .sort child _ => child.SourcesAnswer

omit [PyRuntime F] in
/-- Each source has the property with the dataset of its scan and the filter pushed to it, where
`filterExpr` comes from above the plan. -/
def ScansMeet (P : ScanSource F → Dataset F → Option (Expression F) → Prop) :
    LogicalPlan F → Option (Expression F) → Prop
  | .scan dataset _ source, filterExpr => ∀ s ∈ source, P s dataset filterExpr
  | .filter child condition, filterExpr =>
      child.ScansMeet P (some (combinedFilter filterExpr condition))
  | .project child _, _ => child.ScansMeet P none
  | .aggregate child _ _, _ => child.ScansMeet P none
  | .join left right _ _ _, _ => left.ScansMeet P none ∧ right.ScansMeet P none
  | .sort child _, _ => child.ScansMeet P none

omit [PyRuntime F] in
lemma ScansMeet.mono {P Q : ScanSource F → Dataset F → Option (Expression F) → Prop}
    {plan : LogicalPlan F} {filterExpr : Option (Expression F)} (h : plan.ScansMeet P filterExpr)
    (himp : ∀ s d e, P s d e → Q s d e) : plan.ScansMeet Q filterExpr := by
  induction plan generalizing filterExpr with
  | scan dataset sourceName source => exact fun s hs => himp s dataset filterExpr (h s hs)
  | join left right on how broadcast ihl ihr => exact ⟨ihl h.1, ihr h.2⟩
  | filter child _ ih | project child _ ih | aggregate child _ _ ih | sort child _ ih => exact ih h

/-- Sources that answer do so for every filter. -/
lemma SourcesAnswer.scansMeet {plan : LogicalPlan F} (h : plan.SourcesAnswer)
    (filterExpr : Option (Expression F)) :
    plan.ScansMeet ScanSource.AnswersFilter filterExpr := by
  induction plan generalizing filterExpr with
  | scan dataset sourceName source => exact fun s hs => (h s hs).answersFilter filterExpr
  | join left right on how broadcast ihl ihr => exact ⟨ihl h.1 none, ihr h.2 none⟩
  | filter child condition ih => exact ih h _
  | project child _ ih | aggregate child _ _ ih | sort child _ ih => exact ih h none

end LogicalPlan

end Contract

section Names

lemma sortedNames_nodup (names : List String) : (sortedNames names).Nodup :=
  (List.mergeSort_perm _ _).nodup_iff.mpr (List.nodup_dedup names)

end Names

section Bare

namespace LogicalPlan

omit [PyRuntime F] in
/-- The plan without its sources: what planning looks at once the scans are read. -/
def bare : LogicalPlan F → LogicalPlan F
  | .scan dataset sourceName _ => .scan dataset sourceName none
  | .filter child condition => .filter child.bare condition
  | .project child columns => .project child.bare columns
  | .aggregate child groupBy aggregates => .aggregate child.bare groupBy aggregates
  | .join left right on how broadcast => .join left.bare right.bare on how broadcast
  | .sort child keys => .sort child.bare keys

theorem schema_bare (plan : LogicalPlan F) : plan.bare.schema = plan.schema := by
  induction plan with
  | scan _ _ _ => rfl
  | filter child _ ih | sort child _ ih => exact ih
  | project child _ ih | aggregate child _ _ ih => simp only [bare, schema, ih]
  | join left right _ _ _ ihl ihr => simp only [bare, schema, ihl, ihr]

theorem outputNames_bare (plan : LogicalPlan F) : plan.bare.outputNames = plan.outputNames := by
  induction plan with
  | scan _ _ _ => rfl
  | filter child _ ih | sort child _ ih => exact ih
  | project child _ ih | aggregate child _ _ ih => rfl
  | join left right _ _ _ ihl ihr => simp only [bare, outputNames, ihl, ihr]

theorem analyzed_bare (plan : LogicalPlan F) : plan.bare.Analyzed ↔ plan.Analyzed := by
  induction plan with
  | scan _ _ _ => exact Iff.rfl
  | filter child _ ih | project child _ ih | aggregate child _ _ ih | sort child _ ih =>
      simp only [bare, Analyzed, Provides, outputNames_bare, ih]
  | join left right _ _ _ ihl ihr => simp only [bare, Analyzed, outputNames_bare, ihl, ihr]

end LogicalPlan

theorem translate_bare [PyHost F] (n : ℕ) (spill : ℤ) (plan : LogicalPlan F) :
    translate n spill plan.bare = translate n spill plan := by
  induction plan with
  | scan _ _ _ => rfl
  | filter child _ ih => simp only [LogicalPlan.bare, translate, ih]
  | project child columns ih =>
      have hschema := LogicalPlan.schema_bare (.project child columns)
      simp only [LogicalPlan.bare] at hschema
      simp only [LogicalPlan.bare, translate, ih, hschema]
  | aggregate child groupBy aggregates ih =>
      have hschema := LogicalPlan.schema_bare (.aggregate child groupBy aggregates)
      simp only [LogicalPlan.bare] at hschema
      simp only [LogicalPlan.bare, translate, ih, hschema, LogicalPlan.schema_bare]
  | join left right on how broadcast ihl ihr =>
      have hschema := LogicalPlan.schema_bare (.join left right on how broadcast)
      simp only [LogicalPlan.bare] at hschema
      simp only [LogicalPlan.bare, translate, ihl, ihr, hschema]
  | sort child keys ih => simp only [LogicalPlan.bare, translate, ih, LogicalPlan.schema_bare]

end Bare

section Guarded

open Classical in
/-- The source, ignoring the hints it does not answer. -/
noncomputable def ScanSource.guarded (source : ScanSource F) (full : Dataset F) : ScanSource F where
  read columns filterExpr :=
    if ∃ d, source.read columns filterExpr = .ok d ∧ NarrowsDataset columns filterExpr full d then
      source.read columns filterExpr
    else .ok full

lemma ScanSource.guarded_read {source : ScanSource F} {full d : Dataset F}
    {columns : Option (List String)} {filterExpr : Option (Expression F)}
    (hd : source.read columns filterExpr = .ok d)
    (hnarrow : NarrowsDataset columns filterExpr full d) :
    (source.guarded full).read columns filterExpr = source.read columns filterExpr :=
  if_pos ⟨d, hd, hnarrow⟩

lemma NarrowsDataset.refl (columns : Option (List String)) (filterExpr : Option (Expression F))
    (d : Dataset F) : NarrowsDataset columns filterExpr d d where
  schema := by
    cases columns with
    | none => rfl
    | some _ => exact fun _ _ => rfl
  numPartitions := rfl
  rows i p q hp hq rows hrows := by
    obtain rfl := Option.some.inj (hp.symm.trans hq)
    exact ⟨rows, hrows, NarrowsRows.refl columns filterExpr rows⟩

/-- Whatever its source does, a guarded one conforms. -/
theorem ScanSource.guarded_conforms {source : ScanSource F} {full : Dataset F}
    (h : source.read none none = .ok full) : (source.guarded full).Conforms full where
  reads := (guarded_read h (.refl none none full)).trans h
  narrowed columns filterExpr _ := by
    by_cases hanswers : ∃ d, source.read columns filterExpr = .ok d ∧
        NarrowsDataset columns filterExpr full d
    · obtain ⟨d, hd, hnarrow⟩ := hanswers
      exact ⟨d, (guarded_read hd hnarrow).trans hd, hnarrow⟩
    · exact ⟨full, if_neg hanswers, .refl columns filterExpr full⟩

namespace LogicalPlan

/-- The plan over guarded sources. -/
noncomputable def guarded : LogicalPlan F → LogicalPlan F
  | .scan dataset sourceName source =>
      .scan dataset sourceName (source.map (fun s => s.guarded dataset))
  | .filter child condition => .filter child.guarded condition
  | .project child columns => .project child.guarded columns
  | .aggregate child groupBy aggregates => .aggregate child.guarded groupBy aggregates
  | .join left right on how broadcast => .join left.guarded right.guarded on how broadcast
  | .sort child keys => .sort child.guarded keys

lemma bare_guarded (plan : LogicalPlan F) : plan.guarded.bare = plan.bare := by
  induction plan with
  | scan _ _ _ => rfl
  | filter child _ ih | project child _ ih | aggregate child _ _ ih | sort child _ ih =>
      simp only [guarded, bare, ih]
  | join left right _ _ _ ihl ihr => simp only [guarded, bare, ihl, ihr]

lemma ScansMeet.sourcesConform {plan : LogicalPlan F} {filterExpr : Option (Expression F)}
    (h : plan.ScansMeet ScanSource.AnswersFilter filterExpr) : plan.guarded.SourcesConform := by
  induction plan generalizing filterExpr with
  | scan dataset sourceName source =>
      intro s hs
      obtain ⟨s', hs', rfl⟩ := Option.map_eq_some_iff.mp hs
      exact ScanSource.guarded_conforms (h s' hs').reads
  | join left right on how broadcast ihl ihr => exact ⟨ihl h.1, ihr h.2⟩
  | filter child _ ih | project child _ ih | aggregate child _ _ ih | sort child _ ih => exact ih h

end LogicalPlan

variable {columns : Option (List String)} {filterExpr : Option (Expression F)}

/-- A read that is answered reads the same through the guard. -/
lemma rereadScan_guarded {source : ScanSource F} {full : Dataset F} (sourceName : String)
    (h : source.AnswersFilter full filterExpr)
    (hw : HintsWithin full.schema.fieldNames columns filterExpr) :
    LogicalPlan.bare <$> rereadScan sourceName (source.guarded full) columns filterExpr =
      LogicalPlan.bare <$> rereadScan sourceName source columns filterExpr := by
  have hread : ∀ names : Option (List String), (∀ cs ∈ names, cs ⊆ full.schema.fieldNames) →
      (source.guarded full).read (names.map sortedNames) filterExpr =
        source.read (names.map sortedNames) filterExpr := by
    intro names hnames
    obtain ⟨d, hd, hnarrow⟩ := h.narrowed (names.map sortedNames)
      (fun cs hcs => by
        obtain ⟨names', -, rfl⟩ := Option.map_eq_some_iff.mp hcs
        exact sortedNames_nodup names')
      ⟨fun cs hcs c hc => by
        obtain ⟨names', hnames', rfl⟩ := Option.map_eq_some_iff.mp hcs
        exact hnames names' hnames' (mem_sortedNames.mp hc), hw.2⟩
    exact ScanSource.guarded_read hd hnarrow
  have hsame : ∀ asked : Option (List String), (∀ cs ∈ asked, cs ⊆ full.schema.fieldNames) →
      LogicalPlan.bare <$> (do
        let d ← (source.guarded full).read (asked.map sortedNames) filterExpr
        pure (.scan d sourceName (some (source.guarded full)))) =
      LogicalPlan.bare <$> (do
        let d ← source.read (asked.map sortedNames) filterExpr
        pure (.scan d sourceName (some source))) := by
    intro asked hasked
    rw [hread asked hasked]
    cases source.read (asked.map sortedNames) filterExpr <;> rfl
  cases columns with
  | none => cases filterExpr <;> exact hsame none (by simp)
  | some names =>
      have hnames : names ⊆ full.schema.fieldNames := hw.1 names rfl
      cases filterExpr with
      | none => exact hsame (some names) (by simpa using hnames)
      | some e =>
          exact hsame (some (names ++ e.referencedColumns))
            (by simpa using And.intro hnames (hw.2 e rfl))

/-- Walking down a plan whose reads are answered finds the same datasets through the guards. -/
theorem walkForPushdown_guarded {plan : LogicalPlan F} (ha : plan.Analyzed)
    (h : plan.ScansMeet ScanSource.AnswersFilter filterExpr)
    (hw : HintsWithin plan.outputNames columns filterExpr) :
    LogicalPlan.bare <$> walkForPushdown plan.guarded columns filterExpr =
      LogicalPlan.bare <$> walkForPushdown plan columns filterExpr := by
  -- a node is rebuilt over what the walk makes of its child
  have hnode : ∀ (node : LogicalPlan F → LogicalPlan F) (x : Py (LogicalPlan F)),
      (∀ child, (node child).bare = node child.bare) →
      LogicalPlan.bare <$> (x >>= fun child => pure (node child)) =
        (LogicalPlan.bare <$> x) >>= fun child => pure (node child) := by
    intro node x hnode
    cases x with
    | error e => rfl
    | ok child => exact congrArg Except.ok (hnode child)
  induction plan generalizing columns filterExpr with
  | scan dataset sourceName source =>
      cases source with
      | none => rfl
      | some s =>
          simp only [LogicalPlan.guarded, Option.map_some, walkForPushdown]
          split
          · rfl
          · exact rereadScan_guarded sourceName (h s rfl) hw
  | filter child condition ih =>
      have hchild := ih ha.1 h (hw.below_filter ha.2)
      simp only [LogicalPlan.guarded, walkForPushdown]
      rw [hnode (fun child => .filter child condition) _ (fun _ => rfl),
        hnode (fun child => .filter child condition) _ (fun _ => rfl)]
      exact congrArg (fun x => x >>= fun child => pure (LogicalPlan.filter child condition)) hchild
  | project child es ih =>
      have hhints : HintsWithin child.outputNames (some (es.flatMap Expression.referencedColumns))
          (none : Option (Expression F)) := by
        refine ⟨fun cs hcs c hc => ?_, by simp⟩
        obtain rfl : es.flatMap Expression.referencedColumns = cs := by simpa using hcs
        obtain ⟨e, he, hce⟩ := List.mem_flatMap.mp hc
        exact ha.2.1 e he c hce
      simp only [LogicalPlan.guarded, walkForPushdown]
      rw [hnode (fun child => .project child es) _ (fun _ => rfl),
        hnode (fun child => .project child es) _ (fun _ => rfl), ih ha.1 h hhints]
  | aggregate child groupBy aggregates ih =>
      simp only [LogicalPlan.guarded, walkForPushdown]
      rw [hnode (fun child => .aggregate child groupBy aggregates) _ (fun _ => rfl),
        hnode (fun child => .aggregate child groupBy aggregates) _ (fun _ => rfl),
        ih ha.1 h (hintsWithin_none _)]
  | sort child keys ih =>
      simp only [LogicalPlan.guarded, walkForPushdown]
      rw [hnode (fun child => .sort child keys) _ (fun _ => rfl),
        hnode (fun child => .sort child keys) _ (fun _ => rfl), ih ha.1 h (hintsWithin_none _)]
  | join left right on how broadcast ihl ihr =>
      have hl := ihl ha.1 h.1 (hintsWithin_none _)
      have hr := ihr ha.2.1 h.2 (hintsWithin_none _)
      have hboth : ∀ x y : Py (LogicalPlan F),
          LogicalPlan.bare <$> (do
            let left' ← x
            let right' ← y
            pure (.join left' right' on how broadcast)) = (do
            let left' ← LogicalPlan.bare <$> x
            let right' ← LogicalPlan.bare <$> y
            pure (.join left' right' on how broadcast)) := by
        intro x y
        cases x <;> cases y <;> rfl
      simp only [LogicalPlan.guarded, walkForPushdown]
      rw [hboth, hboth, hl, hr]

end Guarded

/-- The physical plan, from a walk that ends in a plan with the same nodes. -/
lemma planPhysical_bare [PyHost F] (n : ℕ) (spill : ℤ) (plan : LogicalPlan F) :
    planPhysical n spill plan =
      (LogicalPlan.bare <$> walkForPushdown plan none none) >>= translate n spill := by
  simp only [planPhysical, pushdownScanReads, bind_map_left, translate_bare]

/-- Where every read is answered, what the planner makes of a plan emulates its translation over
the scans as they stand. -/
theorem planPhysical_emulates [PyHost F] {n : ℕ} {spill : ℤ} {plan : LogicalPlan F}
    {physical : PhysicalPlan F} (ha : plan.Analyzed)
    (hs : plan.ScansMeet ScanSource.AnswersFilter none)
    (hp : translate n spill plan = .ok physical) :
    ∃ physical', planPhysical n spill plan = .ok physical' ∧
      physical'.schema = physical.schema ∧ Emulates Eq physical physical' := by
  have hguarded : plan.guarded.Analyzed := by
    rwa [← LogicalPlan.analyzed_bare, LogicalPlan.bare_guarded, LogicalPlan.analyzed_bare]
  have htranslate : translate n spill plan.guarded = .ok physical := by
    rwa [← translate_bare, LogicalPlan.bare_guarded, translate_bare]
  obtain ⟨plan', physical', hwalk, hp', hpushed⟩ :=
    walkForPushdown_pushed hguarded hs.sourcesConform (hintsWithin_none _) htranslate
  obtain ⟨hschema, hemulates⟩ := hpushed.same
  refine ⟨physical', ?_, ?_, hemulates⟩
  · rw [planPhysical_bare, ← walkForPushdown_guarded ha hs (hintsWithin_none _), hwalk]
    exact (translate_bare n spill plan').trans hp'
  · have h := hschema _ (translate_schema htranslate)
    rw [translate_schema hp'] at h
    exact Except.ok.inj h

end MiniSpark
