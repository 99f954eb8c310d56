import MiniSpark.ScanPushdown
import MiniSpark.TaskColumns

/-!
# The analyzer is sound for column references

An accepted plan references columns of its inputs only. Scan pushdown keeps this, since it
asks for every column evaluated above a scan, and so does the translation, whose partial
aggregates and sort exchanges read columns of their own. What is then planned finds its
columns at every operator and in every attempt of a task.
-/
namespace MiniSpark

open Outcome

variable {F : Type} [PyRuntime F]

section References

/-- Every node mentions columns of its input only. -/
def LogicalPlan.ReferencesFound : LogicalPlan F → Prop
  | .scan _ _ _ => True
  | .filter child condition => child.ReferencesFound ∧ child.Provides condition
  | .project child columns => child.ReferencesFound ∧ ∀ e ∈ columns, child.Provides e
  | .aggregate child groupBy aggregates =>
      child.ReferencesFound ∧ (∀ g ∈ groupBy, g.isColumn = true ∧ child.Provides g) ∧
        ∀ a ∈ aggregates, child.Provides a
  | .join left right on _ _ =>
      left.ReferencesFound ∧ right.ReferencesFound ∧
        ∀ n ∈ on, n ∈ left.outputNames ∧ n ∈ right.outputNames
  | .sort child keys => child.ReferencesFound ∧ ∀ k ∈ keys, child.Provides k.1

/-- Reading with hints about columns the source has yields rows with the columns of the answered
schema, which has every column asked for. -/
def ScanSource.AnswersColumns (source : ScanSource F) (full : Dataset F) : Prop :=
  ∀ columns filterExpr d, HintsWithin full.schema.fieldNames columns filterExpr →
    source.read columns filterExpr = .ok d →
      d.RowsConform ∧ columns.getD full.schema.fieldNames ⊆ d.schema.fieldNames

/-- The rows of every scan have the columns of its schema, also when it is read again. -/
def LogicalPlan.ScansConform : LogicalPlan F → Prop
  | .scan dataset _ source => dataset.RowsConform ∧ ∀ s ∈ source, s.AnswersColumns dataset
  | .filter child _ => child.ScansConform
  | .project child _ => child.ScansConform
  | .aggregate child _ _ => child.ScansConform
  | .join left right _ _ _ => left.ScansConform ∧ right.ScansConform
  | .sort child _ => child.ScansConform

theorem LogicalPlan.Provides.mono {plan plan' : LogicalPlan F} {e : Expression F}
    (h : plan.Provides e) (hsub : plan.outputNames ⊆ plan'.outputNames) : plan'.Provides e :=
  fun n hn => hsub (h n hn)

/-- What the walk makes of a node: it finds its columns, has those asked of it, and scans
conforming datasets. -/
structure WalkedTo (columns : Option (List String)) (plan plan' : LogicalPlan F) : Prop where
  found : plan'.ReferencesFound
  covers : columns.getD plan.outputNames ⊆ plan'.outputNames
  conform : ∀ d ∈ plan'.tables, d.RowsConform

/-- Reading a scan again. -/
lemma rereadScan_walkedTo {dataset : Dataset F} {sourceName : String} {source : ScanSource F}
    {columns : Option (List String)} {filterExpr : Option (Expression F)} {plan' : LogicalPlan F}
    (hs : source.AnswersColumns dataset)
    (hw : HintsWithin dataset.schema.fieldNames columns filterExpr)
    (h : rereadScan sourceName source columns filterExpr = .ok plan') :
    WalkedTo columns (.scan dataset sourceName (some source)) plan' := by
  obtain ⟨d, hd, h⟩ := ExceptList.bind_eq_ok.mp h
  cases h
  cases columns with
  | none =>
      obtain ⟨hrows, hcover⟩ := hs none filterExpr d hw (by cases filterExpr <;> exact hd)
      exact ⟨trivial, hcover, by simpa [LogicalPlan.tables] using hrows⟩
  | some names =>
      -- the names of the filter are asked for as well
      obtain ⟨asked, hread, hasked, hsub⟩ : ∃ asked, source.read (some asked) filterExpr = .ok d ∧
          HintsWithin dataset.schema.fieldNames (some asked) filterExpr ∧ names ⊆ asked := by
        cases filterExpr with
        | none =>
            refine ⟨sortedNames names, hd, ⟨?_, hw.2⟩, fun c hc => mem_sortedNames.mpr hc⟩
            rintro _ ⟨rfl⟩ c hc
            exact hw.1 names rfl (mem_sortedNames.mp hc)
        | some e =>
            refine ⟨sortedNames (names ++ e.referencedColumns), hd, ⟨?_, hw.2⟩, fun c hc =>
              mem_sortedNames.mpr (List.mem_append_left _ hc)⟩
            rintro _ ⟨rfl⟩ c hc
            obtain hc | hc := List.mem_append.mp (mem_sortedNames.mp hc)
            · exact hw.1 names rfl hc
            · exact hw.2 e rfl hc
      obtain ⟨hrows, hcover⟩ := hs (some asked) filterExpr d hasked hread
      exact ⟨trivial, List.Subset.trans hsub hcover, by simpa [LogicalPlan.tables] using hrows⟩

/-- Walking down an accepted plan asks every scan for the columns the nodes above evaluate. -/
theorem walkForPushdown_walkedTo {plan plan' : LogicalPlan F} {columns : Option (List String)}
    {filterExpr : Option (Expression F)} (ha : plan.Analyzed) (hs : plan.ScansConform)
    (hw : HintsWithin plan.outputNames columns filterExpr)
    (h : walkForPushdown plan columns filterExpr = .ok plan') : WalkedTo columns plan plan' := by
  induction plan generalizing columns filterExpr plan' with
  | scan dataset sourceName source =>
      have hsame : WalkedTo columns (.scan dataset sourceName source)
          (.scan dataset sourceName source) := by
        refine ⟨trivial, ?_, by simpa [LogicalPlan.tables] using hs.1⟩
        cases columns with
        | none => exact List.Subset.refl _
        | some names => exact hw.1 names rfl
      cases source with
      | none =>
          cases h
          exact hsame
      | some s =>
          rw [walkForPushdown] at h
          split at h
          · cases h
            exact hsame
          · exact rereadScan_walkedTo (hs.2 s rfl) hw h
  | filter child condition ih =>
      obtain ⟨child', hwalk, h⟩ := ExceptList.bind_eq_ok.mp h
      cases h
      have hcond : condition.referencedColumns ⊆ child.outputNames := ha.2
      have hc := ih ha.1 hs (hw.below_filter hcond) hwalk
      cases columns with
      | none =>
          have hcover : child.outputNames ⊆ child'.outputNames := hc.covers
          exact ⟨⟨hc.found, fun n hn => hcover (hcond hn)⟩, hcover, hc.conform⟩
      | some names =>
          have hcover : names ++ condition.referencedColumns ⊆ child'.outputNames := hc.covers
          obtain ⟨hnames, hrefs⟩ := List.append_subset.mp hcover
          exact ⟨⟨hc.found, fun n hn => hrefs hn⟩, hnames, hc.conform⟩
  | project child es ih =>
      obtain ⟨child', hwalk, h⟩ := ExceptList.bind_eq_ok.mp h
      cases h
      have hw' : HintsWithin child.outputNames (some (es.flatMap Expression.referencedColumns))
          (none : Option (Expression F)) := by
        refine ⟨?_, by simp⟩
        rintro _ ⟨rfl⟩ c hc
        obtain ⟨e, he, hce⟩ := List.mem_flatMap.mp hc
        exact ha.2.1 e he c hce
      have hc := ih ha.1 hs hw' hwalk
      have hcover : es.flatMap Expression.referencedColumns ⊆ child'.outputNames := hc.covers
      refine ⟨⟨hc.found, fun e he n hn => hcover (List.mem_flatMap.mpr ⟨e, he, hn⟩)⟩, ?_, hc.conform⟩
      exact hw.getD_subset
  | aggregate child groupBy aggregates ih =>
      obtain ⟨child', hwalk, h⟩ := ExceptList.bind_eq_ok.mp h
      cases h
      obtain ⟨ha, hg, hagg, -⟩ := ha
      have hc := ih ha hs (hintsWithin_none _) hwalk
      exact ⟨⟨hc.found, fun g hmem => ⟨(hg g hmem).1, (hg g hmem).2.mono hc.covers⟩,
        fun a hmem => (hagg a hmem).2.mono hc.covers⟩, hw.getD_subset, hc.conform⟩
  | join left right on how broadcast ihl ihr =>
      obtain ⟨left', hwalkl, h⟩ := ExceptList.bind_eq_ok.mp h
      obtain ⟨right', hwalkr, h⟩ := ExceptList.bind_eq_ok.mp h
      cases h
      obtain ⟨hal, har, -, -, hon, -⟩ := ha
      have hl := ihl hal hs.1 (hintsWithin_none _) hwalkl
      have hr := ihr har hs.2 (hintsWithin_none _) hwalkr
      have hcover : (LogicalPlan.join left right on how broadcast).outputNames ⊆
          (LogicalPlan.join left' right' on how broadcast).outputNames := by
        refine List.append_subset.mpr ⟨?_, ?_⟩
        · exact List.Subset.trans hl.covers (List.subset_append_left _ _)
        · intro c hc
          obtain ⟨hright, hnot⟩ := List.mem_filter.mp hc
          exact List.mem_append_right _ (List.mem_filter.mpr ⟨hr.covers hright, hnot⟩)
      refine ⟨⟨hl.found, hr.found, fun n hn =>
        ⟨hl.covers (hon n hn).1, hr.covers (hon n hn).2⟩⟩, ?_, ?_⟩
      · exact List.Subset.trans hw.getD_subset hcover
      · intro d hd
        exact (List.mem_append.mp hd).elim (hl.conform d) (hr.conform d)
  | sort child keys ih =>
      obtain ⟨child', hwalk, h⟩ := ExceptList.bind_eq_ok.mp h
      cases h
      have hc := ih ha.1 hs (hintsWithin_none _) hwalk
      exact ⟨⟨hc.found, fun k hk => (ha.2 k hk).2.mono hc.covers⟩,
        List.Subset.trans hw.getD_subset hc.covers, hc.conform⟩

end References

section Translation

/-- The exchange of a sort reads the primary key. -/
lemma sortRangeBoundaries_reads {child : PhysicalPlan F} {name : String} {ascending : Bool}
    {schema : Schema} {n : ℕ} {exchange : SortExchange F}
    (h : sortRangeBoundaries child name ascending schema n = .ok exchange) :
    exchange.partitionKey.referencedColumns = [name] := by
  unfold sortRangeBoundaries at h
  dsimp only at h
  split at h
  · cases h
    rfl
  · obtain ⟨dataset, -, h⟩ := ExceptList.bind_eq_ok.mp h
    obtain ⟨range, -, h⟩ := ExceptList.bind_eq_ok.mp h
    split at h
    · cases h
      rfl
    · obtain ⟨a, -, h⟩ := ExceptList.bind_eq_ok.mp h
      obtain ⟨b, -, h⟩ := ExceptList.bind_eq_ok.mp h
      obtain ⟨⟨lo, hi⟩, -, h⟩ := ExceptList.bind_eq_ok.mp h
      obtain ⟨boundaries, -, h⟩ := ExceptList.bind_eq_ok.mp h
      cases h
      cases ascending <;> rfl

/-- A plan that references columns of its inputs is translated to one that finds them. -/
theorem translate_columnsFound {n : ℕ} {spill : ℤ} {plan : LogicalPlan F}
    {physical : PhysicalPlan F} (hplan : plan.ReferencesFound)
    (h : translate n spill plan = .ok physical) :
    physical.ColumnsFound ∧ physical.scans = plan.tables := by
  have hnames : ∀ {plan : LogicalPlan F} {physical : PhysicalPlan F},
      translate n spill plan = .ok physical → physical.schema.fieldNames = plan.outputNames :=
    fun h => LogicalPlan.schema_names (translate_schema h)
  induction plan generalizing physical with
  | scan dataset sourceName source =>
      cases h
      exact ⟨trivial, rfl⟩
  | filter child condition ih =>
      obtain ⟨c, hc, h⟩ := ExceptList.bind_eq_ok.mp h
      cases h
      obtain ⟨hfound, hscans⟩ := ih hplan.1 hc
      refine ⟨⟨hfound, ?_⟩, hscans⟩
      rw [hnames hc]
      exact hplan.2
  | project child columns ih =>
      have hout := hnames h
      obtain ⟨c, hc, h⟩ := ExceptList.bind_eq_ok.mp h
      obtain ⟨schema, -, h⟩ := ExceptList.bind_eq_ok.mp h
      cases h
      obtain ⟨hfound, hscans⟩ := ih hplan.1 hc
      refine ⟨⟨hfound, ?_, hout⟩, hscans⟩
      rw [hnames hc]
      exact hplan.2
  | aggregate child groupBy aggregates ih =>
      have hout := hnames h
      obtain ⟨c, hc, h⟩ := ExceptList.bind_eq_ok.mp h
      obtain ⟨childSchema, -, h⟩ := ExceptList.bind_eq_ok.mp h
      obtain ⟨schema, -, h⟩ := ExceptList.bind_eq_ok.mp h
      obtain ⟨partialSchema, hpartial, h⟩ := ExceptList.bind_eq_ok.mp h
      cases h
      obtain ⟨hfound, hscans⟩ := ih hplan.1 hc
      obtain ⟨-, hgroup, hagg⟩ := hplan
      have hstates : partialSchema.fieldNames =
          groupBy.map Expression.columnName ++ stateColumns aggregates.length := by
        rw [Schema.fieldNames, Schema.make_eq_ok.mp hpartial, List.map_append, List.map_map,
          List.map_map]
        rfl
      -- group keys are columns, so the partial rows have them under their names
      have hkeys : ∀ g ∈ groupBy, ReadsFromNames partialSchema.fieldNames g := by
        intro g hg c hc
        have hcol := (hgroup g hg).1
        cases g with
        | column name =>
            obtain rfl := List.mem_singleton.mp hc
            rw [hstates]
            exact List.mem_append_left _ (List.mem_map.mpr ⟨_, hg, rfl⟩)
        | _ => cases hcol
      have hchild := hnames hc
      refine ⟨⟨⟨⟨hfound, ⟨?_, ?_⟩, ?_⟩, hkeys⟩, ⟨hkeys, ?_⟩, ?_⟩, hscans⟩
      · rw [hchild]
        exact fun g hg => (hgroup g hg).2
      · rw [hchild]
        exact hagg
      · exact hstates
      · show stateColumns aggregates.length ⊆ partialSchema.fieldNames
        rw [hstates]
        exact List.subset_append_right _ _
      · rw [HashAggregate.outputNames]
        refine Eq.trans hout ?_
        rw [LogicalPlan.outputNames, List.map_append]
        rfl
  | join left right on how broadcast ihl ihr =>
      have hout := hnames h
      obtain ⟨l, hl, h⟩ := ExceptList.bind_eq_ok.mp h
      obtain ⟨r, hr, h⟩ := ExceptList.bind_eq_ok.mp h
      obtain ⟨schema, -, h⟩ := ExceptList.bind_eq_ok.mp h
      cases h
      obtain ⟨hleft, hright, hon⟩ := hplan
      obtain ⟨hfl, hsl⟩ := ihl hleft hl
      obtain ⟨hfr, hsr⟩ := ihr hright hr
      have hkeysl : ∀ e ∈ on.map Expression.column, ReadsFromNames l.schema.fieldNames (F := F) e := by
        intro e he c hc
        obtain ⟨name, hname, rfl⟩ := List.mem_map.mp he
        obtain rfl := List.mem_singleton.mp hc
        rw [hnames hl]
        exact (hon _ hname).1
      have hkeysr : ∀ e ∈ on.map Expression.column, ReadsFromNames r.schema.fieldNames (F := F) e := by
        intro e he c hc
        obtain ⟨name, hname, rfl⟩ := List.mem_map.mp he
        obtain rfl := List.mem_singleton.mp hc
        rw [hnames hr]
        exact (hon _ hname).2
      rw [LogicalPlan.outputNames, ← hnames hl, ← hnames hr] at hout
      unfold planJoin at hout ⊢
      dsimp only at hout ⊢
      split at hout
      · next hbc =>
          rw [if_pos hbc]
          exact ⟨⟨hfl, ⟨hfr, hkeysr⟩, hkeysl, hkeysr, hout⟩, congrArg₂ _ hsl hsr⟩
      · next hbc =>
          rw [if_neg hbc]
          exact ⟨⟨⟨hfl, hkeysl⟩, ⟨hfr, hkeysr⟩, hkeysl, hkeysr, hout⟩, congrArg₂ _ hsl hsr⟩
  | sort child keys ih =>
      obtain ⟨c, hc, h⟩ := ExceptList.bind_eq_ok.mp h
      obtain ⟨schema, hschema, h⟩ := ExceptList.bind_eq_ok.mp h
      obtain ⟨hfound, hscans⟩ := ih hplan.1 hc
      obtain rfl : c.schema = schema := Except.ok.inj ((translate_schema hc).symm.trans hschema)
      have hkeys : ∀ k ∈ keys, ReadsFromNames c.schema.fieldNames k.1 := by
        rw [hnames hc]
        exact hplan.2
      unfold planSort at h
      split at h
      · cases h
      · next name ascending rest _ _ =>
          obtain ⟨exchange, hexchange, h⟩ := ExceptList.bind_eq_ok.mp h
          cases h
          have hprimary := hkeys (.column name, ascending) List.mem_cons_self
          refine ⟨⟨⟨⟨hfound, hkeys, rfl⟩, ?_⟩, hkeys, rfl⟩, hscans⟩
          intro e he
          obtain rfl := List.mem_singleton.mp he
          show exchange.partitionKey.referencedColumns ⊆ _
          rw [sortRangeBoundaries_reads hexchange]
          exact hprimary
      · cases h

end Translation

/-- Plans that `analyze` accepts find their columns. The rows of every operator have the columns of
its schema, in the unsplit plan and in every stage a run comes to, whatever its tasks have tried
before; and no attempt raises a `KeyError` other than one that reading a scan raises. -/
theorem analyze_sound [PyHost F] {plan analyzed : LogicalPlan F} {n : ℕ} {spill : ℤ}
    {physical : PhysicalPlan F} (hanalyze : analyze plan = .ok analyzed) (hscans : plan.ScansConform)
    (hplan : planPhysical n spill analyzed = .ok physical) :
    (∀ q ∈ physical.operators, ∀ d, denote q = .ok d → ∀ pid part, d.part pid = .ok part →
      ∀ k rows, part.pass k = .ok rows → AllHaveKeys q.schema.fieldNames rows) ∧
    ∀ (maxRetries rounds depth : ℕ) (root : String) (disk : Disk F) (pre post : List (Stage F))
      (stage : Stage F) (final : Option (Dataset F)) (st : RunState (Disk F)),
      buildStages physical = .ok (pre ++ stage :: post) →
      (scheduler maxRetries executeTask root (pre ++ stage :: post)).runStages rounds depth pre
        (Scheduler.startState disk) = .ok (final, st) →
      ∀ (tried : List (Task F × ℕ)),
        (∀ entry ∈ tried, entry.1 ∈ (scheduler maxRetries executeTask root
          (pre ++ stage :: post)).makeTasks stage st) →
      ∀ task ∈ (scheduler maxRetries executeTask root (pre ++ stage :: post)).makeTasks stage st,
        (∀ q ∈ task.plan.operators, ∀ part,
          executePartition (readStage (afterAttempts tried st.world) task.shuffleBlocks) q
            task.partitionId = .ok part →
          ∀ k rows, part.pass k = .ok rows → AllHaveKeys q.schema.fieldNames rows) ∧
        ∀ attempt m, (executeTask task attempt (afterAttempts tried st.world)).1.error =
          some (.keyError m) → ReadRaises physical.scans m := by
  obtain ⟨rfl, ha, -⟩ := analyze_eq_ok.mp hanalyze
  obtain ⟨plan', hwalk, htranslate⟩ := ExceptList.bind_eq_ok.mp hplan
  have hwalked := walkForPushdown_walkedTo ha hscans (hintsWithin_none _) hwalk
  obtain ⟨hfound, htables⟩ := translate_columnsFound hwalked.found htranslate
  have hconform : ScansConform (ReadRaises physical.scans) physical.scans :=
    ⟨htables ▸ hwalked.conform, fun _ hm => hm⟩
  refine ⟨fun q hq d hd pid part hpart k rows hrows => ?_, ?_⟩
  · obtain ⟨hq, hsub⟩ := hfound.operators q hq
    exact (((denote_conforms hq (hconform.mono hsub)).of_ok hd pid).of_ok hpart k).of_ok hrows
  · intro maxRetries rounds depth root disk pre post stage final st hstages hrun tried htried task htask
    obtain ⟨hstagesFound, outs, hstart⟩ := stageStart_of_run hstages hfound hconform hrun
    have hstage := hstagesFound stage hstart.listed
    have hkept : KeepsBlocks root st.nextTaskId st.world (afterAttempts tried st.world) := by
      refine afterAttempts_keepsBlocks root (fun entry hentry => ?_) st.world
      obtain ⟨pid, -, heq⟩ := List.mem_map.mp (htried entry hentry)
      rw [← heq]
      exact Nat.le_add_right _ _
    obtain ⟨pid, -, rfl⟩ := List.mem_map.mp htask
    have hread := hstart.readsConform (B := ReadRaises physical.scans) hstage.leaves pid hkept
    have hstageScans := hconform.mono hstage.scans
    refine ⟨fun q hq part hpart k rows hrows => ?_, fun attempt m he => ?_⟩
    · obtain ⟨hcolumns, hsub⟩ := hstage.columns.operators q hq
      exact ((executePartition_conforms hcolumns (hstageScans.mono hsub)
        (hread.operators q hq)).of_ok hpart k).of_ok hrows
    · exact executeTask_safe attempt hstage.columns hstageScans hread he

section Examples

/-- The sum of `b` for each `a`, in descending order of `a`. -/
def sumByA : LogicalPlan ℚ :=
  .sort (.aggregate abTable [.column "a"] [.aliased (.aggregate .sum (.column "b")) "total"])
    [(.column "a", false)]

lemma abTable_scansConform : abTable.ScansConform := by
  refine ⟨fun p hp rows hrows r hr => ?_, by simp⟩
  simp only [rowsDataset, List.mapIdx_cons, List.mapIdx_nil, List.mem_singleton] at hp
  subst hp
  cases hrows
  obtain rfl := List.mem_singleton.mp hr
  intro name
  rw [OrderedDict.isSome_get?_iff]
  rfl

/-- Partial states, final values, two sorts and two exchanges. -/
theorem analyze_sound_sumByA : ∃ physical, planPhysical 2 neverSpill sumByA = .ok physical ∧
    ∀ q ∈ physical.operators, ∀ d, denote q = .ok d → ∀ pid part, d.part pid = .ok part →
      ∀ k rows, part.pass k = .ok rows → AllHaveKeys q.schema.fieldNames rows := by
  obtain ⟨physical, hplan⟩ : ∃ physical, planPhysical 2 neverSpill sumByA = .ok physical := ⟨_, rfl⟩
  have hanalyze : analyze sumByA = .ok sumByA := rfl
  exact ⟨physical, hplan, (analyze_sound hanalyze abTable_scansConform hplan).1⟩

end Examples

end MiniSpark
