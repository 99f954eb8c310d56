import MiniSpark.Emissions
import MiniSpark.Reiteration

/-!
# Executing a plan row by row

The first iteration over the partition of a plan, with the rows that come before an error. An
aggregation, the build side of a join and a sort work on the rows of their input as they come.
Where the first iteration ends, it yields what the partition yields as a whole.
-/
namespace MiniSpark

variable {F : Type} [PyRuntime F]

/-- What comes before an error that is raised outside the operators: the rows of a source
partition, and those of a merge of runs that meets incomparable keys. -/
structure Breaks (F : Type) where
  scan : Partition F → List (Record F)
  merge : List (List (Arrival F)) → List (Record F)

/-- The rows that an iteration yields, one after the other. -/
abbrev RowEmission (F : Type) := Emission PyError (Record F)

section Operators

/-- The loop body of `_execute_filter_partition`. -/
def keepRow (condition : Expression F) (record : Record F) : Py (List (Record F)) := do
  let keep ← holds condition record
  pure (if keep then [record] else [])

def filterEmission (condition : Expression F) (parent : RowEmission F) : RowEmission F :=
  parent.bind (fun record => Emission.ofOutcome [] (keepRow condition record))

def projectEmission (names : List String) (columns : List (Expression F)) (parent : RowEmission F) :
    RowEmission F :=
  parent.bind (fun record =>
    Emission.ofOutcome [] ((fun row => [row]) <$> projectRow names columns record))

/-- The rows of the groups of a table. -/
def tableEmission (spec : HashAggregate F) (aggs : List (AggregateFunction F))
    (groups : SpillItems F) : RowEmission F :=
  Emission.bind ⟨groups, none⟩ (fun p =>
    Emission.ofOutcome [] ((fun row => [row]) <$> groupRow spec aggs p.1 p.2))

/-- The rows of a bucket, once its files are merged in. -/
def bucketEmission (spec : HashAggregate F) (aggs : List (AggregateFunction F))
    (remainder : GroupTable F) (bucket : ℕ) (files : List (SpillItems F)) : RowEmission F :=
  match files.flatten.foldlM (mergeSpilled aggs)
    (OrderedDict.ofList (bucketItems remainder bucket)) with
  | .ok merged => tableEmission spec aggs merged.items
  | .error e => ⟨[], some e⟩

/-- `records_fn` of an aggregation, `spilled_records_fn` when it spilled. -/
def accumulatedEmission (spec : HashAggregate F) (aggs : List (AggregateFunction F))
    (acc : Accumulation F) : RowEmission F :=
  if acc.spilled then
    match bucketNumbers acc.groups with
    | .ok _ => Emission.bind ⟨acc.spillPaths.zipIdx, none⟩
        (fun p => bucketEmission spec aggs acc.groups p.2 p.1)
    | .error e => ⟨[], some e⟩
  else tableEmission spec aggs acc.groups.items

/-- One row on the build side of a join. -/
def tableRow (keys : List (Expression F)) (table : OrderedDict (List (Value F)) (List (Record F)))
    (record : Record F) : Py (OrderedDict (List (Value F)) (List (Record F))) := do
  let key ← tupleKey keys record
  pure (table.set key ((table.get? key).getD [] ++ [record]))

/-- The rows that a row of the probe side meets. -/
def probeRow (table : OrderedDict (List (Value F)) (List (Record F)))
    (rightKeys : List (Expression F)) (on : List String) (rightRow : Record F) :
    Py (List (Record F)) := do
  let key ← tupleKey rightKeys rightRow
  pure (((table.get? key).getD []).map (fun leftRow => mergeRow on leftRow rightRow))

def probeEmission (table : OrderedDict (List (Value F)) (List (Record F)))
    (rightKeys : List (Expression F)) (on : List String) (right : List (Record F)) :
    RowEmission F :=
  Emission.bind ⟨right, none⟩ (fun rightRow =>
    Emission.ofOutcome [] (probeRow table rightKeys on rightRow))

/-- The rows of a sort: a list, or the merge of its runs. -/
def sortedEmission (breaks : Breaks F) (keys : List (Expression F × Bool)) (runs : SortedRuns F) :
    RowEmission F :=
  Emission.ofOutcome (breaks.merge (runs.finalRun :: runs.spilled)) (runs.rows keys)

end Operators

section Agreement

lemma mapM_keepRow_eq_ok {condition : Expression F} {rows out : List (Record F)} :
    (∃ parts, rows.mapM (keepRow condition) = .ok parts ∧ parts.flatten = out) ↔
      filterRows condition rows = .ok out := by
  unfold filterRows
  induction rows generalizing out with
  | nil =>
      rw [List.mapM_nil, ExceptList.filterE]
      constructor
      · rintro ⟨parts, hparts, rfl⟩
        cases hparts
        rfl
      · rintro ⟨⟩
        exact ⟨[], rfl, rfl⟩
  | cons r rows ih =>
      rw [List.mapM_cons, ExceptList.filterE]
      constructor
      · rintro ⟨parts, hparts, rfl⟩
        obtain ⟨first, hfirst, hparts⟩ := ExceptList.bind_eq_ok.mp hparts
        obtain ⟨rest, hrest, hparts⟩ := ExceptList.bind_eq_ok.mp hparts
        obtain ⟨keep, hkeep, hfirst⟩ := ExceptList.bind_eq_ok.mp hfirst
        cases hparts
        cases hfirst
        rw [hkeep, ExceptList.bind_ok, ih.mp ⟨rest, hrest, rfl⟩]
        cases keep <;> rfl
      · intro h
        obtain ⟨keep, hkeep, h⟩ := ExceptList.bind_eq_ok.mp h
        obtain ⟨kept, hkept, h⟩ := ExceptList.bind_eq_ok.mp h
        obtain ⟨parts, hparts, rfl⟩ := ih.mpr hkept
        cases h
        refine ⟨(if keep then [r] else []) :: parts, ?_, ?_⟩
        · rw [keepRow, hkeep, ExceptList.bind_ok, ExceptList.pure_eq_ok, ExceptList.bind_ok, hparts]
          rfl
        · cases keep <;> rfl

lemma filterEmission_eq_ok {condition : Expression F} {parent : RowEmission F}
    {out : List (Record F)} : (filterEmission condition parent).toExcept = .ok out ↔
      ∃ rows, parent.toExcept = .ok rows ∧ filterRows condition rows = .ok out := by
  unfold filterEmission
  simp only [Emission.bind_outcomes_eq_ok, mapM_keepRow_eq_ok]

lemma projectEmission_eq_ok {names : List String} {columns : List (Expression F)}
    {parent : RowEmission F} {out : List (Record F)} :
    (projectEmission names columns parent).toExcept = .ok out ↔
      ∃ rows, parent.toExcept = .ok rows ∧ projectRows names columns rows = .ok out :=
  Emission.bind_singletons_eq_ok

lemma tableEmission_eq_ok {spec : HashAggregate F} {aggs : List (AggregateFunction F)}
    {groups : SpillItems F} {out : List (Record F)} :
    (tableEmission spec aggs groups).toExcept = .ok out ↔
      groups.mapM (fun p => groupRow spec aggs p.1 p.2) = .ok out := by
  unfold tableEmission
  simp [Emission.bind_singletons_eq_ok, Emission.toExcept_list]

lemma bucketEmission_eq_ok {spec : HashAggregate F} {aggs : List (AggregateFunction F)}
    {remainder : GroupTable F} {bucket : ℕ} {files : List (SpillItems F)} {out : List (Record F)} :
    (bucketEmission spec aggs remainder bucket files).toExcept = .ok out ↔
      bucketRows spec aggs remainder bucket files = .ok out := by
  unfold bucketEmission bucketRows
  cases files.flatten.foldlM (mergeSpilled aggs)
    (OrderedDict.ofList (bucketItems remainder bucket)) with
  | ok merged => exact tableEmission_eq_ok
  | error e => exact iff_of_false (fun h => by cases h) (fun h => by cases h)

lemma accumulatedEmission_eq_ok {spec : HashAggregate F} {aggs : List (AggregateFunction F)}
    {acc : Accumulation F} {out : List (Record F)} :
    (accumulatedEmission spec aggs acc).toExcept = .ok out ↔
      accumulatedRows spec aggs acc = .ok out := by
  unfold accumulatedEmission accumulatedRows
  split
  · cases bucketNumbers acc.groups with
    | error e => exact iff_of_false (fun h => by cases h) (fun h => by cases h)
    | ok numbers =>
        rw [ExceptList.bind_ok, Emission.bind_eq_ok]
        simp only [Emission.toExcept_list, ExceptList.mapM_eq_ok, bucketEmission_eq_ok,
          Except.ok.injEq, ExceptList.bind_eq_ok, ExceptList.pure_eq_ok]
        constructor
        · rintro ⟨xs, parts, rfl, hparts, hout⟩
          exact ⟨parts, hparts, hout⟩
        · rintro ⟨parts, hparts, hout⟩
          exact ⟨_, parts, rfl, hparts, hout⟩
  · exact tableEmission_eq_ok

lemma probeEmission_eq_ok {table : OrderedDict (List (Value F)) (List (Record F))}
    {rightKeys : List (Expression F)} {on : List String} {right out : List (Record F)} :
    (probeEmission table rightKeys on right).toExcept = .ok out ↔
      probeTable table rightKeys on right = .ok out := by
  unfold probeEmission probeTable
  rw [Emission.bind_outcomes_eq_ok, ExceptList.bind_eq_ok]
  constructor
  · rintro ⟨xs, hxs, parts, hparts, rfl⟩
    cases hxs
    exact ⟨parts, hparts, rfl⟩
  · rintro ⟨parts, hparts, hout⟩
    cases hout
    exact ⟨right, rfl, parts, hparts, rfl⟩

end Agreement

section Partitions

variable [PyHost F] {pid : ℕ} {rows : List (Record F)}

/-- The first iteration over an aggregated partition. -/
lemma hashAggregatePartition_rows {spec : HashAggregate F} {parent : Partition F} :
    (∃ p, hashAggregatePartition spec pid parent = .ok p ∧ p.toList = .ok rows) ↔
      ∃ aggs xs acc, spec.aggregates.mapM unwrapAggregate = .ok aggs ∧ parent.toList = .ok xs ∧
        xs.foldlM (accumulate spec aggs) (Accumulation.start F) = .ok acc ∧
          accumulatedRows spec aggs acc = .ok rows := by
  constructor
  · rintro ⟨p, hp, hrows⟩
    obtain ⟨aggs, haggs, hp⟩ := ExceptList.bind_eq_ok.mp hp
    obtain ⟨xs, hxs, hp⟩ := ExceptList.bind_eq_ok.mp hp
    obtain ⟨acc, hacc, hp⟩ := ExceptList.bind_eq_ok.mp hp
    cases hp
    exact ⟨aggs, xs, acc, haggs, hxs, hacc, (if_neg (fun h => h.2 rfl)).symm.trans hrows⟩
  · rintro ⟨aggs, xs, acc, haggs, hxs, hacc, hrows⟩
    exact ⟨_, ExceptList.bind_eq_ok.mpr ⟨aggs, haggs, ExceptList.bind_eq_ok.mpr
      ⟨xs, hxs, ExceptList.bind_eq_ok.mpr ⟨acc, hacc, rfl⟩⟩⟩,
      (if_neg (fun h => h.2 rfl)).trans hrows⟩

omit [PyHost F] in
/-- The first iteration over a joined partition. -/
lemma hashJoinPartition_rows {leftKeys rightKeys : List (Expression F)} {on : List String}
    {schema : Schema} {left right : Partition F} :
    (∃ p, hashJoinPartition leftKeys rightKeys on schema pid left right = .ok p ∧
      p.toList = .ok rows) ↔
      ∃ xs table ys, left.toList = .ok xs ∧ xs.foldlM (tableRow leftKeys) OrderedDict.empty = .ok table ∧
        right.toList = .ok ys ∧ probeTable table rightKeys on ys = .ok rows := by
  constructor
  · rintro ⟨p, hp, hrows⟩
    obtain ⟨xs, hxs, hp⟩ := ExceptList.bind_eq_ok.mp hp
    obtain ⟨table, htable, hp⟩ := ExceptList.bind_eq_ok.mp hp
    obtain ⟨ys, hys, hp⟩ := ExceptList.bind_eq_ok.mp hp
    cases hp
    exact ⟨xs, table, ys, hxs, htable, hys, hrows⟩
  · rintro ⟨xs, table, ys, hxs, htable, hys, hrows⟩
    exact ⟨_, ExceptList.bind_eq_ok.mpr ⟨xs, hxs, ExceptList.bind_eq_ok.mpr
      ⟨table, htable, ExceptList.bind_eq_ok.mpr ⟨ys, hys, rfl⟩⟩⟩, hrows⟩

/-- The first iteration over a sorted partition. -/
lemma sortPartition_rows {spec : Sorting F} {parent : Partition F} :
    (∃ p, sortPartition spec pid parent = .ok p ∧ p.toList = .ok rows) ↔
      ∃ xs st finalRun, parent.toList = .ok xs ∧ xs.foldlM (bufferRow spec) ⟨0, [], 0, []⟩ = .ok st ∧
        sortRows st.buffer spec.keys = .ok finalRun ∧
          SortedRuns.rows spec.keys ⟨finalRun, st.runs⟩ = .ok rows := by
  constructor
  · rintro ⟨p, hp, hrows⟩
    obtain ⟨xs, hxs, hp⟩ := ExceptList.bind_eq_ok.mp hp
    obtain ⟨runs, hruns, hp⟩ := ExceptList.bind_eq_ok.mp hp
    obtain ⟨st, hst, hruns⟩ := ExceptList.bind_eq_ok.mp hruns
    obtain ⟨finalRun, hfinal, hruns⟩ := ExceptList.bind_eq_ok.mp hruns
    cases hruns
    cases hp
    exact ⟨xs, st, finalRun, hxs, hst, hfinal, hrows⟩
  · rintro ⟨xs, st, finalRun, hxs, hst, hfinal, hrows⟩
    have hruns : sortedRuns spec xs = .ok ⟨finalRun, st.runs⟩ := by
      rw [sortedRuns, hst, ExceptList.bind_ok, hfinal]
      rfl
    exact ⟨_, ExceptList.bind_eq_ok.mpr ⟨xs, hxs, ExceptList.bind_eq_ok.mpr ⟨_, hruns, rfl⟩⟩, hrows⟩

end Partitions

section Plans

variable [PyHost F] (breaks : Breaks F) (read : ℕ → ℕ → Py (List (Record F)))

/-- What the first iteration over the partition of a plan yields, or the error with which there
is no partition. -/
def emission : PhysicalPlan F → ℕ → Py (RowEmission F)
  | .scanExec dataset _, pid => do
      let part ← dataset.partition pid
      pure (Emission.ofOutcome (breaks.scan part) part.toList)
  | .filterExec child condition, pid => do
      let parent ← emission child pid
      pure (filterEmission condition parent)
  | .projectExec child columns schema, pid => do
      let parent ← emission child pid
      pure (projectEmission schema.fieldNames columns parent)
  | .hashAggregateExec child spec, pid => do
      let parent ← emission child pid
      let aggs ← spec.aggregates.mapM unwrapAggregate
      let acc ← parent.drain (accumulate spec aggs) (Accumulation.start F)
      pure (accumulatedEmission spec aggs acc)
  | .hashJoinExec left right leftKeys rightKeys on _, pid => do
      let leftRows ← emission left pid
      let rightRows ← emission right pid
      let table ← leftRows.drain (tableRow leftKeys) OrderedDict.empty
      let rows ← rightRows.toExcept
      pure (probeEmission table rightKeys on rows)
  | .sortExec child spec, pid => do
      let parent ← emission child pid
      let st ← parent.drain (bufferRow spec) ⟨0, [], 0, []⟩
      let finalRun ← sortRows st.buffer spec.keys
      pure (sortedEmission breaks spec.keys ⟨finalRun, st.runs⟩)
  | .shuffleReadExec stageId _ _, pid => do
      let rows ← read stageId pid
      pure ⟨rows, none⟩
  | p@(.exchangeExec _ _ _ _ _), _ => .error (noPartitionOperator p)
  | p@(.shuffleWriteExec _ _ _ _), _ => .error (noPartitionOperator p)

/-- The first iteration ends row by row as it does as a whole. -/
theorem emission_rows (plan : PhysicalPlan F) (pid : ℕ) (rows : List (Record F)) :
    (∃ m, emission breaks read plan pid = .ok m ∧ m.toExcept = .ok rows) ↔
      ∃ p, executePartition read plan pid = .ok p ∧ p.toList = .ok rows := by
  induction plan generalizing rows with
  | scanExec dataset sourceName =>
      constructor
      · rintro ⟨m, hm, hrows⟩
        obtain ⟨part, hpart, hm⟩ := ExceptList.bind_eq_ok.mp hm
        cases hm
        exact ⟨part, hpart, by rwa [Emission.toExcept_ofOutcome] at hrows⟩
      · rintro ⟨part, hpart, hlist⟩
        exact ⟨_, ExceptList.bind_eq_ok.mpr ⟨part, hpart, rfl⟩,
          by rwa [Emission.toExcept_ofOutcome]⟩
  | filterExec child condition ih =>
      constructor
      · rintro ⟨m, hm, hrows⟩
        obtain ⟨parent, hparent, hm⟩ := ExceptList.bind_eq_ok.mp hm
        cases hm
        obtain ⟨xs, hxs, hfilter⟩ := filterEmission_eq_ok.mp hrows
        obtain ⟨q, hq, hlist⟩ := (ih xs).mp ⟨parent, hparent, hxs⟩
        exact ⟨filterPartition condition q, ExceptList.bind_eq_ok.mpr ⟨q, hq, rfl⟩,
          ExceptList.bind_eq_ok.mpr ⟨xs, hlist, hfilter⟩⟩
      · rintro ⟨p, hp, hrows⟩
        obtain ⟨q, hq, hp⟩ := ExceptList.bind_eq_ok.mp hp
        cases hp
        obtain ⟨xs, hlist, hfilter⟩ := ExceptList.bind_eq_ok.mp hrows
        obtain ⟨parent, hparent, hxs⟩ := (ih xs).mpr ⟨q, hq, hlist⟩
        exact ⟨_, ExceptList.bind_eq_ok.mpr ⟨parent, hparent, rfl⟩,
          filterEmission_eq_ok.mpr ⟨xs, hxs, hfilter⟩⟩
  | projectExec child columns schema ih =>
      constructor
      · rintro ⟨m, hm, hrows⟩
        obtain ⟨parent, hparent, hm⟩ := ExceptList.bind_eq_ok.mp hm
        cases hm
        obtain ⟨xs, hxs, hproject⟩ := projectEmission_eq_ok.mp hrows
        obtain ⟨q, hq, hlist⟩ := (ih xs).mp ⟨parent, hparent, hxs⟩
        exact ⟨projectPartition columns schema q, ExceptList.bind_eq_ok.mpr ⟨q, hq, rfl⟩,
          ExceptList.bind_eq_ok.mpr ⟨xs, hlist, hproject⟩⟩
      · rintro ⟨p, hp, hrows⟩
        obtain ⟨q, hq, hp⟩ := ExceptList.bind_eq_ok.mp hp
        cases hp
        obtain ⟨xs, hlist, hproject⟩ := ExceptList.bind_eq_ok.mp hrows
        obtain ⟨parent, hparent, hxs⟩ := (ih xs).mpr ⟨q, hq, hlist⟩
        exact ⟨_, ExceptList.bind_eq_ok.mpr ⟨parent, hparent, rfl⟩,
          projectEmission_eq_ok.mpr ⟨xs, hxs, hproject⟩⟩
  | hashAggregateExec child spec ih =>
      constructor
      · rintro ⟨m, hm, hrows⟩
        obtain ⟨parent, hparent, hm⟩ := ExceptList.bind_eq_ok.mp hm
        obtain ⟨aggs, haggs, hm⟩ := ExceptList.bind_eq_ok.mp hm
        obtain ⟨acc, hacc, hm⟩ := ExceptList.bind_eq_ok.mp hm
        cases hm
        obtain ⟨xs, hxs, hfold⟩ := Emission.drain_eq_ok.mp hacc
        obtain ⟨q, hq, hlist⟩ := (ih xs).mp ⟨parent, hparent, hxs⟩
        obtain ⟨p, hp, hout⟩ := hashAggregatePartition_rows.mpr
          ⟨aggs, xs, acc, haggs, hlist, hfold, accumulatedEmission_eq_ok.mp hrows⟩
        exact ⟨p, ExceptList.bind_eq_ok.mpr ⟨q, hq, hp⟩, hout⟩
      · rintro ⟨p, hp, hrows⟩
        obtain ⟨q, hq, hp⟩ := ExceptList.bind_eq_ok.mp hp
        obtain ⟨aggs, xs, acc, haggs, hlist, hfold, hout⟩ :=
          hashAggregatePartition_rows.mp ⟨p, hp, hrows⟩
        obtain ⟨parent, hparent, hxs⟩ := (ih xs).mpr ⟨q, hq, hlist⟩
        refine ⟨accumulatedEmission spec aggs acc, ?_, accumulatedEmission_eq_ok.mpr hout⟩
        rw [emission, hparent, ExceptList.bind_ok, haggs, ExceptList.bind_ok,
          Emission.drain_eq_ok.mpr ⟨xs, hxs, hfold⟩]
        rfl
  | hashJoinExec left right leftKeys rightKeys on schema ihl ihr =>
      constructor
      · rintro ⟨m, hm, hrows⟩
        obtain ⟨l, hl, hm⟩ := ExceptList.bind_eq_ok.mp hm
        obtain ⟨r, hr, hm⟩ := ExceptList.bind_eq_ok.mp hm
        obtain ⟨table, htable, hm⟩ := ExceptList.bind_eq_ok.mp hm
        obtain ⟨ys, hys, hm⟩ := ExceptList.bind_eq_ok.mp hm
        cases hm
        obtain ⟨xs, hxs, hfold⟩ := Emission.drain_eq_ok.mp htable
        obtain ⟨lp, hlp, hleft⟩ := (ihl xs).mp ⟨l, hl, hxs⟩
        obtain ⟨rp, hrp, hright⟩ := (ihr ys).mp ⟨r, hr, hys⟩
        obtain ⟨p, hp, hout⟩ := hashJoinPartition_rows.mpr
          ⟨xs, table, ys, hleft, hfold, hright, probeEmission_eq_ok.mp hrows⟩
        exact ⟨p, ExceptList.bind_eq_ok.mpr ⟨lp, hlp, ExceptList.bind_eq_ok.mpr ⟨rp, hrp, hp⟩⟩, hout⟩
      · rintro ⟨p, hp, hrows⟩
        obtain ⟨lp, hlp, hp⟩ := ExceptList.bind_eq_ok.mp hp
        obtain ⟨rp, hrp, hp⟩ := ExceptList.bind_eq_ok.mp hp
        obtain ⟨xs, table, ys, hleft, hfold, hright, hout⟩ :=
          hashJoinPartition_rows.mp ⟨p, hp, hrows⟩
        obtain ⟨l, hl, hxs⟩ := (ihl xs).mpr ⟨lp, hlp, hleft⟩
        obtain ⟨r, hr, hys⟩ := (ihr ys).mpr ⟨rp, hrp, hright⟩
        refine ⟨probeEmission table rightKeys on ys, ?_, probeEmission_eq_ok.mpr hout⟩
        rw [emission, hl, ExceptList.bind_ok, hr, ExceptList.bind_ok,
          Emission.drain_eq_ok.mpr ⟨xs, hxs, hfold⟩, ExceptList.bind_ok, hys]
        rfl
  | sortExec child spec ih =>
      constructor
      · rintro ⟨m, hm, hrows⟩
        obtain ⟨parent, hparent, hm⟩ := ExceptList.bind_eq_ok.mp hm
        obtain ⟨st, hst, hm⟩ := ExceptList.bind_eq_ok.mp hm
        obtain ⟨finalRun, hfinal, hm⟩ := ExceptList.bind_eq_ok.mp hm
        cases hm
        obtain ⟨xs, hxs, hfold⟩ := Emission.drain_eq_ok.mp hst
        obtain ⟨q, hq, hlist⟩ := (ih xs).mp ⟨parent, hparent, hxs⟩
        rw [sortedEmission, Emission.toExcept_ofOutcome] at hrows
        obtain ⟨p, hp, hout⟩ := sortPartition_rows.mpr
          ⟨xs, st, finalRun, hlist, hfold, hfinal, hrows⟩
        exact ⟨p, ExceptList.bind_eq_ok.mpr ⟨q, hq, hp⟩, hout⟩
      · rintro ⟨p, hp, hrows⟩
        obtain ⟨q, hq, hp⟩ := ExceptList.bind_eq_ok.mp hp
        obtain ⟨xs, st, finalRun, hlist, hfold, hfinal, hout⟩ := sortPartition_rows.mp ⟨p, hp, hrows⟩
        obtain ⟨parent, hparent, hxs⟩ := (ih xs).mpr ⟨q, hq, hlist⟩
        refine ⟨sortedEmission breaks spec.keys ⟨finalRun, st.runs⟩, ?_,
          by rwa [sortedEmission, Emission.toExcept_ofOutcome]⟩
        rw [emission, hparent, ExceptList.bind_ok, Emission.drain_eq_ok.mpr ⟨xs, hxs, hfold⟩,
          ExceptList.bind_ok, hfinal]
        rfl
  | shuffleReadExec stageId schema isBroadcast =>
      constructor
      · rintro ⟨m, hm, hrows⟩
        obtain ⟨xs, hxs, hm⟩ := ExceptList.bind_eq_ok.mp hm
        cases hm
        exact ⟨_, ExceptList.bind_eq_ok.mpr ⟨xs, hxs, rfl⟩, hrows⟩
      · rintro ⟨p, hp, hrows⟩
        obtain ⟨xs, hxs, hp⟩ := ExceptList.bind_eq_ok.mp hp
        cases hp
        exact ⟨_, ExceptList.bind_eq_ok.mpr ⟨xs, hxs, rfl⟩, hrows⟩
  | exchangeExec child n exprs isBroadcast boundaries =>
      exact iff_of_false (fun ⟨_, h, _⟩ => by cases h) (fun ⟨_, h, _⟩ => by cases h)
  | shuffleWriteExec child n exprs boundaries =>
      exact iff_of_false (fun ⟨_, h, _⟩ => by cases h) (fun ⟨_, h, _⟩ => by cases h)

end Plans

end MiniSpark
