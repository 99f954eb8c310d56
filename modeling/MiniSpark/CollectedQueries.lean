import MiniSpark.DataFrame
import MiniSpark.DataSources
import MiniSpark.OptimizedQueries
import MiniSpark.OptimizerRuns

/-!
# What the actions of a data frame return

An action goes through the whole engine: analysis, the optimizer, the scan pushdown, the physical
plan, the stages and the scheduler. What comes out are the rows of running each operator of the
query as the user wrote it on all the rows of its children.
-/
namespace MiniSpark

variable {F : Type} [PyRuntime F] [PyHost F] [PyCsv F]

/-- What an action takes: a query the analyzer accepts over sources that answer, a configuration
that can be read, a plan that is ready for the optimizer, and rows that can be dealt. -/
structure DataFrame.Accepted (df : DataFrame F) : Prop where
  workers : ∃ n, df.config.engine.numWorkers F = .ok n
  partitions : 1 ≤ df.config.execution.shufflePartitions
  analyzed : analyze df.plan = .ok df.plan
  ready : df.plan.Ready passedOnce
  sources : df.plan.SourcesAnswer
  distributable : df.plan.Distributable

/-- The same of a data frame over any sources, with what each source does under the filter that
the optimized plan pushes to it. -/
structure DataFrame.AcceptedScans (P : ScanSource F → Dataset F → Option (Expression F) → Prop)
    (df : DataFrame F) : Prop where
  workers : ∃ n, df.config.engine.numWorkers F = .ok n
  partitions : 1 ≤ df.config.execution.shufflePartitions
  analyzed : analyze df.plan = .ok df.plan
  ready : df.plan.Ready passedOnce
  distributable : df.plan.Distributable
  scans : ∀ plan, df.optimizedPlan = .ok plan → plan.ScansMeet P none

namespace DataFrame

variable {df : DataFrame F} {rows : List (Record F)}

omit [PyHost F] [PyCsv F] in
/-- An accepted query is optimized to a plan that means the same. -/
lemma optimizedPlan_optimizes (hanalyzed : analyze df.plan = .ok df.plan)
    (hready : df.plan.Ready passedOnce) (hrun : naiveRows df.plan = .ok rows) :
    ∃ plan, df.optimizedPlan = .ok plan ∧ Optimizes df.plan plan := by
  have h := hready.underway hanalyzed hrun
  obtain ⟨plan, hplan, hopt⟩ := optimizeLoop_optimizes h.analyzed h.settled h.conform
    (h.loopSafe df.config.optimizer defaultMaxIterations)
  refine ⟨plan, ?_, hopt⟩
  rw [optimizedPlan, hanalyzed]
  exact hplan

omit [PyHost F] in
/-- Sources that answer in general answer the reads of the planner. -/
lemma Accepted.acceptedScans (h : df.Accepted) (hrun : naiveRows df.plan = .ok rows) :
    df.AcceptedScans ScanSource.AnswersFilter where
  workers := h.workers
  partitions := h.partitions
  analyzed := h.analyzed
  ready := h.ready
  distributable := h.distributable
  scans plan hplan := by
    obtain ⟨plan', hplan', hopt⟩ := optimizedPlan_optimizes h.analyzed h.ready hrun
    obtain rfl := Except.ok.inj (hplan.symm.trans hplan')
    exact (h.sources.of_scanned hopt.scannedTables).scansMeet none

omit [PyHost F] in
lemma AcceptedScans.mono {P Q : ScanSource F → Dataset F → Option (Expression F) → Prop}
    (h : df.AcceptedScans P) (himp : ∀ s d e, P s d e → Q s d e) : df.AcceptedScans Q where
  workers := h.workers
  partitions := h.partitions
  analyzed := h.analyzed
  ready := h.ready
  distributable := h.distributable
  scans plan hplan := (h.scans plan hplan).mono himp

/-- The physical plan of an accepted query denotes its rows. -/
theorem AcceptedScans.planned (h : df.AcceptedScans ScanSource.AnswersFilter)
    (hrun : naiveRows df.plan = .ok rows) :
    ∃ plan physical parts reference, df.optimizedPlan = .ok plan ∧
      planPhysical df.config.execution.shufflePartitions df.config.memory.spillThresholdBytes plan =
        .ok physical ∧
      df.plan.schema = .ok physical.schema ∧ denotedRows physical = .ok parts ∧
      EqualRows rows reference ∧ parts.flatten.Perm reference ∧
      ∀ child keys, df.plan = .sort child keys →
        parts.flatten.Pairwise (fun a b => rowLe keys a b = true) := by
  have ha := analyzed_of_analyze h.analyzed
  obtain ⟨plan, hplan, hopt⟩ := optimizedPlan_optimizes h.analyzed h.ready hrun
  obtain ⟨reference, hreference, hequal⟩ := hopt.refines.equalRows ha h.ready.conform hopt.names hrun
  obtain ⟨physical, parts, htranslate, hparts, hperm, hordered⟩ :=
    translate_rows df.config.memory.spillThresholdBytes h.partitions hopt.names.analyzed
      (h.ready.conform.mono hopt.names.tables) (hopt.distributable rows hrun h.distributable) hreference
  -- the scans are read again, as far as the sources allow
  obtain ⟨physical', hphysical, hschema, hemulates⟩ :=
    planPhysical_emulates hopt.names.analyzed (h.scans plan hplan) htranslate
  refine ⟨plan, physical', parts, reference, hplan, hphysical, ?_, hemulates.denotedRows hparts,
    hequal, hperm, fun child keys hsort => ?_⟩
  · rw [← hopt.schema, translate_schema htranslate, hschema]
  · obtain ⟨child', hsorted⟩ := hopt.sorted child keys hsort
    exact hordered child' keys hsorted

/-- The dataset of an accepted query. -/
theorem AcceptedScans.collectDataset (h : df.AcceptedScans ScanSource.AnswersFilter)
    (hrun : naiveRows df.plan = .ok rows) (root : String) (disk : Disk F) :
    ∃ schema parts reference, df.plan.schema = .ok schema ∧
      df.collectDataset root disk = .ok (rowsDataset schema parts) ∧
      EqualRows rows reference ∧ parts.flatten.Perm reference ∧
      ∀ child keys, df.plan = .sort child keys →
        parts.flatten.Pairwise (fun a b => rowLe keys a b = true) := by
  obtain ⟨plan, physical, parts, reference, hplan, hphysical, hschema, hparts, hrows⟩ :=
    h.planned hrun
  obtain ⟨n, hn⟩ := h.workers
  obtain ⟨stages, hstages, hruns⟩ :=
    runPlan_of_denotedRows hparts df.config.engine.maxTaskRetries root disk
  refine ⟨physical.schema, parts, reference, hschema, ?_, hrows⟩
  have hall : df.stages = .ok stages := by
    rw [DataFrame.stages, hplan, ExceptList.bind_ok, hphysical, ExceptList.bind_ok, hstages]
  rw [DataFrame.collectDataset, raising_eq_ok.mpr hn, ExceptList.bind_ok, raising_eq_ok.mpr hall,
    ExceptList.bind_ok, hruns]
  rfl

theorem Accepted.collectDataset (h : df.Accepted) (hrun : naiveRows df.plan = .ok rows)
    (root : String) (disk : Disk F) :
    ∃ schema parts reference, df.plan.schema = .ok schema ∧
      df.collectDataset root disk = .ok (rowsDataset schema parts) ∧
      EqualRows rows reference ∧ parts.flatten.Perm reference ∧
      ∀ child keys, df.plan = .sort child keys →
        parts.flatten.Pairwise (fun a b => rowLe keys a b = true) :=
  (h.acceptedScans hrun).collectDataset hrun root disk

/-- What the actions return, by the dataset. -/
lemma AcceptedScans.collect (h : df.AcceptedScans ScanSource.AnswersFilter)
    (hrun : naiveRows df.plan = .ok rows) (root : String) (disk : Disk F) :
    ∃ dataset out reference, df.collectDataset root disk = .ok dataset ∧
      df.plan.schema = .ok dataset.schema ∧ df.collect root disk = .ok out ∧
      df.count root disk = .ok out.length ∧ EqualRows rows reference ∧ out.Perm reference ∧
      ∀ child keys, df.plan = .sort child keys →
        out.Pairwise (fun a b => rowLe keys a b = true) := by
  obtain ⟨schema, parts, reference, hschema, hdataset, hrows⟩ := h.collectDataset hrun root disk
  refine ⟨_, parts.flatten, reference, hdataset, hschema, ?_, ?_, hrows⟩
  · rw [DataFrame.collect, hdataset, ExceptList.bind_ok, rowsDataset_iterRecords]
    rfl
  · rw [DataFrame.count, hdataset, ExceptList.bind_ok, rowsDataset_countRows]
    rfl

end DataFrame

/-- Collecting an accepted query returns its rows in some order, those of a sort in order, under
the schema the data frame declares, and counting them returns their number. -/
theorem collect_returns_queryRows {df : DataFrame F} {rows : List (Record F)} (h : df.Accepted)
    (hrun : naiveRows df.plan = .ok rows) (root : String) (disk : Disk F) :
    ∃ dataset out reference, df.collectDataset root disk = .ok dataset ∧
      df.plan.schema = .ok dataset.schema ∧ df.collect root disk = .ok out ∧
      df.count root disk = .ok out.length ∧ EqualRows rows reference ∧ out.Perm reference ∧
      ∀ child keys, df.plan = .sort child keys →
        out.Pairwise (fun a b => rowLe keys a b = true) :=
  (h.acceptedScans hrun).collect hrun root disk

section Examples

/-- Two records in memory, in two partitions. -/
def abInMemory : LogicalPlan ℚ :=
  .scan (memoryDataset abSchema [(0, [abRecords[0]]), (1, [abRecords[1]])]) "memory"
    (some (memorySource abRecords (some abSchema) 2))

/-- Every sort spills every row. -/
def abFrame : DataFrame ℚ where
  config := { engine := { master := "local" }, execution := { shufflePartitions := 2 },
              memory := { spillThresholdBytes := 0 } }
  plan := filteredSort abInMemory aAboveTwenty

lemma abInMemory_conforms : abInMemory.TablesConform := by
  intro d hd rows hrows r hr
  obtain rfl : d = _ := List.mem_singleton.mp hd
  obtain rfl : abRecords = rows := Except.ok.inj hrows
  exact abRecords_keys r hr

lemma abFiltered_rows : naiveRows (.filter abInMemory aAboveTwenty) = .ok [abRecords[1]] := by
  decide +kernel

/-- The filtered rows of such a table can be dealt by their sort key. -/
lemma filteredSort_distributable {dataset : Dataset ℚ} {sourceName : String}
    {source : Option (ScanSource ℚ)}
    (hfiltered : naiveRows (.filter (.scan dataset sourceName source) aAboveTwenty) =
      .ok [abRecords[1]]) :
    (filteredSort (.scan dataset sourceName source) aAboveTwenty).Distributable := by
  refine ⟨trivial, by simp, fun rows hrows => ⟨?_, ?_, ?_⟩⟩
  · obtain rfl := Except.ok.inj (hfiltered.symm.trans hrows)
    intro k hk
    obtain rfl := List.mem_singleton.mp hk
    refine SortableBy.of_numbers (fun r hr => ?_)
    obtain rfl := List.mem_singleton.mp hr
    exact ⟨.int 30, some 30, rfl, rfl⟩
  · obtain rfl := Except.ok.inj (hfiltered.symm.trans hrows)
    intro name ascending rest schema field hkeys _ _ _
    simp only [List.cons.injEq, Prod.mk.injEq, Expression.column.injEq] at hkeys
    obtain ⟨⟨rfl, -⟩, -⟩ := hkeys
    refine ⟨id, exactFloats_rat, fun r hr v hv => ?_⟩
    obtain rfl := List.mem_singleton.mp hr
    cases hv
    exact ⟨30, rfl⟩
  · obtain rfl := Except.ok.inj (hfiltered.symm.trans hrows)
    intro name ascending rest hkeys
    simp only [List.cons.injEq, Prod.mk.injEq, Expression.column.injEq] at hkeys
    obtain ⟨⟨rfl, -⟩, -⟩ := hkeys
    exact List.forall_mem_singleton.mpr (by decide)

lemma aAboveTwenty_ready : ConditionReady passedOnce aAboveTwenty where
  constants := by
    refine ⟨trivial, ⟨trivial, trivial, ?_⟩, fun a b ha => by cases ha⟩
    rintro a b ⟨⟩ ⟨⟩
    exact ⟨.int 20, rfl, by decide⟩
  kept := ⟨trivial, trivial, trivial⟩
  live := by decide +kernel

lemma filteredSort_ready {dataset : Dataset ℚ} {sourceName : String}
    {source : Option (ScanSource ℚ)}
    (h : (filteredSort (.scan dataset sourceName source) aAboveTwenty).TablesConform) :
    (filteredSort (.scan dataset sourceName source) aAboveTwenty).Ready passedOnce where
  conform := h
  settled := trivial
  conditions := List.forall_mem_singleton.mpr aAboveTwenty_ready
  columns := List.forall_mem_nil _
  places := trivial

lemma abFrame_accepted : abFrame.Accepted where
  workers := ⟨1, rfl⟩
  partitions := by decide
  analyzed := rfl
  ready := filteredSort_ready abInMemory_conforms
  sources := by
    rintro s ⟨⟩
    exact (memorySource_answersInFull rfl abRecords_keys).answers
  distributable := filteredSort_distributable abFiltered_rows

/-- A folded filter over records in memory, sorted with every row spilled. -/
theorem collect_returns_queryRows_sorted : ∃ dataset out reference,
    abFrame.collectDataset "root" (fun _ => none) = .ok dataset ∧
      abFrame.plan.schema = .ok dataset.schema ∧ abFrame.collect "root" (fun _ => none) = .ok out ∧
      abFrame.count "root" (fun _ => none) = .ok out.length ∧ EqualRows [abRecords[1]] reference ∧
      out.Perm reference ∧
      ∀ child keys, abFrame.plan = .sort child keys →
        out.Pairwise (fun a b => rowLe keys a b = true) :=
  collect_returns_queryRows abFrame_accepted (by decide +kernel) "root" (fun _ => none)

end Examples

end MiniSpark
