import MiniSpark.AttemptOutcomes
import MiniSpark.CollectedQueries
import MiniSpark.QueryExecution
import MiniSpark.RecoveredRuns

/-!
# Queries that run into failures

An action whose attempts fail and whose shuffle files are deleted or damaged between attempts
raises, or returns what it returns when nothing fails: the rows of the query.
-/
namespace MiniSpark

variable {F : Type} [PyRuntime F] [PyHost F] [PyCsv F]

/-- `_collect_dataset`, with the tasks run as given. -/
def DataFrame.collectDatasetWith {W : Type} (df : DataFrame F)
    (runTask : Task F → ℕ → W → TaskResult F × W) (root : String) (w : W) :
    Except ActionError (Dataset F) := do
  let _ ← raising (df.config.engine.numWorkers F)
  let stages ← raising df.stages
  (runPlan df.config.engine.maxTaskRetries runTask root stages w).mapError .run

lemma DataFrame.collectDataset_eq (df : DataFrame F) (root : String) (disk : Disk F) :
    df.collectDataset root disk = df.collectDatasetWith executeTask root disk := rfl

lemma mapError_eq_ok {ε ε' α : Type} {f : ε → ε'} {x : Except ε α} {a : α} :
    x.mapError f = .ok a ↔ x = .ok a := by
  cases x <;> simp [Except.mapError]

/-- A run that returns under failures returns the dataset of a run without. -/
theorem DataFrame.collectDatasetWith_faulty {df : DataFrame F} {faults : ℕ → Fault F}
    {root : String} {w : FaultyWorld F} {dataset : Dataset F}
    (h : df.collectDatasetWith (faultyTask faults) root w = .ok dataset) (root' : String)
    (disk : Disk F) : df.collectDataset root' disk = .ok dataset := by
  obtain ⟨n, hn, h⟩ := ExceptList.bind_eq_ok.mp h
  obtain ⟨stages, hstages, h⟩ := ExceptList.bind_eq_ok.mp h
  obtain ⟨optimized, hoptimized, hall⟩ := ExceptList.bind_eq_ok.mp (raising_eq_ok.mp hstages)
  obtain ⟨physical, hphysical, hbuild⟩ := ExceptList.bind_eq_ok.mp hall
  obtain ⟨parts, hreturn, rfl⟩ :=
    runPlan_safe (faultyTask_unreliable faults) hbuild (mapError_eq_ok.mp h)
  rw [collectDataset, hn, ExceptList.bind_ok, hstages, ExceptList.bind_ok, mapError_eq_ok]
  exact hreturn.runPlan df.config.engine.maxTaskRetries root' disk

/-- Whatever attempts of whatever tasks fail, whatever block files are lost or damaged on the way
and wherever the run starts, an accepted query that returns has returned its rows, in the order of
its sort, and the very dataset it returns when nothing fails. -/
theorem faultyCollect_returns_queryRows {df : DataFrame F} {rows : List (Record F)}
    (h : df.Accepted) (hrun : naiveRows df.plan = .ok rows) {faults : ℕ → Fault F} {root : String}
    {w : FaultyWorld F} {dataset : Dataset F}
    (hcollect : df.collectDatasetWith (faultyTask faults) root w = .ok dataset) :
    ∃ out reference, dataset.iterRecords = .ok out ∧ dataset.countRows = .ok out.length ∧
      df.plan.schema = .ok dataset.schema ∧ EqualRows rows reference ∧ out.Perm reference ∧
      (∀ child keys, df.plan = .sort child keys →
        out.Pairwise (fun a b => rowLe keys a b = true)) ∧
      ∀ root' disk, df.collectDataset root' disk = .ok dataset := by
  have hclean := df.collectDatasetWith_faulty hcollect
  obtain ⟨schema, parts, reference, hschema, hdataset, hrows, hperm, hordered⟩ :=
    h.collectDataset hrun root w.disk
  obtain rfl : dataset = rowsDataset schema parts :=
    Except.ok.inj ((hclean root w.disk).symm.trans hdataset)
  exact ⟨parts.flatten, reference, rowsDataset_iterRecords schema parts,
    rowsDataset_countRows schema parts, hschema, hrows, hperm, hordered, hclean⟩

section Examples

/-- Two tables joined through a shuffle, without pushdown and pruning. -/
def joinFrame : DataFrame ℚ where
  config := { engine := { master := "local" }, execution := { shufflePartitions := 1 },
              optimizer := { predicatePushdown := false, projectionPruning := false } }
  plan := .join (intTable ["a", "b"] ab_nodup abParts) (intTable ["a", "c"] ac_nodup acParts) ["a"]
    "inner" false

lemma joinFrame_accepted : joinFrame.Accepted where
  workers := ⟨1, rfl⟩
  partitions := by decide
  analyzed := rfl
  ready := ⟨joined_conforms (intTable_conforms ab_nodup (by decide))
    (intTable_conforms ac_nodup (by decide)), ⟨trivial, trivial⟩, List.forall_mem_nil _,
    List.forall_mem_nil _, trivial, trivial, trivial⟩
  sources := by
    constructor <;> rintro s ⟨⟩
  distributable := joinedTables_distributable

/-- A joined query with a failed attempt and a recomputed stage. -/
theorem faultyCollect_returns_queryRows_join : ∃ dataset out rows reference,
    joinFrame.collectDatasetWith (faultyTask lossAndCrash) "root" ⟨fun _ => none, 0⟩ = .ok dataset ∧
      naiveRows joinFrame.plan = .ok rows ∧ dataset.iterRecords = .ok out ∧
      EqualRows rows reference ∧ out.Perm reference := by
  have hsome : (joinFrame.collectDatasetWith (faultyTask lossAndCrash) "root"
      ⟨fun _ => none, 0⟩).toOption.isSome = true := by decide +kernel
  have hrows : (naiveRows joinFrame.plan).toOption.isSome = true := by decide +kernel
  cases hrun : naiveRows joinFrame.plan with
  | error e => simp [hrun, Except.toOption] at hrows
  | ok rows =>
      cases hcollect : joinFrame.collectDatasetWith (faultyTask lossAndCrash) "root" ⟨fun _ => none, 0⟩ with
      | error e => simp [hcollect, Except.toOption] at hsome
      | ok dataset =>
          obtain ⟨out, reference, hout, -, -, hequal, hperm, -⟩ :=
            faultyCollect_returns_queryRows joinFrame_accepted hrun hcollect
          exact ⟨dataset, out, rows, reference, rfl, rfl, hout, hequal, hperm⟩

end Examples

end MiniSpark
