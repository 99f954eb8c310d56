import MiniSpark.CollectedQueries
import MiniSpark.ParquetReads

/-!
# Queries over Parquet

The one source that drops rows. What the optimizer leaves of the conditions above a scan is
pushed into the storage engine, with its own logic of nulls; where every accepted row passes what
is pushed, an action returns the rows of the query all the same.
-/
namespace MiniSpark

variable {F : Type} [PyRuntime F] [PyHost F] [PyCsv F] [PyArrow F]

omit [PyHost F] [PyCsv F] in
/-- A scan of any source that answers, or of a Parquet directory of one schema that can be read
under the filter pushed to it and whose accepted rows pass what is pushed. -/
inductive ScanRests (source : ScanSource F) (dataset : Dataset F)
    (filterExpr : Option (Expression F)) : Prop
  | answers : source.Answers dataset → ScanRests source dataset filterExpr
  | parquet (numPartitions : ℤ) (dir : Directory F) : source = parquetSource numPartitions dir →
      source.read none none = .ok dataset → dir.OneSchema →
      (∀ e ∈ filterExpr, ∀ f, translatePredicate e = some f → dir.Evaluates f) →
      (∀ e ∈ filterExpr, ∀ p ∈ dataset.partitions, ∀ rows, p.toList = .ok rows →
        ∀ r ∈ rows, PassesPushed e r) → ScanRests source dataset filterExpr

omit [PyHost F] [PyCsv F] in
lemma ScanRests.answersFilter {kernel : ArrowKernel F} (hkernel : kernel.Reads)
    {source : ScanSource F} {dataset : Dataset F} {filterExpr : Option (Expression F)}
    (h : ScanRests source dataset filterExpr) : source.AnswersFilter dataset filterExpr := by
  cases h with
  | answers h => exact h.answersFilter filterExpr
  | parquet numPartitions dir hsource hfull hschema heval hpasses =>
      subst hsource
      exact parquetSource_answersFilter hkernel hschema hfull heval hpasses

/-- Collecting a query over Parquet directories and other sources returns its rows in some order,
those of a sort in order, whatever columns and filters the planner pushes into the reads, as long
as every row that a pushed condition accepts passes what the storage engine evaluates of it. -/
theorem collect_over_parquet {kernel : ArrowKernel F} (hkernel : kernel.Reads) {df : DataFrame F}
    {rows : List (Record F)} (h : df.AcceptedScans ScanRests) (hrun : naiveRows df.plan = .ok rows)
    (root : String) (disk : Disk F) :
    ∃ dataset out reference, df.collectDataset root disk = .ok dataset ∧
      df.plan.schema = .ok dataset.schema ∧ df.collect root disk = .ok out ∧
      df.count root disk = .ok out.length ∧ EqualRows rows reference ∧ out.Perm reference ∧
      ∀ child keys, df.plan = .sort child keys →
        out.Pairwise (fun a b => rowLe keys a b = true) := by
  have hanswered : df.AcceptedScans ScanSource.AnswersFilter :=
    h.mono (fun _ _ _ hscan => hscan.answersFilter hkernel)
  exact hanswered.collect hrun root disk

section Examples

def abParquetFrame : DataFrame ℚ where
  config := abFrame.config
  plan := filteredSort (.scan abOnDisk "parquet:ab" (some abParquet)) aAboveTwenty

lemma abFiltered_onDisk :
    naiveRows (.filter (.scan abOnDisk "parquet:ab" (some abParquet)) aAboveTwenty) =
      .ok [abRecords[1]] := by
  decide +kernel

lemma abParquetFrame_accepted : abParquetFrame.AcceptedScans (@ScanRests ℚ _ scanningArrow) where
  workers := ⟨1, rfl⟩
  partitions := by decide
  analyzed := rfl
  ready := by
    refine filteredSort_ready (fun d hd rows hrows => ?_)
    obtain rfl : d = _ := List.mem_singleton.mp hd
    obtain rfl : abRecords = rows := by
      have hall : abOnDisk.iterRecords = .ok abRecords := by decide +kernel
      exact Except.ok.inj (hall.symm.trans hrows)
    exact abRecords_keys
  distributable := filteredSort_distributable abFiltered_onDisk
  scans := by
    intro plan hplan
    have hoptimized : abParquetFrame.optimizedPlan =
        .ok (filteredSort (.scan abOnDisk "parquet:ab" (some abParquet)) aAbove) := by
      have hanalyzed : analyze abParquetFrame.plan = .ok abParquetFrame.plan := rfl
      rw [DataFrame.optimizedPlan, hanalyzed, ExceptList.bind_ok]
      exact filteredSort_optimized abOnDisk "parquet:ab" (some abParquet)
    obtain rfl := Except.ok.inj (hoptimized.symm.trans hplan)
    rintro s ⟨⟩
    refine @ScanRests.parquet ℚ _ scanningArrow _ _ _ 2 abFiles rfl abParquet_reads
      abFiles_oneSchema ?_ ?_
    · intro e he f hf g hg
      exact ⟨_, rfl⟩
    · intro e he p hp rows hrows r hr
      cases he
      exact abRecords_pass r (abOnDisk_rows hp hrows hr)

/-- A filter that is folded, and pushed into the read of two files. -/
theorem collect_over_parquet_sorted : ∃ dataset out reference,
    abParquetFrame.collectDataset "root" (fun _ => none) = .ok dataset ∧
      abParquetFrame.plan.schema = .ok dataset.schema ∧
      abParquetFrame.collect "root" (fun _ => none) = .ok out ∧
      abParquetFrame.count "root" (fun _ => none) = .ok out.length ∧
      EqualRows [abRecords[1]] reference ∧ out.Perm reference ∧
      ∀ child keys, abParquetFrame.plan = .sort child keys →
        out.Pairwise (fun a b => rowLe keys a b = true) :=
  @collect_over_parquet ℚ _ _ _ scanningArrow _ scanningArrow_reads abParquetFrame _
    abParquetFrame_accepted (by decide +kernel) "root" (fun _ => none)

end Examples

end MiniSpark
