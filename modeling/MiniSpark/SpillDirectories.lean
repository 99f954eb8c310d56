import MiniSpark.StreamedExecution
import MiniSpark.Traced
import MiniSpark.Worker

/-!
# Spill directories

A directory is made when an operator first spills, and removed by the `finally` of the generator
that yields the operator's rows, which runs when the generator ends, raises, or is closed after
its consumer raised. A generator that was never started removes nothing. An operator has at most
one directory, which the position of its node in the plan names.
-/
namespace MiniSpark

variable {F : Type} [PyRuntime F]

/-- The path to a node from the root of the plan. -/
abbrev Position := List ℕ

/-- `make_spill_dir` and `cleanup_spill_dir`. -/
inductive SpillEvent
  | made (position : Position)
  | removed (position : Position)
  deriving DecidableEq, Repr

def SpillEvent.position : SpillEvent → Position
  | .made position => position
  | .removed position => position

/-- A partition: the rows of its first iteration, and the directory that the generator of these
rows removes once it has been started. -/
structure SpillOutput (F : Type) where
  rows : RowEmission F
  spillDir : Option Position

section Execution

variable {σ : Type}

/-- The removal of the directory of a partition. -/
def SpillOutput.released (out : SpillOutput F) : List SpillEvent :=
  out.spillDir.toList.map SpillEvent.removed

/-- A loop over a partition. -/
def SpillOutput.iterate (out : SpillOutput F) (step : σ → Record F → Traced PyError SpillEvent σ)
    (s : σ) : Traced PyError SpillEvent σ :=
  (do let t ← out.rows.items.foldlM step s
      Traced.lift (out.rows.ending t)).ensuring out.released

variable [PyHost F]

/-- One iteration of the accumulation loop, which makes the directory before it hashes the keys
of the first spill. -/
def accumulateSpilling (position : Position) (spec : HashAggregate F)
    (aggs : List (AggregateFunction F)) (acc : Accumulation F) (record : Record F) :
    Traced PyError SpillEvent (Accumulation F) := do
  let next ← Traced.lift (advanceGroups spec aggs acc record)
  Traced.emitIf (next.2 ≥ spec.spillThresholdBytes ∧ ¬ acc.spilled) (.made position)
  Traced.lift (spillOrKeep spec acc next.1 next.2)

/-- One iteration of the buffering loop, which makes the directory before it sorts the first run. -/
def bufferSpilling (position : Position) (spec : Sorting F) (st : SortBuffer F)
    (record : Record F) : Traced PyError SpillEvent (SortBuffer F) := do
  Traced.emitIf (st.runs = [] ∧
    st.bufferBytes + estimateRecordBytes record ≥ spec.spillThresholdBytes) (.made position)
  Traced.lift (bufferRow spec st record)

variable (breaks : Breaks F) (read : ℕ → ℕ → Py (List (Record F)))

/-- `execute_partition`, with its directories. -/
def executeSpilling : PhysicalPlan F → ℕ → Position → Traced PyError SpillEvent (SpillOutput F)
  | .scanExec dataset _, pid, _ => do
      let part ← Traced.lift (dataset.partition pid)
      pure ⟨Emission.ofOutcome (breaks.scan part) part.toList, none⟩
  | .filterExec child condition, pid, position => do
      let parent ← executeSpilling child pid (position ++ [0])
      pure ⟨filterEmission condition parent.rows, parent.spillDir⟩
  | .projectExec child columns schema, pid, position => do
      let parent ← executeSpilling child pid (position ++ [0])
      pure ⟨projectEmission schema.fieldNames columns parent.rows, parent.spillDir⟩
  | .hashAggregateExec child spec, pid, position => do
      let parent ← executeSpilling child pid (position ++ [0])
      let aggs ← Traced.lift (spec.aggregates.mapM unwrapAggregate)
      let acc ← parent.iterate (accumulateSpilling position spec aggs) (Accumulation.start F)
      pure ⟨accumulatedEmission spec aggs acc, if acc.spilled then some position else none⟩
  | .hashJoinExec left right leftKeys rightKeys on _, pid, position => do
      let leftPart ← executeSpilling left pid (position ++ [0])
      let rightPart ← executeSpilling right pid (position ++ [1])
      let table ← leftPart.iterate (fun table record => Traced.lift (tableRow leftKeys table record))
        OrderedDict.empty
      let rows ← rightPart.iterate (fun rows record => pure (rows ++ [record])) []
      pure ⟨probeEmission table rightKeys on rows, none⟩
  | .sortExec child spec, pid, position => do
      let parent ← executeSpilling child pid (position ++ [0])
      let st ← parent.iterate (bufferSpilling position spec) ⟨0, [], 0, []⟩
      let finalRun ← Traced.lift (sortRows st.buffer spec.keys)
      pure ⟨sortedEmission breaks spec.keys ⟨finalRun, st.runs⟩,
        if st.runs = [] then none else some position⟩
  | .shuffleReadExec stageId _ _, pid, _ => do
      let rows ← Traced.lift (read stageId pid)
      pure ⟨⟨rows, none⟩, none⟩
  | p@(.exchangeExec _ _ _ _ _), _, _ => Traced.lift (.error (noPartitionOperator p))
  | p@(.shuffleWriteExec _ _ _ _), _, _ => Traced.lift (.error (noPartitionOperator p))

/-- `execute_partition` and the list of the rows of the partition. -/
def collectSpilling (plan : PhysicalPlan F) (pid : ℕ) :
    Traced PyError SpillEvent (List (Record F)) := do
  let out ← executeSpilling breaks read plan pid []
  out.iterate (fun rows record => pure (rows ++ [record])) []

end Execution

section Results

variable {σ : Type}

omit [PyRuntime F] in
/-- A loop over a partition ends as the loop over its rows does. -/
lemma iterate_result (out : SpillOutput F) (step : σ → Record F → Traced PyError SpillEvent σ)
    (s : σ) : (out.iterate step s).result =
      out.rows.drain (fun s record => (step s record).result) s := by
  unfold SpillOutput.iterate Emission.drain
  rw [Traced.result_ensuring, Traced.result_bind, Traced.result_foldlM]
  rfl

omit [PyRuntime F] in
lemma collect_result (m : RowEmission F) :
    m.drain (fun rows record => .ok (rows ++ [record])) [] = m.toExcept := by
  have hfold : ∀ (items rows : List (Record F)),
      items.foldlM (fun rows record => (.ok (rows ++ [record]) : Py (List (Record F)))) rows =
        .ok (rows ++ items) := by
    intro items
    induction items with
    | nil => exact fun rows => by rw [List.append_nil]; rfl
    | cons r items ih =>
        intro rows
        rw [List.foldlM_cons, ExceptList.bind_ok, ih, List.append_assoc]
        rfl
  unfold Emission.drain Emission.toExcept
  rw [hfold, ExceptList.bind_ok, List.nil_append]

variable [PyHost F]

@[simp] lemma accumulateSpilling_result (position : Position) (spec : HashAggregate F)
    (aggs : List (AggregateFunction F)) (acc : Accumulation F) (record : Record F) :
    (accumulateSpilling position spec aggs acc record).result = accumulate spec aggs acc record := by
  simp only [accumulateSpilling, Traced.result_bind, Traced.result_lift, Traced.result_emitIf,
    ExceptList.bind_ok]
  exact (accumulate_eq_advance spec aggs acc record).symm

@[simp] lemma bufferSpilling_result (position : Position) (spec : Sorting F) (st : SortBuffer F)
    (record : Record F) :
    (bufferSpilling position spec st record).result = bufferRow spec st record := by
  unfold bufferSpilling
  simp

variable (breaks : Breaks F) (read : ℕ → ℕ → Py (List (Record F)))

/-- Keeping account of the directories does not change what a plan yields. -/
theorem executeSpilling_rows (plan : PhysicalPlan F) (pid : ℕ) (position : Position) :
    SpillOutput.rows <$> (executeSpilling breaks read plan pid position).result =
      emission breaks read plan pid := by
  induction plan generalizing position with
  | filterExec child condition ih =>
      rw [emission, ← ih (position ++ [0]), executeSpilling, Traced.result_bind]
      cases (executeSpilling breaks read child pid (position ++ [0])).result <;> rfl
  | projectExec child columns schema ih =>
      rw [emission, ← ih (position ++ [0]), executeSpilling, Traced.result_bind]
      cases (executeSpilling breaks read child pid (position ++ [0])).result <;> rfl
  | hashAggregateExec child spec ih =>
      rw [emission, ← ih (position ++ [0]), executeSpilling, Traced.result_bind]
      cases (executeSpilling breaks read child pid (position ++ [0])).result with
      | error e => rfl
      | ok parent =>
          simp only [ExceptList.map_ok, ExceptList.bind_ok, Traced.result_bind, Traced.result_lift,
            iterate_result, accumulateSpilling_result]
          cases spec.aggregates.mapM unwrapAggregate with
          | error e => rfl
          | ok aggs =>
              simp only [ExceptList.bind_ok]
              cases parent.rows.drain (accumulate spec aggs) (Accumulation.start F) <;> rfl
  | hashJoinExec left right leftKeys rightKeys on schema ihl ihr =>
      rw [emission, ← ihl (position ++ [0]), ← ihr (position ++ [1]), executeSpilling,
        Traced.result_bind]
      cases (executeSpilling breaks read left pid (position ++ [0])).result with
      | error e => rfl
      | ok leftPart =>
          rw [ExceptList.bind_ok, Traced.result_bind]
          cases (executeSpilling breaks read right pid (position ++ [1])).result with
          | error e => rfl
          | ok rightPart =>
              simp only [ExceptList.map_ok, ExceptList.bind_ok, Traced.result_bind,
                Traced.result_lift, iterate_result, Traced.result_pure, collect_result]
              cases leftPart.rows.drain (tableRow leftKeys) OrderedDict.empty with
              | error e => rfl
              | ok table => cases rightPart.rows.toExcept <;> rfl
  | sortExec child spec ih =>
      rw [emission, ← ih (position ++ [0]), executeSpilling, Traced.result_bind]
      cases (executeSpilling breaks read child pid (position ++ [0])).result with
      | error e => rfl
      | ok parent =>
          simp only [ExceptList.map_ok, ExceptList.bind_ok, Traced.result_bind, Traced.result_lift,
            iterate_result, bufferSpilling_result]
          cases parent.rows.drain (bufferRow spec) ⟨0, [], 0, []⟩ with
          | error e => rfl
          | ok st =>
              simp only [ExceptList.bind_ok]
              cases sortRows st.buffer spec.keys <;> rfl
  | scanExec dataset sourceName =>
      rw [emission, executeSpilling, Traced.result_bind, Traced.result_lift]
      cases dataset.partition pid <;> rfl
  | shuffleReadExec stageId schema isBroadcast =>
      rw [emission, executeSpilling, Traced.result_bind, Traced.result_lift]
      cases read stageId pid <;> rfl
  | exchangeExec child n exprs isBroadcast boundaries => rfl
  | shuffleWriteExec child n exprs boundaries => rfl

end Results

section Outstanding

variable {t u : List SpillEvent} {p : Position}

/-- A directory that was made and is not removed. -/
def Outstanding (trace : List SpillEvent) (position : Position) : Prop :=
  .made position ∈ trace ∧ .removed position ∉ trace

@[simp] lemma outstanding_nil : ¬ Outstanding [] p := fun h => by cases h.1

end Outstanding

section Loops

variable [PyHost F] (position : Position)

end Loops

end MiniSpark
