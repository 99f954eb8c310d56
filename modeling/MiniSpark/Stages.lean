import MiniSpark.PhysicalPlan

/-!
# Stages

Splitting a physical plan at its exchanges. The stages found so far are threaded
through the walk; the number of the next stage is their count.
-/
namespace MiniSpark

variable {F : Type}

structure Stage (F : Type) where
  stageId : ℕ
  plan : PhysicalPlan F
  numPartitions : ℕ

/-- A plan fragment of the stage still open, and its number of partitions. -/
structure Fragment (F : Type) where
  plan : PhysicalPlan F
  numPartitions : ℕ

/-- `_split`, on the stages closed so far. Rebuilding a node whose child did not
change yields the node again. -/
def split : PhysicalPlan F → List (Stage F) → Py (Fragment F × List (Stage F))
  | p@(.scanExec dataset _), stages => .ok (⟨p, dataset.numPartitions⟩, stages)
  | .exchangeExec child numPartitions exprs isBroadcast rangeBoundaries, stages => do
      let (fragment, stages) ← split child stages
      let writePlan := .shuffleWriteExec fragment.plan numPartitions exprs rangeBoundaries
      let stages' := stages ++ [⟨stages.length, writePlan, fragment.numPartitions⟩]
      pure (⟨.shuffleReadExec stages.length child.schema isBroadcast, numPartitions⟩, stages')
  | .hashJoinExec left right leftKeys rightKeys on schema, stages => do
      let (leftFragment, stages) ← split left stages
      let (rightFragment, stages) ← split right stages
      pure (⟨.hashJoinExec leftFragment.plan rightFragment.plan leftKeys rightKeys on schema,
        leftFragment.numPartitions⟩, stages)
  | .filterExec child condition, stages => do
      let (fragment, stages) ← split child stages
      pure (⟨.filterExec fragment.plan condition, fragment.numPartitions⟩, stages)
  | .projectExec child columns schema, stages => do
      let (fragment, stages) ← split child stages
      pure (⟨.projectExec fragment.plan columns schema, fragment.numPartitions⟩, stages)
  | .hashAggregateExec child spec, stages => do
      let (fragment, stages) ← split child stages
      pure (⟨.hashAggregateExec fragment.plan spec, fragment.numPartitions⟩, stages)
  | .sortExec child spec, stages => do
      let (fragment, stages) ← split child stages
      pure (⟨.sortExec fragment.plan spec, fragment.numPartitions⟩, stages)
  | .shuffleWriteExec child numPartitions exprs rangeBoundaries, stages => do
      let (fragment, stages') ← split child stages
      if stages'.length = stages.length then
        pure (⟨.shuffleWriteExec fragment.plan numPartitions exprs rangeBoundaries,
          fragment.numPartitions⟩, stages')
      else .error (.notImplementedError
        "Cannot rebuild physical node ShuffleWriteExec with a new child")
  | .shuffleReadExec _ _ _, _ => .error (.notImplementedError
      "Stage splitting has no rule for physical node ShuffleReadExec")

/-- `build_stages`. -/
def buildStages (plan : PhysicalPlan F) : Py (List (Stage F)) := do
  let (fragment, stages) ← split plan []
  pure (stages ++ [⟨stages.length, fragment.plan, fragment.numPartitions⟩])

end MiniSpark
