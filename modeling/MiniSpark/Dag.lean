import MiniSpark.PhysicalPlan

/-!
# The dependency graph of a physical plan

A node whose children have to be shuffled first is wide: only the exchange is.
-/
namespace MiniSpark

variable {F : Type}

namespace PhysicalPlan

/-- The `children` property. -/
def children : PhysicalPlan F → List (PhysicalPlan F)
  | .scanExec _ _ => []
  | .filterExec child _ => [child]
  | .projectExec child _ _ => [child]
  | .hashAggregateExec child _ => [child]
  | .exchangeExec child _ _ _ _ => [child]
  | .shuffleWriteExec child _ _ _ => [child]
  | .shuffleReadExec _ _ _ => []
  | .hashJoinExec left right _ _ _ _ => [left, right]
  | .sortExec child _ => [child]

/-- `isinstance(plan, ExchangeExec)`. -/
def isExchange : PhysicalPlan F → Bool
  | .exchangeExec _ _ _ _ _ => true
  | _ => false

/-- The nodes of a plan, a node before its children. -/
def nodes : PhysicalPlan F → List (PhysicalPlan F)
  | p@(.scanExec _ _) => [p]
  | p@(.filterExec child _) => p :: child.nodes
  | p@(.projectExec child _ _) => p :: child.nodes
  | p@(.hashAggregateExec child _) => p :: child.nodes
  | p@(.exchangeExec child _ _ _ _) => p :: child.nodes
  | p@(.shuffleWriteExec child _ _ _) => p :: child.nodes
  | p@(.shuffleReadExec _ _ _) => [p]
  | p@(.hashJoinExec left right _ _ _ _) => p :: (left.nodes ++ right.nodes)
  | p@(.sortExec child _) => p :: child.nodes

lemma mem_nodes_self (plan : PhysicalPlan F) : plan ∈ plan.nodes := by
  cases plan <;> exact List.mem_cons_self

/-- The number of `ExchangeExec` nodes. -/
def exchangeCount (plan : PhysicalPlan F) : ℕ := plan.nodes.countP isExchange

end PhysicalPlan

inductive DependencyKind
  | narrow | wide
  deriving DecidableEq, Repr

/-- `dependency_kind`. -/
def dependencyKind (plan : PhysicalPlan F) : DependencyKind :=
  if plan.isExchange then .wide else .narrow

inductive DAGNode (F : Type)
  | node (plan : PhysicalPlan F) (dependency : DependencyKind) (children : List (DAGNode F))

/-- `build_dag`. -/
def buildDag : PhysicalPlan F → DAGNode F
  | p@(.scanExec _ _) => .node p (dependencyKind p) []
  | p@(.filterExec child _) => .node p (dependencyKind p) [buildDag child]
  | p@(.projectExec child _ _) => .node p (dependencyKind p) [buildDag child]
  | p@(.hashAggregateExec child _) => .node p (dependencyKind p) [buildDag child]
  | p@(.exchangeExec child _ _ _ _) => .node p (dependencyKind p) [buildDag child]
  | p@(.shuffleWriteExec child _ _ _) => .node p (dependencyKind p) [buildDag child]
  | p@(.shuffleReadExec _ _ _) => .node p (dependencyKind p) []
  | p@(.hashJoinExec left right _ _ _ _) =>
      .node p (dependencyKind p) [buildDag left, buildDag right]
  | p@(.sortExec child _) => .node p (dependencyKind p) [buildDag child]

mutual

/-- `has_wide_dependency`. -/
def hasWideDependency : DAGNode F → Bool
  | .node _ dependency children => if dependency = .wide then true else anyWide children

/-- `any(has_wide_dependency(child) for child in node.children)`. -/
def anyWide : List (DAGNode F) → Bool
  | [] => false
  | child :: children => hasWideDependency child || anyWide children

end

/-- A wide dependency is an exchange. -/
theorem hasWideDependency_buildDag (plan : PhysicalPlan F) :
    hasWideDependency (buildDag plan) = true ↔ 0 < plan.exchangeCount := by
  have hcount : ∀ q : PhysicalPlan F, q.exchangeCount = q.nodes.countP PhysicalPlan.isExchange :=
    fun _ => rfl
  induction plan with
  | exchangeExec child n exprs bc rb ih =>
      simp [buildDag, hasWideDependency, dependencyKind, hcount, PhysicalPlan.nodes,
        PhysicalPlan.isExchange]
  | hashJoinExec left right lk rk on schema ihl ihr =>
      rw [hcount] at ihl ihr
      simp only [buildDag, hasWideDependency, anyWide, dependencyKind, hcount, PhysicalPlan.nodes,
        PhysicalPlan.isExchange, Bool.or_false, List.countP_cons,
        List.countP_append, Bool.false_eq_true, if_false, reduceCtorEq, Bool.or_eq_true, ihl, ihr]
      omega
  | scanExec dataset sourceName =>
      simp [buildDag, hasWideDependency, anyWide, dependencyKind, hcount, PhysicalPlan.nodes,
        PhysicalPlan.isExchange]
  | shuffleReadExec stageId schema bc =>
      simp [buildDag, hasWideDependency, anyWide, dependencyKind, hcount, PhysicalPlan.nodes,
        PhysicalPlan.isExchange]
  | _ =>
      simp_all [buildDag, hasWideDependency, anyWide, dependencyKind, PhysicalPlan.nodes,
        PhysicalPlan.isExchange]

end MiniSpark
