import MiniSpark.LogicalPlan

/-!
# Aggregate functions

The four steps of an aggregate: `initialize`, `update` with a raw row, `merge`
of two states, `finalize`. A state is a value: a count, a running sum, a
`(sum, count)` pair, or the extremum so far.
-/
namespace MiniSpark

/-- An `AggregateFunction` object; only `Count` may have no child. -/
structure AggregateFunction (F : Type) where
  name : AggregateName
  child : Option (Expression F)

variable {F : Type} [PyRuntime F]

omit [PyRuntime F] in
/-- `_unwrap_aggregate`. -/
def unwrapAggregate (e : Expression F) : Py (AggregateFunction F) :=
  match e.unalias with
  | .countStar => .ok ⟨.count, none⟩
  | .aggregate name child => .ok ⟨name, some child⟩
  | _ => .error .assertionError

namespace AggregateName

/-- `initialize()`. -/
def initialState : AggregateName → Value F
  | .count => .int 0
  | .sum => .none
  | .avg => .pair (.int 0) (.int 0)
  | .min => .none
  | .max => .none

/-- `Sum`: the first value, then `state + value`. -/
def updateSum (state value : Value F) : Py (Value F) :=
  if state.isNone then .ok value else state.add value

/-- `Avg`: add to the total and count one more. -/
def updateAvg (state value : Value F) : Py (Value F) :=
  match state with
  | .pair total n => do
      let total' ← total.add value
      let n' ← n.add (.int 1)
      pure (.pair total' n')
  | _ => .error .typeError

/-- `Min` and `Max`: replace the state when `better value state`. -/
def updateExtremum (better : Value F → Value F → Py Bool) (state value : Value F) :
    Py (Value F) :=
  if state.isNone then .ok value
  else do
    let b ← better value state
    pure (if b then value else state)

/-- Fold one non-null value into a state. -/
def updateValue : AggregateName → Value F → Value F → Py (Value F)
  | .count, state, _ => state.add (.int 1)
  | .sum, state, value => updateSum state value
  | .avg, state, value => updateAvg state value
  | .min, state, value => updateExtremum (fun v s => v.lt s) state value
  | .max, state, value => updateExtremum (fun v s => s.lt v) state value

/-- Combine two states of `Sum`, `Min` or `Max`, where a null state is neutral. -/
def mergeNullable (f : Value F → Value F → Py (Value F)) (a b : Value F) : Py (Value F) :=
  if a.isNone then .ok b else if b.isNone then .ok a else f a b

def mergeAvg (a b : Value F) : Py (Value F) :=
  match a, b with
  | .pair total n, .pair total' n' => do
      let t ← total.add total'
      let m ← n.add n'
      pure (.pair t m)
  | _, _ => .error .typeError

/-- `state_a if better(state_a, state_b) else state_b`. -/
def mergeExtremum (better : Value F → Value F → Py Bool) (a b : Value F) : Py (Value F) := do
  let x ← better a b
  pure (if x then a else b)

def merge : AggregateName → Value F → Value F → Py (Value F)
  | .count, a, b => a.add b
  | .sum, a, b => mergeNullable Value.add a b
  | .avg, a, b => mergeAvg a b
  | .min, a, b => mergeNullable (mergeExtremum (fun v s => v.lt s)) a b
  | .max, a, b => mergeNullable (mergeExtremum (fun v s => s.lt v)) a b

/-- `(total / count) if count else None`. -/
def finalizeAvg (state : Value F) : Py (Value F) :=
  match state with
  | .pair total n => if n.truthy then total.truediv n else .ok .none
  | _ => .error .typeError

def finalize : AggregateName → Value F → Py (Value F)
  | .avg, state => finalizeAvg state
  | _, state => .ok state

end AggregateName

namespace AggregateFunction

/-- `update`: a null value leaves the state as it is; `count(*)` counts every row. -/
def update (agg : AggregateFunction F) (state : Value F) (record : Record F) : Py (Value F) :=
  match agg.name, agg.child with
  | .count, none => state.add (.int 1)
  | .count, some e => do
      let v ← e.evaluate record
      state.add (.int (if v.isNone then 0 else 1))
  | _, none => .error .assertionError
  | name, some e => do
      let v ← e.evaluate record
      if v.isNone then pure state else name.updateValue state v

end AggregateFunction

end MiniSpark
