import MiniSpark.OrderedDict
import MiniSpark.Repr

/-!
# Expression trees

`Column`, `Literal`, `Alias`, the binary classes, the unary predicates and the
aggregate functions. Evaluation is row at a time; an aggregate has no value
for a single row and raises.
-/
namespace MiniSpark

/-- `Record = dict[str, Any]`. -/
abbrev Record (F : Type) := OrderedDict String (Value F)

inductive AggregateName
  | count | sum | avg | min | max
  deriving DecidableEq, Repr

/-- `type(self).__name__`. -/
def AggregateName.className : AggregateName → String
  | .count => "Count"
  | .sum => "Sum"
  | .avg => "Avg"
  | .min => "Min"
  | .max => "Max"

inductive Expression (F : Type)
  | column (name : String)
  | literal (value : Value F)
  | aliased (child : Expression F) (name : String)
  | binary (op : BinaryOp) (left right : Expression F)
  | not (child : Expression F)
  | isNull (child : Expression F)
  | isNotNull (child : Expression F)
  /-- `Count(None)`, that is `count(*)`. -/
  | countStar
  | aggregate (name : AggregateName) (child : Expression F)
  deriving DecidableEq, Repr

namespace Expression

variable {F : Type}

/-- `Column.evaluate`'s lookup and its error text. -/
def lookupColumn [PyRuntime F] (record : Record F) (name : String) : Py (Value F) :=
  match record.get? name with
  | some v => .ok v
  | none => .error (.keyError ("Column '" ++ name ++ "' not found in record with keys " ++
      reprNames (PyRuntime.isPrintable F) record.keys))

/-- `AggregateFunction.evaluate` always raises. -/
def aggregateHasNoValue (className : String) : PyError :=
  .notImplementedError (className ++ " is an aggregate expression; it has no per-row value. " ++
    "It is driven through initialize()/update()/merge()/finalize() by HashAggregateExec, " ++
    "not evaluate().")

/-- `evaluate`: both operands of a binary expression are always evaluated, left first. -/
def evaluate [PyRuntime F] : Expression F → Record F → Py (Value F)
  | .column name, record => lookupColumn record name
  | .literal value, _ => .ok value
  | .aliased child _, record => child.evaluate record
  | .binary op left right, record => do
      let a ← left.evaluate record
      let b ← right.evaluate record
      op.op a b
  | .not child, record => do
      let v ← child.evaluate record
      pure (.bool (!v.truthy))
  | .isNull child, record => do
      let v ← child.evaluate record
      pure (.bool v.isNone)
  | .isNotNull child, record => do
      let v ← child.evaluate record
      pure (.bool (!v.isNone))
  | .countStar, _ => .error (aggregateHasNoValue "Count")
  | .aggregate name _, _ => .error (aggregateHasNoValue name.className)

/-- `repr(expr)`. -/
def repr [PyRuntime F] : Expression F → Py String
  | .column name => .ok ("Column(" ++ reprStr (PyRuntime.isPrintable F) name ++ ")")
  | .literal value => do
      let text ← value.repr
      pure ("Literal(" ++ text ++ ")")
  | .aliased child name => do
      let text ← child.repr
      pure ("Alias(" ++ text ++ ", " ++ reprStr (PyRuntime.isPrintable F) name ++ ")")
  | .binary op left right => do
      let l ← left.repr
      let r ← right.repr
      pure (op.className ++ "(" ++ l ++ ", " ++ r ++ ")")
  | .not child => do
      let text ← child.repr
      pure ("Not(" ++ text ++ ")")
  | .isNull child => do
      let text ← child.repr
      pure ("IsNull(" ++ text ++ ")")
  | .isNotNull child => do
      let text ← child.repr
      pure ("IsNotNull(" ++ text ++ ")")
  | .countStar => .ok "Count(*)"
  | .aggregate name child => do
      let text ← child.repr
      pure (name.className ++ "(" ++ text ++ ")")

/-- `output_name`: an alias or a column by name, anything else by its text. -/
def outputName [PyRuntime F] : Expression F → Py String
  | .aliased _ name => .ok name
  | .column name => .ok name
  | e => e.repr

/-- The text of an expression with literals of any length. -/
def text [PyRuntime F] : Expression F → String
  | .column name => "Column(" ++ reprStr (PyRuntime.isPrintable F) name ++ ")"
  | .literal value => "Literal(" ++ value.text ++ ")"
  | .aliased child name =>
      "Alias(" ++ child.text ++ ", " ++ reprStr (PyRuntime.isPrintable F) name ++ ")"
  | .binary op left right => op.className ++ "(" ++ left.text ++ ", " ++ right.text ++ ")"
  | .not child => "Not(" ++ child.text ++ ")"
  | .isNull child => "IsNull(" ++ child.text ++ ")"
  | .isNotNull child => "IsNotNull(" ++ child.text ++ ")"
  | .countStar => "Count(*)"
  | .aggregate name child => name.className ++ "(" ++ child.text ++ ")"

/-- Whether every literal of an expression prints. -/
def prints [PyRuntime F] : Expression F → Bool
  | .column _ => true
  | .literal value => value.prints
  | .aliased child _ => child.prints
  | .binary _ left right => left.prints && right.prints
  | .not child => child.prints
  | .isNull child => child.prints
  | .isNotNull child => child.prints
  | .countStar => true
  | .aggregate _ child => child.prints

/-- The output name of an expression whose output name prints. -/
def columnName [PyRuntime F] : Expression F → String
  | .aliased _ name => name
  | .column name => name
  | e => e.text

/-- Whether the output name prints. -/
def namePrints [PyRuntime F] : Expression F → Bool
  | .aliased _ _ => true
  | .column _ => true
  | e => e.prints

/-- `expr.child if isinstance(expr, Alias) else expr`. -/
def unalias : Expression F → Expression F
  | .aliased child _ => child
  | e => e

/-- `referenced_columns`. -/
def referencedColumns : Expression F → List String
  | .column name => [name]
  | .literal _ => []
  | .aliased child _ => child.referencedColumns
  | .binary _ left right => left.referencedColumns ++ right.referencedColumns
  | .not child => child.referencedColumns
  | .isNull child => child.referencedColumns
  | .isNotNull child => child.referencedColumns
  | .countStar => []
  | .aggregate _ child => child.referencedColumns

/-- An expression prints its text or exceeds the digit limit. -/
theorem repr_eq [PyRuntime F] (e : Expression F) : e.repr = printed F e.prints e.text := by
  induction e with
  | column name => rfl
  | literal value =>
      rw [repr, value.repr_eq]
      exact printed_bind _ _ (fun t => "Literal(" ++ t ++ ")")
  | aliased child name ih =>
      rw [repr, ih]
      exact printed_bind _ _
        (fun t => "Alias(" ++ t ++ ", " ++ reprStr (PyRuntime.isPrintable F) name ++ ")")
  | binary op left right ihl ihr =>
      rw [repr, ihl, ihr]
      exact printed_bind_printed _ _ _ _ (fun l r => op.className ++ "(" ++ l ++ ", " ++ r ++ ")")
  | not child ih =>
      rw [repr, ih]
      exact printed_bind _ _ (fun t => "Not(" ++ t ++ ")")
  | isNull child ih =>
      rw [repr, ih]
      exact printed_bind _ _ (fun t => "IsNull(" ++ t ++ ")")
  | isNotNull child ih =>
      rw [repr, ih]
      exact printed_bind _ _ (fun t => "IsNotNull(" ++ t ++ ")")
  | countStar => rfl
  | aggregate name child ih =>
      rw [repr, ih]
      exact printed_bind _ _ (fun t => name.className ++ "(" ++ t ++ ")")

theorem prints_unalias [PyRuntime F] {e : Expression F} (h : e.prints = true) :
    e.unalias.prints = true := by
  cases e <;> exact h

theorem namePrints_of_prints [PyRuntime F] {e : Expression F} (h : e.prints = true) :
    e.namePrints = true := by
  cases e with
  | column name => rfl
  | aliased child name => rfl
  | _ => exact h

theorem outputName_eq [PyRuntime F] (e : Expression F) :
    e.outputName = printed F e.namePrints e.columnName := by
  cases e with
  | column name => rfl
  | aliased child name => rfl
  | _ => exact repr_eq _

@[simp] theorem evaluate_column [PyRuntime F] (name : String) (r : Record F) :
    (column name).evaluate r = lookupColumn r name := rfl

@[simp] theorem evaluate_literal [PyRuntime F] (v : Value F) (r : Record F) :
    (literal v).evaluate r = .ok v := rfl

@[simp] theorem evaluate_aliased [PyRuntime F] (e : Expression F) (name : String) (r : Record F) :
    (aliased e name).evaluate r = e.evaluate r := rfl

theorem evaluate_binary_ok [PyRuntime F] {op : BinaryOp} {l e : Expression F} {r : Record F}
    {v : Value F} : (binary op l e).evaluate r = .ok v ↔
      ∃ a b, l.evaluate r = .ok a ∧ e.evaluate r = .ok b ∧ op.op a b = .ok v := by
  simp only [evaluate, ExceptList.bind_eq_ok]
  constructor
  · rintro ⟨a, ha, b, hb, h⟩
    exact ⟨a, b, ha, hb, h⟩
  · rintro ⟨a, b, ha, hb, h⟩
    exact ⟨a, ha, b, hb, h⟩

theorem evaluate_not_ok [PyRuntime F] {e : Expression F} {r : Record F} {v : Value F} :
    (not e).evaluate r = .ok v ↔ ∃ a, e.evaluate r = .ok a ∧ .bool (!a.truthy) = v := by
  simp [evaluate, ExceptList.bind_eq_ok]

theorem evaluate_isNull_ok [PyRuntime F] {e : Expression F} {r : Record F} {v : Value F} :
    (isNull e).evaluate r = .ok v ↔ ∃ a, e.evaluate r = .ok a ∧ .bool a.isNone = v := by
  simp [evaluate, ExceptList.bind_eq_ok]

theorem evaluate_isNotNull_ok [PyRuntime F] {e : Expression F} {r : Record F} {v : Value F} :
    (isNotNull e).evaluate r = .ok v ↔ ∃ a, e.evaluate r = .ok a ∧ .bool (!a.isNone) = v := by
  simp [evaluate, ExceptList.bind_eq_ok]

theorem lookupColumn_eq_ok [PyRuntime F] {r : Record F} {name : String} {v : Value F} :
    lookupColumn r name = .ok v ↔ r.get? name = some v := by
  unfold lookupColumn
  cases r.get? name <;> simp

/-- Evaluation depends only on the columns an expression references. -/
theorem evaluate_congr [PyRuntime F] (e : Expression F) {r s : Record F} {v : Value F}
    (h : ∀ name ∈ e.referencedColumns, s.get? name = r.get? name)
    (hv : e.evaluate r = .ok v) : e.evaluate s = .ok v := by
  induction e generalizing v with
  | column name =>
      rw [evaluate_column, lookupColumn_eq_ok] at *
      rw [h name (by simp [referencedColumns]), hv]
  | literal value => exact hv
  | aliased child name ih => exact ih h hv
  | binary op left right ihl ihr =>
      obtain ⟨a, b, ha, hb, hop⟩ := evaluate_binary_ok.mp hv
      have hl := ihl (fun n hn => h n (by simp [referencedColumns, hn])) ha
      have hr := ihr (fun n hn => h n (by simp [referencedColumns, hn])) hb
      exact evaluate_binary_ok.mpr ⟨a, b, hl, hr, hop⟩
  | not child ih =>
      obtain ⟨a, ha, hav⟩ := evaluate_not_ok.mp hv
      exact evaluate_not_ok.mpr ⟨a, ih h ha, hav⟩
  | isNull child ih =>
      obtain ⟨a, ha, hav⟩ := evaluate_isNull_ok.mp hv
      exact evaluate_isNull_ok.mpr ⟨a, ih h ha, hav⟩
  | isNotNull child ih =>
      obtain ⟨a, ha, hav⟩ := evaluate_isNotNull_ok.mp hv
      exact evaluate_isNotNull_ok.mpr ⟨a, ih h ha, hav⟩
  | countStar => exact absurd hv (by simp [evaluate])
  | aggregate name child _ => exact absurd hv (by simp [evaluate])

end Expression

end MiniSpark
