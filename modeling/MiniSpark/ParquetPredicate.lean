import MiniSpark.Kleene
import MiniSpark.Analyzer
import MiniSpark.RowOperators

/-!
# Predicates pushed to Parquet

`translate_predicate` turns a filter condition into a storage filter, dropping
the conjuncts it has no translation for. The storage engine compares with
three-valued logic while the row engine compares with `==`, so a pushed filter
is compared with the condition row by row.
-/
namespace MiniSpark

variable {F : Type}

/-- A field reference or a scalar in a storage filter. -/
inductive ArrowOperand (F : Type)
  | field (name : String)
  | scalar (value : Value F)

/-- `pyarrow.dataset.Expression`, as far as the translation builds them. -/
inductive ArrowFilter (F : Type)
  | compare (op : BinaryOp) (left right : ArrowOperand F)
  | and (left right : ArrowFilter F)
  | or (left right : ArrowFilter F)
  | not (child : ArrowFilter F)
  | isNull (operand : ArrowOperand F)
  | isValid (operand : ArrowOperand F)

/-- Membership in `_COMPARISONS`. -/
def BinaryOp.isComparison : BinaryOp → Bool
  | .greaterThan | .greaterEqual | .lessThan | .lessEqual | .equal | .notEqual => true
  | _ => false

/-- `isinstance(operand, pa_dataset.Expression)`. -/
def ArrowOperand.isExpression : ArrowOperand F → Bool
  | .field _ => true
  | .scalar _ => false

/-- `_translate_operand`, with `none` for `_UNSUPPORTED`. -/
def translateOperand : Expression F → Option (ArrowOperand F)
  | .column name => some (.field name)
  | .literal value => if value.isNone then none else some (.scalar value)
  | _ => none

/-- `translate_predicate`. -/
def translatePredicate : Expression F → Option (ArrowFilter F)
  | .binary .and left right =>
      match translatePredicate left, translatePredicate right with
      | some l, some r => some (.and l r)
      | some l, none => some l
      | none, r => r
  | .binary .or left right =>
      match translatePredicate left, translatePredicate right with
      | some l, some r => some (.or l r)
      | _, _ => none
  | .not child => (translatePredicate child).map ArrowFilter.not
  | .isNull child =>
      match translateOperand child with
      | some operand => if operand.isExpression then some (.isNull operand) else none
      | none => none
  | .isNotNull child =>
      match translateOperand child with
      | some operand => if operand.isExpression then some (.isValid operand) else none
      | none => none
  | .binary op left right =>
      if op.isComparison then
        match translateOperand left, translateOperand right with
        | some l, some r => if l.isExpression then some (.compare op l r) else none
        | _, _ => none
      else none
  | _ => none

/-- What is assumed of the storage engine's comparisons: null on a null operand,
and the interpreter's comparison on two values. -/
structure ArrowKernel (F : Type) [PyRuntime F] where
  compare : BinaryOp → Value F → Value F → Option Bool
  compare_null : ∀ op a b, (a.isNone || b.isNone) = true → compare op a b = none
  compare_values : ∀ op a b v, op.isComparison = true → (a.isNone || b.isNone) = false →
    op.op a b = .ok v → compare op a b = some v.truthy

/-- The value of an operand on a row. -/
def ArrowOperand.value [PyRuntime F] (r : Record F) : ArrowOperand F → Option (Value F)
  | .field name => r.get? name
  | .scalar value => some value

/-- The truth of a filter on a row; a row is kept when it is `some true`. -/
def ArrowFilter.eval [PyRuntime F] (kernel : ArrowKernel F) (r : Record F) :
    ArrowFilter F → Option Bool
  | .compare op left right => do
      let a ← left.value r
      let b ← right.value r
      kernel.compare op a b
  | .and left right => Kleene.and (left.eval kernel r) (right.eval kernel r)
  | .or left right => Kleene.or (left.eval kernel r) (right.eval kernel r)
  | .not child => Kleene.not (child.eval kernel r)
  | .isNull operand => (operand.value r).map Value.isNone
  | .isValid operand => (operand.value r).map (fun v => !v.isNone)

/-- Comparisons as the interpreter makes them, null on a null operand. -/
def interpreterKernel (F : Type) [PyRuntime F] : ArrowKernel F where
  compare op a b :=
    if a.isNone || b.isNone then none
    else match op.op a b with
      | .ok v => some v.truthy
      | .error _ => none
  compare_null op a b h := by rw [if_pos h]
  compare_values op a b v _ h hv := by simp [h, hv]

section Kept

variable [PyRuntime F]

/-- Operands with a translation: columns and non-null literals. -/
def isOperand : Expression F → Bool
  | .column _ => true
  | .literal value => !value.isNone
  | _ => false

/-- The shapes that have a translation. -/
def pushable : Expression F → Bool
  | .binary .and left right => pushable left || pushable right
  | .binary .or left right => pushable left && pushable right
  | .not child => pushable child
  | .isNull child => child.isColumn
  | .isNotNull child => child.isColumn
  | .binary op left right => op.isComparison && left.isColumn && isOperand right
  | _ => false

/-- The condition without the conjuncts that have no translation. -/
def kept : Expression F → Expression F
  | .binary .and left right =>
      if pushable left then
        if pushable right then .binary .and (kept left) (kept right) else kept left
      else kept right
  | .binary .or left right => .binary .or (kept left) (kept right)
  | .not child => .not (kept child)
  | e => e

/-- `e` evaluates to a value other than null. -/
def NonNull (r : Record F) (e : Expression F) : Prop := ∀ v, e.evaluate r = .ok v → v.isNone = false

/-- The truth value `b` of the expression rests on comparisons of non-null values only. -/
def RestsOnValues (r : Record F) : Expression F → Bool → Prop
  | .binary .and left right, true => RestsOnValues r left true ∧ RestsOnValues r right true
  | .binary .and left right, false =>
      (holds left r = .ok false ∧ RestsOnValues r left false) ∨
        (holds right r = .ok false ∧ RestsOnValues r right false)
  | .binary .or left right, true =>
      (holds left r = .ok true ∧ RestsOnValues r left true) ∨
        (holds right r = .ok true ∧ RestsOnValues r right true)
  | .binary .or left right, false => RestsOnValues r left false ∧ RestsOnValues r right false
  | .not child, b => RestsOnValues r child (!b)
  | .binary _ left right, _ => NonNull r left ∧ NonNull r right
  | _, _ => True

omit [PyRuntime F] in
lemma translateOperand_isSome (e : Expression F) : (translateOperand e).isSome = isOperand e := by
  cases e with
  | literal value => cases h : value.isNone <;> simp [translateOperand, isOperand, h]
  | _ => rfl

omit [PyRuntime F] in
lemma translateOperand_isExpression {e : Expression F} {o : ArrowOperand F}
    (h : translateOperand e = some o) : o.isExpression = e.isColumn := by
  cases e with
  | column name => cases h; rfl
  | literal value =>
      simp only [translateOperand] at h
      split at h
      · cases h
      · cases h; rfl
  | _ => cases h

omit [PyRuntime F] in
lemma isColumn_isOperand {e : Expression F} (h : e.isColumn = true) : isOperand e = true := by
  cases e <;> simp_all [Expression.isColumn, isOperand]

/-- An operand stands for the value the row engine computes. -/
lemma translateOperand_value {e : Expression F} {o : ArrowOperand F} {r : Record F} {v : Value F}
    (h : translateOperand e = some o) (hv : e.evaluate r = .ok v) : o.value r = some v := by
  cases e with
  | column name =>
      cases h
      exact Expression.lookupColumn_eq_ok.mp hv
  | literal value =>
      simp only [translateOperand] at h
      split at h
      · cases h
      · cases h
        cases hv
        rfl
  | _ => cases h

omit [PyRuntime F] in
lemma translateComparison_eq_some {op : BinaryOp} {left right : Expression F} {f : ArrowFilter F}
    (hop : op.isComparison = true) :
    translatePredicate (.binary op left right) = some f ↔
      ∃ l e, translateOperand left = some l ∧ translateOperand right = some e ∧
        l.isExpression = true ∧ f = .compare op l e := by
  have hdef : translatePredicate (.binary op left right) =
      match translateOperand left, translateOperand right with
      | some l, some r => if l.isExpression then some (.compare op l r) else none
      | _, _ => none := by
    cases op <;> simp_all [translatePredicate, BinaryOp.isComparison]
  rw [hdef]
  cases translateOperand left with
  | none => simp
  | some l =>
      cases translateOperand right with
      | none => simp
      | some e => cases hl : l.isExpression <;> simp [hl, @eq_comm _ _ f]

omit [PyRuntime F] in
/-- A null test has a translation only on a column. -/
lemma translateNullTest_eq_some {child : Expression F} {g : ArrowOperand F → ArrowFilter F}
    {f : ArrowFilter F} :
    (match translateOperand child with
      | some operand => if operand.isExpression then some (g operand) else none
      | none => none) = some f ↔ ∃ name, child = .column name ∧ f = g (.field name) := by
  cases child with
  | column name => simp [translateOperand, ArrowOperand.isExpression, @eq_comm _ _ f]
  | literal value => cases h : value.isNone <;> simp [translateOperand, ArrowOperand.isExpression, h]
  | _ => simp [translateOperand]

omit [PyRuntime F] in
/-- The shapes that have a translation are the ones the translation accepts. -/
theorem pushable_eq_isSome (e : Expression F) : pushable e = (translatePredicate e).isSome := by
  induction e with
  | binary op left right ihl ihr =>
      cases hop : op.isComparison with
      | true =>
          have hp : pushable (.binary op left right) = (left.isColumn && isOperand right) := by
            cases op <;> simp_all [pushable, BinaryOp.isComparison]
          rw [hp, Bool.eq_iff_iff, Option.isSome_iff_exists]
          simp only [translateComparison_eq_some hop, Bool.and_eq_true]
          constructor
          · rintro ⟨hl, hr⟩
            obtain ⟨l, hl'⟩ := Option.isSome_iff_exists.mp
              ((translateOperand_isSome left).trans (isColumn_isOperand hl))
            obtain ⟨e, he⟩ := Option.isSome_iff_exists.mp ((translateOperand_isSome right).trans hr)
            exact ⟨_, l, e, hl', he, (translateOperand_isExpression hl').trans hl, rfl⟩
          · rintro ⟨_, l, e, hl, he, hexp, _⟩
            refine ⟨(translateOperand_isExpression hl).symm.trans hexp, ?_⟩
            rw [← translateOperand_isSome, he, Option.isSome_some]
      | false =>
          cases op with
          | and =>
              simp only [pushable, ihl, ihr, translatePredicate]
              cases translatePredicate left <;> cases translatePredicate right <;> rfl
          | or =>
              simp only [pushable, ihl, ihr, translatePredicate]
              cases translatePredicate left <;> cases translatePredicate right <;> rfl
          | _ => simp_all [pushable, translatePredicate, BinaryOp.isComparison]
  | not child ih => simp [pushable, translatePredicate, ih]
  | isNull child =>
      rw [Bool.eq_iff_iff, Option.isSome_iff_exists]
      simp only [translatePredicate, translateNullTest_eq_some]
      cases child <;> simp [pushable, Expression.isColumn]
  | isNotNull child =>
      rw [Bool.eq_iff_iff, Option.isSome_iff_exists]
      simp only [translatePredicate, translateNullTest_eq_some]
      cases child <;> simp [pushable, Expression.isColumn]
  | _ => rfl

lemma holds_eq_ok {e : Expression F} {r : Record F} {b : Bool} :
    holds e r = .ok b ↔ ∃ v, e.evaluate r = .ok v ∧ v.truthy = b := ExceptList.map_eq_ok

lemma holds_and {l e : Expression F} {r : Record F} {a b : Bool} (hl : holds l r = .ok a)
    (he : holds e r = .ok b) : holds (.binary .and l e) r = .ok (a && b) := by
  obtain ⟨v, hv, rfl⟩ := holds_eq_ok.mp hl
  obtain ⟨w, hw, rfl⟩ := holds_eq_ok.mp he
  exact holds_eq_ok.mpr ⟨_, Expression.evaluate_binary_ok.mpr ⟨v, w, hv, hw, rfl⟩, rfl⟩

lemma holds_or {l e : Expression F} {r : Record F} {a b : Bool} (hl : holds l r = .ok a)
    (he : holds e r = .ok b) : holds (.binary .or l e) r = .ok (a || b) := by
  obtain ⟨v, hv, rfl⟩ := holds_eq_ok.mp hl
  obtain ⟨w, hw, rfl⟩ := holds_eq_ok.mp he
  exact holds_eq_ok.mpr ⟨_, Expression.evaluate_binary_ok.mpr ⟨v, w, hv, hw, rfl⟩, rfl⟩

lemma holds_not {e : Expression F} {r : Record F} {a : Bool} (h : holds e r = .ok a) :
    holds (.not e) r = .ok (!a) := by
  obtain ⟨v, hv, rfl⟩ := holds_eq_ok.mp h
  exact holds_eq_ok.mpr ⟨_, Expression.evaluate_not_ok.mpr ⟨v, hv, rfl⟩, rfl⟩

/-- Dropping conjuncts evaluates nothing new. -/
lemma kept_holds {e : Expression F} {r : Record F} {a : Bool} (h : holds e r = .ok a) :
    ∃ b, holds (kept e) r = .ok b := by
  induction e generalizing a with
  | binary op l e ihl ihe =>
      obtain ⟨v, hv, rfl⟩ := holds_eq_ok.mp h
      obtain ⟨x, y, hx, hy, _⟩ := Expression.evaluate_binary_ok.mp hv
      obtain ⟨b, hb⟩ := ihl (holds_eq_ok.mpr ⟨x, hx, rfl⟩)
      obtain ⟨c, hc⟩ := ihe (holds_eq_ok.mpr ⟨y, hy, rfl⟩)
      cases op with
      | and =>
          simp only [kept]
          split
          · split
            · exact ⟨_, holds_and hb hc⟩
            · exact ⟨b, hb⟩
          · exact ⟨c, hc⟩
      | or => exact ⟨_, holds_or hb hc⟩
      | _ => exact ⟨_, h⟩
  | not child ih =>
      obtain ⟨v, hv, rfl⟩ := holds_eq_ok.mp h
      obtain ⟨x, hx, _⟩ := Expression.evaluate_not_ok.mp hv
      obtain ⟨b, hb⟩ := ih (holds_eq_ok.mpr ⟨x, hx, rfl⟩)
      exact ⟨_, holds_not hb⟩
  | _ => exact ⟨a, h⟩

omit [PyRuntime F] in
lemma kept_comparison {op : BinaryOp} (hop : op.isComparison = true) (l e : Expression F) :
    kept (.binary op l e) = .binary op l e := by
  cases op <;> first | rfl | cases hop

lemma restsOnValues_comparison {op : BinaryOp} (hop : op.isComparison = true) {l e : Expression F}
    {r : Record F} {b : Bool} :
    RestsOnValues r (.binary op l e) b ↔ NonNull r l ∧ NonNull r e := by
  cases op <;> first | rfl | cases hop

/-- A pushed comparison knows its outcome exactly on two values. -/
lemma eval_comparison (kernel : ArrowKernel F) {op : BinaryOp} {left right : Expression F}
    {f : ArrowFilter F} {r : Record F} {v : Value F} (hop : op.isComparison = true)
    (hf : translatePredicate (.binary op left right) = some f)
    (hv : (Expression.binary op left right).evaluate r = .ok v) (b : Bool) :
    f.eval kernel r = some b ↔ v.truthy = b ∧ NonNull r left ∧ NonNull r right := by
  obtain ⟨l, e, hl, he, -, rfl⟩ := (translateComparison_eq_some hop).mp hf
  obtain ⟨x, y, hx, hy, hxy⟩ := Expression.evaluate_binary_ok.mp hv
  have hnl : NonNull r left ↔ x.isNone = false := by simp [NonNull, hx]
  have hnr : NonNull r right ↔ y.isNone = false := by simp [NonNull, hy]
  simp only [ArrowFilter.eval, translateOperand_value hl hx, translateOperand_value he hy,
    Option.bind_eq_bind, Option.bind_some, hnl, hnr]
  cases hnull : x.isNone || y.isNone with
  | true =>
      rw [kernel.compare_null op x y hnull]
      rcases (Bool.or_eq_true _ _).mp hnull with h | h <;> simp [h]
  | false =>
      rw [kernel.compare_values op x y v hop hnull hxy]
      obtain ⟨h1, h2⟩ := Bool.or_eq_false_iff.mp hnull
      simp [h1, h2]

/-- What a pushed filter knows of a row: the truth of the kept condition, where it
rests on values. -/
theorem eval_translatePredicate (kernel : ArrowKernel F) {e : Expression F} {f : ArrowFilter F}
    {r : Record F} {v : Value F} (hf : translatePredicate e = some f)
    (hv : e.evaluate r = .ok v) (b : Bool) :
    f.eval kernel r = some b ↔ holds (kept e) r = .ok b ∧ RestsOnValues r (kept e) b := by
  induction e generalizing f v b with
  | binary op l e ihl ihe =>
      obtain ⟨x, y, hx, hy, _⟩ := Expression.evaluate_binary_ok.mp hv
      obtain ⟨bl, hbl⟩ := kept_holds (holds_eq_ok.mpr ⟨x, hx, rfl⟩)
      obtain ⟨br, hbr⟩ := kept_holds (holds_eq_ok.mpr ⟨y, hy, rfl⟩)
      cases hop : op.isComparison with
      | true =>
          rw [kept_comparison hop, restsOnValues_comparison hop,
            eval_comparison kernel hop hf hv b, holds_eq_ok, hv]
          simp
      | false =>
          cases op with
          | and =>
              simp only [translatePredicate] at hf
              simp only [kept, pushable_eq_isSome]
              cases hl : translatePredicate l with
              | none =>
                  simp only [hl] at hf
                  simpa [hf] using ihe hf hy b
              | some fl =>
                  cases he : translatePredicate e with
                  | none =>
                      simp only [hl, he, Option.some.injEq] at hf
                      subst hf
                      simpa using ihl hl hx b
                  | some fe =>
                      simp only [hl, he, Option.some.injEq] at hf
                      subst hf
                      simp only [Option.isSome_some, if_true, holds_and hbl hbr, ArrowFilter.eval]
                      cases b with
                      | true =>
                          rw [Kleene.and_eq_true, ihl hl hx, ihe he hy, hbl, hbr]
                          cases bl <;> cases br <;> simp [RestsOnValues]
                      | false =>
                          rw [Kleene.and_eq_false, ihl hl hx, ihe he hy]
                          simp only [RestsOnValues, hbl, hbr]
                          cases bl <;> cases br <;> simp
          | or =>
              simp only [translatePredicate] at hf
              cases hl : translatePredicate l with
              | none => simp [hl] at hf
              | some fl =>
                  cases he : translatePredicate e with
                  | none => simp [hl, he] at hf
                  | some fe =>
                      simp only [hl, he, Option.some.injEq] at hf
                      subst hf
                      simp only [kept, holds_or hbl hbr, ArrowFilter.eval]
                      cases b with
                      | true =>
                          rw [Kleene.or_eq_true, ihl hl hx, ihe he hy]
                          simp only [RestsOnValues, hbl, hbr]
                          cases bl <;> cases br <;> simp
                      | false =>
                          rw [Kleene.or_eq_false, ihl hl hx, ihe he hy, hbl, hbr]
                          cases bl <;> cases br <;> simp [RestsOnValues]
          | add | subtract | multiply | divide => exact absurd hf (by
              simp [translatePredicate, BinaryOp.isComparison])
          | _ => cases hop
  | not child ih =>
      obtain ⟨g, hg, rfl⟩ := Option.map_eq_some_iff.mp hf
      obtain ⟨x, hx, _⟩ := Expression.evaluate_not_ok.mp hv
      obtain ⟨c, hc⟩ := kept_holds (holds_eq_ok.mpr ⟨x, hx, rfl⟩)
      simp only [kept, ArrowFilter.eval, Kleene.not_eq_some, ih hg hx, RestsOnValues,
        holds_not hc, hc]
      cases b <;> cases c <;> simp
  | isNull child =>
      simp only [translatePredicate, translateNullTest_eq_some] at hf
      obtain ⟨name, rfl, rfl⟩ := hf
      obtain ⟨x, hx, rfl⟩ := Expression.evaluate_isNull_ok.mp hv
      rw [show kept (.isNull (.column name) : Expression F) = .isNull (.column name) from rfl,
        holds_eq_ok, hv]
      simp [ArrowFilter.eval, ArrowOperand.value, RestsOnValues,
        Expression.lookupColumn_eq_ok.mp hx, Value.truthy]
  | isNotNull child =>
      simp only [translatePredicate, translateNullTest_eq_some] at hf
      obtain ⟨name, rfl, rfl⟩ := hf
      obtain ⟨x, hx, rfl⟩ := Expression.evaluate_isNotNull_ok.mp hv
      rw [show kept (.isNotNull (.column name) : Expression F) = .isNotNull (.column name) from rfl,
        holds_eq_ok, hv]
      simp [ArrowFilter.eval, ArrowOperand.value, RestsOnValues,
        Expression.lookupColumn_eq_ok.mp hx, Value.truthy]
  | _ => simp [translatePredicate] at hf

/-- A pushed filter keeps every row the condition keeps exactly where the condition
without its dropped conjuncts still holds and rests on comparisons of values. -/
theorem translatePredicate_keeps_iff (kernel : ArrowKernel F) {e : Expression F}
    {f : ArrowFilter F} {r : Record F} {v : Value F} (hf : translatePredicate e = some f)
    (hv : e.evaluate r = .ok v) :
    (v.truthy = true → f.eval kernel r = some true) ↔
      (v.truthy = true → holds (kept e) r = .ok true ∧ RestsOnValues r (kept e) true) := by
  rw [eval_translatePredicate kernel hf hv]

/-- No conjunct is dropped below a negation. -/
def NegationsKept : Expression F → Prop
  | .binary .and left right => NegationsKept left ∧ NegationsKept right
  | .binary .or left right => NegationsKept left ∧ NegationsKept right
  | .not child => kept child = child
  | _ => True

/-- Above negations, dropping conjuncts only widens a condition. -/
theorem kept_holds_of_negationsKept {e : Expression F} {r : Record F} (hk : NegationsKept e)
    (h : holds e r = .ok true) : holds (kept e) r = .ok true := by
  induction e with
  | binary op l e ihl ihe =>
      obtain ⟨v, hv, htrue⟩ := holds_eq_ok.mp h
      obtain ⟨x, y, hx, hy, hxy⟩ := Expression.evaluate_binary_ok.mp hv
      have hlx : holds l r = .ok x.truthy := holds_eq_ok.mpr ⟨x, hx, rfl⟩
      have hey : holds e r = .ok y.truthy := holds_eq_ok.mpr ⟨y, hy, rfl⟩
      cases op with
      | and =>
          cases hxy
          obtain ⟨hxt, hyt⟩ := (Bool.and_eq_true _ _).mp htrue
          have hl := ihl hk.1 (hxt ▸ hlx)
          have he := ihe hk.2 (hyt ▸ hey)
          simp only [kept]
          split
          · split
            · exact holds_and hl he
            · exact hl
          · exact he
      | or =>
          cases hxy
          obtain ⟨bl, hbl⟩ := kept_holds hlx
          obtain ⟨br, hbr⟩ := kept_holds hey
          rw [kept, holds_or hbl hbr]
          rcases (Bool.or_eq_true _ _).mp htrue with hxt | hyt
          · have hl := ihl hk.1 (hxt ▸ hlx)
            rw [hbl] at hl
            cases hl
            rfl
          · have he := ihe hk.2 (hyt ▸ hey)
            rw [hbr] at he
            cases he
            simp
      | _ => exact h
  | not child ih => rwa [kept, show kept child = child from hk]
  | _ => exact h

end Kept

section Examples

/-- The row `{"a": 2}`. -/
def twoRow : Record ℚ := OrderedDict.ofList [("a", .int 2)]

/-- `Column("a") > Literal(1)`. -/
def aboveOne : Expression ℚ := .binary .greaterThan (.column "a") (.literal (.int 1))

theorem translatePredicate_keeps_iff_twoRow :
    ((Value.bool true : Value ℚ).truthy = true →
      (ArrowFilter.compare .greaterThan (.field "a") (.scalar (.int 1))).eval
        (interpreterKernel ℚ) twoRow = some true) ↔
      ((Value.bool true : Value ℚ).truthy = true →
        holds (kept aboveOne) twoRow = .ok true ∧ RestsOnValues twoRow (kept aboveOne) true) :=
  translatePredicate_keeps_iff (interpreterKernel ℚ) (e := aboveOne) rfl (by decide)

/-- The negation of a conjunction whose sum has no translation. -/
def negatedConjunction : Expression ℚ :=
  .not (.binary .and aboveOne
    (.binary .greaterThan (.binary .add (.column "a") (.column "a")) (.literal (.int 100))))

/-- `{"a": 2}` satisfies the negated conjunction, but only `not (a > 1)` is pushed. -/
theorem translatePredicate_excludes_twoRow :
    ¬ ∀ (kernel : ArrowKernel ℚ) (e : Expression ℚ) (f : ArrowFilter ℚ) (r : Record ℚ)
        (v : Value ℚ), translatePredicate e = some f → e.evaluate r = .ok v →
        v.truthy = true → f.eval kernel r = some true := by
  intro h
  have hkept := h (interpreterKernel ℚ) negatedConjunction
    (.not (.compare .greaterThan (.field "a") (.scalar (.int 1)))) twoRow (.bool true) rfl
    (by decide) rfl
  revert hkept
  decide

end Examples

end MiniSpark
