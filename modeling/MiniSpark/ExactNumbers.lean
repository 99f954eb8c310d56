import MiniSpark.ExactFloats

/-!
# Numbers in exact arithmetic

With `ℚ` for floats every bool, int and float is a rational number, and the
operators compute with these numbers whatever the types of their operands.
-/
namespace MiniSpark

/-- The number of a numeric operand. -/
def Num.rat : Num ℚ → ℚ
  | .int i => i
  | .float x => x

/-- The number of a value: bools count as 0 and 1, text and null are none. -/
def Value.rat? (v : Value ℚ) : Option ℚ := v.num?.map Num.rat

/-- The value is null, or the given number. -/
def Stands (v : Value ℚ) (q : Option ℚ) : Prop :=
  match q with
  | none => v = .none
  | some x => v.rat? = some x

namespace Value

variable {a b : Value ℚ} {x y : ℚ}

lemma rat?_eq_number? (v : Value ℚ) : v.rat? = v.number? id := by
  have hnum : Num.rat = Num.number id := by
    funext n
    cases n <;> rfl
  rw [rat?, hnum]
  rfl

@[simp] lemma rat?_int (i : ℤ) : (int i : Value ℚ).rat? = some (i : ℚ) := rfl

@[simp] lemma rat?_float (x : ℚ) : (float x : Value ℚ).rat? = some x := rfl

@[simp] lemma rat?_none : (none : Value ℚ).rat? = Option.none := rfl

lemma isNone_of_rat? (ha : a.rat? = some x) : a.isNone = false :=
  isNone_of_number? (rat?_eq_number? a ▸ ha)

lemma lt_rat (ha : a.rat? = some x) (hb : b.rat? = some y) : a.lt b = .ok (decide (x < y)) := by
  rw [rat?_eq_number?] at ha hb
  exact lt_number exactFloats_rat ha hb

lemma beq_rat (ha : a.rat? = some x) (hb : b.rat? = some y) : (a == b) = true ↔ x = y := by
  rw [rat?_eq_number?] at ha hb
  exact beq_number exactFloats_rat ha hb

lemma add_rat (ha : a.rat? = some x) (hb : b.rat? = some y) :
    ∃ c, a.add b = .ok c ∧ c.rat? = some (x + y) := by
  simp only [rat?_eq_number?] at *
  exact add_number exactFloats_rat ha hb

lemma truediv_rat (ha : a.rat? = some x) (hb : b.rat? = some y) (hy : y ≠ 0) :
    a.truediv b = .ok (.float (x / y)) := by
  rw [rat?_eq_number?] at ha hb
  obtain ⟨c, hc, hcr⟩ := truediv_number exactFloats_rat ha hb hy
  rw [hc]
  exact congrArg (fun z => Except.ok (Value.float z)) hcr

end Value

end MiniSpark
