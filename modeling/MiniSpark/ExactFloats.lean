import Mathlib.Algebra.Order.Field.Rat
import Mathlib.Tactic.NormNum
import MiniSpark.Value

/-!
# Exact floats

Arithmetic is exact when floats stand for rational numbers and every operation
returns the number it should. Every bool, int and float then is a rational number,
and the operators compute with these numbers whatever the types of their operands.
-/
namespace MiniSpark

variable {F : Type} [PyRuntime F]

/-- The float operations return the numbers of exact arithmetic. -/
structure ExactFloats (toRat : F → ℚ) : Prop where
  lt : ∀ x y, PyRuntime.lt x y = decide (toRat x < toRat y)
  eq : ∀ x y, PyRuntime.eq x y = decide (toRat x = toRat y)
  ltInt : ∀ (x : F) (i : ℤ), PyRuntime.ltInt x i = decide (toRat x < i)
  intLt : ∀ (i : ℤ) (x : F), PyRuntime.intLt i x = decide ((i : ℚ) < toRat x)
  eqInt : ∀ (x : F) (i : ℤ), PyRuntime.eqInt x i = decide (toRat x = i)
  ofInt : ∀ i : ℤ, ∃ x : F, PyRuntime.ofInt i = some x ∧ toRat x = i
  intDiv : ∀ i j : ℤ, j ≠ 0 → ∃ x : F, PyRuntime.intDiv i j = some x ∧ toRat x = i / j
  add : ∀ x y, toRat (PyRuntime.add x y) = toRat x + toRat y
  sub : ∀ x y, toRat (PyRuntime.sub x y) = toRat x - toRat y
  mul : ∀ x y, toRat (PyRuntime.mul x y) = toRat x * toRat y
  div : ∀ x y, toRat y ≠ 0 → toRat (PyRuntime.div x y) = toRat x / toRat y

/-- The number of a numeric operand. -/
def Num.number (toRat : F → ℚ) : Num F → ℚ
  | .int i => i
  | .float x => toRat x

/-- The number of a value: bools count as 0 and 1, text and null are none. -/
def Value.number? (toRat : F → ℚ) (v : Value F) : Option ℚ := v.num?.map (Num.number toRat)

variable {toRat : F → ℚ}

namespace Num

lemma eq_number (h : ExactFloats toRat) (a b : Num F) :
    a.eq b = true ↔ a.number toRat = b.number toRat := by
  cases a with
  | int i =>
      cases b with
      | int j => simp [eq, number]
      | float y =>
          rw [eq_comm (a := number _ _)]
          simp [eq, number, h.eqInt]
  | float x =>
      cases b with
      | int j => simp [eq, number, h.eqInt]
      | float y => simp [eq, number, h.eq]

lemma lt_number (h : ExactFloats toRat) (a b : Num F) :
    a.lt b = true ↔ a.number toRat < b.number toRat := by
  cases a <;> cases b <;> simp [lt, number, h.ltInt, h.lt, h.intLt]

lemma toFloat_number (h : ExactFloats toRat) (a : Num F) :
    ∃ x, a.toFloat = .ok x ∧ toRat x = a.number toRat := by
  cases a with
  | int i =>
      obtain ⟨x, hx, hrat⟩ := h.ofInt i
      exact ⟨x, by rw [toFloat, hx]; rfl, hrat⟩
  | float x => exact ⟨x, rfl, rfl⟩

/-- `+`, `-` and `*` are those of the rationals. -/
lemma arith_number (h : ExactFloats toRat) {onInt : ℤ → ℤ → ℤ} {onFloat : F → F → F}
    {onRat : ℚ → ℚ → ℚ} (hint : ∀ i j : ℤ, ((onInt i j : ℤ) : ℚ) = onRat i j)
    (hfloat : ∀ x y, toRat (onFloat x y) = onRat (toRat x) (toRat y)) (a b : Num F) :
    ∃ c, arith onInt onFloat a b = .ok c ∧
      c.number? toRat = some (onRat (a.number toRat) (b.number toRat)) := by
  have hfloats : ∀ a b : Num F, ∃ x y, a.toFloat = .ok x ∧ b.toFloat = .ok y ∧
      toRat (onFloat x y) = onRat (a.number toRat) (b.number toRat) := by
    intro a b
    obtain ⟨x, hx, hxr⟩ := toFloat_number h a
    obtain ⟨y, hy, hyr⟩ := toFloat_number h b
    exact ⟨x, y, hx, hy, by rw [hfloat, hxr, hyr]⟩
  cases a with
  | int i =>
      cases b with
      | int j => exact ⟨_, rfl, congrArg some (hint i j)⟩
      | float y =>
          obtain ⟨x, y', hx, hy, hr⟩ := hfloats (.int i) (.float y)
          exact ⟨.float (onFloat x y'), by simp only [arith, hx, hy, ExceptList.bind_ok]; rfl, congrArg some hr⟩
  | float x =>
      obtain ⟨x', y, hx, hy, hr⟩ := hfloats (.float x) b
      exact ⟨.float (onFloat x' y), by simp only [arith, hx, hy, ExceptList.bind_ok]; rfl, congrArg some hr⟩

lemma truediv_number (h : ExactFloats toRat) (a : Num F) {b : Num F} (hb : b.number toRat ≠ 0) :
    ∃ x, truediv a b = .ok (.float x) ∧ toRat x = a.number toRat / b.number toRat := by
  have hfloats : ∀ a : Num F, ∃ x y, a.toFloat = .ok x ∧ b.toFloat = .ok y ∧
      PyRuntime.eqInt y 0 = false ∧
      toRat (PyRuntime.div x y) = a.number toRat / b.number toRat := by
    intro a
    obtain ⟨x, hx, hxr⟩ := toFloat_number h a
    obtain ⟨y, hy, hyr⟩ := toFloat_number h b
    have hzero : toRat y ≠ ((0 : ℤ) : ℚ) := by
      rw [hyr, Int.cast_zero]
      exact hb
    refine ⟨x, y, hx, hy, by rw [h.eqInt, decide_eq_false hzero], ?_⟩
    rw [h.div x y (hyr ▸ hb), hxr, hyr]
  cases a with
  | int i =>
      cases b with
      | int j =>
          have hj : j ≠ 0 := by
            rintro rfl
            exact hb rfl
          obtain ⟨x, hx, hr⟩ := h.intDiv i j hj
          refine ⟨x, ?_, hr⟩
          rw [truediv, if_neg hj, hx]
          rfl
      | float y =>
          obtain ⟨x, y', hx, hy, hne, hr⟩ := hfloats (.int i)
          exact ⟨_, by simp only [truediv, hx, hy, ExceptList.bind_ok, hne]; rfl, hr⟩
  | float x =>
      obtain ⟨x', y, hx, hy, hne, hr⟩ := hfloats (.float x)
      exact ⟨_, by simp only [truediv, hx, hy, ExceptList.bind_ok, hne]; rfl, hr⟩

end Num

namespace Value

variable {a b : Value F} {x y : ℚ}

omit [PyRuntime F] in
lemma number?_eq_some : a.number? toRat = some x ↔ ∃ m, a.num? = some m ∧ m.number toRat = x :=
  Option.map_eq_some_iff

omit [PyRuntime F] in
lemma isNone_of_number? (ha : a.number? toRat = some x) : a.isNone = false := by
  cases a <;> first | rfl | cases ha

lemma lt_number (h : ExactFloats toRat) (ha : a.number? toRat = some x)
    (hb : b.number? toRat = some y) : a.lt b = .ok (decide (x < y)) := by
  obtain ⟨m, hm, rfl⟩ := number?_eq_some.mp ha
  obtain ⟨n, hn, rfl⟩ := number?_eq_some.mp hb
  have hlt : a.lt b = .ok (m.lt n) := by
    cases a <;> cases b <;> simp_all [lt, num?]
  rw [hlt, Except.ok.injEq, Bool.eq_iff_iff, Num.lt_number h, decide_eq_true_iff]

lemma beq_number (h : ExactFloats toRat) (ha : a.number? toRat = some x)
    (hb : b.number? toRat = some y) : (a == b) = true ↔ x = y := by
  obtain ⟨m, hm, rfl⟩ := number?_eq_some.mp ha
  obtain ⟨n, hn, rfl⟩ := number?_eq_some.mp hb
  have heq : a.pyEq b = m.eq n := by
    cases a <;> cases b <;> simp_all [pyEq, num?]
  rw [← Num.eq_number h, ← heq]
  rfl

omit [PyRuntime F] in
lemma onNumbers_num {f : Num F → Num F → Py (Value F)} {m n : Num F} (ha : a.num? = some m)
    (hb : b.num? = some n) : onNumbers f a b = f m n := by
  simp only [onNumbers, ha, hb]

lemma add_number (h : ExactFloats toRat) (ha : a.number? toRat = some x)
    (hb : b.number? toRat = some y) : ∃ c, a.add b = .ok c ∧ c.number? toRat = some (x + y) := by
  obtain ⟨m, hm, rfl⟩ := number?_eq_some.mp ha
  obtain ⟨n, hn, rfl⟩ := number?_eq_some.mp hb
  have hadd : a.add b = onNumbers (Num.arith (· + ·) PyRuntime.add) a b := by
    cases a <;> first | rfl | cases hm
  rw [hadd, onNumbers_num hm hn]
  exact Num.arith_number h (fun i j => by push_cast; rfl) h.add m n

lemma sub_number (h : ExactFloats toRat) (ha : a.number? toRat = some x)
    (hb : b.number? toRat = some y) : ∃ c, a.sub b = .ok c ∧ c.number? toRat = some (x - y) := by
  obtain ⟨m, hm, rfl⟩ := number?_eq_some.mp ha
  obtain ⟨n, hn, rfl⟩ := number?_eq_some.mp hb
  rw [sub, onNumbers_num hm hn]
  exact Num.arith_number h (fun i j => by push_cast; rfl) h.sub m n

lemma mul_number (h : ExactFloats toRat) (ha : a.number? toRat = some x)
    (hb : b.number? toRat = some y) : ∃ c, a.mul b = .ok c ∧ c.number? toRat = some (x * y) := by
  obtain ⟨m, hm, rfl⟩ := number?_eq_some.mp ha
  obtain ⟨n, hn, rfl⟩ := number?_eq_some.mp hb
  have hmul : a.mul b = onNumbers (Num.arith (· * ·) PyRuntime.mul) a b := by
    cases a <;> cases b <;> first | rfl | simp [num?] at hm hn
  rw [hmul, onNumbers_num hm hn]
  exact Num.arith_number h (fun i j => by push_cast; rfl) h.mul m n

lemma truediv_number (h : ExactFloats toRat) (ha : a.number? toRat = some x)
    (hb : b.number? toRat = some y) (hy : y ≠ 0) :
    ∃ c, a.truediv b = .ok (.float c) ∧ toRat c = x / y := by
  obtain ⟨m, hm, rfl⟩ := number?_eq_some.mp ha
  obtain ⟨n, hn, rfl⟩ := number?_eq_some.mp hb
  rw [truediv, onNumbers_num hm hn]
  exact Num.truediv_number h m hy

end Value

/-- The rationals themselves are exact floats. -/
theorem exactFloats_rat : ExactFloats (id : ℚ → ℚ) where
  lt _ _ := rfl
  eq _ _ := rfl
  ltInt _ _ := rfl
  intLt _ _ := rfl
  eqInt _ _ := rfl
  ofInt i := ⟨i, rfl, rfl⟩
  intDiv i j _ := ⟨(i : ℚ) / (j : ℚ), rfl, rfl⟩
  add _ _ := rfl
  sub _ _ := rfl
  mul _ _ := rfl
  div _ _ _ := rfl

end MiniSpark
