import Mathlib.Algebra.BigOperators.Group.List.Basic
import Mathlib.Algebra.Order.Field.Rat
import Mathlib.Data.Rat.Defs
import Mathlib.Algebra.Order.Ring.Unbundled.Rat
import MiniSpark.ExceptList

/-!
# Scalar values and the interpreter's operators

Rows hold `None`, `bool`, `int`, `float` and `str`; the partial state of an
average is the only tuple. The float type is a parameter together with what
the interpreter does with it, so a statement holds for every float arithmetic
unless it fixes one: `Binary64` is the IEEE format, `ℚ` is exact arithmetic.
-/
namespace MiniSpark

/-- Exceptions. Built-in ones carry no text; those raised by the engine carry theirs. -/
inductive PyError
  | typeError
  | zeroDivisionError
  | overflowError
  | indexError
  | assertionError
  | keyError (message : String)
  | valueError (message : String)
  | notImplementedError (message : String)
  | analysisException (message : String)
  | fileNotFoundError
  | eofError
  | unpicklingError
  | stopIteration
  | shuffleChecksumError
  | missingShuffleDataError (stageId targetPartition : ℕ)
  deriving DecidableEq, Repr

abbrev Py (α : Type) := Except PyError α

/-- What the interpreter supplies for its `float` type and for printing text. On
floats and ints together `==` is symmetric and transitive; NaN makes it partial. -/
class PyRuntime (F : Type) where
  add : F → F → F
  sub : F → F → F
  mul : F → F → F
  /-- Division by a nonzero float. -/
  div : F → F → F
  lt : F → F → Bool
  eq : F → F → Bool
  /-- `float(i)`, with `none` for `OverflowError`. -/
  ofInt : ℤ → Option F
  /-- `i / j` for a nonzero `j`, with `none` for `OverflowError`. -/
  intDiv : ℤ → ℤ → Option F
  ltInt : F → ℤ → Bool
  intLt : ℤ → F → Bool
  eqInt : F → ℤ → Bool
  reprFloat : F → String
  isPrintable : Char → Bool
  /-- `sys.get_int_max_str_digits()`, with `none` for no limit. -/
  intMaxStrDigits : Option ℕ
  eq_symm : ∀ x y, eq x y = true → eq y x = true
  eq_trans : ∀ x y z, eq x y = true → eq y z = true → eq x z = true
  eqInt_congr : ∀ x y i, eq x y = true → eqInt x i = true → eqInt y i = true
  eq_of_eqInt : ∀ x y i, eqInt x i = true → eqInt y i = true → eq x y = true
  eqInt_inj : ∀ x i j, eqInt x i = true → eqInt x j = true → i = j
  /-- The least limit the interpreter takes. -/
  intMaxStrDigits_ge : ∀ limit ∈ intMaxStrDigits, 640 ≤ limit

/-- Printable characters of the Latin-1 range. -/
def isPrintableLatin (c : Char) : Bool :=
  (32 ≤ c.toNat && c.toNat < 127) || (161 ≤ c.toNat && c.toNat ≤ 255 && c.toNat != 173)

/-- Exact arithmetic: every float operation returns its mathematical result. -/
instance exactRuntime : PyRuntime ℚ where
  add := (· + ·)
  sub := (· - ·)
  mul := (· * ·)
  div := (· / ·)
  lt x y := decide (x < y)
  eq x y := decide (x = y)
  ofInt i := some i
  intDiv i j := some ((i : ℚ) / (j : ℚ))
  ltInt x i := decide (x < (i : ℚ))
  intLt i x := decide ((i : ℚ) < x)
  eqInt x i := decide (x = (i : ℚ))
  reprFloat x := if x.den = 1 then toString x.num ++ ".0" else toString x.num ++ "/" ++ toString x.den
  isPrintable := isPrintableLatin
  intMaxStrDigits := some 4300
  eq_symm x y h := by simpa [eq_comm] using h
  eq_trans x y z hxy hyz := by simp_all
  eqInt_congr x y i hxy hx := by simp_all
  eq_of_eqInt x y i hx hy := by simp_all
  eqInt_inj x i j hi hj := by simp_all
  intMaxStrDigits_ge limit h := by
    obtain rfl := Option.some.inj h
    decide

inductive Value (F : Type)
  | none
  | bool (b : Bool)
  | int (i : ℤ)
  | float (x : F)
  | str (s : String)
  /-- The `(sum, count)` state of an average. -/
  | pair (total count : Value F)
  deriving DecidableEq, Repr

/-- Numbers as the operators see them: `bool` is a subtype of `int`. -/
inductive Num (F : Type)
  | int (i : ℤ)
  | float (x : F)

namespace Num

variable {F : Type} [PyRuntime F]

def eq : Num F → Num F → Bool
  | .int i, .int j => i == j
  | .int i, .float y => PyRuntime.eqInt y i
  | .float x, .int j => PyRuntime.eqInt x j
  | .float x, .float y => PyRuntime.eq x y

theorem eq_symm {a b : Num F} (h : a.eq b = true) : b.eq a = true := by
  cases a <;> cases b <;> simp_all [eq]
  exact PyRuntime.eq_symm _ _ h

theorem eq_trans {a b c : Num F} (hab : a.eq b = true) (hbc : b.eq c = true) :
    a.eq c = true := by
  match a, b, c with
  | .int i, .int j, .int k => simp_all [eq]
  | .int i, .int j, .float z =>
      obtain rfl : i = j := by simpa [eq] using hab
      exact hbc
  | .int i, .float y, .int k => simpa [eq] using PyRuntime.eqInt_inj y i k hab hbc
  | .int i, .float y, .float z => exact PyRuntime.eqInt_congr y z i hbc hab
  | .float x, .int j, .int k =>
      obtain rfl : j = k := by simpa [eq] using hbc
      exact hab
  | .float x, .int j, .float z => exact PyRuntime.eq_of_eqInt x z j hab hbc
  | .float x, .float y, .int k => exact PyRuntime.eqInt_congr y x k (PyRuntime.eq_symm x y hab) hbc
  | .float x, .float y, .float z => exact PyRuntime.eq_trans x y z hab hbc

def lt : Num F → Num F → Bool
  | .int i, .int j => decide (i < j)
  | .int i, .float y => PyRuntime.intLt i y
  | .float x, .int j => PyRuntime.ltInt x j
  | .float x, .float y => PyRuntime.lt x y

def toFloat : Num F → Py F
  | .int i => (PyRuntime.ofInt i).elim (.error .overflowError) .ok
  | .float x => .ok x

/-- `+`, `-` and `*`: exact on two ints, otherwise on two floats. -/
def arith (onInt : ℤ → ℤ → ℤ) (onFloat : F → F → F) : Num F → Num F → Py (Value F)
  | .int i, .int j => .ok (.int (onInt i j))
  | a, b => do
      let x ← a.toFloat
      let y ← b.toFloat
      pure (.float (onFloat x y))

def truediv : Num F → Num F → Py (Value F)
  | .int i, .int j =>
      if j = 0 then .error .zeroDivisionError
      else (PyRuntime.intDiv i j).elim (.error .overflowError) (fun x => .ok (.float x))
  | a, b => do
      let x ← a.toFloat
      let y ← b.toFloat
      if PyRuntime.eqInt y 0 then .error .zeroDivisionError
      else pure (.float (PyRuntime.div x y))

end Num

namespace Value

variable {F : Type} [PyRuntime F]

def num? : Value F → Option (Num F)
  | .bool b => some (.int (if b then 1 else 0))
  | .int i => some (.int i)
  | .float x => some (.float x)
  | _ => Option.none

/-- `value is None`. -/
def isNone {F : Type} : Value F → Bool
  | .none => true
  | _ => false

@[simp] theorem isNone_none {F : Type} : (none : Value F).isNone = true := rfl

/-- `bool(value)`. -/
def truthy : Value F → Bool
  | .none => false
  | .bool b => b
  | .int i => i != 0
  | .float x => !PyRuntime.eqInt x 0
  | .str s => s != ""
  | .pair _ _ => true

@[simp] theorem truthy_bool (b : Bool) : (bool b : Value F).truthy = b := rfl

/-- `a == b`: total, and across the number types. -/
def pyEq : Value F → Value F → Bool
  | .none, .none => true
  | .str s, .str t => s == t
  | .pair a b, .pair c d => pyEq a c && pyEq b d
  | a, b =>
      match a.num?, b.num? with
      | some x, some y => x.eq y
      | _, _ => false

/-- Dictionary keys are compared with the interpreter's `==`. -/
instance : BEq (Value F) := ⟨pyEq⟩

theorem pyEq_symm {a b : Value F} (h : pyEq a b = true) : pyEq b a = true := by
  induction a generalizing b with
  | pair c d ihc ihd =>
      cases b with
      | pair c' d' =>
          simp only [pyEq, Bool.and_eq_true] at h ⊢
          exact ⟨ihc h.1, ihd h.2⟩
      | _ => simp [pyEq, num?] at h
  | none => cases b <;> simp_all [pyEq, num?]
  | str s => cases b <;> simp_all [pyEq, num?]
  | _ =>
      cases b <;> simp only [pyEq, num?, Bool.false_eq_true] at h ⊢ <;> exact Num.eq_symm h

theorem pyEq_trans {a b c : Value F} (hab : pyEq a b = true) (hbc : pyEq b c = true) :
    pyEq a c = true := by
  induction a generalizing b c with
  | pair x y ihx ihy =>
      cases b with
      | pair x' y' =>
          cases c with
          | pair x'' y'' =>
              simp only [pyEq, Bool.and_eq_true] at hab hbc ⊢
              exact ⟨ihx hab.1 hbc.1, ihy hab.2 hbc.2⟩
          | _ => simp [pyEq, num?] at hbc
      | _ => simp [pyEq, num?] at hab
  | none => cases b <;> simp_all [pyEq, num?]
  | str s => cases b <;> cases c <;> simp_all [pyEq, num?]
  | _ =>
      cases b <;> cases c <;> simp only [pyEq, num?, Bool.false_eq_true] at hab hbc ⊢ <;>
        exact Num.eq_trans hab hbc

/-- `==` is symmetric and transitive, but NaN is not equal to itself. -/
instance : PartialEquivBEq (Value F) where
  symm := pyEq_symm
  trans := pyEq_trans

/-- `a < b`. -/
def lt : Value F → Value F → Py Bool
  | .str s, .str t => .ok (decide (s < t))
  | .pair a b, .pair c d => if pyEq a c then (if pyEq b d then .ok false else lt b d) else lt a c
  | a, b =>
      match a.num?, b.num? with
      | some x, some y => .ok (x.lt y)
      | _, _ => .error .typeError

/-- `a <= b`. -/
def le : Value F → Value F → Py Bool
  | .str s, .str t => .ok (decide (s ≤ t))
  | .pair a b, .pair c d => if pyEq a c then (if pyEq b d then .ok true else le b d) else le a c
  | a, b =>
      match a.num?, b.num? with
      | some x, some y => .ok (x.lt y || x.eq y)
      | _, _ => .error .typeError

/-- Apply a numeric operator, or raise `TypeError`. -/
def onNumbers (f : Num F → Num F → Py (Value F)) (a b : Value F) : Py (Value F) :=
  match a.num?, b.num? with
  | some x, some y => f x y
  | _, _ => .error .typeError

def add : Value F → Value F → Py (Value F)
  | .str s, .str t => .ok (.str (s ++ t))
  | a, b => onNumbers (Num.arith (· + ·) PyRuntime.add) a b

def sub (a b : Value F) : Py (Value F) := onNumbers (Num.arith (· - ·) PyRuntime.sub) a b

/-- `s * n` for text; a negative count gives the empty text. -/
def repeatText (s : String) (n : ℤ) : Value F := .str (String.join (List.replicate n.toNat s))

def mul : Value F → Value F → Py (Value F)
  | .str s, b =>
      match b.num? with
      | some (.int n) => .ok (repeatText s n)
      | _ => .error .typeError
  | a, .str t =>
      match a.num? with
      | some (.int n) => .ok (repeatText t n)
      | _ => .error .typeError
  | a, b => onNumbers (Num.arith (· * ·) PyRuntime.mul) a b

def truediv (a b : Value F) : Py (Value F) := onNumbers Num.truediv a b

end Value

/-- The twelve binary expression classes. -/
inductive BinaryOp
  | greaterThan | greaterEqual | lessThan | lessEqual | equal | notEqual
  | and | or | add | subtract | multiply | divide
  deriving DecidableEq, Repr

namespace BinaryOp

/-- `type(expr).__name__`. -/
def className : BinaryOp → String
  | .greaterThan => "GreaterThan"
  | .greaterEqual => "GreaterEqual"
  | .lessThan => "LessThan"
  | .lessEqual => "LessEqual"
  | .equal => "Equal"
  | .notEqual => "NotEqual"
  | .and => "And"
  | .or => "Or"
  | .add => "Add"
  | .subtract => "Subtract"
  | .multiply => "Multiply"
  | .divide => "Divide"

/-- The class attribute `op`. Both operands of `And` and `Or` are values already. -/
def op {F : Type} [PyRuntime F] : BinaryOp → Value F → Value F → Py (Value F)
  | .greaterThan, a, b => Value.bool <$> b.lt a
  | .greaterEqual, a, b => Value.bool <$> b.le a
  | .lessThan, a, b => Value.bool <$> a.lt b
  | .lessEqual, a, b => Value.bool <$> a.le b
  | .equal, a, b => .ok (.bool (a == b))
  | .notEqual, a, b => .ok (.bool (!(a == b)))
  | .and, a, b => .ok (.bool (a.truthy && b.truthy))
  | .or, a, b => .ok (.bool (a.truthy || b.truthy))
  | .add, a, b => a.add b
  | .subtract, a, b => a.sub b
  | .multiply, a, b => a.mul b
  | .divide, a, b => a.truediv b

end BinaryOp

end MiniSpark
