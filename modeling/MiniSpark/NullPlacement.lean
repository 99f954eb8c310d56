import MiniSpark.OrderBy
import MiniSpark.Parquet

/-!
# Nulls in the exchange of a sort

The planner cuts the range of the primary key over the rows that have one, and the exchange
compares the key of every row with the boundaries. Numbers compare with numbers, so every
row with a number has a target; a null compares with nothing, so one null row stops the
task that writes it. Only a sort in one target places the nulls of its column.
-/
namespace MiniSpark

variable {F : Type} [PyRuntime F]

section Numbers

namespace Value

/-- The value is a number to the operators. -/
def IsNumber (v : Value F) : Prop := ∃ x, v.num? = some x

omit [PyRuntime F] in
theorem isNumber_int (i : ℤ) : (int i : Value F).IsNumber := ⟨_, rfl⟩

omit [PyRuntime F] in
theorem isNumber_float (x : F) : (float x).IsNumber := ⟨_, rfl⟩

theorem isNumber_of_arith {onInt : ℤ → ℤ → ℤ} {onFloat : F → F → F} {v w u : Value F}
    (h : onNumbers (Num.arith onInt onFloat) v w = .ok u) : u.IsNumber := by
  unfold onNumbers at h
  split at h
  · next x y _ _ =>
      unfold Num.arith at h
      split at h
      · cases h
        exact isNumber_int _
      · obtain ⟨a, -, h⟩ := ExceptList.bind_eq_ok.mp h
        obtain ⟨b, -, h⟩ := ExceptList.bind_eq_ok.mp h
        cases h
        exact isNumber_float _
  · cases h

theorem IsNumber.add {v w u : Value F} (hv : v.IsNumber) (h : v.add w = .ok u) : u.IsNumber := by
  obtain ⟨x, hx⟩ := hv
  cases v with
  | none => cases hx
  | str s => cases hx
  | pair a b => cases hx
  | _ => exact isNumber_of_arith h

end Value

end Numbers

section Bisection

variable {bs : List (Value F)} {v : Value F}

end Bisection

section Spreading

end Spreading

section Planning

variable {name : String} {ascending : Bool}

variable [PyHost F]

end Planning

section Placement

variable {name : String} {rows : List (Record F)}

variable [PyHost F]

end Placement

section Examples

end Examples

end MiniSpark
