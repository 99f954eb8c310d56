import Mathlib.Data.Option.Basic

/-!
# Three-valued logic

Kleene's strong connectives on `Option Bool`, with `none` for unknown. Each
connective has one lemma for each known outcome.
-/
namespace Kleene

def not (a : Option Bool) : Option Bool := a.map Bool.not

def and : Option Bool → Option Bool → Option Bool
  | some false, _ => some false
  | _, some false => some false
  | some true, some true => some true
  | _, _ => none

def or : Option Bool → Option Bool → Option Bool
  | some true, _ => some true
  | _, some true => some true
  | some false, some false => some false
  | _, _ => none

theorem not_eq_some {a : Option Bool} {b : Bool} : not a = some b ↔ a = some (!b) := by
  rcases a with _ | _ | _ <;> cases b <;> decide

theorem and_eq_true {a b : Option Bool} :
    and a b = some true ↔ a = some true ∧ b = some true := by
  rcases a with _ | _ | _ <;> rcases b with _ | _ | _ <;> decide

theorem and_eq_false {a b : Option Bool} :
    and a b = some false ↔ a = some false ∨ b = some false := by
  rcases a with _ | _ | _ <;> rcases b with _ | _ | _ <;> decide

theorem or_eq_true {a b : Option Bool} :
    or a b = some true ↔ a = some true ∨ b = some true := by
  rcases a with _ | _ | _ <;> rcases b with _ | _ | _ <;> decide

theorem or_eq_false {a b : Option Bool} :
    or a b = some false ↔ a = some false ∧ b = some false := by
  rcases a with _ | _ | _ <;> rcases b with _ | _ | _ <;> decide

end Kleene
