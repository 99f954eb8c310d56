import MiniSpark.Repr
import MiniSpark.UniqueReading

/-!
# The texts of scalars

What `repr` prints of one scalar holds none of the symbols between which tuples and
expressions put it, unless it is a string between its quotes. The text of a float is the
interpreter's; it never looks like an int or a word.
-/
namespace MiniSpark

open UniqueReading

variable {F : Type} [PyRuntime F]

/-- The symbols around the texts of values. -/
def Special (c : Char) : Prop := c ∈ [',', '(', ')', singleQuote, doubleQuote]

instance : DecidablePred Special := fun c => inferInstanceAs (Decidable (c ∈ _))

/-- With what `False`, `None` and `True` begin. -/
def initials : List Char := ['F', 'N', 'T']

/-- What the interpreter prints for a float: no special symbol, none of these capitals, and
something beside digits and a sign. -/
structure FloatTexts (F : Type) [PyRuntime F] : Prop where
  plain : ∀ x : F, Plain Special (PyRuntime.reprFloat x).toList
  noInitial : ∀ x : F, ∀ c ∈ (PyRuntime.reprFloat x).toList, c ∉ initials
  fraction : ∀ x : F, ∃ c ∈ (PyRuntime.reprFloat x).toList, c.isDigit = false ∧ c ≠ '-'

namespace Value

/-- The scalars that rows hold. -/
def IsScalar : Value F → Prop
  | .pair _ _ => False
  | _ => True

/-- `None` or a number: no text between quotes. -/
def IsPlain : Value F → Prop
  | .pair _ _ => False
  | .str _ => False
  | _ => True

end Value

section Ints

lemma mem_toString_nat {n : ℕ} {c : Char} (h : c ∈ (toString n).toList) : c.isDigit = true := by
  rw [show (toString n).toList = Nat.toDigits 10 n from Nat.toList_repr] at h
  exact Nat.isDigit_of_mem_toDigits (by decide) (by decide) h

lemma toString_nat_inj {m n : ℕ} (h : toString m = toString n) : m = n := by
  have hlist : Nat.toDigits 10 m = Nat.toDigits 10 n := by
    rw [← Nat.toList_repr, ← Nat.toList_repr]
    exact congrArg String.toList h
  have hdigits := congrArg (fun cs => Nat.ofDigitChars 10 cs 0) hlist
  simpa [Nat.ofDigitChars_toDigits] using hdigits

/-- An int prints as digits, after a sign when it is negative. -/
lemma mem_toString_int {i : ℤ} {c : Char} (h : c ∈ (toString i).toList) :
    c.isDigit = true ∨ c = '-' := by
  cases i with
  | ofNat n => exact Or.inl (mem_toString_nat h)
  | negSucc n =>
      rw [show toString (Int.negSucc n) = "-" ++ toString (n + 1) from rfl, String.toList_append,
        List.mem_append] at h
      obtain h | h := h
      · exact Or.inr (by simpa using h)
      · exact Or.inl (mem_toString_nat h)

lemma toString_int_inj {i j : ℤ} (h : toString i = toString j) : i = j := by
  have hsign : ∀ n : ℕ, toString (Int.negSucc n) = "-" ++ toString (n + 1) := fun n => rfl
  have hmixed : ∀ m n : ℕ, toString (Int.ofNat m) ≠ toString (Int.negSucc n) := by
    intro m n heq
    have hminus : '-' ∈ (toString m).toList := by
      rw [show toString m = toString (Int.ofNat m) from rfl, heq, hsign]
      simp
    exact absurd (mem_toString_nat hminus) (by decide)
  cases i with
  | ofNat m =>
      cases j with
      | ofNat n => rw [toString_nat_inj h]
      | negSucc n => exact absurd h (hmixed m n)
  | negSucc m =>
      cases j with
      | ofNat n => exact absurd h.symm (hmixed n m)
      | negSucc n =>
          rw [hsign, hsign, String.append_right_inj] at h
          rw [Nat.succ.inj (toString_nat_inj h)]

lemma toString_int_ne_empty (i : ℤ) : toString i ≠ "" := by
  cases i with
  | ofNat n =>
      intro h
      have hdigits : (toString n).toList = [] := by
        rw [show toString n = toString (Int.ofNat n) from rfl, h]
        rfl
      rw [show (toString n).toList = Nat.toDigits 10 n from Nat.toList_repr] at hdigits
      exact Nat.toDigits_ne_nil hdigits
  | negSucc n =>
      rw [show toString (Int.negSucc n) = "-" ++ toString (n + 1) from rfl]
      simp

lemma not_special_of_isDigit {c : Char} (h : c.isDigit = true) : ¬ Special c := by
  intro hc
  simp only [Special, List.mem_cons, List.not_mem_nil, or_false] at hc
  obtain rfl | rfl | rfl | rfl | rfl := hc <;> revert h <;> decide

lemma plain_toString_int (i : ℤ) : Plain Special (toString i).toList := by
  intro c hc
  obtain hdigit | rfl := mem_toString_int hc
  · exact not_special_of_isDigit hdigit
  · decide

/-- A word is not the text of an int. -/
lemma toString_int_ne {i : ℤ} {s : String} {c : Char} (hc : c ∈ s.toList)
    (hdigit : c.isDigit = false) (hsign : c ≠ '-') : toString i ≠ s := by
  rintro rfl
  obtain h | h := mem_toString_int hc
  · rw [hdigit] at h
    cases h
  · exact hsign h

end Ints

section Scalars

variable (hF : FloatTexts F)
include hF

lemma reprFloat_ne_int (x : F) (i : ℤ) : toString i ≠ PyRuntime.reprFloat x := by
  obtain ⟨c, hc, hdigit, hsign⟩ := hF.fraction x
  exact toString_int_ne hc hdigit hsign

/-- A word is not the text of a float. -/
lemma reprFloat_ne_word (x : F) {s : String} {c : Char} (hc : c ∈ s.toList)
    (hinitial : c ∈ initials) : PyRuntime.reprFloat x ≠ s := by
  rintro rfl
  exact hF.noInitial x c hc hinitial

lemma reprBool_ne_float (b : Bool) (x : F) : reprBool b ≠ PyRuntime.reprFloat x := by
  cases b
  · exact fun h => reprFloat_ne_word hF x (c := 'F') (by decide) (by decide) h.symm
  · exact fun h => reprFloat_ne_word hF x (c := 'T') (by decide) (by decide) h.symm

lemma reprFloat_ne_none (x : F) : PyRuntime.reprFloat x ≠ "None" :=
  reprFloat_ne_word hF x (c := 'N') (by decide) (by decide)

omit [PyRuntime F] hF in
lemma reprBool_ne_none (b : Bool) : reprBool b ≠ "None" := by
  cases b <;> decide

omit [PyRuntime F] hF in
lemma toString_int_ne_none (i : ℤ) : toString i ≠ "None" :=
  toString_int_ne (c := 'N') (by decide) (by decide) (by decide)

omit [PyRuntime F] hF in
lemma reprBool_inj {b c : Bool} (h : reprBool b = reprBool c) : b = c := by
  revert h
  cases b <;> cases c <;> decide

omit [PyRuntime F] hF in
lemma reprBool_ne_int (b : Bool) (i : ℤ) : toString i ≠ reprBool b := by
  cases b
  · exact toString_int_ne (c := 'F') (by decide) (by decide) (by decide)
  · exact toString_int_ne (c := 'T') (by decide) (by decide) (by decide)

omit [PyRuntime F] hF in
lemma plain_of_all {l : List Char} (h : l.all (fun c => !decide (Special c)) = true) :
    Plain Special l := by
  intro c hc
  simpa using List.all_eq_true.mp h c hc

/-- What is not a string prints no special symbol. -/
lemma plain_text {v : Value F} (hv : v.IsPlain) : Plain Special v.text.toList := by
  cases v with
  | none => exact plain_of_all (by decide : "None".toList.all _ = true)
  | bool b =>
      cases b
      · exact plain_of_all (by decide : "False".toList.all _ = true)
      · exact plain_of_all (by decide : "True".toList.all _ = true)
  | int i => exact plain_toString_int i
  | float x => exact hF.plain x
  | str s | pair a b => exact absurd hv id

end Scalars

section Exact

lemma mem_toString_exact {x : ℚ} {c : Char} (h : c ∈ (PyRuntime.reprFloat x).toList) :
    c.isDigit = true ∨ c = '-' ∨ c = '.' ∨ c = '/' := by
  change c ∈ (if x.den = 1 then toString x.num ++ ".0"
    else toString x.num ++ "/" ++ toString x.den).toList at h
  split at h
  · rw [String.toList_append, List.mem_append] at h
    obtain h | h := h
    · exact (mem_toString_int h).imp_right Or.inl
    · obtain rfl | rfl : c = '.' ∨ c = '0' := by simpa using h
      · exact Or.inr (Or.inr (Or.inl rfl))
      · exact Or.inl (by decide)
  · rw [String.toList_append, String.toList_append, List.mem_append, List.mem_append] at h
    obtain (h | h) | h := h
    · exact (mem_toString_int h).imp_right Or.inl
    · exact Or.inr (Or.inr (Or.inr (by simpa using h)))
    · exact Or.inl (mem_toString_nat h)

/-- Exact floats are printed as decimals or fractions. -/
lemma floatTexts_exact : FloatTexts ℚ where
  plain x c hc := by
    obtain hdigit | rfl | rfl | rfl := mem_toString_exact hc
    · exact not_special_of_isDigit hdigit
    all_goals decide
  noInitial x c hc hinitial := by
    obtain rfl | rfl | rfl : c = 'F' ∨ c = 'N' ∨ c = 'T' := by simpa [initials] using hinitial
    all_goals exact absurd (mem_toString_exact hc) (by decide)
  fraction x := by
    by_cases hden : x.den = 1
    · exact ⟨'.', by simp [PyRuntime.reprFloat, hden], by decide, by decide⟩
    · exact ⟨'/', by simp [PyRuntime.reprFloat, hden], by decide, by decide⟩

end Exact

end MiniSpark
