import Mathlib.Data.List.Basic

/-!
# Lines of a text

A line ends with a line feed, a carriage return, or both; the last line may end without one.
What is left after some lines is determined by their number.
-/
namespace TextLines

/-- The first line with its terminator, and what follows it; no line is left of an empty text. -/
def readline : List Char → List Char × List Char
  | [] => ([], [])
  | '\n' :: rest => (['\n'], rest)
  | '\r' :: '\n' :: rest => (['\r', '\n'], rest)
  | '\r' :: rest => (['\r'], rest)
  | c :: rest => (c :: (readline rest).1, (readline rest).2)

@[simp] lemma readline_append (text : List Char) :
    (readline text).1 ++ (readline text).2 = text := by
  fun_induction readline text <;> simp_all

@[simp] lemma readline_nil : readline [] = ([], []) := rfl

@[simp] lemma readline_eq_nil {text : List Char} : (readline text).1 = [] ↔ text = [] := by
  fun_cases readline text <;> simp

lemma readline_shorter {text : List Char} (h : text ≠ []) :
    (readline text).2.length < text.length := by
  have happend := congrArg List.length (readline_append text)
  have hpos : 0 < (readline text).1.length :=
    List.length_pos_of_ne_nil (fun he => h (readline_eq_nil.mp he))
  rw [List.length_append] at happend
  omega

/-- All lines of a text. -/
def lines (text : List Char) : List (List Char) :=
  if _h : text = [] then [] else (readline text).1 :: lines (readline text).2
termination_by text.length
decreasing_by exact readline_shorter _h

@[simp] lemma lines_nil : lines [] = [] := by rw [lines, dif_pos rfl]

lemma lines_of_ne_nil {text : List Char} (h : text ≠ []) :
    lines text = (readline text).1 :: lines (readline text).2 := by rw [lines, dif_neg h]

/-- The lines make up the text. -/
theorem flatten_lines (text : List Char) : (lines text).flatten = text := by
  fun_induction lines text with
  | case1 => rfl
  | case2 text h ih => rw [List.flatten_cons, ih, readline_append]

/-- What is left after `k` lines. -/
def skip : ℕ → List Char → List Char
  | 0, text => text
  | k + 1, text => skip k (readline text).2

@[simp] lemma skip_nil (k : ℕ) : skip k [] = [] := by
  induction k with
  | zero => rfl
  | succ k ih => exact ih

lemma skip_succ (k : ℕ) (text : List Char) : skip (k + 1) text = (readline (skip k text)).2 := by
  induction k generalizing text with
  | zero => rfl
  | succ k ih => exact ih (readline text).2

/-- Skipping lines drops them from the list of lines. -/
theorem lines_skip (k : ℕ) (text : List Char) : lines (skip k text) = (lines text).drop k := by
  induction k generalizing text with
  | zero => rfl
  | succ k ih =>
      rw [skip, ih]
      by_cases h : text = []
      · subst h
        simp
      · rw [lines_of_ne_nil h, List.drop_succ_cons]

lemma skip_of_le {k m : ℕ} {text : List Char} (h : skip k text = []) (hkm : k ≤ m) :
    skip m text = [] := by
  obtain ⟨j, rfl⟩ := Nat.exists_eq_add_of_le hkm
  induction j with
  | zero => exact h
  | succ j ih => rw [← Nat.add_assoc, skip_succ, ih (Nat.le_add_right k j), readline_nil]

end TextLines
