import Mathlib.Algebra.BigOperators.Group.List.Basic
import Mathlib.Data.List.MinMax
import MiniSpark.Aggregate
import MiniSpark.ExactNumbers

/-!
# What the states of aggregates stand for

A state stands for the non-null numbers folded into it. Updating appends one
number, merging joins two lists of numbers, and finalizing yields the count, sum,
mean, minimum or maximum of the list. All of this is in exact arithmetic.
-/
namespace MiniSpark

namespace AggregateName

/-- The mathematical value of an aggregate over the numbers it counts. -/
def reference : AggregateName → List ℚ → Option ℚ
  | .count, xs => some xs.length
  | .sum, xs => if xs = [] then none else some xs.sum
  | .avg, xs => if xs = [] then none else some (xs.sum / xs.length)
  | .min, xs => xs.min?
  | .max, xs => xs.max?

/-- The state has absorbed exactly these numbers. -/
def StateOf : AggregateName → Value ℚ → List ℚ → Prop
  | .count, state, xs => state = .int xs.length
  | .avg, state, xs => ∃ total, state = .pair total (.int xs.length) ∧ total.rat? = some xs.sum
  | .sum, state, xs => Stands state (reference .sum xs)
  | .min, state, xs => Stands state xs.min?
  | .max, state, xs => Stands state xs.max?

section Extrema

/-- `ext` picks the better of two numbers by the comparison `better` of their values. -/
structure IsExtremum (ext : List ℚ → Option ℚ) (better : Value ℚ → Value ℚ → Py Bool) : Prop where
  none_iff : ∀ xs, ext xs = none ↔ xs = []
  single : ∀ x, ext [x] = some x
  choose : ∀ {a b : Value ℚ} {xs ys : List ℚ} {x y : ℚ}, ext xs = some x → ext ys = some y →
    a.rat? = some x → b.rat? = some y →
    ∃ t, better a b = .ok t ∧ ext (xs ++ ys) = some (if t then x else y)
  perm : ∀ {xs ys : List ℚ}, xs.Perm ys → ext xs = ext ys

lemma isExtremum_min : IsExtremum List.min? (fun v s => v.lt s) where
  none_iff _ := List.min?_eq_none_iff
  single _ := rfl
  choose := by
    intro a b xs ys x y hx hy ha hb
    refine ⟨_, Value.lt_rat ha hb, ?_⟩
    obtain ⟨hxm, hxl⟩ := List.min?_eq_some_iff.mp hx
    obtain ⟨hym, hyl⟩ := List.min?_eq_some_iff.mp hy
    rw [List.min?_eq_some_iff]
    by_cases h : x < y
    · simp only [h, decide_true, if_true, List.mem_append]
      exact ⟨Or.inl hxm, fun z hz => hz.elim (hxl z) (fun hz => h.le.trans (hyl z hz))⟩
    · simp only [h, decide_false, Bool.false_eq_true, if_false, List.mem_append]
      exact ⟨Or.inr hym, fun z hz => hz.elim (fun hz => (not_lt.mp h).trans (hxl z hz)) (hyl z)⟩
  perm := by
    intro xs ys h
    refine Option.ext (fun a => ?_)
    rw [List.min?_eq_some_iff, List.min?_eq_some_iff]
    simp only [h.mem_iff]

lemma isExtremum_max : IsExtremum List.max? (fun v s => s.lt v) where
  none_iff _ := List.max?_eq_none_iff
  single _ := rfl
  choose := by
    intro a b xs ys x y hx hy ha hb
    refine ⟨_, Value.lt_rat hb ha, ?_⟩
    obtain ⟨hxm, hxl⟩ := List.max?_eq_some_iff.mp hx
    obtain ⟨hym, hyl⟩ := List.max?_eq_some_iff.mp hy
    rw [List.max?_eq_some_iff]
    by_cases h : y < x
    · simp only [h, decide_true, if_true, List.mem_append]
      exact ⟨Or.inl hxm, fun z hz => hz.elim (hxl z) (fun hz => (hyl z hz).trans h.le)⟩
    · simp only [h, decide_false, Bool.false_eq_true, if_false, List.mem_append]
      exact ⟨Or.inr hym, fun z hz => hz.elim (fun hz => (hxl z hz).trans (not_lt.mp h)) (hyl z)⟩
  perm := by
    intro xs ys h
    refine Option.ext (fun a => ?_)
    rw [List.max?_eq_some_iff, List.max?_eq_some_iff]
    simp only [h.mem_iff]

variable {ext : List ℚ → Option ℚ} {better : Value ℚ → Value ℚ → Py Bool}

/-- A state of numbers is null exactly when it has absorbed none. -/
lemma IsExtremum.stands_cases (h : IsExtremum ext better) {s : Value ℚ} {xs : List ℚ}
    (hs : Stands s (ext xs)) :
    (s = .none ∧ xs = []) ∨ ∃ x, ext xs = some x ∧ s.rat? = some x := by
  cases hx : ext xs with
  | none =>
      rw [hx] at hs
      exact Or.inl ⟨hs, (h.none_iff xs).mp hx⟩
  | some x =>
      rw [hx] at hs
      exact Or.inr ⟨x, rfl, hs⟩

lemma IsExtremum.update (h : IsExtremum ext better) {s v : Value ℚ} {xs : List ℚ} {q : ℚ}
    (hs : Stands s (ext xs)) (hv : v.rat? = some q) :
    ∃ s', updateExtremum better s v = .ok s' ∧ Stands s' (ext (xs ++ [q])) := by
  obtain ⟨rfl, rfl⟩ | ⟨x, hx, hsx⟩ := h.stands_cases hs
  · refine ⟨v, rfl, ?_⟩
    rw [List.nil_append, h.single]
    exact hv
  · obtain ⟨t, ht, hext⟩ := h.choose (h.single q) hx hv hsx
    refine ⟨if t then v else s, ?_, ?_⟩
    · simp only [updateExtremum, Value.isNone_of_rat? hsx, Bool.false_eq_true, if_false, ht,
        ExceptList.bind_ok, ExceptList.pure_eq_ok]
    · rw [h.perm List.perm_append_comm, hext]
      cases t <;> assumption

lemma IsExtremum.merge (h : IsExtremum ext better) {a b : Value ℚ} {xs ys : List ℚ}
    (ha : Stands a (ext xs)) (hb : Stands b (ext ys)) :
    ∃ c, mergeNullable (mergeExtremum better) a b = .ok c ∧ Stands c (ext (xs ++ ys)) := by
  obtain ⟨rfl, rfl⟩ | ⟨x, hx, hax⟩ := h.stands_cases ha
  · exact ⟨b, rfl, hb⟩
  · obtain ⟨rfl, rfl⟩ | ⟨y, hy, hby⟩ := h.stands_cases hb
    · exact ⟨a, by simp [mergeNullable, Value.isNone_of_rat? hax], by rwa [List.append_nil]⟩
    · obtain ⟨t, ht, hext⟩ := h.choose hx hy hax hby
      refine ⟨if t then a else b, ?_, ?_⟩
      · simp [mergeNullable, Value.isNone_of_rat? hax, Value.isNone_of_rat? hby, mergeExtremum, ht]
      · rw [hext]
        cases t <;> assumption

end Extrema

section Sums

lemma stands_sum_cases {s : Value ℚ} {xs : List ℚ} (hs : Stands s (reference .sum xs)) :
    (s = .none ∧ xs = []) ∨ (xs ≠ [] ∧ s.rat? = some xs.sum) := by
  by_cases hx : xs = []
  · rw [reference, if_pos hx] at hs
    exact Or.inl ⟨hs, hx⟩
  · rw [reference, if_neg hx] at hs
    exact Or.inr ⟨hx, hs⟩

lemma stateOf_sum {s : Value ℚ} {xs : List ℚ} (hx : xs ≠ []) (hs : s.rat? = some xs.sum) :
    StateOf .sum s xs := by
  rw [StateOf, reference, if_neg hx]
  exact hs

lemma add_int (i j : ℤ) : (Value.int i : Value ℚ).add (.int j) = .ok (.int (i + j)) := rfl

end Sums

theorem stateOf_initialState (name : AggregateName) : name.StateOf name.initialState [] := by
  cases name with
  | avg => exact ⟨_, rfl, rfl⟩
  | _ => rfl

/-- Folding one number into a state. -/
theorem updateValue_stateOf {name : AggregateName} {s v : Value ℚ} {xs : List ℚ} {q : ℚ}
    (hs : name.StateOf s xs) (hv : v.rat? = some q) :
    ∃ s', name.updateValue s v = .ok s' ∧ name.StateOf s' (xs ++ [q]) := by
  cases name with
  | count =>
      obtain rfl := hs
      exact ⟨_, add_int _ _, by simp [StateOf]⟩
  | sum =>
      obtain ⟨rfl, rfl⟩ | ⟨hx, hsx⟩ := stands_sum_cases hs
      · exact ⟨v, rfl, stateOf_sum (by simp) (by simpa using hv)⟩
      · obtain ⟨c, hc, hcx⟩ := Value.add_rat hsx hv
        refine ⟨c, ?_, stateOf_sum (by simp) (by rw [hcx, List.sum_append, List.sum_singleton])⟩
        rw [updateValue, updateSum, Value.isNone_of_rat? hsx]
        exact hc
  | avg =>
      obtain ⟨total, rfl, ht⟩ := hs
      obtain ⟨c, hc, hcx⟩ := Value.add_rat ht hv
      refine ⟨.pair c (.int (xs.length + 1)), ?_, c, by simp, ?_⟩
      · simp only [updateValue, updateAvg, hc, add_int, ExceptList.bind_ok, ExceptList.pure_eq_ok]
      · rw [hcx, List.sum_append, List.sum_singleton]
  | min => exact isExtremum_min.update hs hv
  | max => exact isExtremum_max.update hs hv

/-- Merging two states is absorbing both lists of numbers. -/
theorem merge_stateOf {name : AggregateName} {a b : Value ℚ} {xs ys : List ℚ}
    (ha : name.StateOf a xs) (hb : name.StateOf b ys) :
    ∃ c, name.merge a b = .ok c ∧ name.StateOf c (xs ++ ys) := by
  cases name with
  | count =>
      obtain rfl := ha
      obtain rfl := hb
      exact ⟨_, add_int _ _, by simp [StateOf]⟩
  | sum =>
      obtain ⟨rfl, rfl⟩ | ⟨hx, hax⟩ := stands_sum_cases ha
      · exact ⟨b, rfl, hb⟩
      · obtain ⟨rfl, rfl⟩ | ⟨hy, hby⟩ := stands_sum_cases hb
        · exact ⟨a, by simp [merge, mergeNullable, Value.isNone_of_rat? hax],
            by rwa [List.append_nil]⟩
        · obtain ⟨c, hc, hcx⟩ := Value.add_rat hax hby
          refine ⟨c, ?_, stateOf_sum (by simp [hx]) (by rw [hcx, List.sum_append])⟩
          simp [merge, mergeNullable, Value.isNone_of_rat? hax, Value.isNone_of_rat? hby, hc]
  | avg =>
      obtain ⟨s, rfl, hs⟩ := ha
      obtain ⟨t, rfl, ht⟩ := hb
      obtain ⟨c, hc, hcx⟩ := Value.add_rat hs ht
      refine ⟨.pair c (.int (xs.length + ys.length)), ?_, c, by simp, by rw [hcx, List.sum_append]⟩
      simp only [merge, mergeAvg, hc, add_int, ExceptList.bind_ok, ExceptList.pure_eq_ok]
  | min => exact isExtremum_min.merge ha hb
  | max => exact isExtremum_max.merge ha hb

/-- The final value is the aggregate of the absorbed numbers. -/
theorem finalize_stateOf {name : AggregateName} {s : Value ℚ} {xs : List ℚ}
    (hs : name.StateOf s xs) : ∃ v, name.finalize s = .ok v ∧ Stands v (name.reference xs) := by
  cases name with
  | count =>
      obtain rfl := hs
      exact ⟨_, rfl, by simp [reference, Stands]⟩
  | avg =>
      obtain ⟨total, rfl, ht⟩ := hs
      by_cases hx : xs = []
      · subst hx
        exact ⟨.none, rfl, rfl⟩
      · have hlen : ((xs.length : ℤ) : ℚ) ≠ 0 := by simpa using hx
        refine ⟨.float (xs.sum / (xs.length : ℤ)), ?_, ?_⟩
        · rw [finalize, finalizeAvg, ← Value.truediv_rat ht (Value.rat?_int _) hlen]
          simp [Value.truthy, hx]
        · rw [reference, if_neg hx]
          simp [Stands]
  | sum => exact ⟨s, rfl, hs⟩
  | min => exact ⟨s, rfl, hs⟩
  | max => exact ⟨s, rfl, hs⟩

/-- A state stands for its numbers in any order. -/
theorem StateOf.perm {name : AggregateName} {s : Value ℚ} {xs ys : List ℚ}
    (hs : name.StateOf s xs) (h : xs.Perm ys) : name.StateOf s ys := by
  have hnil : xs = [] ↔ ys = [] := by rw [← List.length_eq_zero_iff, h.length_eq, List.length_eq_zero_iff]
  cases name with
  | count => rwa [StateOf, ← h.length_eq]
  | avg =>
      obtain ⟨total, rfl, ht⟩ := hs
      exact ⟨total, by rw [h.length_eq], by rw [ht, h.sum_eq]⟩
  | sum => simpa only [StateOf, reference, hnil, h.sum_eq] using hs
  | min => rwa [StateOf, ← isExtremum_min.perm h]
  | max => rwa [StateOf, ← isExtremum_max.perm h]

theorem reference_perm {name : AggregateName} {xs ys : List ℚ} (h : xs.Perm ys) :
    name.reference xs = name.reference ys := by
  have hnil : xs = [] ↔ ys = [] := by rw [← List.length_eq_zero_iff, h.length_eq, List.length_eq_zero_iff]
  cases name with
  | count => rw [reference, reference, h.length_eq]
  | sum => simp only [reference, hnil, h.sum_eq]
  | avg => simp only [reference, hnil, h.sum_eq, h.length_eq]
  | min => exact isExtremum_min.perm h
  | max => exact isExtremum_max.perm h

end AggregateName

namespace AggregateFunction

/-- The number a row contributes; a null contributes none, `count(*)` counts the row. -/
def contribution (agg : AggregateFunction ℚ) (r : Record ℚ) : Option ℚ :=
  match agg.child with
  | none => some 0
  | some e =>
      match e.evaluate r with
      | .ok v => v.rat?
      | .error _ => none

/-- The aggregated expression is null or a number on the row. -/
def Numeric (agg : AggregateFunction ℚ) (r : Record ℚ) : Prop :=
  match agg.child with
  | none => agg.name = .count
  | some e => ∃ v q, e.evaluate r = .ok v ∧ Stands v q

/-- The reference value over some rows. -/
def reference (agg : AggregateFunction ℚ) (rows : List (Record ℚ)) : Option ℚ :=
  agg.name.reference (rows.filterMap agg.contribution)

/-- Updating with a row absorbs what the row contributes. -/
theorem update_stateOf {agg : AggregateFunction ℚ} {s : Value ℚ} {xs : List ℚ} {r : Record ℚ}
    (hr : agg.Numeric r) (hs : agg.name.StateOf s xs) :
    ∃ s', agg.update s r = .ok s' ∧ agg.name.StateOf s' (xs ++ (agg.contribution r).toList) := by
  obtain ⟨name, child⟩ := agg
  cases child with
  | none =>
      obtain rfl : name = .count := hr
      obtain rfl := hs
      exact ⟨_, AggregateName.add_int _ _, by simp [AggregateName.StateOf, contribution]⟩
  | some e =>
      obtain ⟨v, q, hv, hq⟩ := hr
      have hcontr : contribution ⟨name, some e⟩ r = v.rat? := by simp [contribution, hv]
      rw [hcontr]
      cases q with
      | none =>
          obtain rfl : v = .none := hq
          refine ⟨s, ?_, by simpa using hs⟩
          cases name with
          | count =>
              obtain rfl := hs
              simp [update, hv, Value.isNone, AggregateName.add_int]
          | _ => simp [update, hv, Value.isNone]
      | some x =>
          have hx : v.rat? = some x := hq
          obtain ⟨s', hs', hst⟩ := AggregateName.updateValue_stateOf hs hx
          refine ⟨s', ?_, by rw [hx]; exact hst⟩
          rw [← hs']
          cases name with
          | count => simp [update, hv, Value.isNone_of_rat? hx, AggregateName.updateValue]
          | _ => simp [update, hv, Value.isNone_of_rat? hx]

end AggregateFunction

end MiniSpark
