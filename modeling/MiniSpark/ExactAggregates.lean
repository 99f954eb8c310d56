import Mathlib.Algebra.BigOperators.Group.List.Basic
import Mathlib.Data.List.MinMax
import Mathlib.Data.String.Basic
import MiniSpark.Aggregate
import MiniSpark.ExactNumbers
import MiniSpark.Tallies

/-!
# Exact aggregates

Over a column of one type the state of an aggregate is a tally of the rows: whichever way these
are split, folded and merged, the state is the same value, not only an equal one. Ints have this
for every float runtime, and floats where arithmetic is exact; text has it for `Min` and `Max`.
-/
namespace MiniSpark

open Tallies

variable {F : Type} [PyRuntime F]

/-- On these rows the states of the aggregate are tallies, and can be finalized. -/
def AggregateFunction.Exact (agg : AggregateFunction F) (rows : List (Record F)) : Prop :=
  ∃ tally : List (Record F) → Value F,
    IsTally agg.name.initialState agg.update agg.name.merge (· ∈ rows) tally ∧
      ∀ xs, xs ⊆ rows → ∃ v, agg.name.finalize (tally xs) = .ok v

/-- Values of one type compare as they are ordered. -/
structure Compares {K : Type} [LinearOrder K] (embed : K → Value F) : Prop where
  notNone : ∀ k, (embed k).isNone = false
  lt : ∀ j k, (embed j).lt (embed k) = .ok (decide (j < k))

/-- Values of one type add up within the type. -/
structure Adds {K : Type} [AddCommMonoid K] (embed : K → Value F) : Prop where
  notNone : ∀ k, (embed k).isNone = false
  add : ∀ j k, (embed j).add (embed k) = .ok (embed (j + k))
  zero_add : ∀ k, (Value.int 0).add (embed k) = .ok (embed k)
  add_zero : ∀ k, (embed k).add (.int 0) = .ok (embed k)

lemma compares_int : Compares (F := F) Value.int := ⟨fun _ => rfl, fun _ _ => rfl⟩

lemma compares_str : Compares (F := F) Value.str := ⟨fun _ => rfl, fun _ _ => rfl⟩

lemma compares_float : Compares (F := ℚ) Value.float := ⟨fun _ => rfl, fun _ _ => rfl⟩

lemma adds_int : Adds (F := F) Value.int where
  notNone _ := rfl
  add _ _ := rfl
  zero_add k := by
    show Except.ok (Value.int (0 + k)) = _
    rw [Int.zero_add]
  add_zero k := by
    show Except.ok (Value.int (k + 0)) = _
    rw [Int.add_zero]

lemma adds_float : Adds (F := ℚ) Value.float where
  notNone _ := rfl
  add _ _ := rfl
  zero_add k := by
    show Except.ok (Value.float (((0 : ℤ) : ℚ) + k)) = _
    rw [Int.cast_zero, zero_add]
  add_zero k := by
    show Except.ok (Value.float (k + ((0 : ℤ) : ℚ))) = _
    rw [Int.cast_zero, add_zero]

section Values

variable {K : Type} {embed : K → Value F}

/-- The state of `Count` after these values. -/
def countOf (ks : List K) : Value F := .int ks.length

/-- The state of `Sum`. -/
def sumOf [AddCommMonoid K] (embed : K → Value F) (ks : List K) : Value F :=
  if ks = [] then .none else embed ks.sum

/-- The state of `Avg`: a total that starts as the int 0, and a count. -/
def avgOf [AddCommMonoid K] (embed : K → Value F) (ks : List K) : Value F :=
  .pair (if ks = [] then .int 0 else embed ks.sum) (.int ks.length)

/-- The state of `Min` or `Max`: the extremum so far, if any. -/
def bestOf (best : List K → Option K) (embed : K → Value F) (ks : List K) : Value F :=
  (best ks).elim .none embed

lemma isTally_count : IsTally (Value.int 0 : Value F) (fun s (_ : K) => s.add (.int 1))
    (AggregateName.merge .count) (fun _ => True) countOf where
  start := rfl
  step xs k _ _ := by
    rw [countOf, countOf, List.length_append, Nat.cast_add]
    rfl
  merge xs ys _ _ := by
    rw [countOf, countOf, countOf, List.length_append, Nat.cast_add]
    rfl
  perm xs ys hperm _ := by rw [countOf, countOf, hperm.length_eq]

lemma isTally_sum [AddCommMonoid K] (h : Adds embed) :
    IsTally (.none : Value F) (fun s k => AggregateName.updateValue .sum s (embed k))
      (AggregateName.merge .sum) (fun _ => True) (sumOf embed) where
  start := rfl
  step xs k _ _ := by
    by_cases hxs : xs = []
    · simp [AggregateName.updateValue, AggregateName.updateSum, sumOf, hxs]
    · simp [AggregateName.updateValue, AggregateName.updateSum, sumOf, hxs, h.notNone, h.add]
  merge xs ys _ _ := by
    by_cases hxs : xs = []
    · simp [AggregateName.merge, AggregateName.mergeNullable, sumOf, hxs]
    · by_cases hys : ys = []
      · simp [AggregateName.merge, AggregateName.mergeNullable, sumOf, hxs, hys, h.notNone]
      · simp [AggregateName.merge, AggregateName.mergeNullable, sumOf, hxs, hys, h.notNone, h.add]
  perm xs ys hperm _ := by
    have hnil : xs = [] ↔ ys = [] := by
      rw [← List.length_eq_zero_iff, hperm.length_eq, List.length_eq_zero_iff]
    simp only [sumOf, hnil, hperm.sum_eq]

lemma avg_total [AddCommMonoid K] (h : Adds embed) (xs ys : List K) :
    (if xs = [] then Value.int 0 else embed xs.sum).add
        (if ys = [] then .int 0 else embed ys.sum) =
      .ok (if xs ++ ys = [] then .int 0 else embed (xs ++ ys).sum) := by
  by_cases hxs : xs = []
  · by_cases hys : ys = []
    · simp only [hxs, hys, List.append_nil, if_true]
      rfl
    · simp [hxs, hys, h.zero_add]
  · by_cases hys : ys = []
    · simp [hxs, hys, h.add_zero]
    · simp [hxs, hys, h.add]

lemma isTally_avg [AddCommMonoid K] (h : Adds embed) :
    IsTally (.pair (.int 0) (.int 0) : Value F)
      (fun s k => AggregateName.updateValue .avg s (embed k)) (AggregateName.merge .avg)
      (fun _ => True) (avgOf embed) where
  start := rfl
  step xs k _ _ := by
    have htotal := avg_total h xs [k]
    rw [if_neg (List.cons_ne_nil k []), List.sum_singleton] at htotal
    have hcount : (Value.int xs.length : Value F).add (.int 1) =
        .ok (.int (xs ++ [k]).length) := by
      rw [List.length_append, Nat.cast_add]
      rfl
    simp only [AggregateName.updateValue, AggregateName.updateAvg, avgOf, htotal, hcount,
      ExceptList.bind_ok, ExceptList.pure_eq_ok]
  merge xs ys _ _ := by
    have hcount : (Value.int xs.length : Value F).add (.int ys.length) =
        .ok (.int (xs ++ ys).length) := by
      rw [List.length_append, Nat.cast_add]
      rfl
    simp only [AggregateName.merge, AggregateName.mergeAvg, avgOf, avg_total h, hcount,
      ExceptList.bind_ok, ExceptList.pure_eq_ok]
  perm xs ys hperm _ := by
    have hnil : xs = [] ↔ ys = [] := by
      rw [← List.length_eq_zero_iff, hperm.length_eq, List.length_eq_zero_iff]
    simp only [avgOf, hnil, hperm.sum_eq, hperm.length_eq]

/-- `best` picks one of the values, between two by `pick`. -/
structure Picks (pick : K → K → K) (best : List K → Option K) : Prop where
  single : ∀ k, best [k] = some k
  nil : best [] = none
  append : ∀ xs ys, best (xs ++ ys) = Option.merge pick (best xs) (best ys)
  perm : ∀ xs ys, xs.Perm ys → best xs = best ys

lemma picks_min [LinearOrder K] : Picks min (List.min? : List K → Option K) where
  single _ := rfl
  nil := rfl
  append xs ys := by
    induction xs with
    | nil => cases h : ys.min? <;> simp [Option.merge, h]
    | cons x xs ih =>
        rw [List.cons_append, List.min?_cons, List.min?_cons, ih]
        cases xs.min? <;> cases ys.min? <;> simp [Option.merge, min_assoc]
  perm xs ys hperm := by
    refine Option.ext (fun k => ?_)
    rw [List.min?_eq_some_iff, List.min?_eq_some_iff]
    simp only [hperm.mem_iff]

lemma picks_max [LinearOrder K] : Picks max (List.max? : List K → Option K) where
  single _ := rfl
  nil := rfl
  append xs ys := by
    induction xs with
    | nil => cases h : ys.max? <;> simp [Option.merge, h]
    | cons x xs ih =>
        rw [List.cons_append, List.max?_cons, List.max?_cons, ih]
        cases xs.max? <;> cases ys.max? <;> simp [Option.merge, max_assoc]
  perm xs ys hperm := by
    refine Option.ext (fun k => ?_)
    rw [List.max?_eq_some_iff, List.max?_eq_some_iff]
    simp only [hperm.mem_iff]

omit [PyRuntime F] in
/-- An extremum is a tally where the comparison decides for the same value as `pick`. -/
lemma isTally_best {pick : K → K → K} {best : List K → Option K}
    (better : Value F → Value F → Py Bool) (hpicks : Picks pick best)
    (hnone : ∀ k, (embed k).isNone = false)
    (hpick : ∀ j k, ∃ b, better (embed j) (embed k) = .ok b ∧
      (if b then embed j else embed k) = embed (pick j k))
    (hcomm : ∀ j k, pick j k = pick k j) :
    IsTally (.none : Value F)
      (fun s k => AggregateName.updateExtremum better s (embed k))
      (AggregateName.mergeNullable (AggregateName.mergeExtremum better)) (fun _ => True)
      (bestOf best embed) where
  start := by rw [bestOf, hpicks.nil]; rfl
  step xs k _ _ := by
    rw [bestOf, bestOf, hpicks.append, hpicks.single]
    cases best xs with
    | none => simp [AggregateName.updateExtremum, Option.merge]
    | some j =>
        obtain ⟨b, hb, hpicked⟩ := hpick k j
        simp [AggregateName.updateExtremum, Option.merge, hnone, hb, hpicked, hcomm j k]
  merge xs ys _ _ := by
    rw [bestOf, bestOf, bestOf, hpicks.append]
    cases best xs with
    | none =>
        cases best ys <;> simp [AggregateName.mergeNullable, Option.merge]
    | some j =>
        cases best ys with
        | none => simp [AggregateName.mergeNullable, Option.merge, hnone]
        | some k =>
            obtain ⟨b, hb, hpicked⟩ := hpick j k
            simp [AggregateName.mergeNullable, AggregateName.mergeExtremum, Option.merge, hnone,
              hb, hpicked]
  perm xs ys hperm _ := by rw [bestOf, bestOf, hpicks.perm xs ys hperm]

lemma isTally_min [LinearOrder K] (h : Compares embed) :
    IsTally (.none : Value F) (fun s k => AggregateName.updateValue .min s (embed k))
      (AggregateName.merge .min) (fun _ => True) (bestOf List.min? embed) := by
  refine isTally_best (fun v s => v.lt s) picks_min h.notNone (fun j k => ?_) min_comm
  refine ⟨_, h.lt j k, ?_⟩
  by_cases hlt : j < k
  · simp [hlt, min_eq_left hlt.le]
  · simp [hlt, min_eq_right (not_lt.mp hlt)]

lemma isTally_max [LinearOrder K] (h : Compares embed) :
    IsTally (.none : Value F) (fun s k => AggregateName.updateValue .max s (embed k))
      (AggregateName.merge .max) (fun _ => True) (bestOf List.max? embed) := by
  refine isTally_best (fun v s => s.lt v) picks_max h.notNone (fun j k => ?_) max_comm
  refine ⟨_, h.lt k j, ?_⟩
  by_cases hlt : k < j
  · simp [hlt, max_eq_left hlt.le]
  · simp [hlt, max_eq_right (not_lt.mp hlt)]

end Values

section Columns

variable {K : Type} {embed : K → Value F} {e : Expression F} {rows : List (Record F)}

/-- On every row the expression is null or a value of the type. -/
def IsColumn (embed : K → Value F) (e : Expression F) (rows : List (Record F)) : Prop :=
  ∀ r ∈ rows, ∃ v : Option K, e.evaluate r = .ok (v.elim .none embed)

/-- An aggregate of the values of a column is exact when its states are tallies of them. -/
theorem exact_of_values {name : AggregateName} {tally : List K → Value F} (hname : name ≠ .count)
    (h : IsTally name.initialState (fun s k => name.updateValue s (embed k)) name.merge
      (fun _ => True) tally) (hcolumn : IsColumn embed e rows)
    (hnone : ∀ k, (embed k).isNone = false)
    (hfinal : ∀ ks, ∃ v, name.finalize (tally ks) = .ok v) :
    AggregateFunction.Exact ⟨name, some e⟩ rows := by
  choose! read hread using hcolumn
  have hupdate : ∀ s r, r ∈ rows → (AggregateFunction.mk name (some e)).update s r =
      (read r).elim (.ok s) (fun k => name.updateValue s (embed k)) := by
    intro s r hr
    have hrow : (AggregateFunction.mk name (some e)).update s r =
        (if ((read r).elim Value.none embed).isNone then pure s
          else name.updateValue s ((read r).elim .none embed)) := by
      cases name with
      | count => exact absurd rfl hname
      | _ => simp only [AggregateFunction.update, hread r hr, ExceptList.bind_ok]
    rw [hrow]
    cases read r with
    | none => rfl
    | some k => simp [hnone]
  refine ⟨_, h.filterMap read (fun xs r k hr hk => ?_) (fun xs r hr hk => ?_),
    fun xs _ => hfinal _⟩
  · rw [hupdate _ r hr, hk, Option.elim_some]
  · rw [hupdate _ r hr, hk, Option.elim_none]

/-- `count` of an expression that has a value on every row. -/
theorem exact_count (hvalues : ∀ r ∈ rows, ∃ v, e.evaluate r = .ok v) :
    AggregateFunction.Exact ⟨.count, some e⟩ rows := by
  have : Nonempty (Value F) := ⟨.none⟩
  choose! value hvalue using hvalues
  have hupdate : ∀ n : ℕ, ∀ r ∈ rows, (AggregateFunction.mk .count (some e)).update (.int n) r =
      .ok (.int (n + if (value r).isNone then 0 else 1)) := by
    intro n r hr
    simp only [AggregateFunction.update, hvalue r hr, ExceptList.bind_ok]
    rfl
  refine ⟨_, (isTally_count (K := Unit)).filterMap
    (fun r => if (value r).isNone then none else some ()) (fun xs r k hr hk => ?_)
    (fun xs r hr hk => ?_), fun xs _ => ⟨_, rfl⟩⟩
  · rw [countOf, hupdate _ r hr, if_neg (by simpa using hk)]
    rfl
  · rw [countOf, hupdate _ r hr, if_pos (by simpa using hk), Int.add_zero]

/-- `count(*)` is exact on any rows. -/
theorem exact_countStar (rows : List (Record F)) :
    AggregateFunction.Exact ⟨.count, none⟩ rows :=
  ⟨countOf, (isTally_count (K := Record F)).mono (fun _ _ => trivial), fun _ _ => ⟨_, rfl⟩⟩

theorem exact_min [LinearOrder K] (h : Compares embed) (hcolumn : IsColumn embed e rows) :
    AggregateFunction.Exact ⟨.min, some e⟩ rows :=
  exact_of_values (by simp) (isTally_min h) hcolumn h.notNone (fun _ => ⟨_, rfl⟩)

theorem exact_max [LinearOrder K] (h : Compares embed) (hcolumn : IsColumn embed e rows) :
    AggregateFunction.Exact ⟨.max, some e⟩ rows :=
  exact_of_values (by simp) (isTally_max h) hcolumn h.notNone (fun _ => ⟨_, rfl⟩)

theorem exact_sum [AddCommMonoid K] (h : Adds embed) (hcolumn : IsColumn embed e rows) :
    AggregateFunction.Exact ⟨.sum, some e⟩ rows :=
  exact_of_values (by simp) (isTally_sum h) hcolumn h.notNone (fun _ => ⟨_, rfl⟩)

/-- A mean is exact where a total can be divided by a count. -/
theorem exact_avg [AddCommMonoid K] (h : Adds embed) (hcolumn : IsColumn embed e rows)
    (hdiv : ∀ k, ∀ n : ℕ, n ≠ 0 → ∃ v, (embed k).truediv (.int n) = .ok v) :
    AggregateFunction.Exact ⟨.avg, some e⟩ rows := by
  refine exact_of_values (by simp) (isTally_avg h) hcolumn h.notNone (fun ks => ?_)
  by_cases hks : ks = []
  · subst hks
    exact ⟨.none, rfl⟩
  · have hlen : ks.length ≠ 0 := by simpa using hks
    obtain ⟨v, hv⟩ := hdiv ks.sum ks.length hlen
    refine ⟨v, ?_⟩
    rw [AggregateName.finalize, avgOf, if_neg hks, AggregateName.finalizeAvg]
    simpa [Value.truthy, hks] using hv

end Columns

end MiniSpark
