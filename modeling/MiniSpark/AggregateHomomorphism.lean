import MiniSpark.AggregateSpilling

/-!
# Aggregates are homomorphisms

Folding rows into a state and merging states follow putting lists of rows together. A state
that `initialize`, `update` and `merge` have made stands for the numbers of its rows, and states
that stand for the same numbers are equal, so the laws of `merge` are those of lists.
-/
namespace MiniSpark

namespace AggregateFunction

variable {agg : AggregateFunction ℚ} {xs ys zs : List (Record ℚ)} {s t u : Value ℚ}

/-- `update` over some rows, from `initialize()`. -/
def fold {F : Type} [PyRuntime F] (agg : AggregateFunction F) (rows : List (Record F)) :
    Py (Value F) :=
  rows.foldlM agg.update agg.name.initialState

/-- The states that `initialize`, `update` and `merge` make, with the rows they have absorbed. -/
inductive Reachable (agg : AggregateFunction ℚ) : List (Record ℚ) → Value ℚ → Prop
  | initial : Reachable agg [] agg.name.initialState
  | update {rows : List (Record ℚ)} {s s' : Value ℚ} {r : Record ℚ} : Reachable agg rows s →
      agg.Numeric r → agg.update s r = .ok s' → Reachable agg (rows ++ [r]) s'
  | merge {rows rows' : List (Record ℚ)} {s t u : Value ℚ} : Reachable agg rows s →
      Reachable agg rows' t → agg.name.merge s t = .ok u → Reachable agg (rows ++ rows') u

/-- The numbers that some rows contribute. -/
def numbers (agg : AggregateFunction ℚ) (rows : List (Record ℚ)) : List ℚ :=
  rows.filterMap agg.contribution

lemma numbers_append (agg : AggregateFunction ℚ) (xs ys : List (Record ℚ)) :
    agg.numbers (xs ++ ys) = agg.numbers xs ++ agg.numbers ys := List.filterMap_append

lemma numbers_snoc (agg : AggregateFunction ℚ) (xs : List (Record ℚ)) (r : Record ℚ) :
    agg.numbers (xs ++ [r]) = agg.numbers xs ++ (agg.contribution r).toList := by
  rw [numbers_append, numbers, numbers]
  cases hr : agg.contribution r with
  | none => rw [List.filterMap_cons_none hr]; rfl
  | some q => rw [List.filterMap_cons_some hr]; rfl

/-- A reachable state stands for the numbers of its rows. -/
theorem Reachable.stateOf (h : agg.Reachable xs s) : agg.name.StateOf s (agg.numbers xs) := by
  induction h with
  | initial => exact AggregateName.stateOf_initialState agg.name
  | @update rows s s' r _ hr hupdate ih =>
      obtain ⟨u, hu, hst⟩ := update_stateOf hr ih
      obtain rfl : u = s' := Except.ok.inj (hu.symm.trans hupdate)
      rwa [numbers_snoc]
  | @merge rows rows' s t u _ _ hmerge ihs iht =>
      obtain ⟨v, hv, hst⟩ := AggregateName.merge_stateOf ihs iht
      obtain rfl : v = u := Except.ok.inj (hv.symm.trans hmerge)
      rwa [numbers_append]

/-- Two reachable states can be merged. -/
lemma Reachable.exists_merge (hs : agg.Reachable xs s) (ht : agg.Reachable ys t) :
    ∃ u, agg.name.merge s t = .ok u ∧ agg.Reachable (xs ++ ys) u := by
  obtain ⟨u, hu, -⟩ := AggregateName.merge_stateOf hs.stateOf ht.stateOf
  exact ⟨u, hu, .merge hs ht hu⟩

/-- Folding more rows into a reachable state. -/
lemma Reachable.exists_foldlM (hs : agg.Reachable xs s) (hys : ∀ r ∈ ys, agg.Numeric r) :
    ∃ t, ys.foldlM agg.update s = .ok t ∧ agg.Reachable (xs ++ ys) t := by
  induction ys generalizing xs s with
  | nil => exact ⟨s, rfl, by rwa [List.append_nil]⟩
  | cons r ys ih =>
      obtain ⟨hr, hys⟩ := List.forall_mem_cons.mp hys
      obtain ⟨u, hu, -⟩ := update_stateOf hr hs.stateOf
      obtain ⟨t, ht, hreach⟩ := ih (.update hs hr hu) hys
      refine ⟨t, ?_, by rwa [List.append_assoc] at hreach⟩
      rw [List.foldlM_cons, hu]
      exact ht

lemma exists_fold (hxs : ∀ r ∈ xs, agg.Numeric r) :
    ∃ s, agg.fold xs = .ok s ∧ agg.Reachable xs s :=
  Reachable.initial.exists_foldlM hxs

/-- States of the same rows, in any order, are equal. -/
lemma Reachable.beq (hs : agg.Reachable xs s) (ht : agg.Reachable ys t) (h : xs.Perm ys) :
    (s == t) = true :=
  (hs.stateOf.perm (h.filterMap _)).beq ht.stateOf

/-- Folding `xs` and then `ys` is merging their folds. -/
theorem fold_append (hxs : ∀ r ∈ xs, agg.Numeric r) (hys : ∀ r ∈ ys, agg.Numeric r) :
    ∃ s t u v, agg.fold xs = .ok s ∧ agg.fold ys = .ok t ∧ agg.fold (xs ++ ys) = .ok u ∧
      agg.name.merge s t = .ok v ∧ (u == v) = true := by
  obtain ⟨s, hs, hsr⟩ := exists_fold hxs
  obtain ⟨t, ht, htr⟩ := exists_fold hys
  obtain ⟨u, hu, hur⟩ := exists_fold (fun r hr => (List.mem_append.mp hr).elim (hxs r) (hys r))
  obtain ⟨v, hv, hvr⟩ := hsr.exists_merge htr
  exact ⟨s, t, u, v, hs, ht, hu, hv, hur.beq hvr (.refl _)⟩

theorem merge_assoc (hs : agg.Reachable xs s) (ht : agg.Reachable ys t) (hu : agg.Reachable zs u) :
    ∃ st tu l r, agg.name.merge s t = .ok st ∧ agg.name.merge st u = .ok l ∧
      agg.name.merge t u = .ok tu ∧ agg.name.merge s tu = .ok r ∧ (l == r) = true := by
  obtain ⟨st, hst, hstr⟩ := hs.exists_merge ht
  obtain ⟨l, hl, hlr⟩ := hstr.exists_merge hu
  obtain ⟨tu, htu, htur⟩ := ht.exists_merge hu
  obtain ⟨r, hr, hrr⟩ := hs.exists_merge htur
  exact ⟨st, tu, l, r, hst, hl, htu, hr, hlr.beq hrr (.of_eq (List.append_assoc xs ys zs))⟩

theorem merge_comm (hs : agg.Reachable xs s) (ht : agg.Reachable ys t) :
    ∃ l r, agg.name.merge s t = .ok l ∧ agg.name.merge t s = .ok r ∧ (l == r) = true := by
  obtain ⟨l, hl, hlr⟩ := hs.exists_merge ht
  obtain ⟨r, hr, hrr⟩ := ht.exists_merge hs
  exact ⟨l, r, hl, hr, hlr.beq hrr List.perm_append_comm⟩

theorem merge_initialState (hs : agg.Reachable xs s) :
    ∃ l r, agg.name.merge agg.name.initialState s = .ok l ∧
      agg.name.merge s agg.name.initialState = .ok r ∧ (l == s) = true ∧ (r == s) = true := by
  obtain ⟨l, hl, hlr⟩ := Reachable.initial.exists_merge hs
  obtain ⟨r, hr, hrr⟩ := hs.exists_merge .initial
  exact ⟨l, r, hl, hr, hlr.beq hs (.refl _), hrr.beq hs (.of_eq (List.append_nil xs))⟩

/-- The final value of a fold is the reference value, whatever the order of the rows. -/
theorem finalize_fold (hxs : ∀ r ∈ xs, agg.Numeric r) (hperm : xs.Perm ys) :
    ∃ s v, agg.fold ys = .ok s ∧ agg.name.finalize s = .ok v ∧ Stands v (agg.reference xs) := by
  obtain ⟨s, hs, hreach⟩ := exists_fold (fun r hr => hxs r (hperm.mem_iff.mpr hr))
  obtain ⟨v, hv, hstands⟩ := AggregateName.finalize_stateOf hreach.stateOf
  refine ⟨s, v, hs, hv, ?_⟩
  rwa [reference, AggregateName.reference_perm (hperm.filterMap agg.contribution)]

end AggregateFunction

/-- Every aggregate is a homomorphism from lists of rows to states under `merge`, and a fold
finalizes to the aggregate of the numbers of its rows. -/
theorem aggregate_homomorphism (agg : AggregateFunction ℚ) :
    (∀ xs ys : List (Record ℚ), (∀ r ∈ xs ++ ys, agg.Numeric r) → ∃ s t u v,
      agg.fold xs = .ok s ∧ agg.fold ys = .ok t ∧ agg.fold (xs ++ ys) = .ok u ∧
      agg.name.merge s t = .ok v ∧ (u == v) = true) ∧
    (∀ xs ys zs s t u, agg.Reachable xs s → agg.Reachable ys t → agg.Reachable zs u →
      ∃ st tu l r, agg.name.merge s t = .ok st ∧ agg.name.merge st u = .ok l ∧
        agg.name.merge t u = .ok tu ∧ agg.name.merge s tu = .ok r ∧ (l == r) = true) ∧
    (∀ xs ys s t, agg.Reachable xs s → agg.Reachable ys t → ∃ l r,
      agg.name.merge s t = .ok l ∧ agg.name.merge t s = .ok r ∧ (l == r) = true) ∧
    (∀ xs s, agg.Reachable xs s → ∃ l r,
      agg.name.merge agg.name.initialState s = .ok l ∧
      agg.name.merge s agg.name.initialState = .ok r ∧ (l == s) = true ∧ (r == s) = true) ∧
    ∀ xs ys : List (Record ℚ), (∀ r ∈ xs, agg.Numeric r) → xs.Perm ys → ∃ s v,
      agg.fold ys = .ok s ∧ agg.name.finalize s = .ok v ∧ Stands v (agg.reference xs) := by
  refine ⟨fun xs ys h => ?_, fun _ _ _ _ _ _ => AggregateFunction.merge_assoc,
    fun _ _ _ _ => AggregateFunction.merge_comm, fun _ _ => AggregateFunction.merge_initialState,
    fun _ _ => AggregateFunction.finalize_fold⟩
  obtain ⟨hxs, hys⟩ := List.forall_mem_append.mp h
  exact AggregateFunction.fold_append hxs hys

/-- The mean of rows with nulls, in two parts of two rows each. -/
theorem aggregate_homomorphism_nulls : ∃ s t u v,
    (AggregateFunction.mk .avg (some (.column "b"))).fold
      (intRows ["a", "b"] (nullParts.take 1)).flatten = .ok s ∧
    (AggregateFunction.mk .avg (some (.column "b"))).fold
      (intRows ["a", "b"] (nullParts.drop 1)).flatten = .ok t ∧
    (AggregateFunction.mk .avg (some (.column "b"))).fold
      ((intRows ["a", "b"] (nullParts.take 1)).flatten ++
        (intRows ["a", "b"] (nullParts.drop 1)).flatten) = .ok u ∧
    AggregateName.avg.merge s t = .ok v ∧ (u == v) = true :=
  have hparts : (intRows ["a", "b"] (nullParts.take 1)).flatten ++
      (intRows ["a", "b"] (nullParts.drop 1)).flatten = (intRows ["a", "b"] nullParts).flatten := rfl
  (aggregate_homomorphism ⟨.avg, some (.column "b")⟩).1 _ _
    (fun r hr => nullParts_numeric r (hparts ▸ hr) _ List.mem_cons_self _ rfl)

end MiniSpark
