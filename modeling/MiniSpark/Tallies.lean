import Mathlib.Data.List.Perm.Basic
import MiniSpark.ExceptList

/-!
# Tallies

A tally gives a list its value, whatever the order of its elements. It can be computed element
by element, and from the tallies of parts: `step` appends one element, `merge` joins two lists.
A family of tallies, computed entry by entry, is a tally of lists.
-/
namespace Tallies

variable {ε α σ : Type}

/-- `step` and `merge` follow the tally on lists of elements that satisfy `P`. -/
structure IsTally (start : σ) (step : σ → α → Except ε σ) (merge : σ → σ → Except ε σ)
    (P : α → Prop) (tally : List α → σ) : Prop where
  start : tally [] = start
  step : ∀ xs x, (∀ y ∈ xs, P y) → P x → step (tally xs) x = .ok (tally (xs ++ [x]))
  merge : ∀ xs ys, (∀ y ∈ xs, P y) → (∀ y ∈ ys, P y) →
    merge (tally xs) (tally ys) = .ok (tally (xs ++ ys))
  perm : ∀ xs ys, xs.Perm ys → (∀ y ∈ xs, P y) → tally xs = tally ys

variable {start : σ} {step : σ → α → Except ε σ} {merge : σ → σ → Except ε σ} {P Q : α → Prop}
  {tally : List α → σ}

theorem IsTally.mono (h : IsTally start step merge P tally) (hPQ : ∀ x, Q x → P x) :
    IsTally start step merge Q tally where
  start := h.start
  step xs x hxs hx := h.step xs x (fun y hy => hPQ y (hxs y hy)) (hPQ x hx)
  merge xs ys hxs hys :=
    h.merge xs ys (fun y hy => hPQ y (hxs y hy)) (fun y hy => hPQ y (hys y hy))
  perm xs ys hperm hxs := h.perm xs ys hperm (fun y hy => hPQ y (hxs y hy))

/-- A tally of what the elements contribute is a tally of the elements. -/
theorem IsTally.filterMap {κ : Type} {tally : List κ → σ}
    {stepOf : σ → κ → Except ε σ} (h : IsTally start stepOf merge (fun _ => True) tally)
    (read : α → Option κ)
    (hsome : ∀ (xs : List α) x k, P x → read x = some k →
      step (tally (xs.filterMap read)) x = stepOf (tally (xs.filterMap read)) k)
    (hnone : ∀ (xs : List α) x, P x → read x = none →
      step (tally (xs.filterMap read)) x = .ok (tally (xs.filterMap read))) :
    IsTally start step merge P (fun xs => tally (xs.filterMap read)) where
  start := h.start
  step xs x _ hx := by
    cases hread : read x with
    | none => simp [hnone xs x hx hread, List.filterMap_append, hread]
    | some k =>
        rw [hsome xs x k hx hread, h.step _ _ (fun _ _ => trivial) trivial]
        simp [List.filterMap_append, hread]
  merge xs ys _ _ := by
    rw [h.merge _ _ (fun _ _ => trivial) (fun _ _ => trivial), List.filterMap_append]
  perm xs ys hperm _ := h.perm _ _ (hperm.filterMap read) (fun _ _ => trivial)

section Families

variable {ι : Type} {starts : ι → σ} {steps : ι → σ → α → Except ε σ}
  {merges : ι → σ → σ → Except ε σ} {index : List ι} {tallies : List (List α → σ)}

lemma steps_family (h : List.Forall₂ (fun i t => IsTally (starts i) (steps i) (merges i) P t)
    index tallies) {xs : List α} {x : α} (hxs : ∀ y ∈ xs, P y) (hx : P x) :
    (index.zip (tallies.map (fun t => t xs))).mapM (fun p => steps p.1 p.2 x) =
      .ok (tallies.map (fun t => t (xs ++ [x]))) := by
  induction h with
  | nil => rfl
  | cons ht _ ih => simp [ht.step xs x hxs hx, ih]

lemma merges_family (h : List.Forall₂ (fun i t => IsTally (starts i) (steps i) (merges i) P t)
    index tallies) {xs ys : List α} (hxs : ∀ y ∈ xs, P y) (hys : ∀ y ∈ ys, P y) :
    (index.zip ((tallies.map (fun t => t xs)).zip (tallies.map (fun t => t ys)))).mapM
      (fun p => merges p.1 p.2.1 p.2.2) = .ok (tallies.map (fun t => t (xs ++ ys))) := by
  induction h with
  | nil => rfl
  | cons ht _ ih => simp [ht.merge xs ys hxs hys, ih]

/-- Entry by entry, a family of tallies is a tally. -/
theorem isTally_family
    (h : List.Forall₂ (fun i t => IsTally (starts i) (steps i) (merges i) P t) index tallies) :
    IsTally (index.map starts) (fun s x => (index.zip s).mapM (fun p => steps p.1 p.2 x))
      (fun a b => (index.zip (a.zip b)).mapM (fun p => merges p.1 p.2.1 p.2.2)) P
      (fun xs => tallies.map (fun t => t xs)) where
  start := by
    induction h with
    | nil => rfl
    | cons ht _ ih => simp [ht.start, ih]
  step _ _ hxs hx := steps_family h hxs hx
  merge _ _ hxs hys := merges_family h hxs hys
  perm xs ys hperm hxs := by
    induction h with
    | nil => rfl
    | cons ht _ ih => simp [ht.perm xs ys hperm hxs, ih]

end Families

end Tallies
