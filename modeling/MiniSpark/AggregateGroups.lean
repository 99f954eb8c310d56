import Mathlib.Data.List.Zip
import MiniSpark.AggregateStates
import MiniSpark.GroupStages
import MiniSpark.KeyKinds

/-!
# Groups of an aggregation

A group has absorbed a batch when its key is the key of every element and each
state stands for the numbers the batch contributes to its aggregate. Updating
with a raw row, absorbing a partial row and merging two groups all keep this.
-/
namespace MiniSpark

variable {α : Type} {key : α → List (Value ℚ)} {nums : AggregateFunction ℚ × ℕ → α → List ℚ}
  {aggs : List (AggregateFunction ℚ)}

/-- States that stand for what a batch contributes; aggregates carry their positions. -/
def StatesOf (nums : AggregateFunction ℚ × ℕ → α → List ℚ) (aggs : List (AggregateFunction ℚ × ℕ))
    (states : List (Value ℚ)) (batch : List α) : Prop :=
  List.Forall₂ (fun p s => p.1.name.StateOf s (batch.flatMap (nums p))) aggs states

/-- The group has absorbed a batch. -/
structure GroupOf (key : α → List (Value ℚ)) (nums : AggregateFunction ℚ × ℕ → α → List ℚ)
    (aggs : List (AggregateFunction ℚ)) (group : Group ℚ) (batch : List α) : Prop where
  nonempty : batch ≠ []
  key : ∀ a ∈ batch, key a = group.1
  states : StatesOf nums aggs.zipIdx group.2 batch

section States

variable {indexed : List (AggregateFunction ℚ × ℕ)}

lemma mergeStates_statesOf {a b : List (Value ℚ)} {xs ys : List α} (ha : StatesOf nums indexed a xs)
    (hb : StatesOf nums indexed b ys) :
    ∃ c, mergeStates (indexed.map Prod.fst) a b = .ok c ∧ StatesOf nums indexed c (xs ++ ys) := by
  induction ha generalizing b with
  | nil =>
      cases hb
      exact ⟨[], rfl, .nil⟩
  | @cons p s indexed a hs _ ih =>
      obtain _ | ⟨ht, hb⟩ := hb
      obtain ⟨c, hc, hcs⟩ := AggregateName.merge_stateOf hs ht
      obtain ⟨cs, hrun, hrest⟩ := ih hb
      refine ⟨c :: cs, ?_, .cons ?_ hrest⟩
      · simp only [mergeStates, List.map_cons, List.zip_cons_cons, List.mapM_cons, hc,
          ExceptList.bind_ok] at hrun ⊢
        rw [hrun]
        rfl
      · rwa [List.flatMap_append]

lemma initialStates_statesOf :
    StatesOf nums indexed ((indexed.map Prod.fst).map (fun a => a.name.initialState))
      ([] : List α) := by
  rw [StatesOf, List.map_map, List.forall₂_map_right_iff, List.forall₂_same]
  exact fun p _ => AggregateName.stateOf_initialState p.1.name

/-- The number a raw row contributes to an aggregate. -/
def rowNumbers (p : AggregateFunction ℚ × ℕ) (r : Record ℚ) : List ℚ :=
  (p.1.contribution r).toList

lemma updateStates_statesOf {states : List (Value ℚ)} {batch : List (Record ℚ)} {r : Record ℚ}
    (hr : ∀ p ∈ indexed, p.1.Numeric r) (h : StatesOf rowNumbers indexed states batch) :
    ∃ states', ((indexed.map Prod.fst).zip states).mapM (fun p => p.1.update p.2 r) = .ok states' ∧
      StatesOf rowNumbers indexed states' (batch ++ [r]) := by
  induction h with
  | nil => exact ⟨[], rfl, .nil⟩
  | @cons p s indexed states hs _ ih =>
      obtain ⟨hp, hr⟩ := List.forall_mem_cons.mp hr
      obtain ⟨s', hs', hst⟩ := AggregateFunction.update_stateOf hp hs
      obtain ⟨states', hrun, hrest⟩ := ih hr
      refine ⟨s' :: states', ?_, .cons ?_ hrest⟩
      · rw [List.map_cons, List.zip_cons_cons, List.mapM_cons, hs', ExceptList.bind_ok, hrun]
        rfl
      · rw [List.flatMap_append, List.flatMap_singleton]
        exact hst

end States

lemma zipIdx_fst : aggs.zipIdx.map Prod.fst = aggs := List.zipIdx_map_fst 0 aggs

lemma GroupOf.key_length {names : List String} {nums : AggregateFunction ℚ × ℕ → Record ℚ → List ℚ}
    {group : Group ℚ} {batch : List (Record ℚ)} (h : GroupOf (keyOf names) nums aggs group batch) : names.length = group.1.length := by
  obtain ⟨r, hr⟩ := List.exists_mem_of_ne_nil batch h.nonempty
  rw [← h.key r hr, keyOf, List.length_map]

lemma GroupOf.states_length {group : Group ℚ} {batch : List α}
    (h : GroupOf key nums aggs group batch) : group.2.length = aggs.length := by
  rw [← h.states.length_eq, List.length_zipIdx]

theorem groupOf_mergeable : Mergeable aggs (GroupOf key nums aggs) := by
  intro k a b xs ys ha hb
  obtain ⟨c, hc, hcs⟩ := mergeStates_statesOf ha.states hb.states
  rw [zipIdx_fst] at hc
  refine ⟨c, hc, by simp [ha.nonempty], fun x hx => ?_, hcs⟩
  exact (List.mem_append.mp hx).elim (ha.key x) (hb.key x)

/-- The keys of the input. -/
def InputKey (names : List String) (input : List (Record ℚ)) (k : List (Value ℚ)) : Prop :=
  k ∈ input.map (keyOf names)

lemma inputKey_lawful {names : List String} {input : List (Record ℚ)} (h : HoldKinds names input) :
    OrderedDict.LawfulOn (InputKey names input) := by
  intro a b ha hb
  obtain ⟨l, hl, rfl⟩ := List.mem_map.mp ha
  obtain ⟨r, hr, rfl⟩ := List.mem_map.mp hb
  exact h.keyOf_beq_iff hl hr

lemma inputKey_prints {names : List String} {input : List (Record ℚ)}
    (h : ∀ r ∈ input, KeyPrints names r) : KeysPrint (InputKey names input) :=
  fun _ => prints_of_mem_keys h

/-- A raw row adds itself to the group of its key. -/
theorem absorbs_row {spec : HashAggregate ℚ} {names : List String} {r : Record ℚ}
    (hmode : spec.isPartial = true)
    (hkey : tupleKey spec.groupBy r = .ok (keyOf names r)) (hr : ∀ a ∈ aggs, a.Numeric r) :
    Absorbs spec aggs (GroupOf (keyOf names) rowNumbers aggs) r (keyOf names r) [r] := by
  have hnum : ∀ p ∈ aggs.zipIdx, p.1.Numeric r :=
    fun p hp => hr p.1 (List.fst_mem_of_mem_zipIdx hp)
  refine ⟨hkey, ?_, fun s b hb => ?_⟩
  · obtain ⟨v, hv, hvs⟩ := updateStates_statesOf hnum initialStates_statesOf
    rw [zipIdx_fst] at hv
    exact ⟨v, by simpa [nextState, hmode] using hv, by simp, by simp, hvs⟩
  · obtain ⟨v, hv, hvs⟩ := updateStates_statesOf hnum hb.states
    rw [zipIdx_fst] at hv
    refine ⟨v, by simpa [nextState, hmode] using hv, by simp, fun x hx => ?_, hvs⟩
    cases List.mem_append.mp hx with
    | inl hx => exact hb.key x hx
    | inr hx => rw [List.mem_singleton.mp hx]

/-- Every state can be finalized, to the reference value of what it stands for. -/
lemma finalizeStates {indexed : List (AggregateFunction ℚ × ℕ)} {states : List (Value ℚ)}
    {batch : List α} (h : StatesOf nums indexed states batch) :
    ∃ values, ((indexed.map Prod.fst).zip states).mapM (fun p => p.1.name.finalize p.2) =
        .ok values ∧
      List.Forall₂ (fun p v => Stands v (p.1.name.reference (batch.flatMap (nums p))))
        indexed values := by
  induction h with
  | nil => exact ⟨[], rfl, .nil⟩
  | @cons p s indexed states hs _ ih =>
      obtain ⟨v, hv, hst⟩ := AggregateName.finalize_stateOf hs
      obtain ⟨values, hrun, hrest⟩ := ih
      refine ⟨v :: values, ?_, .cons hst hrest⟩
      rw [List.map_cons, List.zip_cons_cons, List.mapM_cons, hv, ExceptList.bind_ok, hrun]
      rfl

/-- The two stages keep what groups of numbers stand for. -/
theorem groupOf_keepsMeaning {names : List String} {nums : AggregateFunction ℚ × ℕ → Record ℚ → List ℚ} :
    KeepsMeaning names aggs (GroupOf (keyOf names) nums aggs) where
  merge := groupOf_mergeable
  key_length _ _ _ h := h.key_length
  states_length _ _ _ h := h.states_length
  finalize k states batch h := by
    obtain ⟨values, hvalues, -⟩ := finalizeStates h.states
    rw [zipIdx_fst] at hvalues
    exact ⟨values, hvalues⟩

section Examples

/-- A null key, null values and an empty partition. -/
def nullParts : List (List (List (Value ℚ))) :=
  [[[.int 1, .int 2], [.none, .none]], [], [[.int 1, .int 5], [.int 1, .none]]]

/-- A mean, a maximum under an alias, and `count(*)`. -/
def meanMaxCount : List (Expression ℚ) :=
  [.aggregate .avg (.column "b"), .aliased (.aggregate .max (.column "b")) "m", .countStar]

lemma nullParts_holdKinds : HoldKinds ["a"] (intRows ["a", "b"] nullParts).flatten := by
  intro n hn
  obtain rfl := List.mem_singleton.mp hn
  refine ⟨.int, ?_⟩
  simp only [nullParts, intRows, List.map_cons, List.map_nil, List.flatten_cons, List.flatten_nil,
    List.cons_append, List.nil_append, List.forall_mem_cons]
  exact ⟨⟨_, rfl, trivial⟩, ⟨_, rfl, trivial⟩, ⟨_, rfl, trivial⟩, ⟨_, rfl, trivial⟩, by simp⟩

lemma nullParts_prints : ∀ r ∈ (intRows ["a", "b"] nullParts).flatten, KeyPrints ["a"] r := by
  simp only [nullParts, intRows, List.map_cons, List.map_nil, List.flatten_cons, List.flatten_nil,
    List.cons_append, List.nil_append, List.forall_mem_cons]
  exact ⟨by decide, by decide, by decide, by decide, by simp⟩

lemma nullParts_numeric : ∀ r ∈ (intRows ["a", "b"] nullParts).flatten, ∀ a ∈ meanMaxCount,
    ∀ f, unwrapAggregate a = .ok f → f.Numeric r := by
  simp only [nullParts, intRows, List.map_cons, List.map_nil, List.flatten_cons, List.flatten_nil,
    List.cons_append, List.nil_append, List.forall_mem_cons, meanMaxCount]
  refine ⟨?_, ?_, ?_, ?_, by simp⟩
  all_goals
    refine ⟨?_, ?_, ?_, by simp⟩
    all_goals
      rintro f ⟨⟩
  exacts [⟨_, some 2, rfl, rfl⟩, ⟨_, some 2, rfl, rfl⟩, rfl, ⟨_, none, rfl, rfl⟩,
    ⟨_, none, rfl, rfl⟩, rfl, ⟨_, some 5, rfl, rfl⟩, ⟨_, some 5, rfl, rfl⟩, rfl,
    ⟨_, none, rfl, rfl⟩, ⟨_, none, rfl, rfl⟩, rfl]

end Examples

end MiniSpark
