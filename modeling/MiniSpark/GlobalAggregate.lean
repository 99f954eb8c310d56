import MiniSpark.AggregateExecution
import MiniSpark.SortOrder
import MiniSpark.SqlParser

/-!
# An aggregation without grouping columns

All rows have the empty key, so the two stages leave at most one row, and they leave one
exactly when some row reaches the aggregation. That row holds the count, sum, mean, minimum
or maximum of the non-null values of each aggregate.
-/
namespace MiniSpark

open StableSort Summaries

section Extremes

/-- Null over no values; otherwise one of the values, over which `better` prefers none. -/
def IsBest (better : Value ℚ → Value ℚ → Py Bool) (s : Value ℚ) (vs : List (Value ℚ)) : Prop :=
  (vs = [] ∧ s = .none) ∨ (s ∈ vs ∧ ∀ v ∈ vs, better v s = .ok false)

/-- On non-null values `better` decides a total preorder. -/
structure Decides (better : Value ℚ → Value ℚ → Py Bool) (le : Value ℚ → Value ℚ → Bool)
    (P : Value ℚ → Prop) : Prop where
  present : ∀ v, P v → v.isNone = false
  verdict : ∀ v w, P v → P w → better v w = .ok (!le w v)
  order : TotalPreorderOn le P

variable {better : Value ℚ → Value ℚ → Py Bool} {le : Value ℚ → Value ℚ → Bool}
  {P : Value ℚ → Prop} {s t v : Value ℚ} {vs ws : List (Value ℚ)}

lemma IsBest.perm (hs : IsBest better s vs) (h : vs.Perm ws) : IsBest better s ws := by
  obtain ⟨rfl, rfl⟩ | ⟨hmem, hbest⟩ := hs
  · exact Or.inl ⟨h.symm.eq_nil, rfl⟩
  · exact Or.inr ⟨h.mem_iff.mp hmem, fun v hv => hbest v (h.mem_iff.mpr hv)⟩

lemma Decides.refl (h : Decides better le P) (hv : P v) : le v v = true :=
  (h.order.total v v hv hv).elim id id

lemma Decides.isBest_singleton (h : Decides better le P) (hv : P v) : IsBest better v [v] := by
  refine Or.inr ⟨List.mem_singleton_self v, fun w hw => ?_⟩
  obtain rfl := List.mem_singleton.mp hw
  rw [h.verdict w w hv hv, h.refl hv]
  rfl

/-- The better one of two best values is the best of both lists. -/
lemma Decides.choose (h : Decides better le P) (hvs : ∀ v ∈ vs, P v) (hws : ∀ w ∈ ws, P w)
    (hs : s ∈ vs) (hbest : ∀ v ∈ vs, better v s = .ok false) (ht : t ∈ ws)
    (hbest' : ∀ w ∈ ws, better w t = .ok false) :
    ∃ b, better s t = .ok b ∧ IsBest better (if b then s else t) (vs ++ ws) := by
  have hPs : P s := hvs s hs
  have hPt : P t := hws t ht
  have hle : ∀ {x y : Value ℚ}, P x → P y → better x y = .ok false → le y x = true := by
    intro x y hx hy hxy
    rw [h.verdict x y hx hy] at hxy
    simpa using hxy
  have hnot : ∀ {x y : Value ℚ}, P x → P y → le y x = true → better x y = .ok false := by
    intro x y hx hy hyx
    rw [h.verdict x y hx hy, hyx]
    rfl
  refine ⟨!le t s, h.verdict s t hPs hPt, ?_⟩
  cases hts : le t s with
  | true =>
      -- `t` stays: nothing in `vs` is better than `s`, and `s` is not better than `t`
      refine Or.inr ⟨List.mem_append_right vs ht, fun x hx => ?_⟩
      cases List.mem_append.mp hx with
      | inl hx =>
          have hxs : le s x = true := hle (hvs x hx) hPs (hbest x hx)
          exact hnot (hvs x hx) hPt (h.order.trans t s x hPt hPs (hvs x hx) hts hxs)
      | inr hx => exact hbest' x hx
  | false =>
      have hst : le s t = true := by
        cases h.order.total s t hPs hPt with
        | inl hst => exact hst
        | inr hts' => rw [hts] at hts'; cases hts'
      refine Or.inr ⟨List.mem_append_left ws hs, fun x hx => ?_⟩
      cases List.mem_append.mp hx with
      | inl hx => exact hbest x hx
      | inr hx =>
          have hxt : le t x = true := hle (hws x hx) hPt (hbest' x hx)
          exact hnot (hws x hx) hPs (h.order.trans s t x hPs hPt (hws x hx) hst hxt)

lemma Decides.update (h : Decides better le P) (hvs : ∀ v ∈ vs, P v) (hv : P v)
    (hs : IsBest better s vs) :
    ∃ s', AggregateName.updateExtremum better s v = .ok s' ∧ IsBest better s' (vs ++ [v]) := by
  obtain ⟨rfl, rfl⟩ | ⟨hmem, hbest⟩ := hs
  · exact ⟨v, rfl, h.isBest_singleton hv⟩
  · have hsingle : ∀ w ∈ [v], P w ∧ better w v = .ok false := by
      intro w hw
      obtain rfl := List.mem_singleton.mp hw
      rw [h.verdict w w hv hv, h.refl hv]
      exact ⟨hv, rfl⟩
    obtain ⟨b, hb, hchoice⟩ := h.choose (fun w hw => (hsingle w hw).1) hvs
      (List.mem_singleton_self v) (fun w hw => (hsingle w hw).2) hmem hbest
    refine ⟨if b then v else s, ?_, hchoice.perm List.perm_append_comm⟩
    simp only [AggregateName.updateExtremum, h.present s (hvs s hmem), Bool.false_eq_true,
      if_false, hb, ExceptList.bind_ok, ExceptList.pure_eq_ok]

lemma Decides.merge (h : Decides better le P) (hvs : ∀ v ∈ vs, P v) (hws : ∀ w ∈ ws, P w)
    (hs : IsBest better s vs) (ht : IsBest better t ws) :
    ∃ c, AggregateName.mergeNullable (AggregateName.mergeExtremum better) s t = .ok c ∧
      IsBest better c (vs ++ ws) := by
  obtain ⟨rfl, rfl⟩ | ⟨hsm, hsb⟩ := hs
  · exact ⟨t, rfl, ht⟩
  · have hsn : s.isNone = false := h.present s (hvs s hsm)
    obtain ⟨rfl, rfl⟩ | ⟨htm, htb⟩ := ht
    · refine ⟨s, ?_, by rw [List.append_nil]; exact Or.inr ⟨hsm, hsb⟩⟩
      rw [AggregateName.mergeNullable, hsn]
      rfl
    · have htn : t.isNone = false := h.present t (hws t htm)
      obtain ⟨b, hb, hbest⟩ := h.choose hvs hws hsm hsb htm htb
      refine ⟨if b then s else t, ?_, hbest⟩
      simp [AggregateName.mergeNullable, AggregateName.mergeExtremum, hsn, htn, hb]

lemma decides_min (hP : MutuallyComparable P) (hnn : ∀ v, P v → v.isNone = false) :
    Decides (fun v w => v.lt w) (notLt Value.lt) P where
  present := hnn
  verdict v w hv hw := by
    rcases hP.trichotomy v w hv hw with ⟨hlt, -, -⟩ | ⟨hlt, -, -⟩ | ⟨hlt, -, -⟩ <;>
      rw [hlt, notLt_of_ok hlt] <;> rfl
  order := ⟨fun _ _ hv hw => hP.notLt_total hv hw,
    fun _ _ _ hu hv hw huv hvw => hP.notLt_trans hu hv hw huv hvw⟩

lemma decides_max (hP : MutuallyComparable P) (hnn : ∀ v, P v → v.isNone = false) :
    Decides (fun v w => w.lt v) (fun v w => notLt Value.lt w v) P where
  present := hnn
  verdict v w hv hw := by
    rcases hP.trichotomy w v hw hv with ⟨hlt, -, -⟩ | ⟨hlt, -, -⟩ | ⟨hlt, -, -⟩ <;>
      rw [hlt, notLt_of_ok hlt] <;> rfl
  order := ⟨fun _ _ hv hw => hP.notLt_total hw hv,
    fun _ _ _ hu hv hw huv hvw => hP.notLt_trans hw hv hu hvw huv⟩

end Extremes

namespace AggregateName

/-- What an aggregate says about some non-null values. -/
def ValueOver : AggregateName → Value ℚ → List (Value ℚ) → Prop
  | .count, v, vs => v = .int vs.length
  | .sum, v, vs => Stands v (reference .sum (vs.filterMap Value.rat?))
  | .avg, v, vs => Stands v (reference .avg (vs.filterMap Value.rat?))
  | .min, v, vs => IsBest (fun a b => a.lt b) v vs
  | .max, v, vs => IsBest (fun a b => b.lt a) v vs

/-- The state has absorbed these non-null values. -/
def Folded : AggregateName → Value ℚ → List (Value ℚ) → Prop
  | .count, s, vs => s = .int vs.length
  | .sum, s, vs => StateOf .sum s (vs.filterMap Value.rat?)
  | .avg, s, vs => StateOf .avg s (vs.filterMap Value.rat?)
  | .min, s, vs => IsBest (fun a b => a.lt b) s vs
  | .max, s, vs => IsBest (fun a b => b.lt a) s vs

/-- The aggregate has a value over such non-null values. -/
def DefiniteOn : AggregateName → (Value ℚ → Prop) → Prop
  | .count, _ => True
  | .sum, P | .avg, P => ∀ v, P v → ∃ q, v.rat? = some q
  | .min, P | .max, P => MutuallyComparable P

variable {name : AggregateName} {P : Value ℚ → Prop} {s t v : Value ℚ} {vs ws : List (Value ℚ)}

lemma folded_initialState (name : AggregateName) : name.Folded name.initialState [] := by
  cases name with
  | count => rfl
  | sum => exact stateOf_initialState .sum
  | avg => exact stateOf_initialState .avg
  | min => exact Or.inl ⟨rfl, rfl⟩
  | max => exact Or.inl ⟨rfl, rfl⟩

/-- Folding one non-null value into a state. -/
theorem folded_updateValue (h : name.DefiniteOn P) (hnn : ∀ v, P v → v.isNone = false)
    (hvs : ∀ v ∈ vs, P v) (hv : P v) (hs : name.Folded s vs) :
    ∃ s', name.updateValue s v = .ok s' ∧ name.Folded s' (vs ++ [v]) := by
  cases name with
  | count =>
      obtain rfl := hs
      exact ⟨_, add_int _ _, by simp [Folded]⟩
  | sum =>
      obtain ⟨q, hq⟩ := h v hv
      obtain ⟨s', hs', hst⟩ := updateValue_stateOf (show AggregateName.sum.StateOf s _ from hs) hq
      exact ⟨s', hs', by simpa [Folded, hq] using hst⟩
  | avg =>
      obtain ⟨q, hq⟩ := h v hv
      obtain ⟨s', hs', hst⟩ := updateValue_stateOf (show AggregateName.avg.StateOf s _ from hs) hq
      exact ⟨s', hs', by simpa [Folded, hq] using hst⟩
  | min => exact (decides_min h hnn).update hvs hv hs
  | max => exact (decides_max h hnn).update hvs hv hs

/-- Merging two states is absorbing both lists of values. -/
theorem folded_merge (h : name.DefiniteOn P) (hnn : ∀ v, P v → v.isNone = false)
    (hvs : ∀ v ∈ vs, P v) (hws : ∀ w ∈ ws, P w) (hs : name.Folded s vs) (ht : name.Folded t ws) :
    ∃ c, name.merge s t = .ok c ∧ name.Folded c (vs ++ ws) := by
  cases name with
  | count =>
      obtain rfl := hs
      obtain rfl := ht
      exact ⟨_, add_int _ _, by simp [Folded]⟩
  | sum =>
      obtain ⟨c, hc, hst⟩ := merge_stateOf (show AggregateName.sum.StateOf s _ from hs) ht
      exact ⟨c, hc, by rwa [Folded, List.filterMap_append]⟩
  | avg =>
      obtain ⟨c, hc, hst⟩ := merge_stateOf (show AggregateName.avg.StateOf s _ from hs) ht
      exact ⟨c, hc, by rwa [Folded, List.filterMap_append]⟩
  | min => exact (decides_min h hnn).merge hvs hws hs ht
  | max => exact (decides_max h hnn).merge hvs hws hs ht

/-- The final value is the aggregate of the absorbed values. -/
theorem folded_finalize (hs : name.Folded s vs) :
    ∃ v, name.finalize s = .ok v ∧ name.ValueOver v vs := by
  cases name with
  | count => exact ⟨s, rfl, hs⟩
  | sum => exact finalize_stateOf (show AggregateName.sum.StateOf s _ from hs)
  | avg => exact finalize_stateOf (show AggregateName.avg.StateOf s _ from hs)
  | min => exact ⟨s, rfl, hs⟩
  | max => exact ⟨s, rfl, hs⟩

/-- An aggregate does not depend on the order of the values. -/
theorem ValueOver.perm (hv : name.ValueOver v vs) (h : vs.Perm ws) : name.ValueOver v ws := by
  cases name with
  | count => rwa [ValueOver, ← h.length_eq]
  | sum => rwa [ValueOver, ← reference_perm (h.filterMap _)]
  | avg => rwa [ValueOver, ← reference_perm (h.filterMap _)]
  | min => exact IsBest.perm (show IsBest (fun a b => a.lt b) v vs from hv) h
  | max => exact IsBest.perm (show IsBest (fun a b => b.lt a) v vs from hv) h

end AggregateName

namespace AggregateFunction

/-- The non-null value a row brings to an aggregate; `count(*)` counts the row. -/
def counted (agg : AggregateFunction ℚ) (r : Record ℚ) : Option (Value ℚ) :=
  match agg.child with
  | none => some (.int 1)
  | some e =>
      match e.evaluate r with
      | .ok v => if v.isNone then none else some v
      | .error _ => none

/-- The argument has a value on the row. -/
def EvaluatesOn (agg : AggregateFunction ℚ) (r : Record ℚ) : Prop :=
  match agg.child with
  | none => agg.name = .count
  | some e => ∃ v, e.evaluate r = .ok v

/-- The aggregate is defined over the rows: `SUM` and `AVG` meet numbers, `MIN` and `MAX`
mutually comparable values, `COUNT` any values. -/
structure DefiniteOver (agg : AggregateFunction ℚ) (rows : List (Record ℚ)) : Prop where
  evaluates : ∀ r ∈ rows, agg.EvaluatesOn r
  definite : agg.name.DefiniteOn (· ∈ rows.filterMap agg.counted)

variable {agg : AggregateFunction ℚ} {rows batch : List (Record ℚ)} {r : Record ℚ}

lemma counted_present {v : Value ℚ} (hv : agg.counted r = some v) : v.isNone = false := by
  unfold counted at hv
  cases hchild : agg.child with
  | none =>
      rw [hchild] at hv
      cases hv
      rfl
  | some e =>
      rw [hchild] at hv
      cases he : e.evaluate r with
      | error ex =>
          simp only [he] at hv
          cases hv
      | ok w =>
          simp only [he] at hv
          split at hv
          · cases hv
          · next hw =>
              cases hv
              simpa using hw

lemma present_of_mem : ∀ v ∈ rows.filterMap agg.counted, v.isNone = false := by
  intro v hv
  obtain ⟨r, -, hr⟩ := List.mem_filterMap.mp hv
  exact counted_present hr

/-- Updating with a row absorbs the value it brings. -/
theorem folded_update (h : agg.DefiniteOver rows) (hr : r ∈ rows) {s : Value ℚ}
    (hsub : batch ⊆ rows) (hs : agg.name.Folded s (batch.filterMap agg.counted)) :
    ∃ s', agg.update s r = .ok s' ∧
      agg.name.Folded s' ((batch ++ [r]).filterMap agg.counted) := by
  have hvs : ∀ v ∈ batch.filterMap agg.counted, v ∈ rows.filterMap agg.counted :=
    fun v hv => List.filterMap_subset _ hsub hv
  have hstep : ∀ v, agg.counted r = some v → ∃ s', agg.name.updateValue s v = .ok s' ∧
      agg.name.Folded s' ((batch ++ [r]).filterMap agg.counted) := by
    intro v hv
    rw [List.filterMap_append, List.filterMap_cons_some hv, List.filterMap_nil]
    exact AggregateName.folded_updateValue h.definite present_of_mem hvs
      (List.mem_filterMap.mpr ⟨r, hr, hv⟩) hs
  have hev := h.evaluates r hr
  obtain ⟨name, child⟩ := agg
  cases child with
  | none =>
      obtain rfl : name = .count := hev
      exact hstep (.int 1) rfl
  | some e =>
      obtain ⟨v, hv⟩ := hev
      cases hn : v.isNone with
      | true =>
          have hnone : counted ⟨name, some e⟩ r = none := by simp [counted, hv, hn]
          refine ⟨s, ?_, by simpa [hnone] using hs⟩
          cases name with
          | count =>
              obtain rfl := hs
              simp [update, hv, hn, AggregateName.add_int]
          | _ => simp [update, hv, hn]
      | false =>
          obtain ⟨s', hs', hst⟩ := hstep v (by simp [counted, hv, hn])
          refine ⟨s', ?_, hst⟩
          rw [← hs']
          cases name with
          | count => simp [update, hv, hn, AggregateName.updateValue]
          | _ => simp [update, hv, hn]

end AggregateFunction

section Groups

variable {input : List (Record ℚ)} {aggs : List (AggregateFunction ℚ)}

/-- The group of the empty key has absorbed a batch of the rows. -/
structure GlobalGroup (input : List (Record ℚ)) (aggs : List (AggregateFunction ℚ))
    (group : Group ℚ) (batch : List (Record ℚ)) : Prop where
  key : group.1 = []
  nonempty : batch ≠ []
  subset : batch ⊆ input
  states : List.Forall₂ (fun a s => a.name.Folded s (batch.filterMap a.counted)) aggs group.2

lemma mergeStates_folded {xs ys : List (Record ℚ)} {a b : List (Value ℚ)}
    (hdef : ∀ f ∈ aggs, f.DefiniteOver input) (hx : xs ⊆ input) (hy : ys ⊆ input)
    (ha : List.Forall₂ (fun f s => f.name.Folded s (xs.filterMap f.counted)) aggs a)
    (hb : List.Forall₂ (fun f s => f.name.Folded s (ys.filterMap f.counted)) aggs b) :
    ∃ c, mergeStates aggs a b = .ok c ∧
      List.Forall₂ (fun f s => f.name.Folded s ((xs ++ ys).filterMap f.counted)) aggs c := by
  induction ha generalizing b with
  | nil =>
      cases hb
      exact ⟨[], rfl, .nil⟩
  | @cons f s aggs a hs _ ih =>
      obtain _ | ⟨ht, hb⟩ := hb
      obtain ⟨hf, hdef⟩ := List.forall_mem_cons.mp hdef
      obtain ⟨c, hc, hcs⟩ := AggregateName.folded_merge hf.definite AggregateFunction.present_of_mem
        (fun v hv => List.filterMap_subset _ hx hv) (fun v hv => List.filterMap_subset _ hy hv) hs ht
      obtain ⟨cs, hrun, hrest⟩ := ih hdef hb
      refine ⟨c :: cs, ?_, .cons ?_ hrest⟩
      · simp only [mergeStates, List.zip_cons_cons, List.mapM_cons, hc,
          ExceptList.bind_ok] at hrun ⊢
        rw [hrun]
        rfl
      · rwa [List.filterMap_append]

lemma updateStates_folded {xs : List (Record ℚ)} {states : List (Value ℚ)} {r : Record ℚ}
    (hdef : ∀ f ∈ aggs, f.DefiniteOver input) (hr : r ∈ input) (hx : xs ⊆ input)
    (h : List.Forall₂ (fun f s => f.name.Folded s (xs.filterMap f.counted)) aggs states) :
    ∃ states', (aggs.zip states).mapM (fun p => p.1.update p.2 r) = .ok states' ∧
      List.Forall₂ (fun f s => f.name.Folded s ((xs ++ [r]).filterMap f.counted)) aggs states' := by
  induction h with
  | nil => exact ⟨[], rfl, .nil⟩
  | @cons f s aggs states hs _ ih =>
      obtain ⟨hf, hdef⟩ := List.forall_mem_cons.mp hdef
      obtain ⟨s', hs', hst⟩ := AggregateFunction.folded_update hf hr hx hs
      obtain ⟨states', hrun, hrest⟩ := ih hdef
      refine ⟨s' :: states', ?_, .cons hst hrest⟩
      rw [List.zip_cons_cons, List.mapM_cons, hs', ExceptList.bind_ok, hrun]
      rfl

lemma finalizeStates_folded {xs : List (Record ℚ)} {states : List (Value ℚ)}
    (h : List.Forall₂ (fun f s => f.name.Folded s (xs.filterMap f.counted)) aggs states) :
    ∃ values, (aggs.zip states).mapM (fun p => p.1.name.finalize p.2) = .ok values ∧
      List.Forall₂ (fun f v => f.name.ValueOver v (xs.filterMap f.counted)) aggs values := by
  induction h with
  | nil => exact ⟨[], rfl, .nil⟩
  | @cons f s aggs states hs _ ih =>
      obtain ⟨v, hv, hval⟩ := AggregateName.folded_finalize hs
      obtain ⟨values, hrun, hrest⟩ := ih
      refine ⟨v :: values, ?_, .cons hval hrest⟩
      rw [List.zip_cons_cons, List.mapM_cons, hv, ExceptList.bind_ok, hrun]
      rfl

/-- The two stages keep what the groups of the empty key stand for. -/
theorem globalGroup_keepsMeaning (hdef : ∀ f ∈ aggs, f.DefiniteOver input) :
    KeepsMeaning [] aggs (GlobalGroup input aggs) where
  merge := by
    intro k a b xs ys ha hb
    obtain ⟨c, hc, hcs⟩ := mergeStates_folded hdef ha.subset hb.subset ha.states hb.states
    exact ⟨c, hc, ha.key, by simp [ha.nonempty],
      List.append_subset.mpr ⟨ha.subset, hb.subset⟩, hcs⟩
  key_length k states batch h := by
    obtain rfl : k = [] := h.key
    rfl
  states_length _ _ _ h := h.states.length_eq.symm
  finalize k states batch h := by
    obtain ⟨values, hvalues, -⟩ := finalizeStates_folded h.states
    exact ⟨values, hvalues⟩

/-- A row adds itself to the group of the empty key. -/
theorem absorbs_globalRow {spec : HashAggregate ℚ} {r : Record ℚ}
    (hdef : ∀ f ∈ aggs, f.DefiniteOver input) (hgroup : spec.groupBy = [])
    (hmode : spec.isPartial = true) (hr : r ∈ input) :
    Absorbs spec aggs (GlobalGroup input aggs) r [] [r] := by
  have hinitial : List.Forall₂ (fun f s => f.name.Folded s
      (([] : List (Record ℚ)).filterMap f.counted)) aggs
      (aggs.map (fun a => a.name.initialState)) := by
    rw [List.forall₂_map_right_iff, List.forall₂_same]
    exact fun f _ => AggregateName.folded_initialState f.name
  have hsub : [r] ⊆ input := by simpa using hr
  refine ⟨by rw [hgroup]; rfl, ?_, fun s b hb => ?_⟩
  · obtain ⟨v, hv, hvs⟩ := updateStates_folded hdef hr (List.nil_subset _) hinitial
    exact ⟨v, by simpa [nextState, hmode] using hv, rfl, by simp, hsub, hvs⟩
  · obtain ⟨v, hv, hvs⟩ := updateStates_folded hdef hr hb.subset hb.states
    exact ⟨v, by simpa [nextState, hmode] using hv, rfl, by simp,
      List.append_subset.mpr ⟨hb.subset, hsub⟩, hvs⟩

end Groups

section Runs

variable {aggregates : List (Expression ℚ)} {aggs : List (AggregateFunction ℚ)}

/-- The row of an aggregation of all `rows`: a value for each aggregate. -/
structure GlobalRow (aggregates : List (Expression ℚ)) (rows : List (Record ℚ))
    (row : Record ℚ) : Prop where
  columns : HasKeys (aggregates.map Expression.columnName) row
  values : ∀ a ∈ aggregates, ∀ f, unwrapAggregate a = .ok f →
    ∃ v, row.get? a.columnName = some v ∧ f.name.ValueOver v (rows.filterMap f.counted)

/-- A final row that stands for all rows, in some order. -/
lemma globalRow_of_final {input batch : List (Record ℚ)} {row : Record ℚ}
    (haggs : aggregates.mapM unwrapAggregate = .ok aggs)
    (hnd : (aggregates.map Expression.columnName).Nodup)
    (hdef : ∀ f ∈ aggs, f.DefiniteOver input) (hperm : batch.Perm input)
    (h : FinalRowOf [] (aggregates.map Expression.columnName) aggs (GlobalGroup input aggs) row
      batch) : GlobalRow aggregates input row := by
  have hlen : (aggregates.map Expression.columnName).length = aggs.length := by
    rw [List.length_map, ExceptList.mapM_length haggs]
  obtain ⟨states, values, hgroup, hvalues, hcolumns, houts⟩ :=
    h.columns (globalGroup_keepsMeaning hdef).lengths hlen hnd
  obtain ⟨values', hvalues', hover⟩ := finalizeStates_folded hgroup.states
  rw [hvalues] at hvalues'
  obtain rfl := Except.ok.inj hvalues'
  refine ⟨hcolumns, fun a ha f hf => ?_⟩
  rw [List.forall₂_map_left_iff] at houts
  have hboth := List.Forall₂.mp (fun _ _ hu hv => And.intro hu hv)
    (ExceptList.mapM_eq_ok.mp haggs) (Dealing.forall₂_through houts hover)
  obtain ⟨f', -, hf', v, hv, hval⟩ := Dealing.exists_partner hboth.flip ha
  obtain rfl : f = f' := Except.ok.inj (hf.symm.trans hf')
  exact ⟨v, hv, hval.perm (hperm.filterMap _)⟩

variable [PyHost ℚ]

/-- The stages of a plan without grouping columns: no row for no rows, otherwise one. -/
theorem planGlobal_rows {child plan : PhysicalPlan ℚ} {childSchema schema : Schema} {n : ℕ}
    {spill : ℤ} {parts : List (List (Record ℚ))} (hn : 1 ≤ n)
    (hd : denotedRows child = .ok parts)
    (hplan : planAggregate n spill child [] aggregates childSchema schema = .ok plan)
    (haggs : aggregates.mapM unwrapAggregate = .ok aggs)
    (hnd : (aggregates.map Expression.columnName).Nodup)
    (hdef : ∀ f ∈ aggs, f.DefiniteOver parts.flatten) :
    ∃ outs, denotedRows plan = .ok outs ∧ (parts.flatten = [] → outs.flatten = []) ∧
      (parts.flatten ≠ [] → ∃ row, outs.flatten = [row] ∧ GlobalRow aggregates parts.flatten row) := by
  have hS : OrderedDict.LawfulOn (fun k : List (Value ℚ) => k = []) := by
    rintro k k' rfl rfl
    exact ⟨fun _ => rfl, fun _ => rfl⟩
  have hprints : KeysPrint (fun k : List (Value ℚ) => k = []) := by
    rintro k rfl
    rfl
  obtain ⟨outs, houts, hdistinct, hsum⟩ := planAggregate_stages hn hd hplan haggs hnd hS hprints
    (globalGroup_keepsMeaning hdef) (fun k states b hb _ => hb.key)
    (fun spec hgroup hmode r hr => ⟨[], rfl, absorbs_globalRow hdef hgroup hmode hr⟩)
  rw [List.flatMap_singleton'] at hsum
  refine ⟨outs, houts, fun hnil => ?_, fun hne => ?_⟩
  · rw [List.eq_nil_iff_forall_not_mem]
    intro row hrow
    obtain ⟨b, ⟨k, states, values, hgroup, -⟩, hsub⟩ := hsum.exists_batch hrow
    rw [hnil] at hsub
    exact hgroup.nonempty (List.subset_nil.mp hsub)
  · obtain ⟨r, hr⟩ := List.exists_mem_of_ne_nil _ hne
    obtain ⟨row, hrow, -⟩ := hsum.exists_item hr
    obtain ⟨row', hout⟩ : ∃ row', outs.flatten = [row'] := by
      cases hflat : outs.flatten with
      | nil =>
          rw [hflat] at hrow
          cases hrow
      | cons row' rest =>
          cases rest with
          | nil => exact ⟨row', rfl⟩
          | cons row'' rest =>
              -- two rows would share the empty key
              rw [hflat] at hdistinct
              simp [keyOf] at hdistinct
    rw [hout] at hsum
    obtain ⟨ys, zs, hfinal, ⟨_, hrest, hzs⟩, hperm⟩ := hsum.of_cons
    cases hrest
    obtain rfl : zs = [] := List.perm_nil.mp hzs.symm
    rw [List.append_nil] at hperm
    exact ⟨row', hout, globalRow_of_final haggs hnd hdef hperm hfinal⟩

/-- The rows a query of aggregates collects. -/
theorem globalAggregate_collects {source : LogicalPlan ℚ} {items : List (Expression ℚ)}
    {shufflePartitions : ℕ} {spillThresholdBytes : ℤ} {c plan : PhysicalPlan ℚ}
    {parts : List (List (Record ℚ))} (maxRetries : ℕ) (root : String) (disk : Disk ℚ)
    (hn : 1 ≤ shufflePartitions)
    (hc : planPhysical shufflePartitions spillThresholdBytes source = .ok c)
    (hplan : planPhysical shufflePartitions spillThresholdBytes (.aggregate source [] items) =
      .ok plan)
    (hd : denotedRows c = .ok parts)
    (hdef : ∀ item ∈ items, ∀ f, unwrapAggregate item = .ok f → f.DefiniteOver parts.flatten) :
    ∃ stages dataset rows, buildStages plan = .ok stages ∧
      runPlan maxRetries executeTask root stages disk = .ok dataset ∧
      dataset.iterRecords = .ok rows ∧ (parts.flatten = [] → rows = []) ∧
      (parts.flatten ≠ [] → ∃ row, rows = [row] ∧ GlobalRow items parts.flatten row) := by
  obtain ⟨source', hsource, hc⟩ := ExceptList.bind_eq_ok.mp hc
  have hpush : pushdownScanReads (.aggregate source [] items) = .ok (.aggregate source' [] items) := by
    rw [pushdownScanReads, walkForPushdown]
    rw [pushdownScanReads] at hsource
    rw [hsource]
    rfl
  rw [planPhysical, hpush, ExceptList.bind_ok, translate, hc, ExceptList.bind_ok] at hplan
  obtain ⟨childSchema, -, hplan⟩ := ExceptList.bind_eq_ok.mp hplan
  obtain ⟨schema, hschema, hplan⟩ := ExceptList.bind_eq_ok.mp hplan
  obtain ⟨aggs, haggs⟩ := unwrapAggregates_ok hschema
  have hnd : (items.map Expression.columnName).Nodup := by
    have hnames := LogicalPlan.schema_names hschema
    rw [LogicalPlan.outputNames, List.map_append, List.map_nil, List.nil_append] at hnames
    rw [← hnames]
    exact schema.fieldNames_nodup
  have hdefinite : ∀ f ∈ aggs, f.DefiniteOver parts.flatten := by
    intro f hf
    obtain ⟨a, ha, hunwrap⟩ := Dealing.exists_partner (ExceptList.mapM_eq_ok.mp haggs) hf
    exact hdef a ha f hunwrap
  obtain ⟨outs, houts, hnone, hsome⟩ := planGlobal_rows hn hd hplan haggs hnd hdefinite
  obtain ⟨stages, hstages, hrun⟩ := runPlan_of_denotedRows houts maxRetries root disk
  exact ⟨stages, _, _, hstages, hrun, rowsDataset_iterRecords _ outs, hnone, hsome⟩

omit [PyHost ℚ] in
/-- A `SELECT` of aggregates alone is an aggregation without grouping columns. -/
theorem applySelect_aggregates {source query : LogicalPlan ℚ} {items : List (Expression ℚ)}
    (hne : items ≠ []) (hall : ∀ item ∈ items, containsAggregate item = true)
    (h : applySelect source (some items) [] = .ok query) : query = .aggregate source [] items := by
  have haggs : items.filter containsAggregate = items := List.filter_eq_self.mpr hall
  have hplain : items.filter (fun item => !containsAggregate item) = [] := by
    rw [List.filter_eq_nil_iff]
    intro item hitem
    simp [hall item hitem]
  simp only [applySelect, haggs, hplain, hne, and_false, if_false, ne_eq, not_true,
    List.filterMap_nil, checkPlainItems] at h
  simpa using h.symm

/-- The query collects one row with the values of its aggregates exactly when some row
reaches the aggregation. -/
theorem globalAggregate_oneRow_iff {source query : LogicalPlan ℚ} {items : List (Expression ℚ)}
    {shufflePartitions : ℕ} {spillThresholdBytes : ℤ} {c plan : PhysicalPlan ℚ}
    {parts : List (List (Record ℚ))} (maxRetries : ℕ) (root : String) (disk : Disk ℚ)
    (hn : 1 ≤ shufflePartitions) (hne : items ≠ [])
    (hall : ∀ item ∈ items, containsAggregate item = true)
    (hquery : applySelect source (some items) [] = .ok query)
    (hc : planPhysical shufflePartitions spillThresholdBytes source = .ok c)
    (hplan : planPhysical shufflePartitions spillThresholdBytes query = .ok plan)
    (hd : denotedRows c = .ok parts)
    (hdef : ∀ item ∈ items, ∀ f, unwrapAggregate item = .ok f → f.DefiniteOver parts.flatten) :
    (∃ stages dataset row, buildStages plan = .ok stages ∧
      runPlan maxRetries executeTask root stages disk = .ok dataset ∧
      dataset.iterRecords = .ok [row] ∧ GlobalRow items parts.flatten row) ↔
    parts.flatten ≠ [] := by
  obtain rfl := applySelect_aggregates hne hall hquery
  obtain ⟨stages, dataset, rows, hstages, hrun, hrows, hnone, hsome⟩ :=
    globalAggregate_collects maxRetries root disk hn hc hplan hd hdef
  constructor
  · rintro ⟨stages', dataset', row, hstages', hrun', hrows', -⟩ hnil
    rw [hstages] at hstages'
    obtain rfl := Except.ok.inj hstages'
    rw [hrun] at hrun'
    obtain rfl := Except.ok.inj hrun'
    rw [hrows, hnone hnil] at hrows'
    cases Except.ok.inj hrows'
  · intro hne
    obtain ⟨row, rfl, hrow⟩ := hsome hne
    exact ⟨stages, dataset, row, hstages, hrun, hrows, hrow⟩

end Runs

section Examples

lemma meanMaxCount_definite : ∀ item ∈ meanMaxCount, ∀ f, unwrapAggregate item = .ok f →
    f.DefiniteOver (intRows ["a", "b"] nullParts).flatten := by
  have hb : ∀ r ∈ (intRows ["a", "b"] nullParts).flatten, ∃ v q,
      (Expression.column "b" : Expression ℚ).evaluate r = .ok v ∧ Stands v q := by
    intro r hr
    exact nullParts_numeric r hr _ List.mem_cons_self _ rfl
  have hnumbers : ∀ name, ∀ v ∈ (intRows ["a", "b"] nullParts).flatten.filterMap
      (AggregateFunction.counted ⟨name, some (.column "b")⟩), ∃ q, v.rat? = some q := by
    intro name v hv
    obtain ⟨r, hr, hcounted⟩ := List.mem_filterMap.mp hv
    obtain ⟨w, q, hw, hq⟩ := hb r hr
    simp only [AggregateFunction.counted, hw] at hcounted
    cases q with
    | none =>
        rw [show w = .none from hq] at hcounted
        cases hcounted
    | some x =>
        rw [Value.isNone_of_rat? hq] at hcounted
        cases hcounted
        exact ⟨x, hq⟩
  intro item hitem f hf
  simp only [meanMaxCount, List.mem_cons, List.not_mem_nil, or_false] at hitem
  rcases hitem with rfl | rfl | rfl <;> cases hf
  · exact ⟨fun r hr => (hb r hr).imp fun v hv => hv.choose_spec.1, hnumbers .avg⟩
  · exact ⟨fun r hr => (hb r hr).imp fun v hv => hv.choose_spec.1,
      MutuallyComparable.numbers.mono (hnumbers .max)⟩
  · exact ⟨fun r hr => rfl, trivial⟩

/-- A mean, a maximum and a count over nulls and an empty partition. -/
theorem globalAggregate_oneRow_iff_nulls : ∃ query plan stages dataset row,
    applySelect (intTable ["a", "b"] (by decide) nullParts) (some meanMaxCount) [] = .ok query ∧
    planPhysical 2 neverSpill query = .ok plan ∧ buildStages plan = .ok stages ∧
    runPlan 0 executeTask "root" stages (fun _ => none) = .ok dataset ∧
    dataset.iterRecords = .ok [row] ∧
    GlobalRow meanMaxCount (intRows ["a", "b"] nullParts).flatten row := by
  obtain ⟨plan, hplan⟩ : ∃ plan, planPhysical 2 neverSpill (.aggregate
      (intTable ["a", "b"] (by decide) nullParts) [] meanMaxCount) = .ok plan := ⟨_, rfl⟩
  obtain ⟨stages, dataset, row, hrun⟩ := (globalAggregate_oneRow_iff 0 "root" (fun _ => none)
    (by decide) (by decide) (by decide) rfl rfl hplan (denotedRows_scan _ _ _)
    meanMaxCount_definite).mpr (by decide)
  exact ⟨_, plan, stages, dataset, row, rfl, hplan, hrun⟩

/-- `SELECT COUNT(*)` over a table without rows collects no row. -/
theorem countStar_noRow : ∃ query plan stages dataset,
    applySelect (intTable ["a"] (by decide) [[]]) (some [.countStar]) [] = .ok query ∧
    planPhysical 2 neverSpill query = .ok plan ∧ buildStages plan = .ok stages ∧
    runPlan 0 executeTask "root" stages (fun _ => none) = .ok dataset ∧
    dataset.iterRecords = .ok [] := by
  obtain ⟨plan, hplan⟩ : ∃ plan, planPhysical 2 neverSpill (.aggregate
      (intTable ["a"] (by decide) [[]]) [] [.countStar]) = .ok plan := ⟨_, rfl⟩
  obtain ⟨stages, dataset, rows, hstages, hrun, hrows, hnone, -⟩ := globalAggregate_collects 0
    "root" (fun _ => none) (by decide) rfl hplan (denotedRows_scan _ _ _)
    (by
      intro item hitem f hf
      obtain rfl := List.mem_singleton.mp hitem
      cases hf
      exact ⟨fun r hr => rfl, trivial⟩)
  rw [hnone rfl] at hrows
  exact ⟨_, plan, stages, dataset, rfl, hplan, hstages, hrun, hrows⟩

end Examples

end MiniSpark
