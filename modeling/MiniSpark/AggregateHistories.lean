import MiniSpark.GroupHistories

/-!
# How the rows of a group came together

Updates with rows and merges of partial states leave each aggregate of a group in a state that
depends on the rows and on the order of these steps, and on nothing else. The two stages of an
aggregation give every output row such a history; the histories make up the input.
-/
namespace MiniSpark

open Summaries

variable {F : Type} [PyRuntime F]

/-- The steps in which the rows of a group came together. -/
inductive History (F : Type)
  | row (r : Record F)
  | update (h : History F) (r : Record F)
  | merge (h h' : History F)

namespace History

omit [PyRuntime F] in
/-- The rows of a history. -/
def rows : History F → List (Record F)
  | row r => [r]
  | update h r => h.rows ++ [r]
  | merge h h' => h.rows ++ h'.rows

/-- The state in which a history leaves an aggregate. -/
def state (agg : AggregateFunction F) : History F → Py (Value F)
  | row r => agg.update agg.name.initialState r
  | update h r => do
      let s ← h.state agg
      agg.update s r
  | merge h h' => do
      let s ← h.state agg
      let t ← h'.state agg
      agg.name.merge s t

/-- The value of an aggregate over a history. -/
def value (h : History F) (agg : AggregateFunction F) : Py (Value F) := do
  let s ← h.state agg
  agg.name.finalize s

end History

/-- The group has the states that a history of the batch leaves, and the key of its rows; a key
with a NaN is equal to none, but it is the key of its own row. -/
def HistoryOf (names : List String) (aggs : List (AggregateFunction F)) (group : Group F)
    (batch : List (Record F)) : Prop :=
  ∃ h : History F, h.rows = batch ∧ names.length = group.1.length ∧
    (∀ r ∈ batch, ∃ k, tupleKey (names.map .column) r = .ok k ∧
      (group.1 = k ∨ (group.1 == k) = true)) ∧
    List.Forall₂ (fun a s => h.state a = .ok s) aggs group.2

section Steps

variable {names : List String} {aggs : List (AggregateFunction F)}

lemma updates_states {A : AggregateFunction F → Value F → Prop} {states values : List (Value F)}
    {r : Record F} (h : List.Forall₂ A aggs states)
    (hrun : (aggs.zip states).mapM (fun p => p.1.update p.2 r) = .ok values) :
    List.Forall₂ (fun a v => ∃ s, A a s ∧ a.update s r = .ok v) aggs values := by
  induction h generalizing values with
  | nil =>
      cases hrun
      exact .nil
  | cons hs _ ih =>
      rw [List.zip_cons_cons, List.mapM_cons] at hrun
      obtain ⟨v, hv, hrun⟩ := ExceptList.bind_eq_ok.mp hrun
      obtain ⟨vs, hvs, hrun⟩ := ExceptList.bind_eq_ok.mp hrun
      cases hrun
      exact .cons ⟨_, hs, hv⟩ (ih hvs)

lemma mergeStates_states {A B : AggregateFunction F → Value F → Prop} {a b c : List (Value F)}
    (ha : List.Forall₂ A aggs a) (hb : List.Forall₂ B aggs b)
    (hrun : mergeStates aggs a b = .ok c) :
    List.Forall₂ (fun g v => ∃ s t, A g s ∧ B g t ∧ g.name.merge s t = .ok v) aggs c := by
  unfold mergeStates at hrun
  induction ha generalizing b c with
  | nil =>
      cases hrun
      exact .nil
  | cons hs _ ih =>
      cases hb with
      | cons ht hb =>
          rw [List.zip_cons_cons, List.zip_cons_cons, List.mapM_cons] at hrun
          obtain ⟨v, hv, hrun⟩ := ExceptList.bind_eq_ok.mp hrun
          obtain ⟨vs, hvs, hrun⟩ := ExceptList.bind_eq_ok.mp hrun
          cases hrun
          exact .cons ⟨_, _, hs, ht, hv⟩ (ih hb hvs)

lemma historyOf_lengths : HasLengths names aggs (HistoryOf names aggs) := by
  rintro k states b ⟨h, -, hlen, -, hstates⟩
  exact ⟨hlen, hstates.length_eq.symm⟩

/-- Two groups of one key. -/
lemma historyOf_merge {k k' a b c : List (Value F)} {xs ys : List (Record F)}
    (ha : HistoryOf names aggs (k, a) xs) (hb : HistoryOf names aggs (k', b) ys)
    (hk : (k == k') = true) (hrun : mergeStates aggs a b = .ok c) :
    HistoryOf names aggs (k, c) (xs ++ ys) := by
  obtain ⟨h, rfl, hlen, hkeys, hstates⟩ := ha
  obtain ⟨h', rfl, -, hkeys', hstates'⟩ := hb
  refine ⟨.merge h h', rfl, hlen, ?_, ?_⟩
  · refine List.forall_mem_append.mpr ⟨hkeys, fun r hr => ?_⟩
    obtain ⟨key, hkey, heq⟩ := hkeys' r hr
    refine ⟨key, hkey, Or.inr ?_⟩
    obtain rfl | heq := heq
    · exact hk
    · exact PartialEquivBEq.trans hk heq
  · refine (mergeStates_states hstates hstates' hrun).imp ?_
    rintro g v ⟨s, t, hs, ht, hv⟩
    rw [History.state, hs, ExceptList.bind_ok, ht]
    exact hv

variable {spec : HashAggregate F} (hgroup : spec.groupBy = names.map .column)
include hgroup

/-- The partial stage reads raw rows. -/
lemma carries_rows (hmode : spec.isPartial = true) :
    Carries spec aggs (fun r ys => ys = [r]) (HistoryOf names aggs) where
  fresh := by
    rintro r _ k v rfl hk hv
    rw [hgroup] at hk
    have hlen : names.length = k.length := by simpa using (tupleKey_length hk).symm
    refine ⟨.row r, rfl, hlen, List.forall_mem_singleton.mpr ⟨k, hk, Or.inl rfl⟩, ?_⟩
    simp only [nextState, hmode, if_true, Option.getD_none] at hv
    have hinitial : List.Forall₂ (fun (a : AggregateFunction F) (s : Value F) =>
        a.name.initialState = s) aggs (aggs.map (fun a => a.name.initialState)) := by
      rw [List.forall₂_map_right_iff, List.forall₂_same]
      exact fun _ _ => rfl
    refine (updates_states hinitial hv).imp ?_
    rintro a s ⟨_, rfl, hs⟩
    exact hs
  next := by
    rintro r _ k k' s b v rfl hk hk' ⟨h, rfl, hlen, hkeys, hstates⟩ hv
    rw [hgroup] at hk
    refine ⟨.update h r, rfl, hlen, ?_, ?_⟩
    · exact List.forall_mem_append.mpr
        ⟨hkeys, List.forall_mem_singleton.mpr ⟨k, hk, Or.inr hk'⟩⟩
    · simp only [nextState, hmode, if_true, Option.getD_some] at hv
      refine (updates_states hstates hv).imp ?_
      rintro a w ⟨t, ht, hw⟩
      rw [History.state, ht]
      exact hw
  merge := historyOf_merge

/-- The final stage reads partial rows. -/
lemma carries_states (hmode : spec.isPartial = false) :
    Carries spec aggs (PartialRowOf names aggs (HistoryOf names aggs)) (HistoryOf names aggs) where
  fresh := by
    rintro r ys k v ⟨key, states, hP, -, hkey, hstates⟩ hk hv
    rw [hgroup] at hk
    cases hkey.symm.trans hk
    simp only [nextState, hmode, hstates] at hv
    cases hv
    exact hP
  next := by
    rintro r ys k k' s b v ⟨key, states, hP, -, hkey, hstates⟩ hk hk' hb hv
    rw [hgroup] at hk
    cases hkey.symm.trans hk
    simp only [nextState, hmode, hstates] at hv
    exact historyOf_merge hb hP hk' hv
  merge := historyOf_merge

end Steps

section Stages

variable [PyHost F] {names : List String} {aggs : List (AggregateFunction F)}

/-- What is grouped has been read. -/
lemma denotedRows_of_hashAggregate {child : PhysicalPlan F} {spec : HashAggregate F}
    {outs : List (List (Record F))} (h : denotedRows (.hashAggregateExec child spec) = .ok outs) :
    ∃ parts, denotedRows child = .ok parts := by
  obtain ⟨d', hden', houts⟩ := ExceptList.bind_eq_ok.mp h
  obtain ⟨d, hden, hpure⟩ := ExceptList.bind_eq_ok.mp hden'
  cases hpure
  obtain ⟨parts, hparts, -⟩ := ExceptList.mapM_ok_of_exists (S := fun _ _ => True)
    (f := fun pid => do let part ← d.part pid; part.toList) (fun pid hpid => by
      obtain ⟨out, -, hout⟩ := Dealing.exists_partner (ExceptList.mapM_eq_ok.mp houts).flip hpid
      obtain ⟨part, hpart, hlist⟩ := ExceptList.bind_eq_ok.mp hout
      obtain ⟨parent, hparent, hpart⟩ := ExceptList.bind_eq_ok.mp hpart
      obtain ⟨_, -, hpart⟩ := ExceptList.bind_eq_ok.mp hpart
      obtain ⟨rows, hrows, -⟩ := ExceptList.bind_eq_ok.mp hpart
      exact ⟨rows, by rw [hparent, ExceptList.bind_ok, hrows], trivial⟩)
  exact ⟨parts, by rw [denotedRows, hden, ExceptList.bind_ok, hparts]⟩

/-- What is exchanged has been read. -/
lemma denotedRows_of_exchange {child : PhysicalPlan F} {n : ℕ} {exprs : List (Expression F)}
    {outs : List (List (Record F))}
    (h : denotedRows (.exchangeExec child n exprs false none) = .ok outs) :
    ∃ parts, denotedRows child = .ok parts := by
  obtain ⟨d', hden', -⟩ := ExceptList.bind_eq_ok.mp h
  obtain ⟨d, hden, hpure⟩ := ExceptList.bind_eq_ok.mp hden'
  obtain ⟨written, hwritten, -⟩ := ExceptList.bind_eq_ok.mp hpure
  obtain ⟨parts, hparts, -⟩ := ExceptList.mapM_ok_of_exists (S := fun _ _ => True)
    (f := fun pid => do let part ← d.part pid; part.toList) (fun pid hpid => by
      obtain ⟨tagged, -, htagged⟩ :=
        Dealing.exists_partner (ExceptList.mapM_eq_ok.mp hwritten).flip hpid
      obtain ⟨part, hpart, htagged⟩ := ExceptList.bind_eq_ok.mp htagged
      exact ⟨_, by rw [hpart, ExceptList.bind_ok, (exchangeRows_eq_ok htagged).1], trivial⟩)
  exact ⟨parts, by rw [denotedRows, hden, ExceptList.bind_ok, hparts]⟩

/-- Every output row of a planned aggregation has a history; together they are the input. -/
theorem planAggregate_histories {child plan : PhysicalPlan F} {aggregates : List (Expression F)}
    {childSchema schema : Schema} {n : ℕ} {spill : ℤ} {parts outs : List (List (Record F))}
    (hplan : planAggregate n spill child (names.map .column) aggregates childSchema schema = .ok plan)
    (haggs : aggregates.mapM unwrapAggregate = .ok aggs) (hd : denotedRows child = .ok parts)
    (houts : denotedRows plan = .ok outs) :
    Summarise (FinalRowOf names (aggregates.map Expression.columnName) aggs (HistoryOf names aggs))
      outs.flatten parts.flatten := by
  obtain ⟨partialSchema, hschema, hplan⟩ := ExceptList.bind_eq_ok.mp hplan
  cases hplan
  obtain ⟨eparts, heparts⟩ := denotedRows_of_hashAggregate houts
  obtain ⟨pparts, hpparts⟩ := denotedRows_of_exchange heparts
  have hnd : (names ++ stateColumns aggs.length).Nodup := by
    rw [ExceptList.mapM_length haggs]
    exact partialAggregateSchema_nodup hschema
  have hinput : Summarise (fun (r : Record F) ys => ys = [r]) parts.flatten parts.flatten := by
    refine ⟨parts.flatten.map (fun r => [r]), ?_, .of_eq ?_⟩
    · rw [List.forall₂_map_right_iff, List.forall₂_same]
      exact fun _ _ => rfl
    · rw [← List.flatMap_def, List.flatMap_singleton']
  -- the partial stage, row by row
  obtain ⟨batches, hbatches, hx⟩ := hashAggregateExec_summarise (carries_rows rfl rfl) haggs hd
    hinput hpparts
  have hfirst : Summarise (PartialRowOf names aggs (HistoryOf names aggs)) pparts.flatten
      parts.flatten := by
    refine ⟨batches, hbatches.imp ?_, hx⟩
    rintro row batch ⟨k, states, hP, hrow⟩
    rw [groupRow_states rfl rfl (historyOf_lengths k states batch hP).1] at hrow
    cases hrow
    exact partialRowOf_group historyOf_lengths hnd hP
  -- the final stage reads what the exchange has dealt
  obtain ⟨batches, hbatches, hx⟩ := hashAggregateExec_summarise (carries_states rfl rfl) haggs heparts
    (hfirst.perm_items (exchangeExec_perm hpparts heparts)) houts
  refine ⟨batches, hbatches.imp ?_, hx⟩
  rintro row batch ⟨k, states, hP, hrow⟩
  obtain ⟨values, hvalues, -⟩ := ExceptList.bind_eq_ok.mp hrow
  have hfinal : groupRow ⟨names.map .column, aggregates, schema, false, spill⟩ aggs k states = _ :=
    groupRow_final rfl rfl (historyOf_lengths k states batch hP).1 hvalues
  exact ⟨k, states, values, hP, hvalues, Except.ok.inj (hrow.symm.trans hfinal)⟩

end Stages

end MiniSpark
