import MiniSpark.ExactAggregates
import MiniSpark.GroupStages
import MiniSpark.KeyKinds

/-!
# Distributed groups are the groups of a single pass

With exact aggregates a group is determined by the rows it has absorbed: its states are their
tallies. So partial groups that are dealt, spilled and merged end in the rows that one pass over
all the input ends in, in another order.
-/
namespace MiniSpark

open Summaries Tallies

variable {F : Type} [PyRuntime F] {names : List String} {aggs : List (AggregateFunction F)}
  {tallies : List (List (Record F) → Value F)} {input : List (Record F)}

/-- A tally for each aggregate. -/
def Tallied (aggs : List (AggregateFunction F)) (tallies : List (List (Record F) → Value F))
    (input : List (Record F)) : Prop :=
  List.Forall₂ (fun (a : AggregateFunction F) t =>
    IsTally a.name.initialState a.update a.name.merge (· ∈ input) t ∧
      ∀ xs, xs ⊆ input → ∃ v, a.name.finalize (t xs) = .ok v) aggs tallies

lemma exists_tallied (h : ∀ a ∈ aggs, a.Exact input) : ∃ tallies, Tallied aggs tallies input := by
  induction aggs with
  | nil => exact ⟨[], .nil⟩
  | cons a aggs ih =>
      obtain ⟨ha, haggs⟩ := List.forall_mem_cons.mp h
      obtain ⟨t, ht⟩ := ha
      obtain ⟨tallies, htallies⟩ := ih haggs
      exact ⟨t :: tallies, .cons ht htallies⟩

lemma Tallied.isTally (h : Tallied aggs tallies input) :
    IsTally (aggs.map (fun a => a.name.initialState))
      (fun states r => (aggs.zip states).mapM (fun p => p.1.update p.2 r)) (mergeStates aggs)
      (· ∈ input) (fun xs => tallies.map (fun t => t xs)) :=
  isTally_family (h.imp fun _ _ ht => ht.1)

lemma Tallied.finalize (h : Tallied aggs tallies input) {xs : List (Record F)} (hxs : xs ⊆ input) :
    ∃ values, (aggs.zip (tallies.map (fun t => t xs))).mapM (fun p => p.1.name.finalize p.2) =
      .ok values := by
  induction h with
  | nil => exact ⟨[], rfl⟩
  | cons ht _ ih =>
      obtain ⟨v, hv⟩ := ht.2 xs hxs
      obtain ⟨values, hvalues⟩ := ih
      exact ⟨v :: values, by simp [hv, hvalues]⟩

/-- The group has absorbed a batch of input rows with its key. -/
structure TallyGroup (names : List String) (tallies : List (List (Record F) → Value F))
    (input : List (Record F)) (group : Group F) (batch : List (Record F)) : Prop where
  nonempty : batch ≠ []
  members : batch ⊆ input
  key : ∀ r ∈ batch, keyOf names r = group.1
  states : group.2 = tallies.map (fun t => t batch)

omit [PyRuntime F] in
lemma TallyGroup.append {k a b c : List (Value F)} {xs ys : List (Record F)}
    (ha : TallyGroup names tallies input (k, a) xs) (hb : TallyGroup names tallies input (k, b) ys)
    (hc : c = tallies.map (fun t => t (xs ++ ys))) :
    TallyGroup names tallies input (k, c) (xs ++ ys) where
  nonempty := by simp [ha.nonempty]
  members := List.append_subset.mpr ⟨ha.members, hb.members⟩
  key r hr := (List.mem_append.mp hr).elim (ha.key r) (hb.key r)
  states := hc

/-- The two stages keep what groups have absorbed. -/
theorem tallyGroup_keepsMeaning (h : Tallied aggs tallies input) :
    KeepsMeaning names aggs (TallyGroup names tallies input) where
  merge k a b xs ys ha hb := by
    have hmerge := h.isTally.merge xs ys (fun _ hr => ha.members hr) (fun _ hr => hb.members hr)
    rw [← ha.states, ← hb.states] at hmerge
    exact ⟨_, hmerge, ha.append hb rfl⟩
  key_length k states b hb := by
    obtain ⟨r, hr⟩ := List.exists_mem_of_ne_nil b hb.nonempty
    have hk : keyOf names r = k := hb.key r hr
    rw [← hk, keyOf, List.length_map]
  states_length k states b hb := by
    have hs : states = tallies.map (fun t => t b) := hb.states
    rw [hs, List.length_map, h.length_eq]
  finalize k states b hb := by
    have hs : states = tallies.map (fun t => t b) := hb.states
    rw [hs]
    exact h.finalize hb.members

/-- A raw row adds itself to the group of its key. -/
theorem tallyGroup_absorbs {spec : HashAggregate F} {r : Record F} (h : Tallied aggs tallies input)
    (hmode : spec.isPartial = true) (hr : r ∈ input)
    (hkey : tupleKey spec.groupBy r = .ok (keyOf names r)) :
    Absorbs spec aggs (TallyGroup names tallies input) r (keyOf names r) [r] := by
  have hrow : TallyGroup names tallies input (keyOf names r, tallies.map (fun t => t [r])) [r] :=
    ⟨by simp, by simpa using hr, by simp, rfl⟩
  refine ⟨hkey, ⟨_, ?_, hrow⟩, fun states b hb => ⟨_, ?_, hb.append hrow rfl⟩⟩
  · have hstep := h.isTally.step [] r (by simp) hr
    rw [h.isTally.start] at hstep
    rw [nextState, if_pos hmode]
    exact hstep
  · have hstep := h.isTally.step b r (fun _ hx => hb.members hx) hr
    rw [← hb.states] at hstep
    rw [nextState, if_pos hmode]
    exact hstep

/-- The batch of a final row determines it. -/
lemma finalRow_unique {outputs : List String} {row row' : Record F} {b b' : List (Record F)}
    (ht : Tallied aggs tallies input)
    (h : FinalRowOf names outputs aggs (TallyGroup names tallies input) row b)
    (h' : FinalRowOf names outputs aggs (TallyGroup names tallies input) row' b')
    (hperm : b.Perm b') : row = row' := by
  obtain ⟨k, states, values, hg, hvalues, rfl⟩ := h
  obtain ⟨k', states', values', hg', hvalues', rfl⟩ := h'
  obtain ⟨r, hr⟩ := List.exists_mem_of_ne_nil b hg.nonempty
  have hkey : k = k' := (hg.key r hr).symm.trans (hg'.key r (hperm.mem_iff.mp hr))
  have hstates : states = states' :=
    hg.states.trans ((ht.isTally.perm b b' hperm (fun _ hx => hg.members hx)).trans hg'.states.symm)
  rw [hstates, hvalues', Except.ok.injEq] at hvalues
  rw [hkey, hvalues]

section SinglePass

/-- What holds of the group table of a single pass. -/
structure TableOf (names : List String) (tallies : List (List (Record F) → Value F))
    (input : List (Record F)) (groups : GroupTable F) (seen : List (Record F)) : Prop where
  keys : groups.KeysIn (· ∈ input.map (keyOf names))
  summarise : Summarise (TallyGroup names tallies input) groups.items seen

variable {rows : List (Record F)}

/-- A single pass over input rows sorts them into groups. -/
theorem groupSteps_tableOf {groups : GroupTable F} {seen : List (Record F)}
    (ht : Tallied aggs tallies input) (hkinds : HoldKinds names input) (hrows : rows ⊆ input)
    (h : TableOf names tallies input groups seen) :
    ∃ groups', rows.foldlM (groupStep (names.map .column) aggs) groups = .ok groups' ∧
      TableOf names tallies input groups' (seen ++ rows) := by
  induction rows generalizing groups seen with
  | nil => exact ⟨groups, rfl, by rwa [List.append_nil]⟩
  | cons r rows ih =>
      obtain ⟨hr, hrest⟩ := List.cons_subset.mp hrows
      have hmem : keyOf names r ∈ input.map (keyOf names) := List.mem_map_of_mem hr
      have habsorb : Absorbs ⟨names.map .column, [], ⟨[], by simp⟩, true, 0⟩ aggs
          (TallyGroup names tallies input) r (keyOf names r) [r] :=
        tallyGroup_absorbs ht rfl hr (hkinds.tupleKey_ok hr)
      obtain ⟨v, hv, hsum⟩ := nextState_summarise hkinds.lawfulOn_keys h.keys hmem habsorb
        h.summarise
      obtain ⟨groups', hrun, hgroups'⟩ := ih hrest ⟨h.keys.set hmem v, hsum⟩
      refine ⟨groups', ?_, by rwa [List.append_assoc] at hgroups'⟩
      rw [List.foldlM_cons, groupStep, hkinds.tupleKey_ok hr, ExceptList.bind_ok, hv]
      exact hrun

/-- The rows of a single pass are final rows with distinct keys. -/
theorem aggregateRows_finalRows {aggregates : List (Expression F)} {schema : Schema}
    {out : List (Record F)} (ht : Tallied aggs tallies input) (hkinds : HoldKinds names input)
    (haggs : aggregates.mapM unwrapAggregate = .ok aggs)
    (hnd : (names ++ aggregates.map Expression.columnName).Nodup)
    (hout : aggregateRows (names.map .column) aggregates schema input = .ok out) :
    (out.map (keyOf names)).Nodup ∧
      Summarise (FinalRowOf names (aggregates.map Expression.columnName) aggs
        (TallyGroup names tallies input)) out input := by
  have hkeeps : KeepsMeaning names aggs (TallyGroup names tallies input) :=
    tallyGroup_keepsMeaning ht
  have hstart : TableOf names tallies input OrderedDict.empty [] := ⟨.empty, .nil⟩
  obtain ⟨groups, hgroups, htable⟩ := groupSteps_tableOf ht hkinds (List.Subset.refl input) hstart
  rw [aggregateRows, haggs, ExceptList.bind_ok, hgroups, ExceptList.bind_ok] at hout
  have hsum : Summarise (TallyGroup names tallies input) groups.items input := htable.summarise
  have hrows := ExceptList.mapM_eq_ok.mp hout
  have hfinal : ∀ group row b, groupRow ⟨names.map .column, aggregates, schema, false, 0⟩ aggs
      group.1 group.2 = .ok row → TallyGroup names tallies input group b →
      FinalRowOf names (aggregates.map Expression.columnName) aggs (TallyGroup names tallies input)
        row b ∧ keyOf names row = group.1 := by
    rintro ⟨k, states⟩ row b hrow hgroup
    have hk := hkeeps.key_length k states b hgroup
    obtain ⟨values, hvalues⟩ := hkeeps.finalize k states b hgroup
    rw [groupRow_final rfl rfl hk hvalues, Except.ok.injEq] at hrow
    have hlen : (aggregates.map Expression.columnName).length = values.length := by
      rw [ExceptList.mapM_length hvalues, List.length_zip, hkeeps.states_length k states b hgroup,
        min_self, List.length_map, ExceptList.mapM_length haggs]
    rw [← hrow]
    exact ⟨⟨k, states, values, hgroup, hvalues, rfl⟩,
      (keyOf_of_forall₂ (get?_ofList_append hnd hk hlen).1).1⟩
  have hkeys : out.map (keyOf names) = groups.keys := by
    rw [← List.forall₂_eq_eq_eq, OrderedDict.keys, List.forall₂_map_left_iff,
      List.forall₂_map_right_iff]
    refine (ExceptList.forall₂_imp_of_mem hrows (fun group hgroup row _ hrow => ?_)).flip
    obtain ⟨b, hb, -⟩ := hsum.exists_batch hgroup
    exact (hfinal group row b hrow hb).2
  refine ⟨?_, hsum.rel hrows (fun group row b hrow hb => (hfinal group row b hrow hb).1)⟩
  rw [hkeys]
  exact OrderedDict.keys_nodup hkinds.lawfulOn_keys groups htable.keys

end SinglePass

/-- The two stages yield the rows of a single pass over all the input, in another order. -/
theorem planAggregate_perm [PyHost F] {child plan : PhysicalPlan F}
    {aggregates : List (Expression F)} {childSchema schema : Schema} {n : ℕ} {spill : ℤ}
    {parts : List (List (Record F))} {rows out : List (Record F)} (hn : 1 ≤ n)
    (hd : denotedRows child = .ok parts) (hperm : parts.flatten.Perm rows)
    (hplan : planAggregate n spill child (names.map .column) aggregates childSchema schema =
      .ok plan)
    (haggs : aggregates.mapM unwrapAggregate = .ok aggs)
    (hnd : (names ++ aggregates.map Expression.columnName).Nodup) (hkinds : HoldKinds names rows)
    (hprints : ∀ r ∈ rows, KeyPrints names r) (hexact : ∀ a ∈ aggs, a.Exact rows)
    (hout : aggregateRows (names.map .column) aggregates schema rows = .ok out) :
    ∃ outs, denotedRows plan = .ok outs ∧ outs.flatten.Perm out := by
  obtain ⟨tallies, ht⟩ := exists_tallied hexact
  have hkeeps : KeepsMeaning names aggs (TallyGroup names tallies rows) :=
    tallyGroup_keepsMeaning ht
  have hkeys : ∀ k states b, TallyGroup names tallies rows (k, states) b →
      b ⊆ parts.flatten.flatMap (fun r => [r]) → k ∈ rows.map (keyOf names) := by
    intro k states b hgroup _
    obtain ⟨r, hr⟩ := List.exists_mem_of_ne_nil b hgroup.nonempty
    exact List.mem_map.mpr ⟨r, hgroup.members hr, hgroup.key r hr⟩
  obtain ⟨outs, houts, hdistinct, hsum⟩ := planAggregate_stages hn hd hplan haggs hnd
    hkinds.lawfulOn_keys (fun _ => prints_of_mem_keys hprints) hkeeps hkeys (fun spec hgroup hmode r hr => by
      have hmem : r ∈ rows := hperm.mem_iff.mp hr
      exact ⟨keyOf names r, List.mem_map_of_mem hmem,
        tallyGroup_absorbs ht hmode hmem (hgroup ▸ hkinds.tupleKey_ok hmem)⟩)
  rw [List.flatMap_singleton'] at hsum
  obtain ⟨hdistinct', hsum'⟩ := aggregateRows_finalRows ht hkinds haggs hnd hout
  have hlen : (aggregates.map Expression.columnName).length = aggs.length := by
    rw [List.length_map, ExceptList.mapM_length haggs]
  have hkey : ∀ row b, FinalRowOf names (aggregates.map Expression.columnName) aggs
      (TallyGroup names tallies rows) row b →
      b ≠ [] ∧ ∀ r ∈ b, keyOf names r = keyOf names row := by
    intro row b hrow
    obtain ⟨states, _, hgroup, -⟩ := hrow.columns hkeeps.lengths hlen hnd
    exact ⟨hgroup.nonempty, hgroup.key⟩
  classical
  exact ⟨outs, houts, Summarise.perm_of_unique hkey
    (fun _ _ _ _ h h' => finalRow_unique ht h h') (hsum.perm hperm) hsum' hdistinct hdistinct'⟩

end MiniSpark
