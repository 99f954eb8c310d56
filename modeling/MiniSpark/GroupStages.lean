import MiniSpark.AggregateAccumulation
import MiniSpark.Analyzer
import MiniSpark.Exchange
import MiniSpark.KeyKinds
import MiniSpark.Planner
import MiniSpark.RowKeys

/-!
# The two stages of an aggregation

A partial stage turns every source partition into rows of keys and states, an exchange deals
these rows by key, and a final stage merges the states of a key and finalizes them. Whatever
the groups are said to stand for, the final rows stand for the input in the same sense, and
there is one for each key.
-/
namespace MiniSpark

open Summaries

variable {F : Type} [PyRuntime F] {α : Type} {names : List String}

section Rows

variable {aggs : List (AggregateFunction F)}

omit [PyRuntime F] in
/-- Writing more columns into a row makes the row of all columns. -/
lemma foldl_set_ofList {names names' : List String} {values values' : List (Value F)}
    (hlen : names.length = values.length) :
    (names'.zip values').foldl (fun r p => OrderedDict.set r p.1 p.2)
      (OrderedDict.ofList (names.zip values)) =
      OrderedDict.ofList ((names ++ names').zip (values ++ values')) := by
  rw [List.zip_append hlen, OrderedDict.ofList, OrderedDict.ofList, List.foldl_append]

omit [PyRuntime F] in
/-- The row made of distinct columns holds each value under its column. -/
lemma get?_ofList_zip {names : List String} {values : List (Value F)}
    (hnd : names.Nodup) (hlen : names.length = values.length) :
    List.Forall₂ (fun n v => (OrderedDict.ofList (names.zip values)).get? n = some v)
      names values := by
  rw [List.forall₂_iff_zip]
  refine ⟨hlen, fun {n v} hmem => OrderedDict.get?_ofList_of_mem ?_ hmem⟩
  rwa [List.map_fst_zip (Nat.le_of_eq hlen)]

lemma outputNames_columns (names : List String) :
    (names.map (Expression.column (F := F))).map Expression.columnName = names := by
  rw [List.map_map]
  exact List.map_id' names

/-- The names of the state columns. -/
def stateColumns (n : ℕ) : List String := (List.range n).map stateColumn

omit [PyRuntime F] in
/-- The two parts of a row made of two lists of columns. -/
lemma get?_ofList_append {names names' : List String} {values values' : List (Value F)}
    (hnd : (names ++ names').Nodup) (hlen : names.length = values.length)
    (hlen' : names'.length = values'.length) :
    List.Forall₂ (fun n v =>
      (OrderedDict.ofList ((names ++ names').zip (values ++ values'))).get? n = some v) names values ∧
    List.Forall₂ (fun n v =>
      (OrderedDict.ofList ((names ++ names').zip (values ++ values'))).get? n = some v)
      names' values' := by
  have hall := get?_ofList_zip hnd
    (by simp [hlen, hlen'] : (names ++ names').length = (values ++ values').length)
  have htake := List.forall₂_take_append _ _ _ hall
  have hdrop := List.forall₂_drop_append _ _ _ hall
  rw [← hlen, List.take_left] at htake
  rw [← hlen, List.drop_left] at hdrop
  exact ⟨htake, hdrop⟩

/-- A partial row: the key columns, then the state columns. -/
lemma groupRow_states {spec : HashAggregate F} {k states : List (Value F)}
    (hgroup : spec.groupBy = names.map .column) (hmode : spec.isPartial = true)
    (hlen : names.length = k.length) :
    groupRow spec aggs k states =
      .ok (OrderedDict.ofList ((names ++ stateColumns states.length).zip (k ++ states))) := by
  have hzip : states.zipIdx.foldl (fun r p => OrderedDict.set r (stateColumn p.2) p.1)
      (OrderedDict.ofList (names.zip k)) =
      ((stateColumns states.length).zip states).foldl (fun r p => OrderedDict.set r p.1 p.2)
        (OrderedDict.ofList (names.zip k)) := by
    have hswap : states.zipIdx = ((List.range states.length).zip states).map Prod.swap := by
      rw [List.zip_swap, List.zipIdx_eq_zip_range', List.range_eq_range']
    rw [hswap, stateColumns, List.zip_map_left, List.foldl_map, List.foldl_map]
    rfl
  rw [groupRow, hgroup, outputNames_columns, if_pos hmode, hzip, foldl_set_ofList hlen]
  rfl

/-- A final row: the key columns, then the aggregates. -/
lemma groupRow_final {spec : HashAggregate F} {k states values : List (Value F)}
    (hgroup : spec.groupBy = names.map .column) (hmode : spec.isPartial = false)
    (hlen : names.length = k.length)
    (hvalues : (aggs.zip states).mapM (fun p => p.1.name.finalize p.2) = .ok values) :
    groupRow spec aggs k states = .ok (OrderedDict.ofList
      ((names ++ spec.aggregates.map Expression.columnName).zip (k ++ values))) := by
  rw [groupRow, hgroup, outputNames_columns, hvalues, if_neg (by simp [hmode]),
    ExceptList.bind_ok, foldl_set_ofList hlen]
  rfl

/-- The columns of a row that holds `values` under `names`. -/
lemma keyOf_of_forall₂ {row : Record F}
    {values : List (Value F)} (h : List.Forall₂ (fun n v => row.get? n = some v) names values) :
    keyOf names row = values ∧ tupleKey (names.map .column) row = .ok values := by
  have hkey : keyOf names row = values := by
    induction h with
    | nil => rfl
    | cons hv _ ih => rw [keyOf, List.map_cons, hv, ← ih]; rfl
  refine ⟨hkey, ?_⟩
  rw [← hkey]
  refine tupleKey_columns (fun n hn => ?_)
  obtain ⟨v, -, hv⟩ := Dealing.exists_partner h.flip hn
  exact ⟨v, hv⟩

end Rows

omit [PyRuntime F] in
/-- An entry that has an output field is an aggregate. -/
lemma unwrapAggregate_ok {a : Expression F} (h : a.unalias.isAggregate = true) :
    ∃ f, unwrapAggregate a = .ok f := by
  unfold unwrapAggregate
  cases he : a.unalias <;> simp_all [Expression.isAggregate]

lemma unwrapAggregates_ok {child : LogicalPlan F} {groupBy aggregates : List (Expression F)}
    {schema : Schema} (h : (LogicalPlan.aggregate child groupBy aggregates).schema = .ok schema) :
    ∃ aggs, aggregates.mapM unwrapAggregate = .ok aggs := by
  rw [LogicalPlan.schema] at h
  obtain ⟨_, -, h⟩ := ExceptList.bind_eq_ok.mp h
  obtain ⟨fields, hfields, -⟩ := ExceptList.bind_eq_ok.mp h
  have hall : ∀ a ∈ aggregates, ∃ f, unwrapAggregate a = .ok f := by
    intro a ha
    obtain ⟨field, -, hfield⟩ := Dealing.exists_partner (ExceptList.mapM_eq_ok.mp hfields).flip ha
    obtain ⟨s, -, hs⟩ := ExceptList.bind_eq_ok.mp hfield
    exact unwrapAggregate_ok (aggregateOutputField_eq_ok hs).2
  obtain ⟨aggs, haggs, -⟩ := ExceptList.mapM_ok_of_exists (S := fun _ _ => True)
    (fun a ha => (hall a ha).imp fun _ hf => ⟨hf, trivial⟩)
  exact ⟨aggs, haggs⟩

/-- The output names of an aggregation that has a schema are distinct. -/
lemma aggregateSchema_nodup {child : LogicalPlan F} {aggregates : List (Expression F)}
    {schema : Schema}
    (h : (LogicalPlan.aggregate child (names.map .column) aggregates).schema = .ok schema) :
    (names ++ aggregates.map Expression.columnName).Nodup := by
  have hnames := LogicalPlan.schema_names h
  rw [LogicalPlan.outputNames, List.map_append, outputNames_columns] at hnames
  rw [← hnames]
  exact schema.fieldNames_nodup

/-- What it takes of a meaning of groups for the two stages to keep it. -/
structure KeepsMeaning (names : List String) (aggs : List (AggregateFunction F))
    (P : Group F → List α → Prop) : Prop where
  merge : Mergeable aggs P
  key_length : ∀ k states b, P (k, states) b → names.length = k.length
  states_length : ∀ k states b, P (k, states) b → states.length = aggs.length
  finalize : ∀ k states b, P (k, states) b →
    ∃ values, (aggs.zip states).mapM (fun p => p.1.name.finalize p.2) = .ok values

/-- Groups have a value for each key column and a state for each aggregate. -/
def HasLengths (names : List String) (aggs : List (AggregateFunction F))
    (P : Group F → List α → Prop) : Prop :=
  ∀ k states b, P (k, states) b → names.length = k.length ∧ states.length = aggs.length

lemma KeepsMeaning.lengths {aggs : List (AggregateFunction F)} {P : Group F → List α → Prop}
    (h : KeepsMeaning names aggs P) : HasLengths names aggs P :=
  fun k states b hP => ⟨h.key_length k states b hP, h.states_length k states b hP⟩

/-- A partial row stands for the batch of the group that can be read back from it. -/
def PartialRowOf (names : List String) (aggs : List (AggregateFunction F))
    (P : Group F → List α → Prop) (row : Record F) (batch : List α) : Prop :=
  ∃ k states, P (k, states) batch ∧ keyOf names row = k ∧
    tupleKey (names.map .column) row = .ok k ∧
    (List.range aggs.length).mapM (stateOf row) = .ok states

/-- A final row holds the key of a group and its finalized states. -/
def FinalRowOf (names outputs : List String) (aggs : List (AggregateFunction F))
    (P : Group F → List α → Prop) (row : Record F) (batch : List α) : Prop :=
  ∃ k states values, P (k, states) batch ∧
    (aggs.zip states).mapM (fun p => p.1.name.finalize p.2) = .ok values ∧
    row = OrderedDict.ofList ((names ++ outputs).zip (k ++ values))

section Stages

variable [PyHost F] {P : Group F → List α → Prop} {S : List (Value F) → Prop}
  {aggs : List (AggregateFunction F)} {spec : HashAggregate F} {input : List α}

omit [PyHost F] in
/-- The row of a partial group can be read back. -/
lemma partialRowOf_group (h : HasLengths names aggs P)
    (hnd : (names ++ stateColumns aggs.length).Nodup) {k states : List (Value F)} {batch : List α}
    (hP : P (k, states) batch) :
    PartialRowOf names aggs P
      (OrderedDict.ofList ((names ++ stateColumns states.length).zip (k ++ states))) batch := by
  obtain ⟨hk, hlen⟩ := h k states batch hP
  have hcols : (stateColumns aggs.length).length = states.length := by simp [stateColumns, hlen]
  rw [hlen]
  obtain ⟨hkeys, hstates⟩ := get?_ofList_append hnd hk hcols
  obtain ⟨hkey, htuple⟩ := keyOf_of_forall₂ hkeys
  refine ⟨k, states, hP, hkey, htuple, ?_⟩
  generalize OrderedDict.ofList ((names ++ stateColumns aggs.length).zip (k ++ states)) = row
    at hstates
  rw [stateColumns, List.forall₂_map_left_iff] at hstates
  rw [ExceptList.mapM_eq_ok]
  exact hstates.imp fun i s hs => by rw [stateOf, hs]

omit [PyHost F] in
/-- The columns of a final row. -/
lemma FinalRowOf.columns {outputs : List String} {row : Record F} {batch : List α}
    (hlengths : HasLengths names aggs P) (hlen : outputs.length = aggs.length)
    (hnd : (names ++ outputs).Nodup) (h : FinalRowOf names outputs aggs P row batch) :
    ∃ states values, P (keyOf names row, states) batch ∧
      (aggs.zip states).mapM (fun p => p.1.name.finalize p.2) = .ok values ∧
      HasKeys (names ++ outputs) row ∧
      List.Forall₂ (fun n v => row.get? n = some v) outputs values := by
  obtain ⟨k, states, values, hP, hvalues, rfl⟩ := h
  obtain ⟨hk, hstates⟩ := hlengths k states batch hP
  have houtputs : outputs.length = values.length := by
    rw [ExceptList.mapM_length hvalues, List.length_zip, hstates, hlen, min_self]
  obtain ⟨hkeys, houts⟩ := get?_ofList_append hnd hk houtputs
  obtain ⟨hkey, -⟩ := keyOf_of_forall₂ hkeys
  refine ⟨states, values, by rwa [hkey], hvalues, ?_, houts⟩
  exact hasKeys_ofList hnd (by simp [hk, houtputs])

/-- The partial aggregation of one source partition. -/
theorem partialAggregate_yields (pid : ℕ) {parent : Partition F} {rows : List (Record F)}
    {batches : List (List α)} (hS : OrderedDict.LawfulOn S) (hp : KeysPrint S)
    (h : KeepsMeaning names aggs P) (hgroup : spec.groupBy = names.map .column) (hmode : spec.isPartial = true)
    (haggs : spec.aggregates.mapM unwrapAggregate = .ok aggs)
    (hnd : (names ++ stateColumns aggs.length).Nodup) (hparent : parent.toList = .ok rows)
    (habsorb : List.Forall₂ (fun r ys => ∃ k, S k ∧ Absorbs spec aggs P r k ys) rows batches) :
    ∃ part out, hashAggregatePartition spec pid parent = .ok part ∧ part.toList = .ok out ∧
      Summarise (PartialRowOf names aggs P) out batches.flatten := by
  have hrows : HasRows spec aggs P :=
    fun group batch hP => ⟨_, groupRow_states hgroup hmode (h.key_length _ _ _ hP)⟩
  obtain ⟨part, items, out, hpart, hlist, hy⟩ := hashAggregatePartition_yields
    pid hS hp h.merge hrows haggs hparent habsorb
  refine ⟨part, out, hpart, hlist, hy.summarise.rel hy.rows ?_⟩
  rintro ⟨k, states⟩ row batch hrow hP
  rw [groupRow_states hgroup hmode (h.key_length _ _ _ hP)] at hrow
  cases hrow
  exact partialRowOf_group h.lengths hnd hP

omit [PyHost F] in
/-- A partial row adds the batch its states stand for. -/
theorem absorbs_states {r : Record F} {k states : List (Value F)} {ys : List α}
    (hm : Mergeable aggs P) (hmode : spec.isPartial = false)
    (hkey : tupleKey spec.groupBy r = .ok k)
    (hstates : (List.range aggs.length).mapM (stateOf r) = .ok states)
    (hP : P (k, states) ys) : Absorbs spec aggs P r k ys := by
  refine ⟨hkey, ⟨states, by simp [nextState, hmode, hstates], hP⟩, fun s b hb => ?_⟩
  obtain ⟨c, hc, hPc⟩ := hm k s states b ys hb hP
  exact ⟨c, by simp [nextState, hmode, hstates, hc], hPc⟩

/-- The final aggregation of one target partition. -/
theorem finalAggregate_yields (pid : ℕ) {parent : Partition F} {rows : List (Record F)}
    {batch : List α} (hS : OrderedDict.LawfulOn S) (hp : KeysPrint S)
    (h : KeepsMeaning names aggs P)
    (hkeys : ∀ r ∈ rows, S (keyOf names r)) (hgroup : spec.groupBy = names.map .column)
    (hmode : spec.isPartial = false) (haggs : spec.aggregates.mapM unwrapAggregate = .ok aggs)
    (hnd : (names ++ spec.aggregates.map Expression.columnName).Nodup)
    (hparent : parent.toList = .ok rows)
    (hsum : Summarise (PartialRowOf names aggs P) rows batch) :
    ∃ part out, hashAggregatePartition spec pid parent = .ok part ∧ part.toList = .ok out ∧
      (out.map (keyOf names)).Nodup ∧ (∀ row ∈ out, S (keyOf names row)) ∧
      Summarise (FinalRowOf names (spec.aggregates.map Expression.columnName) aggs P) out
        batch := by
  obtain ⟨batches, hbatches, hperm⟩ := hsum
  have habsorb : List.Forall₂ (fun r ys => ∃ k, S k ∧ Absorbs spec aggs P r k ys)
      rows batches := by
    refine ExceptList.forall₂_imp_of_mem hbatches (fun r hr ys _ hrow => ?_)
    obtain ⟨k, states, hP, hk, htuple, hstates⟩ := hrow
    exact ⟨k, hk ▸ hkeys r hr, absorbs_states h.merge hmode (hgroup ▸ htuple) hstates hP⟩
  have hfinal : ∀ k states b, P (k, states) b → ∃ row, groupRow spec aggs k states = .ok row ∧
      keyOf names row = k ∧
      FinalRowOf names (spec.aggregates.map Expression.columnName) aggs P row b := by
    intro k states b hP
    obtain ⟨values, hvalues⟩ := h.finalize k states b hP
    have hk : names.length = k.length := h.key_length k states b hP
    have hlen : (spec.aggregates.map Expression.columnName).length = values.length := by
      rw [ExceptList.mapM_length hvalues, List.length_zip, h.states_length k states b hP,
        min_self, List.length_map, ExceptList.mapM_length haggs]
    exact ⟨_, groupRow_final hgroup hmode hk hvalues,
      (keyOf_of_forall₂ (get?_ofList_append hnd hk hlen).1).1, k, states, values, hP, hvalues, rfl⟩
  have hrows : HasRows spec aggs P := by
    rintro ⟨k, states⟩ b hP
    obtain ⟨row, hrow, -⟩ := hfinal k states b hP
    exact ⟨row, hrow⟩
  obtain ⟨part, items, out, hpart, hlist, hy⟩ := hashAggregatePartition_yields
    pid hS hp h.merge hrows haggs hparent habsorb
  have hsum := hy.summarise
  -- every item's row is final, under the item's key
  have hall : List.Forall₂ (fun item row => keyOf names row = item.1) items out := by
    refine ExceptList.forall₂_imp_of_mem hy.rows (fun item hitem row _ hrow => ?_)
    obtain ⟨b, hb, -⟩ := hsum.exists_batch hitem
    obtain ⟨row', hrow', hkey, -⟩ := hfinal item.1 item.2 b hb
    rwa [Except.ok.inj (hrow.symm.trans hrow')]
  have hmap : out.map (keyOf names) = items.map Prod.fst := by
    rw [← List.forall₂_eq_eq_eq, List.forall₂_map_left_iff, List.forall₂_map_right_iff]
    exact hall.flip
  refine ⟨part, out, hpart, hlist, by rw [hmap]; exact hy.nodup, ?_,
    (hsum.rel hy.rows ?_).perm hperm⟩
  · intro row hrow
    have hmem : keyOf names row ∈ items.map Prod.fst := hmap ▸ List.mem_map_of_mem hrow
    obtain ⟨item, hitem, hkey⟩ := List.mem_map.mp hmem
    exact hkey ▸ hy.keys item hitem
  · rintro ⟨k, states⟩ row b hrow hP
    obtain ⟨row', hrow', -, hrowOf⟩ := hfinal k states b hP
    rwa [Except.ok.inj (hrow.symm.trans hrow')]

lemma denotedRows_hashAggregate {child : PhysicalPlan F} {d : PlanMeaning F}
    {outs : List (List (Record F))} (hd : denote child = .ok d)
    (h : List.Forall₂ (fun pid out => ∃ parent part, d.part pid = .ok parent ∧
      hashAggregatePartition spec pid parent = .ok part ∧ part.toList = .ok out)
      (List.range d.numPartitions) outs) :
    denotedRows (.hashAggregateExec child spec) = .ok outs := by
  simp only [denotedRows, denote, hd, ExceptList.bind_ok, ExceptList.pure_eq_ok]
  rw [ExceptList.mapM_eq_ok]
  refine h.imp (fun pid out hout => ?_)
  obtain ⟨parent, part, hparent, hpart, hlist⟩ := hout
  simp only [hparent, hpart, ExceptList.bind_ok, hlist]

variable (spec) in
/-- The partial stage: rows of keys and states, for each source partition. -/
theorem partialStage_rows {child : PhysicalPlan F} {parts : List (List (Record F))}
    (hd : denotedRows child = .ok parts) (hS : OrderedDict.LawfulOn S) (hp : KeysPrint S)
    (h : KeepsMeaning names aggs P) {contribution : Record F → List α}
    (habsorb : ∀ r ∈ parts.flatten, ∃ k, S k ∧ Absorbs spec aggs P r k (contribution r))
    (hgroup : spec.groupBy = names.map .column) (hmode : spec.isPartial = true)
    (haggs : spec.aggregates.mapM unwrapAggregate = .ok aggs)
    (hnd : (names ++ stateColumns aggs.length).Nodup) :
    ∃ pparts, denotedRows (.hashAggregateExec child spec) = .ok pparts ∧
      Summarise (PartialRowOf names aggs P) pparts.flatten
        (parts.flatten.flatMap contribution) := by
  obtain ⟨d, hden, hd⟩ := ExceptList.bind_eq_ok.mp hd
  obtain ⟨pparts, hrun, hsum⟩ := Dealing.forall₂_between
    (Q := fun pid out => ∃ parent part, d.part pid = .ok parent ∧
      hashAggregatePartition spec pid parent = .ok part ∧ part.toList = .ok out)
    (T := fun out rows => Summarise (PartialRowOf names aggs P) out (rows.flatMap contribution))
    (ExceptList.mapM_eq_ok.mp hd)
    (fun pid rows hrows hread => by
      obtain ⟨parent, hparent, hlist⟩ := ExceptList.bind_eq_ok.mp hread
      have hall : List.Forall₂ (fun r ys => ∃ k, S k ∧ Absorbs spec aggs P r k ys) rows
          (rows.map contribution) := by
        rw [List.forall₂_map_right_iff, List.forall₂_same]
        exact fun r hr => habsorb r (List.mem_flatten_of_mem hrows hr)
      obtain ⟨part, out, hpart, hout, hy⟩ :=
        partialAggregate_yields pid hS hp h hgroup hmode haggs hnd hlist hall
      exact ⟨out, ⟨parent, part, hparent, hpart, hout⟩, hy⟩)
  refine ⟨pparts, denotedRows_hashAggregate hden hrun, ?_⟩
  have hflat : parts.flatten.flatMap contribution =
      (parts.map (fun rows => rows.flatMap contribution)).flatten := by
    rw [List.flatMap_def, List.map_flatten, List.flatten_flatten, List.map_map]
    rfl
  rw [hflat]
  refine .flatten ?_
  rw [List.forall₂_map_right_iff]
  exact hsum

variable (spec) in
/-- The final stage: the states of a key meet in one target partition. -/
theorem finalStage_rows {child : PhysicalPlan F} {pparts : List (List (Record F))} {n : ℕ}
    (hn : 1 ≤ n) (hd : denotedRows child = .ok pparts) (hS : OrderedDict.LawfulOn S)
    (hp : KeysPrint S) (h : KeepsMeaning names aggs P)
    (hkeys : ∀ k states b, P (k, states) b → b ⊆ input → S k)
    (hgroup : spec.groupBy = names.map .column) (hmode : spec.isPartial = false)
    (haggs : spec.aggregates.mapM unwrapAggregate = .ok aggs)
    (hnd : (names ++ spec.aggregates.map Expression.columnName).Nodup)
    (hsum : Summarise (PartialRowOf names aggs P) pparts.flatten input) :
    ∃ outs, denotedRows (.hashAggregateExec (.exchangeExec child n (names.map .column) false none)
        spec) = .ok outs ∧ (outs.flatten.map (keyOf names)).Nodup ∧
      Summarise (FinalRowOf names (spec.aggregates.map Expression.columnName) aggs P) outs.flatten
        input := by
  -- a partial row has its group's key
  have htuple : ∀ r ∈ pparts.flatten,
      tupleKey (names.map .column) r = .ok (keyOf names r) ∧ S (keyOf names r) := by
    intro r hr
    obtain ⟨b, ⟨k, states, hP, hk, hkey, -⟩, hsub⟩ := hsum.exists_batch hr
    rw [hk]
    exact ⟨hkey, hkeys k states b hP hsub⟩
  obtain ⟨target, htarget, ht⟩ := hashExchange_targets hn (fun r hr => (htuple r hr).1)
    (fun r hr => hp _ (htuple r hr).2)
  have hdealt : Summarise (PartialRowOf names aggs P) ((List.range n).map (fun pid =>
      pparts.flatten.filter (fun r => hashTarget names ⟨n, hn⟩ r = pid))).flatten input := by
    refine hsum.perm_items ?_
    rw [← List.flatMap_def]
    exact Dealing.deal_perm (fun r _ => HashPartitioner.textTarget_lt ⟨n, hn⟩ (keyOf names r))
  obtain ⟨batches, hbatches, hperm⟩ := hdealt.of_flatten
  rw [List.forall₂_map_left_iff] at hbatches
  obtain ⟨outs, hrun, hfinal⟩ := Dealing.forall₂_between
    (Q := fun pid out => (∃ parent part, (.ok (rowsPartition pid child.schema
        (pparts.flatten.filter (fun r => hashTarget names ⟨n, hn⟩ r = pid))) : Py (Partition F)) =
          .ok parent ∧ hashAggregatePartition spec pid parent = .ok part ∧ part.toList = .ok out) ∧
      (out.map (keyOf names)).Nodup ∧
      ∀ row ∈ out, HashPartitioner.textTarget ⟨n, hn⟩ (keyOf names row) = pid)
    (T := Summarise (FinalRowOf names (spec.aggregates.map Expression.columnName) aggs P)) hbatches
    (fun pid batch _ hbatch => by
      have hSpid : OrderedDict.LawfulOn (fun k => S k ∧
          HashPartitioner.textTarget ⟨n, hn⟩ k = pid) :=
        fun k k' hk hk' => hS k k' hk.1 hk'.1
      have hin : ∀ r ∈ pparts.flatten.filter (fun r => hashTarget names ⟨n, hn⟩ r = pid),
          S (keyOf names r) ∧ HashPartitioner.textTarget ⟨n, hn⟩ (keyOf names r) = pid := by
        intro r hr
        obtain ⟨hmem, htr⟩ := List.mem_filter.mp hr
        exact ⟨(htuple r hmem).2, of_decide_eq_true htr⟩
      obtain ⟨part, out, hpart, hout, hdistinct, hout', hy⟩ := finalAggregate_yields pid hSpid
        (fun k hk => hp k hk.1) h hin
        hgroup hmode haggs hnd (rfl : (rowsPartition pid child.schema _).toList = .ok _) hbatch
      exact ⟨out, ⟨⟨_, part, rfl, hpart, hout⟩, hdistinct, fun row hrow => (hout' row hrow).2⟩, hy⟩)
  refine ⟨outs, denotedRows_hashAggregate (denote_exchange hd htarget ht)
    (hrun.imp fun _ _ hq => hq.1), ?_, (Summarise.flatten hfinal).perm hperm⟩
  have hindex : ((List.range n).map id).Nodup := by
    rw [List.map_id]
    exact List.nodup_range
  exact Dealing.nodup_keys_flatten hindex (hrun.imp fun _ _ hq => hq.2)

omit [PyHost F] in
/-- The columns of partial rows are distinct. -/
lemma partialAggregateSchema_nodup {aggregates : List (Expression F)}
    {childSchema partialSchema : Schema} (h : partialAggregateSchema (names.map .column) aggregates
      childSchema = .ok partialSchema) : (names ++ stateColumns aggregates.length).Nodup := by
  have hfields := Schema.make_eq_ok.mp h
  have hnames := partialSchema.distinct
  rw [hfields, List.map_append, List.map_map, List.map_map, List.map_map] at hnames
  rw [stateColumns]
  simpa [Function.comp_def, Expression.columnName] using hnames

/-- The two stages of a planned aggregation: final rows that stand for the input, one a key. -/
theorem planAggregate_stages {child plan : PhysicalPlan F} {aggregates : List (Expression F)}
    {childSchema schema : Schema} {n : ℕ} {spill : ℤ} {parts : List (List (Record F))} (hn : 1 ≤ n)
    (hd : denotedRows child = .ok parts)
    (hplan : planAggregate n spill child (names.map .column) aggregates childSchema schema = .ok plan)
    (haggs : aggregates.mapM unwrapAggregate = .ok aggs)
    (hnd : (names ++ aggregates.map Expression.columnName).Nodup) (hS : OrderedDict.LawfulOn S)
    (hp : KeysPrint S) (h : KeepsMeaning names aggs P) {contribution : Record F → List α}
    (hkeys : ∀ k states b, P (k, states) b → b ⊆ parts.flatten.flatMap contribution → S k)
    (habsorb : ∀ spec : HashAggregate F, spec.groupBy = names.map .column → spec.isPartial = true →
      ∀ r ∈ parts.flatten, ∃ k, S k ∧ Absorbs spec aggs P r k (contribution r)) :
    ∃ outs, denotedRows plan = .ok outs ∧ (outs.flatten.map (keyOf names)).Nodup ∧
      Summarise (FinalRowOf names (aggregates.map Expression.columnName) aggs P) outs.flatten
        (parts.flatten.flatMap contribution) := by
  obtain ⟨partialSchema, hschema, hplan⟩ := ExceptList.bind_eq_ok.mp hplan
  cases hplan
  have hndState : (names ++ stateColumns aggs.length).Nodup := by
    rw [ExceptList.mapM_length haggs]
    exact partialAggregateSchema_nodup hschema
  obtain ⟨pparts, hpparts, hsum⟩ := partialStage_rows
    ⟨names.map .column, aggregates, partialSchema, true, spill⟩ hd hS hp h (habsorb _ rfl rfl) rfl rfl
    haggs hndState
  exact finalStage_rows ⟨names.map .column, aggregates, schema, false, spill⟩ hn hpparts hS hp h hkeys
    rfl rfl haggs hnd hsum

end Stages

end MiniSpark
