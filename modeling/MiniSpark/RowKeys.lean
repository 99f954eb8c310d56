import MiniSpark.HashJoin
import MiniSpark.OptimizerSchema
import MiniSpark.PredicatePushdown

/-!
# The keys of rows

Over tables whose rows have exactly the fields of their schema, every row of an
accepted plan has exactly the plan's output names as keys.
-/
namespace MiniSpark

variable {F : Type} [PyRuntime F]

omit [PyRuntime F] in
/-- The row has exactly the given names as keys. -/
def HasKeys (names : List String) (r : Record F) : Prop :=
  ∀ n, (r.get? n).isSome = true ↔ n ∈ names

/-- Every table's rows have exactly the fields of its schema. -/
def LogicalPlan.TablesConform (plan : LogicalPlan F) : Prop :=
  ∀ d ∈ plan.tables, ∀ rows, d.iterRecords = .ok rows → ∀ r ∈ rows, HasKeys d.schema.fieldNames r

omit [PyRuntime F] in
theorem LogicalPlan.TablesConform.mono [PyRuntime F] {plan plan' : LogicalPlan F}
    (h : plan.TablesConform) (hsub : plan'.tables ⊆ plan.tables) : plan'.TablesConform :=
  fun d hd => h d (hsub hd)

omit [PyRuntime F] in
lemma hasKeys_iff_keys {names : List String} {r : Record F} :
    HasKeys names r ↔ ∀ n, n ∈ r.keys ↔ n ∈ names := by
  simp only [HasKeys, OrderedDict.isSome_get?_iff]

theorem tupleKey_length {keys : List (Expression F)} {r : Record F} {k : List (Value F)}
    (h : tupleKey keys r = .ok k) : k.length = keys.length := ExceptList.mapM_length h

omit [PyRuntime F] in
lemma hasKeys_ofList {names : List String} {values : List (Value F)} (hnd : names.Nodup)
    (hlen : values.length = names.length) : HasKeys names (OrderedDict.ofList (names.zip values)) := by
  have hfst : (names.zip values).map Prod.fst = names := List.map_fst_zip (Nat.le_of_eq hlen.symm)
  rw [hasKeys_iff_keys, OrderedDict.keys_ofList (by rwa [hfst]), hfst]
  exact fun n => Iff.rfl

lemma intRows_hasKeys {columns : List String} {parts : List (List (List (Value ℚ)))}
    (hnd : columns.Nodup)
    (hlen : ∀ rows ∈ parts, ∀ values ∈ rows, values.length = columns.length) :
    ∀ r ∈ (intRows columns parts).flatten, HasKeys columns r := by
  intro r hr
  obtain ⟨_, hpart, hr⟩ := List.mem_flatten.mp hr
  obtain ⟨rows, hrows, rfl⟩ := List.mem_map.mp hpart
  obtain ⟨values, hvalues, rfl⟩ := List.mem_map.mp hr
  exact hasKeys_ofList hnd (hlen rows hrows values hvalues)

theorem projectRow_hasKeys {columns : List (Expression F)} {r p : Record F}
    (hnd : (columns.map Expression.columnName).Nodup)
    (h : projectRow (columns.map Expression.columnName) columns r = .ok p) :
    HasKeys (columns.map Expression.columnName) p := by
  obtain ⟨values, hvalues, rfl⟩ := projectRow_eq_ok h
  exact hasKeys_ofList hnd (by simp [hvalues.length_eq])

omit [PyRuntime F] in
theorem mergeRow_hasKeys {leftNames rightNames on : List String} {l r : Record F}
    (hl : HasKeys leftNames l) (hr : HasKeys rightNames r) :
    HasKeys (leftNames ++ rightNames.filter (fun n => n ∉ on)) (mergeRow on l r) := by
  intro n
  rw [mergeRow_get?, List.mem_append, List.mem_filter]
  split
  · next hn => simp [hl n, hn]
  · next hn =>
      rw [Option.isSome_or, Bool.or_eq_true, hl n, hr n]
      simp [hn, or_comm]

section Aggregate

/-- Every group of a group-by has a key value for each column and a state for each aggregate. -/
theorem groupStep_lengths {groupBy : List (Expression F)} {aggs : List (AggregateFunction F)}
    {rows : List (Record F)} {groups : GroupTable F}
    (h : rows.foldlM (groupStep groupBy aggs) OrderedDict.empty = .ok groups) :
    ∀ p ∈ groups.items, p.1.length = groupBy.length ∧ p.2.length = aggs.length := by
  have hfold : rows.foldlM (OrderedDict.foldStep (tupleKey groupBy) (nextState true aggs))
      OrderedDict.empty = .ok groups := h
  refine OrderedDict.foldStep_items (P := fun k => k.length = groupBy.length)
    (Q := fun s => s.length = aggs.length) hfold (fun r _ k hk => tupleKey_length hk) ?_ (by simp)
  intro r _ s v hs hv
  have hlen := ExceptList.mapM_length hv
  rw [hlen, List.length_zip]
  cases s with
  | none => simp
  | some w => simp [hs w rfl]

/-- The row of a finished group has the group columns and the aggregates as keys. -/
theorem groupRow_hasKeys {groupBy aggregates : List (Expression F)} {schema : Schema}
    {aggs : List (AggregateFunction F)} {key state : List (Value F)} {row : Record F}
    (hnd : ((groupBy ++ aggregates).map Expression.columnName).Nodup)
    (haggs : aggs.length = aggregates.length) (hkey : key.length = groupBy.length)
    (hstate : state.length = aggs.length)
    (h : groupRow ⟨groupBy, aggregates, schema, false, 0⟩ aggs key state = .ok row) :
    HasKeys ((groupBy ++ aggregates).map Expression.columnName) row := by
  obtain ⟨values, hvalues, hrow⟩ := ExceptList.bind_eq_ok.mp h
  cases hrow
  have hlen := ExceptList.mapM_length hvalues
  rw [List.length_zip, hstate, Nat.min_self, haggs] at hlen
  rw [List.map_append] at hnd ⊢
  have hgfst : ((groupBy.map Expression.columnName).zip key).map Prod.fst =
      groupBy.map Expression.columnName := List.map_fst_zip (by simp [hkey])
  have hafst : ((aggregates.map Expression.columnName).zip values).map Prod.fst =
      aggregates.map Expression.columnName := List.map_fst_zip (by simp [hlen])
  rw [hasKeys_iff_keys]
  intro n
  rw [OrderedDict.mem_keys_foldl_set, hafst, OrderedDict.keys_ofList, hgfst, List.mem_append]
  rw [hgfst]
  exact (List.nodup_append.mp hnd).1

theorem aggregateRows_hasKeys {groupBy aggregates : List (Expression F)} {schema : Schema}
    {rows out : List (Record F)} (hnd : ((groupBy ++ aggregates).map Expression.columnName).Nodup)
    (h : aggregateRows groupBy aggregates schema rows = .ok out) :
    ∀ r ∈ out, HasKeys ((groupBy ++ aggregates).map Expression.columnName) r := by
  obtain ⟨aggs, haggs, h⟩ := ExceptList.bind_eq_ok.mp h
  obtain ⟨groups, hgroups, h⟩ := ExceptList.bind_eq_ok.mp h
  intro r hr
  obtain ⟨hlen, hget⟩ := List.forall₂_iff_get.mp (ExceptList.mapM_eq_ok.mp h)
  obtain ⟨i, hi, rfl⟩ := List.mem_iff_getElem.mp hr
  have hrow := hget i (hlen ▸ hi) hi
  have hl := groupStep_lengths hgroups _ (List.get_mem groups.items ⟨i, hlen ▸ hi⟩)
  exact groupRow_hasKeys hnd (ExceptList.mapM_length haggs) hl.1 hl.2 hrow

end Aggregate

section SortRows

omit [PyRuntime F] in
lemma arrivals_snd (rows : List (Record F)) : (arrivals rows).map Prod.snd = rows := by
  rw [arrivals, List.map_map]
  exact List.zipIdx_map_fst 0 rows

/-- Sorting permutes the rows. -/
lemma sortedRows_perm {rows : List (Record F)} {keys : List (Expression F × Bool)}
    {sorted : List (Arrival F)} (h : sortRows (arrivals rows) keys = .ok sorted) :
    (sorted.map Prod.snd).Perm rows := by
  have hmap := (sortRows_perm h).map Prod.snd
  rwa [arrivals_snd] at hmap

end SortRows

/-- Every row of an accepted plan has exactly the output names as keys. -/
theorem naiveRows_hasKeys {plan : LogicalPlan F} {rows : List (Record F)} (ha : plan.Analyzed)
    (ht : plan.TablesConform) (h : naiveRows plan = .ok rows) :
    ∀ r ∈ rows, HasKeys plan.outputNames r := by
  induction plan generalizing rows with
  | scan dataset _ _ => exact ht dataset (by simp [LogicalPlan.tables]) rows h
  | filter child condition ih =>
      obtain ⟨crows, hc, h⟩ := ExceptList.bind_eq_ok.mp h
      obtain ⟨-, rfl⟩ := ExceptList.filterE_eq_ok.mp h
      exact fun r hr => ih ha.1 ht hc r (List.mem_of_mem_filter hr)
  | project child columns ih =>
      rw [naiveRows_project ha] at h
      obtain ⟨crows, hc, h⟩ := ExceptList.bind_eq_ok.mp h
      intro r hr
      obtain ⟨hlen, hget⟩ := List.forall₂_iff_get.mp (ExceptList.mapM_eq_ok.mp h)
      obtain ⟨i, hi, rfl⟩ := List.mem_iff_getElem.mp hr
      exact projectRow_hasKeys ha.2.2.nodup (hget i (hlen ▸ hi) hi)
  | aggregate child groupBy aggregates ih =>
      obtain ⟨crows, hc, h⟩ := ExceptList.bind_eq_ok.mp h
      obtain ⟨s, hs, h⟩ := ExceptList.bind_eq_ok.mp h
      exact aggregateRows_hasKeys ha.2.2.2.nodup h
  | join left right on how broadcast ihl ihr =>
      obtain ⟨lrows, hl, h⟩ := ExceptList.bind_eq_ok.mp h
      obtain ⟨rrows, hr, h⟩ := ExceptList.bind_eq_ok.mp h
      obtain ⟨-, -, rfl⟩ := hashJoinRows_eq_ok.mp h
      intro m hm
      obtain ⟨r, hrm, hm⟩ := List.mem_flatMap.mp hm
      obtain ⟨l, hlm, rfl⟩ := List.mem_map.mp hm
      have hlk := ihl ha.1 (ht.mono (List.subset_append_left _ _)) hl l (List.mem_of_mem_filter hlm)
      have hrk := ihr ha.2.1 (ht.mono (List.subset_append_right _ _)) hr r hrm
      exact mergeRow_hasKeys hlk hrk
  | sort child keys ih =>
      obtain ⟨crows, hc, h⟩ := ExceptList.bind_eq_ok.mp h
      obtain ⟨sorted, hs, h⟩ := ExceptList.bind_eq_ok.mp h
      cases h
      exact fun r hr => ih ha.1 ht hc r ((sortedRows_perm hs).mem_iff.mp hr)

end MiniSpark
