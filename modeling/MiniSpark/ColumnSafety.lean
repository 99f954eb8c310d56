import MiniSpark.AggregateGroups
import MiniSpark.Operators
import MiniSpark.Outcome
import MiniSpark.PlanSemantics
import MiniSpark.RowKeys

/-!
# No missing column

A `KeyError` comes from looking up a column the row does not have. Arithmetic and
comparison raise none, so an operator whose expressions read columns of its input raises
none either; what it yields has the columns of its schema.
-/
namespace MiniSpark

open Outcome

variable {F : Type} [PyRuntime F] {B : String → Prop}

/-- The error is not a `KeyError`, or one with a text that `B` accounts for. -/
def Blames (B : String → Prop) (e : PyError) : Prop := ∀ m, e = .keyError m → B m

/-- The computation raises no `KeyError` that `B` does not account for. -/
abbrev Safe {α : Type} (B : String → Prop) (x : Py α) : Prop := Meets (Blames B) (fun _ => True) x

section Values

theorem Num.toFloat_safe (a : Num F) : Safe B a.toFloat := by
  cases a with
  | int i => cases h : (PyRuntime.ofInt i : Option F) <;> simp [Num.toFloat, h, Blames]
  | float x => trivial

theorem Num.arith_safe (onInt : ℤ → ℤ → ℤ) (onFloat : F → F → F) (a b : Num F) :
    Safe B (Num.arith onInt onFloat a b) := by
  unfold Num.arith
  split
  · trivial
  · exact a.toFloat_safe.bind (fun _ _ => b.toFloat_safe.bind (fun _ _ => trivial))

theorem Num.truediv_safe (a b : Num F) : Safe B (a.truediv b) := by
  unfold Num.truediv
  split
  · next i j =>
      split
      · simp [Blames]
      · cases PyRuntime.intDiv (F := F) i j <;> simp [Blames]
  · refine a.toFloat_safe.bind (fun _ _ => b.toFloat_safe.bind (fun _ _ => ?_))
    split <;> simp [Blames]

namespace Value

omit [PyRuntime F] in
theorem onNumbers_safe {f : Num F → Num F → Py (Value F)} (h : ∀ x y, Safe B (f x y))
    (a b : Value F) : Safe B (onNumbers f a b) := by
  unfold onNumbers
  split
  · exact h _ _
  · simp [Blames]

theorem add_safe (a b : Value F) : Safe B (a.add b) := by
  unfold add
  split
  · trivial
  · exact onNumbers_safe (Num.arith_safe _ _) _ _

theorem sub_safe (a b : Value F) : Safe B (a.sub b) := onNumbers_safe (Num.arith_safe _ _) a b

theorem mul_safe (a b : Value F) : Safe B (a.mul b) := by
  unfold mul
  split
  · split <;> simp [Blames]
  · split <;> simp [Blames]
  · exact onNumbers_safe (Num.arith_safe _ _) _ _

theorem truediv_safe (a b : Value F) : Safe B (a.truediv b) := onNumbers_safe Num.truediv_safe a b

theorem lt_safe (a b : Value F) : Safe B (a.lt b) := by
  induction a generalizing b with
  | pair c d ihc ihd =>
      cases b with
      | pair c' d' =>
          rw [lt]
          split
          · split
            · trivial
            · exact ihd d'
          · exact ihc c'
      | _ => simp [lt, num?, Blames]
  | _ => cases b <;> simp [lt, num?, Blames]

theorem le_safe (a b : Value F) : Safe B (a.le b) := by
  induction a generalizing b with
  | pair c d ihc ihd =>
      cases b with
      | pair c' d' =>
          rw [le]
          split
          · split
            · trivial
            · exact ihd d'
          · exact ihc c'
      | _ => simp [le, num?, Blames]
  | _ => cases b <;> simp [le, num?, Blames]

end Value

theorem BinaryOp.op_safe (op : BinaryOp) (a b : Value F) : Safe B (op.op a b) := by
  cases op with
  | greaterThan => exact (Value.lt_safe b a).map (fun _ _ => trivial)
  | greaterEqual => exact (Value.le_safe b a).map (fun _ _ => trivial)
  | lessThan => exact (Value.lt_safe a b).map (fun _ _ => trivial)
  | lessEqual => exact (Value.le_safe a b).map (fun _ _ => trivial)
  | add => exact Value.add_safe a b
  | subtract => exact Value.sub_safe a b
  | multiply => exact Value.mul_safe a b
  | divide => exact Value.truediv_safe a b
  | _ => trivial

end Values

section Expressions

/-- Every column the expression reads is among the names. -/
abbrev ReadsFromNames (names : List String) (e : Expression F) : Prop :=
  e.referencedColumns ⊆ names

/-- Evaluation on a row that has the columns. -/
theorem Expression.evaluate_safe {names : List String} {r : Record F} (hr : HasKeys names r)
    {e : Expression F} (he : ReadsFromNames names e) : Safe B (e.evaluate r) := by
  induction e with
  | column name =>
      have hname : (r.get? name).isSome = true := (hr name).mpr (he (List.mem_singleton_self name))
      rw [evaluate, lookupColumn]
      cases hget : r.get? name with
      | none =>
          rw [hget] at hname
          cases hname
      | some v => trivial
  | literal value => trivial
  | aliased child name ih => exact ih he
  | binary op left right ihl ihr =>
      obtain ⟨hl, hr⟩ := List.append_subset.mp he
      exact (ihl hl).bind (fun a _ => (ihr hr).bind (fun b _ => op.op_safe a b))
  | not child ih => exact (ih he).bind (fun _ _ => trivial)
  | isNull child ih => exact (ih he).bind (fun _ _ => trivial)
  | isNotNull child ih => exact (ih he).bind (fun _ _ => trivial)
  | countStar => simp [evaluate, aggregateHasNoValue, Blames]
  | aggregate name child ih => simp [evaluate, aggregateHasNoValue, Blames]

theorem tupleKey_meets {names : List String} {r : Record F} (hr : HasKeys names r)
    {keys : List (Expression F)} (hk : ∀ e ∈ keys, ReadsFromNames names e) :
    Meets (Blames B) (fun k => k.length = keys.length) (tupleKey keys r) := by
  refine (meets_mapM (fun e he => (e.evaluate_safe hr (hk e he)))).imp (fun _ h => h) ?_
  exact fun k hk => hk.length_eq.symm

end Expressions

section Rows

variable {names : List String} {rows : List (Record F)}

/-- Every row has exactly these columns. -/
abbrev AllHaveKeys (names : List String) (rows : List (Record F)) : Prop :=
  ∀ r ∈ rows, HasKeys names r

theorem filterRows_meets {condition : Expression F} (hrows : AllHaveKeys names rows)
    (hc : ReadsFromNames names condition) :
    Meets (Blames B) (AllHaveKeys names) (filterRows condition rows) := by
  have hholds : ∀ r ∈ rows, Meets (Blames B) (fun _ => True) (holds condition r) :=
    fun r hr => (condition.evaluate_safe (hrows r hr) hc).map (fun _ _ => trivial)
  exact (meets_filterE hholds).imp (fun _ h => h) (fun out hout r hr => hrows r (hout hr))

theorem projectRows_meets {columns : List (Expression F)} {schema : Schema}
    (hrows : AllHaveKeys names rows) (hc : ∀ e ∈ columns, ReadsFromNames names e)
    (hschema : schema.fieldNames = columns.map Expression.columnName) :
    Meets (Blames B) (AllHaveKeys schema.fieldNames) (projectRows schema.fieldNames columns rows) := by
  refine meets_mapM_all (fun r hr => ?_)
  refine (meets_mapM (fun e he => e.evaluate_safe (hrows r hr) (hc e he))).bind (fun values hvalues => ?_)
  refine hasKeys_ofList schema.fieldNames_nodup ?_
  rw [hschema, List.length_map, hvalues.length_eq]

section Join

variable {leftNames rightNames on : List String} {left right : List (Record F)}
  {leftKeys rightKeys : List (Expression F)}

theorem buildTable_meets (hrows : AllHaveKeys leftNames left)
    (hk : ∀ e ∈ leftKeys, ReadsFromNames leftNames e) :
    Meets (Blames B) (fun table => ∀ p ∈ table.items, AllHaveKeys leftNames p.2)
      (buildTable leftKeys left) := by
  refine meets_foldlM (by simp) (fun r hr table htable => ?_)
  refine (tupleKey_meets (hrows r hr) hk).bind (fun key _ => ?_)
  have hentry : AllHaveKeys leftNames ((table.get? key).getD [] ++ [r]) := by
    intro l hl
    obtain hl | hl := List.mem_append.mp hl
    · cases hget : table.get? key with
      | none =>
          rw [hget] at hl
          cases hl
      | some ls =>
          rw [hget] at hl
          obtain ⟨p, hp, rfl⟩ := Option.map_eq_some_iff.mp hget
          exact htable p (List.mem_of_find?_eq_some hp) l hl
    · rw [List.mem_singleton.mp hl]
      exact hrows r hr
  have hset := OrderedDict.setItems_forall (P := fun _ => True) (fun p hp => ⟨trivial, htable p hp⟩)
    (k := key) trivial hentry
  exact fun p hp => (hset p hp).2

theorem probeTable_meets {table : OrderedDict (List (Value F)) (List (Record F))}
    (htable : ∀ p ∈ table.items, AllHaveKeys leftNames p.2) (hrows : AllHaveKeys rightNames right)
    (hk : ∀ e ∈ rightKeys, ReadsFromNames rightNames e) :
    Meets (Blames B) (AllHaveKeys (leftNames ++ rightNames.filter (fun n => n ∉ on)))
      (probeTable table rightKeys on right) := by
  refine (meets_mapM_all (R := AllHaveKeys (leftNames ++ rightNames.filter (fun n => n ∉ on)))
    (fun r hr => ?_)).bind (fun parts hparts => ?_)
  · refine (tupleKey_meets (hrows r hr) hk).bind (fun key _ => ?_)
    intro m hm
    obtain ⟨l, hl, rfl⟩ := List.mem_map.mp hm
    cases hget : table.get? key with
    | none =>
        rw [hget] at hl
        cases hl
    | some ls =>
        rw [hget] at hl
        obtain ⟨p, hp, rfl⟩ := Option.map_eq_some_iff.mp hget
        exact mergeRow_hasKeys (htable p (List.mem_of_find?_eq_some hp) l hl) (hrows r hr)
  · intro m hm
    obtain ⟨part, hpart, hm⟩ := List.mem_flatten.mp hm
    exact hparts part hpart m hm

end Join

end Rows

section AggregateStates

namespace AggregateName

omit [PyRuntime F] in
theorem updateExtremum_safe {better : Value F → Value F → Py Bool}
    (h : ∀ v s, Safe B (better v s)) (state value : Value F) :
    Safe B (updateExtremum better state value) := by
  unfold updateExtremum
  split
  · trivial
  · exact (h value state).bind (fun _ _ => trivial)

theorem updateValue_safe (name : AggregateName) (state value : Value F) :
    Safe B (name.updateValue state value) := by
  cases name with
  | count => exact Value.add_safe _ _
  | sum =>
      rw [updateValue, updateSum]
      split
      · trivial
      · exact Value.add_safe _ _
  | avg =>
      rw [updateValue]
      unfold updateAvg
      split
      · exact (Value.add_safe _ _).bind (fun _ _ => (Value.add_safe _ _).bind (fun _ _ => trivial))
      · simp [Blames]
  | min => exact updateExtremum_safe (fun v s => Value.lt_safe v s) state value
  | max => exact updateExtremum_safe (fun v s => Value.lt_safe s v) state value

omit [PyRuntime F] in
theorem mergeNullable_safe {f : Value F → Value F → Py (Value F)} (h : ∀ a b, Safe B (f a b))
    (a b : Value F) : Safe B (mergeNullable f a b) := by
  unfold mergeNullable
  split
  · trivial
  · split
    · trivial
    · exact h a b

omit [PyRuntime F] in
theorem mergeExtremum_safe {better : Value F → Value F → Py Bool}
    (h : ∀ a b, Safe B (better a b)) (a b : Value F) : Safe B (mergeExtremum better a b) :=
  (h a b).bind (fun _ _ => trivial)

theorem merge_safe (name : AggregateName) (a b : Value F) : Safe B (name.merge a b) := by
  cases name with
  | count => exact Value.add_safe _ _
  | sum => exact mergeNullable_safe Value.add_safe a b
  | avg =>
      rw [merge]
      unfold mergeAvg
      split
      · exact (Value.add_safe _ _).bind (fun _ _ => (Value.add_safe _ _).bind (fun _ _ => trivial))
      · simp [Blames]
  | min =>
      exact mergeNullable_safe (mergeExtremum_safe (fun v s => Value.lt_safe v s)) a b
  | max =>
      exact mergeNullable_safe (mergeExtremum_safe (fun v s => Value.lt_safe s v)) a b

theorem finalize_safe (name : AggregateName) (state : Value F) : Safe B (name.finalize state) := by
  cases name with
  | avg =>
      rw [finalize]
      unfold finalizeAvg
      split
      · split
        · exact Value.truediv_safe _ _
        · trivial
      · simp [Blames]
  | _ => trivial

end AggregateName

/-- Everything the aggregate evaluates on a row is among the names. -/
def AggregateFunction.ReadsNames (names : List String) (agg : AggregateFunction F) : Prop :=
  ∀ e ∈ agg.child, ReadsFromNames names e

theorem AggregateFunction.update_safe {names : List String} {r : Record F} (hr : HasKeys names r)
    {agg : AggregateFunction F} (ha : agg.ReadsNames names) (state : Value F) :
    Safe B (agg.update state r) := by
  obtain ⟨name, child⟩ := agg
  cases child with
  | none =>
      cases name with
      | count => exact Value.add_safe _ _
      | _ => simp [AggregateFunction.update, Blames]
  | some e =>
      have he : Safe B (e.evaluate r) := e.evaluate_safe hr (ha e rfl)
      cases name with
      | count => exact he.bind (fun _ _ => Value.add_safe _ _)
      | _ =>
          refine he.bind (fun v _ => ?_)
          split
          · trivial
          · exact AggregateName.updateValue_safe _ _ _

omit [PyRuntime F] in
theorem unwrapAggregate_meets {names : List String} {e : Expression F}
    (he : ReadsFromNames names e) :
    Meets (Blames B) (AggregateFunction.ReadsNames names) (unwrapAggregate e) := by
  rw [ReadsFromNames, ← Expression.referencedColumns_unalias] at he
  unfold unwrapAggregate
  cases hu : e.unalias with
  | countStar => exact fun c hc => absurd hc (by simp)
  | aggregate name child =>
      intro c hc
      obtain rfl : child = c := Option.some.inj hc
      rwa [hu] at he
  | _ => simp [Blames]

end AggregateStates

section HashAggregates

/-- The columns an aggregation yields: those of its groups, then states or final values. -/
def HashAggregate.outputNames (spec : HashAggregate F) : List String :=
  spec.groupBy.map Expression.columnName ++
    if spec.isPartial then stateColumns spec.aggregates.length
    else spec.aggregates.map Expression.columnName

/-- The aggregation finds what it reads: raw columns at first, states of partial rows later. -/
def HashAggregate.ReadsInput (spec : HashAggregate F) (names : List String) : Prop :=
  (∀ g ∈ spec.groupBy, ReadsFromNames names g) ∧
    if spec.isPartial then ∀ a ∈ spec.aggregates, ReadsFromNames names a
    else stateColumns spec.aggregates.length ⊆ names

/-- Every group has a value for each key column and a state for each aggregate. -/
abbrev GroupsShaped (spec : HashAggregate F) (items : SpillItems F) : Prop :=
  ∀ p ∈ items, p.1.length = spec.groupBy.length ∧ p.2.length = spec.aggregates.length

/-- So do the groups that were spilled. -/
structure Accumulation.Shaped (spec : HashAggregate F) (acc : Accumulation F) : Prop where
  groups : GroupsShaped spec acc.groups.items
  spilled : ∀ files ∈ acc.spillPaths, GroupsShaped spec files.flatten

variable {spec : HashAggregate F} {names : List String} {aggs : List (AggregateFunction F)}
  {rows : List (Record F)}

omit [PyRuntime F] in
theorem unwrapAggregates_meets (h : spec.ReadsInput names) :
    Meets (Blames B) (fun aggs => aggs.length = spec.aggregates.length ∧
      (spec.isPartial = true → ∀ agg ∈ aggs, agg.ReadsNames names))
      (spec.aggregates.mapM unwrapAggregate) := by
  have hlength : ∀ aggs, spec.aggregates.mapM unwrapAggregate = .ok aggs →
      aggs.length = spec.aggregates.length := fun _ haggs => ExceptList.mapM_length haggs
  cases hmode : spec.isPartial with
  | true =>
      have hread := h.2
      rw [hmode, if_pos rfl] at hread
      refine (meets_mapM_all (fun a ha => unwrapAggregate_meets (hread a ha))).and_of_ok hlength
        |>.imp (fun _ h => h) (fun aggs h => ⟨h.2, fun _ => h.1⟩)
  | false =>
      have hread : ∀ a ∈ spec.aggregates, Safe B (unwrapAggregate a) := by
        intro a _
        exact (unwrapAggregate_meets (fun _ h => h : ReadsFromNames a.referencedColumns a)).any
      refine (meets_mapM_all hread).and_of_ok hlength |>.imp (fun _ h => h) ?_
      exact fun aggs h => ⟨h.2, fun hfalse => by cases hfalse⟩

theorem mergeStates_meets {n : ℕ} (haggs : aggs.length = n) {a b : List (Value F)}
    (ha : a.length = n) (hb : b.length = n) :
    Meets (Blames B) (fun s => s.length = n) (mergeStates aggs a b) := by
  refine (meets_mapM (fun p _ => AggregateName.merge_safe p.1.name p.2.1 p.2.2)).imp
    (fun _ h => h) (fun s hs => ?_)
  rw [← hs.length_eq, List.length_zip, List.length_zip]
  omega

omit [PyRuntime F] in
theorem stateOf_safe {r : Record F} (hr : HasKeys names r) {n i : ℕ}
    (hnames : stateColumns n ⊆ names) (hi : i < n) : Safe B (stateOf r i) := by
  have hmem : stateColumn i ∈ names := hnames (List.mem_map_of_mem (List.mem_range.mpr hi))
  have hname : (r.get? (stateColumn i)).isSome = true := (hr _).mpr hmem
  rw [stateOf]
  cases hget : r.get? (stateColumn i) with
  | none =>
      rw [hget] at hname
      cases hname
  | some v => trivial

theorem nextState_meets (hread : spec.ReadsInput names)
    (haggs : aggs.length = spec.aggregates.length)
    (hagg : spec.isPartial = true → ∀ agg ∈ aggs, agg.ReadsNames names) {r : Record F}
    (hr : HasKeys names r) {existing : Option (List (Value F))}
    (hex : ∀ s ∈ existing, s.length = spec.aggregates.length) :
    Meets (Blames B) (fun s => s.length = spec.aggregates.length)
      (nextState spec.isPartial aggs existing r) := by
  unfold nextState
  cases hmode : spec.isPartial with
  | true =>
      simp only [if_true]
      refine (meets_mapM (fun p hp =>
        AggregateFunction.update_safe hr (hagg hmode p.1 (List.of_mem_zip hp).1) p.2)).imp
        (fun _ h => h) (fun s hs => ?_)
      rw [← hs.length_eq, List.length_zip, haggs]
      cases existing with
      | none => simp [haggs]
      | some state => simp [hex state rfl]
  | false =>
      have hcolumns := hread.2
      rw [hmode, if_neg (by simp)] at hcolumns
      simp only [Bool.false_eq_true, if_false]
      refine (meets_mapM (fun i hi => stateOf_safe hr hcolumns
        (haggs ▸ List.mem_range.mp hi))).bind (fun incoming hincoming => ?_)
      have hlen : incoming.length = spec.aggregates.length := by
        rw [← hincoming.length_eq, List.length_range, haggs]
      cases existing with
      | none => exact hlen
      | some state => exact mergeStates_meets haggs (hex state rfl) hlen

/-- A table found under a key is one of its groups. -/
lemma existing_shaped {groups : GroupTable F} (h : GroupsShaped spec groups.items)
    (key : List (Value F)) : ∀ s ∈ groups.get? key, s.length = spec.aggregates.length := by
  intro s hs
  obtain ⟨p, hp, rfl⟩ := Option.map_eq_some_iff.mp hs
  exact (h p (List.mem_of_find?_eq_some hp)).2

lemma GroupsShaped.set {groups : GroupTable F} (h : GroupsShaped spec groups.items)
    {key state : List (Value F)} (hkey : key.length = spec.groupBy.length)
    (hstate : state.length = spec.aggregates.length) :
    GroupsShaped spec (groups.set key state).items :=
  OrderedDict.setItems_forall (P := fun k : List (Value F) => k.length = spec.groupBy.length)
    (Q := fun s : List (Value F) => s.length = spec.aggregates.length) h hkey hstate

lemma spilledPaths_shaped {groups : GroupTable F} (h : GroupsShaped spec groups.items)
    {paths : List (List (SpillItems F))} (hpaths : ∀ files ∈ paths, GroupsShaped spec files.flatten) :
    ∀ files ∈ spilledPaths groups paths, GroupsShaped spec files.flatten := by
  intro files hfiles
  obtain ⟨bucket, hb, rfl⟩ := List.mem_mapIdx.mp hfiles
  have hold := hpaths paths[bucket] (List.getElem_mem hb)
  simp only
  split
  · exact hold
  · intro p hp
    rw [List.flatten_append, List.mem_append] at hp
    cases hp with
    | inl hp => exact hold p hp
    | inr hp =>
        simp only [List.flatten_cons, List.flatten_nil, List.append_nil] at hp
        exact h p (List.mem_of_mem_filter hp)

lemma HashPartitioner.partitionFor_safe (p : HashPartitioner) (key : List (Value F)) :
    Safe B (p.partitionFor key) := by
  rw [p.partitionFor_eq]
  split <;> simp [Blames, digitLimitError]

lemma bucketNumbers_safe (groups : GroupTable F) : Safe B (bucketNumbers groups) :=
  (meets_mapM (fun p (_ : p ∈ groups.items) =>
    HashPartitioner.partitionFor_safe (B := B) spillPartitioner p.1)).any

theorem accumulate_meets [PyHost F] (hread : spec.ReadsInput names)
    (haggs : aggs.length = spec.aggregates.length)
    (hagg : spec.isPartial = true → ∀ agg ∈ aggs, agg.ReadsNames names) {r : Record F}
    (hr : HasKeys names r) {acc : Accumulation F} (hacc : acc.Shaped spec) :
    Meets (Blames B) (Accumulation.Shaped spec) (accumulate spec aggs acc r) := by
  refine (tupleKey_meets hr hread.1).bind (fun key hkey => ?_)
  refine (nextState_meets hread haggs hagg hr (existing_shaped hacc.groups key)).bind
    (fun state hstate => ?_)
  have hset := GroupsShaped.set hacc.groups hkey hstate
  dsimp only
  split
  · rw [spillGroups, bind_assoc]
    exact (bucketNumbers_safe _).bind
      (fun _ _ => ⟨by simp, spilledPaths_shaped hset hacc.spilled⟩)
  · exact ⟨hset, hacc.spilled⟩

/-- The row of a group has the columns of its schema. -/
theorem groupRow_meets (hnd : spec.outputNames.Nodup) (haggs : aggs.length = spec.aggregates.length)
    {key state : List (Value F)} (hkey : key.length = spec.groupBy.length)
    (hstate : state.length = spec.aggregates.length) :
    Meets (Blames B) (HasKeys spec.outputNames) (groupRow spec aggs key state) := by
  have hgroup : (spec.groupBy.map Expression.columnName).Nodup :=
    (List.nodup_append.mp hnd).1
  have hfst : ((spec.groupBy.map Expression.columnName).zip key).map Prod.fst =
      spec.groupBy.map Expression.columnName := List.map_fst_zip (by simp [hkey])
  have hkeys : (OrderedDict.ofList ((spec.groupBy.map Expression.columnName).zip key)).keys =
      spec.groupBy.map Expression.columnName := by
    rw [OrderedDict.keys_ofList (by rwa [hfst]), hfst]
  unfold groupRow
  cases hmode : spec.isPartial with
  | true =>
      have hpairs : state.zipIdx.foldl (fun r p => OrderedDict.set r (stateColumn p.2) p.1)
          (OrderedDict.ofList ((spec.groupBy.map Expression.columnName).zip key)) =
          (state.zipIdx.map (fun p => (stateColumn p.2, p.1))).foldl
            (fun r p => OrderedDict.set r p.1 p.2)
            (OrderedDict.ofList ((spec.groupBy.map Expression.columnName).zip key)) := by
        rw [List.foldl_map]
      have hcolumns : (state.zipIdx.map (fun p => (stateColumn p.2, p.1))).map Prod.fst =
          stateColumns spec.aggregates.length := by
        rw [List.map_map, stateColumns, ← hstate, List.range_eq_range', ← List.zipIdx_map_snd 0 state,
          List.map_map]
        rfl
      simp only [if_true, ExceptList.pure_eq_ok, meets_ok]
      rw [hpairs, hasKeys_iff_keys]
      intro n
      rw [OrderedDict.mem_keys_foldl_set, hcolumns, hkeys, HashAggregate.outputNames, hmode,
        if_pos rfl, List.mem_append]
  | false =>
      simp only [Bool.false_eq_true, if_false]
      refine (meets_mapM (fun p _ => AggregateName.finalize_safe p.1.name p.2)).bind
        (fun values hvalues => ?_)
      have hlen : values.length = spec.aggregates.length := by
        rw [← hvalues.length_eq, List.length_zip]
        omega
      have hcolumns : ((spec.aggregates.map Expression.columnName).zip values).map Prod.fst =
          spec.aggregates.map Expression.columnName := List.map_fst_zip (by simp [hlen])
      simp only [ExceptList.pure_eq_ok, meets_ok]
      rw [hasKeys_iff_keys]
      intro n
      rw [OrderedDict.mem_keys_foldl_set, hcolumns, hkeys, HashAggregate.outputNames, hmode,
        if_neg (by simp), List.mem_append]

theorem bucketRows_meets (hnd : spec.outputNames.Nodup)
    (haggs : aggs.length = spec.aggregates.length) {remainder : GroupTable F}
    (hrem : GroupsShaped spec remainder.items) (bucket : ℕ) {files : List (SpillItems F)}
    (hfiles : GroupsShaped spec files.flatten) :
    Meets (Blames B) (AllHaveKeys spec.outputNames) (bucketRows spec aggs remainder bucket files) := by
  have hstart : GroupsShaped spec (OrderedDict.ofList (bucketItems remainder bucket)).items := by
    have hsub : (bucketItems remainder bucket).Sublist remainder.items := List.filter_sublist
    have hnodup := remainder.distinct.sublist (hsub.map Prod.fst)
    rw [OrderedDict.items_ofList _ hnodup]
    exact fun p hp => hrem p (hsub.subset hp)
  have hmerge : ∀ item ∈ files.flatten, ∀ merged : GroupTable F,
      GroupsShaped spec merged.items → Meets (Blames B)
        (fun merged : GroupTable F => GroupsShaped spec merged.items)
        (mergeSpilled aggs merged item) := by
    intro item hitem merged hmerged
    have hshape := hfiles item hitem
    unfold mergeSpilled
    split
    · exact GroupsShaped.set hmerged hshape.1 hshape.2
    · next existing hget =>
        have hex := existing_shaped hmerged item.1 existing hget
        refine (mergeStates_meets haggs hex hshape.2).bind (fun state hstate => ?_)
        exact GroupsShaped.set hmerged hshape.1 hstate
  refine (meets_foldlM (I := fun merged : GroupTable F => GroupsShaped spec merged.items) hstart
    hmerge).bind (fun merged hmerged => ?_)
  exact meets_mapM_all (fun p hp => groupRow_meets hnd haggs (hmerged p hp).1 (hmerged p hp).2)

theorem accumulatedRows_meets (hnd : spec.outputNames.Nodup)
    (haggs : aggs.length = spec.aggregates.length) {acc : Accumulation F} (hacc : acc.Shaped spec) :
    Meets (Blames B) (AllHaveKeys spec.outputNames) (accumulatedRows spec aggs acc) := by
  unfold accumulatedRows
  split
  · refine (bucketNumbers_safe acc.groups).bind (fun _ _ => ?_)
    refine (meets_mapM_all (R := AllHaveKeys spec.outputNames) (fun p hp => ?_)).bind
      (fun parts hparts => ?_)
    · have hmem : p.1 ∈ acc.spillPaths := by
        rw [← List.zipIdx_map_fst 0 acc.spillPaths]
        exact List.mem_map_of_mem hp
      exact bucketRows_meets hnd haggs hacc.groups p.2 (hacc.spilled p.1 hmem)
    · intro r hr
      obtain ⟨part, hpart, hr⟩ := List.mem_flatten.mp hr
      exact hparts part hpart r hr
  · exact meets_mapM_all (fun p hp => groupRow_meets hnd haggs (hacc.groups p hp).1 (hacc.groups p hp).2)

end HashAggregates

section Sorts

variable {names : List String} {keys : List (Expression F × Bool)}

omit [PyRuntime F] in
theorem checkComparable_safe {κ : Type} {lt : κ → κ → Py Bool} (h : ∀ a b, Safe B (lt a b))
    (ks : List κ) : Safe B (checkComparable lt ks) :=
  (meets_mapM (fun a _ => (meets_mapM (fun b _ => h a b)).any)).bind (fun _ _ => trivial)

omit [PyRuntime F] in
theorem pySort_meets {κ α : Type} {lt : κ → κ → Py Bool} (h : ∀ a b, Safe B (lt a b))
    (reverse : Bool) {P : α → Prop} {items : List (κ × α)} (hitems : ∀ p ∈ items, P p.2) :
    Meets (Blames B) (fun out => ∀ a ∈ out, P a) (pySort lt reverse items) := by
  refine (checkComparable_safe h _).bind (fun _ _ a ha => ?_)
  obtain ⟨p, hp, rfl⟩ := List.mem_map.mp ha
  exact hitems p (List.mem_mergeSort.mp hp)

omit [PyRuntime F] in
theorem heapqMerge_meets {κ α : Type} {lt : κ → κ → Py Bool} (h : ∀ a b, Safe B (lt a b))
    {P : α → Prop} {runs : List (List (κ × α))} (hruns : ∀ run ∈ runs, ∀ p ∈ run, P p.2) :
    Meets (Blames B) (fun out => ∀ a ∈ out, P a) (heapqMerge lt runs) := by
  refine (checkComparable_safe h _).bind (fun _ _ a ha => ?_)
  obtain ⟨p, hp, rfl⟩ := List.mem_map.mp ha
  have hmem : p ∈ runs.flatten := StableSort.mergeAll_perm runs |>.mem_iff.mp hp
  obtain ⟨run, hrun, hp⟩ := List.mem_flatten.mp hmem
  exact hruns run hrun p hp

theorem sentinelLt_safe (a b : Bool × Value F) : Safe B (sentinelLt a b) := by
  unfold sentinelLt
  split
  · split
    · trivial
    · exact Value.lt_safe _ _
  · trivial

theorem compositeLt_safe (a b : List (SortPart F) × ℕ) : Safe B (compositeLt a b) := by
  fun_induction compositeLt a b with
  | case1 a as i b bs j hnull hvalue ih => exact ih
  | case2 a as i b bs j hnull hvalue hasc => exact Value.lt_safe _ _
  | case3 a as i b bs j hnull hvalue hasc => exact Value.lt_safe _ _
  | case4 a as i b bs j hnull => trivial
  | case5 => trivial

/-- Every buffered row has exactly these columns. -/
abbrev AllArrive (names : List String) (rows : List (Arrival F)) : Prop :=
  ∀ p ∈ rows, HasKeys names p.2

theorem sortRows_meets {rows : List (Arrival F)} (hrows : AllArrive names rows)
    (hk : ∀ k ∈ keys, ReadsFromNames names k.1) :
    Meets (Blames B) (AllArrive names) (sortRows rows keys) := by
  refine meets_foldlM hrows (fun k hmem rows hrows => ?_)
  refine (meets_mapM_all (R := fun p : (Bool × Value F) × Arrival F => HasKeys names p.2.2)
    (fun p hp => ?_)).bind (fun keyed hkeyed => pySort_meets sentinelLt_safe _ hkeyed)
  refine Meets.bind (Q := fun _ => True) ?_ (fun _ _ => hrows p hp)
  exact (k.1.evaluate_safe (hrows p hp) (hk k (List.mem_reverse.mp hmem))).bind (fun _ _ => trivial)

theorem mergeRuns_meets {runs : List (List (Arrival F))} (hruns : ∀ run ∈ runs, AllArrive names run)
    (hk : ∀ k ∈ keys, ReadsFromNames names k.1) :
    Meets (Blames B) (AllHaveKeys names) (mergeRuns keys runs) := by
  refine (meets_mapM_all (R := fun run : List ((List (SortPart F) × ℕ) × Arrival F) =>
    ∀ p ∈ run, HasKeys names p.2.2) (fun run hrun => ?_)).bind (fun keyed hkeyed => ?_)
  · refine meets_mapM_all (fun p hp => ?_)
    refine Meets.bind (Q := fun _ => True) ?_ (fun _ _ => hruns run hrun p hp)
    refine (meets_mapM (S := fun _ _ => True) (fun k hmem => ?_)).bind (fun _ _ => trivial)
    exact (k.1.evaluate_safe (hruns run hrun p hp) (hk k hmem)).bind (fun _ _ => trivial)
  · refine (heapqMerge_meets (P := fun p : Arrival F => HasKeys names p.2) compositeLt_safe
      hkeyed).bind (fun merged hmerged r hr => ?_)
    obtain ⟨p, hp, rfl⟩ := List.mem_map.mp hr
    exact hmerged p hp

/-- The rows in the buffer and in the spilled runs are rows of the input. -/
theorem sortedRuns_meets [PyHost F] {spec : Sorting F} {rows : List (Record F)}
    (hrows : AllHaveKeys names rows) (hk : ∀ k ∈ spec.keys, ReadsFromNames names k.1) :
    Meets (Blames B) (fun runs => AllArrive names runs.finalRun ∧
      ∀ run ∈ runs.spilled, AllArrive names run) (sortedRuns spec rows) := by
  have hstep : ∀ r ∈ rows, ∀ st : SortBuffer F,
      (AllArrive names st.buffer ∧ ∀ run ∈ st.runs, AllArrive names run) →
      Meets (Blames B) (fun st : SortBuffer F =>
        AllArrive names st.buffer ∧ ∀ run ∈ st.runs, AllArrive names run) (bufferRow spec st r) := by
    rintro r hr st ⟨hbuffer, hruns⟩
    have hbuffer' : AllArrive names (st.buffer ++ [(st.next, r)]) := by
      intro p hp
      obtain hp | hp := List.mem_append.mp hp
      · exact hbuffer p hp
      · rw [List.mem_singleton.mp hp]
        exact hrows r hr
    unfold bufferRow
    dsimp only
    split
    · refine (sortRows_meets hbuffer' hk).bind (fun run hrun => ⟨by simp, fun run' hrun' => ?_⟩)
      obtain hrun' | hrun' := List.mem_append.mp hrun'
      · exact hruns run' hrun'
      · rw [List.mem_singleton.mp hrun']
        exact hrun
    · exact ⟨hbuffer', hruns⟩
  refine (meets_foldlM ⟨by simp, by simp⟩ hstep).bind (fun st hst => ?_)
  exact (sortRows_meets hst.1 hk).bind (fun finalRun hfinal => ⟨hfinal, hst.2⟩)

end Sorts

section Partitions

/-- Every pass over the partition yields rows with exactly these columns, and raises no missing
column. -/
def Partition.Conforms (B : String → Prop) (names : List String) (p : Partition F) : Prop :=
  ∀ k, Meets (Blames B) (AllHaveKeys names) (p.pass k)

variable {names : List String} {parent : Partition F}

theorem filterPartition_conforms {condition : Expression F} (h : parent.Conforms B names)
    (hc : ReadsFromNames names condition) :
    (filterPartition condition parent).Conforms B names :=
  fun k => (h k).bind (fun _ hrows => filterRows_meets hrows hc)

theorem projectPartition_conforms {columns : List (Expression F)} {schema : Schema}
    (h : parent.Conforms B names) (hc : ∀ e ∈ columns, ReadsFromNames names e)
    (hschema : schema.fieldNames = columns.map Expression.columnName) :
    (projectPartition columns schema parent).Conforms B schema.fieldNames :=
  fun k => (h k).bind (fun _ hrows => projectRows_meets hrows hc hschema)

variable [PyHost F]

theorem hashAggregatePartition_conforms {spec : HashAggregate F} (pid : ℕ)
    (h : parent.Conforms B names) (hread : spec.ReadsInput names)
    (hschema : spec.schema.fieldNames = spec.outputNames) :
    Meets (Blames B) (Partition.Conforms B spec.schema.fieldNames)
      (hashAggregatePartition spec pid parent) := by
  refine (unwrapAggregates_meets hread).bind (fun aggs haggs => ?_)
  refine (h 0).bind (fun rows hrows => ?_)
  have hstart : (Accumulation.start F).Shaped spec := by
    refine ⟨by simp [Accumulation.start], fun files hfiles => ?_⟩
    rw [(List.mem_replicate.mp hfiles).2]
    simp
  refine (meets_foldlM hstart (fun r hr acc hacc =>
    accumulate_meets hread haggs.1 haggs.2 (hrows r hr) hacc)).bind (fun acc hacc k => ?_)
  dsimp only
  split
  · simp [Blames]
  · rw [hschema]
    exact accumulatedRows_meets (hschema ▸ spec.schema.fieldNames_nodup) haggs.1 hacc

omit [PyHost F] in
theorem hashJoinPartition_conforms {leftNames rightNames on : List String}
    {leftKeys rightKeys : List (Expression F)} {schema : Schema} (pid : ℕ)
    {left right : Partition F} (hl : left.Conforms B leftNames) (hr : right.Conforms B rightNames)
    (hlk : ∀ e ∈ leftKeys, ReadsFromNames leftNames e)
    (hrk : ∀ e ∈ rightKeys, ReadsFromNames rightNames e)
    (hschema : schema.fieldNames = leftNames ++ rightNames.filter (fun n => n ∉ on)) :
    Meets (Blames B) (Partition.Conforms B schema.fieldNames)
      (hashJoinPartition leftKeys rightKeys on schema pid left right) := by
  refine (hl 0).bind (fun leftRows hlrows => ?_)
  refine (buildTable_meets hlrows hlk).bind (fun table htable => ?_)
  refine (hr 0).bind (fun rightRows hrrows k => ?_)
  rw [hschema]
  exact probeTable_meets htable hrrows hrk

theorem sortPartition_conforms {spec : Sorting F} (pid : ℕ) (h : parent.Conforms B names)
    (hk : ∀ k ∈ spec.keys, ReadsFromNames names k.1) (hschema : spec.schema.fieldNames = names) :
    Meets (Blames B) (Partition.Conforms B spec.schema.fieldNames)
      (sortPartition spec pid parent) := by
  refine (h 0).bind (fun rows hrows => ?_)
  refine (sortedRuns_meets hrows hk).bind (fun runs hruns k => ?_)
  rw [hschema]
  dsimp only
  split
  · unfold SortedRuns.rows
    split
    · intro r hr
      obtain ⟨p, hp, rfl⟩ := List.mem_map.mp hr
      exact hruns.1 p hp
    · exact mergeRuns_meets (List.forall_mem_cons.mpr hruns) hk
  · split
    · exact List.forall_mem_nil _
    · simp [Blames]

omit [PyHost F] in
theorem bisectRightLoop_safe (a : List (Value F)) (x : Value F) (fuel lo hi : ℕ) :
    Safe B (bisectRightLoop a x fuel lo hi) := by
  induction fuel generalizing lo hi with
  | zero => trivial
  | succ fuel ih =>
      rw [bisectRightLoop]
      split
      · dsimp only
        split
        · simp [Blames]
        · refine (Value.lt_safe x _).bind (fun less _ => ?_)
          split
          · exact ih lo _
          · exact ih _ hi
      · trivial

omit [PyHost F] in
/-- The partitioner of an exchange accepts every row that has its key columns. -/
theorem shuffleTarget_meets (n : ℕ) {exprs : List (Expression F)}
    (rangeBoundaries : Option (List (Value F))) (he : ∀ e ∈ exprs, ReadsFromNames names e) :
    Meets (Blames B) (fun target => ∀ r, HasKeys names r → Safe B (target r))
      (shuffleTarget n exprs rangeBoundaries) := by
  unfold shuffleTarget
  cases rangeBoundaries with
  | none =>
      have hmake : Safe B (HashPartitioner.make n) := by
        unfold HashPartitioner.make
        split <;> simp [Blames]
      refine hmake.bind (fun p _ r hr => ?_)
      exact (tupleKey_meets hr he).bind (fun key _ => HashPartitioner.partitionFor_safe p key)
  | some boundaries =>
      have hmake : Safe B (RangePartitioner.make n boundaries) := by
        unfold RangePartitioner.make
        split
        · split <;> simp [Blames]
        · simp [Blames]
      match exprs, he with
      | [], _ => simp [singleExpr, Blames]
      | [e], he =>
          refine hmake.bind (fun p _ r hr => ?_)
          exact (e.evaluate_safe hr (he e (List.mem_singleton_self e))).bind
            (fun v _ => bisectRightLoop_safe _ _ _ _ _)
      | _ :: _ :: _, _ => simp [singleExpr, Blames]

omit [PyHost F] in
theorem exchangeRows_meets (n : ℕ) {exprs : List (Expression F)}
    (rangeBoundaries : Option (List (Value F))) (h : parent.Conforms B names)
    (he : ∀ e ∈ exprs, ReadsFromNames names e) :
    Meets (Blames B) (fun tagged => ∀ p ∈ tagged, HasKeys names p.2)
      (exchangeRows n exprs rangeBoundaries parent) := by
  refine (h 0).bind (fun rows hrows => ?_)
  refine (shuffleTarget_meets n rangeBoundaries he).bind (fun target htarget => ?_)
  refine meets_mapM_all (fun r hr => ?_)
  exact (htarget r (hrows r hr)).bind (fun t _ => hrows r hr)

end Partitions

end MiniSpark
