import MiniSpark.Parquet
import MiniSpark.RuleRefinement

/-!
# Declared types

The schema of a plan is derived without running it. A column keeps its type, an aggregate has one
of its own, and anything computed is called a string. Where nothing is computed, and no bools are
summed, the rows of a plan hold values of the types its schema declares.
-/
namespace MiniSpark

variable {F : Type} [PyRuntime F]

section Declarations

omit [PyRuntime F] in
/-- Whatever the row has under a field is of the type of the field. -/
def HoldsTypes (schema : Schema) (r : Record F) : Prop :=
  ∀ f ∈ schema.fields, ∀ v, r.get? f.name = some v → f.dataType.Admits v

omit [PyRuntime F] in
/-- An aggregate whose declared type is right: a sum or an extremum of a column, and no sum of
bools. -/
def Expression.DeclaresAggregate (childSchema : Schema) (e : Expression F) : Prop :=
  match e.unalias with
  | .aggregate .sum child => child.isColumn = true ∧ inferChildType child childSchema ≠ .bool
  | .aggregate .min child => child.isColumn = true
  | .aggregate .max child => child.isColumn = true
  | _ => True

namespace LogicalPlan

/-- Nothing computed becomes a column, except by aggregates whose types are right. -/
def Declares : LogicalPlan F → Prop
  | .scan _ _ _ => True
  | .filter child _ => child.Declares
  | .project child columns => child.Declares ∧ ∀ e ∈ columns, ∃ n, e.unalias = .column n
  | .aggregate child _ aggregates =>
      child.Declares ∧ ∀ s, child.schema = .ok s → ∀ e ∈ aggregates, e.DeclaresAggregate s
  | .join left right _ _ _ => left.Declares ∧ right.Declares
  | .sort child _ => child.Declares

/-- Every table holds values of the types its schema declares. -/
def TablesTyped (plan : LogicalPlan F) : Prop :=
  ∀ d ∈ plan.tables, ∀ rows, d.iterRecords = .ok rows → ∀ r ∈ rows, HoldsTypes d.schema r

omit [PyRuntime F] in
lemma TablesTyped.mono {plan plan' : LogicalPlan F} (h : plan.TablesTyped)
    (hsub : plan'.tables ⊆ plan.tables) : plan'.TablesTyped :=
  fun d hd => h d (hsub hd)

end LogicalPlan

end Declarations

section Columns

variable {schema : Schema} {r : Record F} {v : Value F}

/-- A column has a value of the type declared for it. -/
lemma HoldsTypes.column (h : HoldsTypes schema r) {e : Expression F} {n : String}
    (he : e.unalias = .column n) (hn : n ∈ schema.fieldNames) (hv : e.evaluate r = .ok v) :
    (columnField e schema).dataType.Admits v := by
  obtain ⟨f, hf, rfl⟩ := List.mem_map.mp hn
  rw [← evaluate_unalias, he, Expression.evaluate_column, Expression.lookupColumn_eq_ok] at hv
  simp only [columnField, he, Schema.getField?_of_mem hf]
  exact h f hf v hv

lemma HoldsTypes.child (h : HoldsTypes schema r) {e : Expression F} (he : e.isColumn = true)
    (hsub : ∀ n ∈ e.referencedColumns, n ∈ schema.fieldNames) (hv : e.evaluate r = .ok v) :
    (inferChildType e schema).Admits v := by
  obtain ⟨n, rfl⟩ : ∃ n, e = .column n := by
    cases e with
    | column n => exact ⟨n, rfl⟩
    | _ => cases he
  have hcolumn := h.column (e := .column n) rfl (hsub n List.mem_cons_self) hv
  obtain ⟨f, hf, hname⟩ := List.mem_map.mp (hsub n List.mem_cons_self)
  simp only [columnField, Expression.unalias, inferChildType, ← hname, Schema.getField?_of_mem hf,
    Option.map_some, Option.getD_some] at hcolumn ⊢
  exact hcolumn

/-- A record of values under the output names of expressions. -/
lemma exists_named {T : Expression F → Value F → Prop} {es : List (Expression F)}
    {values : List (Value F)} (h : List.Forall₂ T es values) {e : Expression F} (he : e ∈ es) :
    ∃ v, (e.columnName, v) ∈ (es.map Expression.columnName).zip values ∧ T e v := by
  induction h with
  | nil => cases he
  | @cons e' v' es values hT _ ih =>
      rcases List.mem_cons.mp he with rfl | he
      · exact ⟨v', List.mem_cons_self, hT⟩
      · obtain ⟨v, hv, hT⟩ := ih he
        exact ⟨v, List.mem_cons_of_mem _ hv, hT⟩

end Columns

section Aggregates

/-- What a state of the aggregate over values of this type is. -/
def AggregateName.StateTyped (t : DataType) : AggregateName → Value F → Prop
  | .count, state => ∃ n, state = .int n
  | .avg, _ => True
  | _, state => t.Admits state

/-- The type that the planner infers for the child of an aggregate. -/
def AggregateFunction.childType (agg : AggregateFunction F) (schema : Schema) : DataType :=
  match agg.child with
  | none => .string
  | some e => inferChildType e schema

omit [PyRuntime F] in
lemma admits_none (t : DataType) : t.Admits (.none : Value F) := by
  cases t <;> trivial

omit [PyRuntime F] in
lemma AggregateName.initialState_typed (name : AggregateName) (t : DataType) :
    name.StateTyped t (name.initialState : Value F) := by
  cases name with
  | count => exact ⟨0, rfl⟩
  | avg => trivial
  | sum | min | max =>
      have hnone : t.Admits (.none : Value F) := admits_none t
      exact hnone

/-- Division yields a float. -/
lemma truediv_float {a b v : Value F} (h : a.truediv b = .ok v) : ∃ x, v = .float x := by
  have hnum : ∀ x y : Num F, x.truediv y = .ok v → ∃ x, v = .float x := by
    intro x y h
    unfold Num.truediv at h
    split at h
    · split at h
      · cases h
      · cases hdiv : PyRuntime.intDiv (F := F) _ _ with
        | none =>
            rw [hdiv] at h
            cases h
        | some z =>
            rw [hdiv] at h
            cases h
            exact ⟨z, rfl⟩
    · obtain ⟨p, -, h⟩ := ExceptList.bind_eq_ok.mp h
      obtain ⟨q, -, h⟩ := ExceptList.bind_eq_ok.mp h
      split at h
      · cases h
      · cases h
        exact ⟨_, rfl⟩
  unfold Value.truediv Value.onNumbers at h
  split at h
  · exact hnum _ _ h
  · cases h

/-- The final value has the type declared for the aggregate. -/
lemma AggregateName.finalize_typed {name : AggregateName} {t : DataType} {state v : Value F}
    (h : name.StateTyped t state) (hv : name.finalize state = .ok v) :
    (name.resultType t).Admits v := by
  cases name with
  | count =>
      obtain ⟨n, rfl⟩ := h
      cases hv
      trivial
  | sum | min | max =>
      cases hv
      exact h
  | avg =>
      simp only [AggregateName.finalize, AggregateName.finalizeAvg] at hv
      split at hv
      · split at hv
        · obtain ⟨x, rfl⟩ := truediv_float hv
          trivial
        · cases hv
          trivial
      · cases hv

/-- Adding two values of one type other than bool stays within the type. -/
lemma add_typed {t : DataType} (ht : t ≠ .bool) {a b v : Value F} (ha : t.Admits a)
    (hb : t.Admits b) (hna : a.isNone = false) (hnb : b.isNone = false) (h : a.add b = .ok v) :
    t.Admits v := by
  cases t with
  | bool => exact absurd rfl ht
  | int | float | string | null =>
      cases a <;> cases b <;> first
        | cases ha; done
        | cases hb; done
        | cases hna; done
        | cases hnb; done
        | cases h
          trivial

omit [PyRuntime F] in
/-- The extremum is one of the two values. -/
lemma updateExtremum_typed {t : DataType} {better : Value F → Value F → Py Bool}
    {state value v : Value F} (hs : t.Admits state) (hv : t.Admits value)
    (h : AggregateName.updateExtremum better state value = .ok v) : t.Admits v := by
  unfold AggregateName.updateExtremum at h
  split at h
  · cases h
    exact hv
  · obtain ⟨b, -, h⟩ := ExceptList.bind_eq_ok.mp h
    cases h
    cases b with
    | true => exact hv
    | false => exact hs

/-- An aggregate of this row has a value of its type, as far as its state depends on it. -/
def AggregateFunction.Declares (agg : AggregateFunction F) (schema : Schema) : Prop :=
  match agg.name with
  | .count => True
  | .avg => True
  | .sum => (∃ e, agg.child = some e ∧ e.isColumn = true) ∧ agg.childType schema ≠ .bool
  | .min => ∃ e, agg.child = some e ∧ e.isColumn = true
  | .max => ∃ e, agg.child = some e ∧ e.isColumn = true

/-- Folding a row into a state keeps its type. -/
theorem AggregateFunction.update_typed {agg : AggregateFunction F} {schema : Schema}
    (hd : agg.Declares schema)
    (hsub : ∀ e ∈ agg.child, ∀ n ∈ e.referencedColumns, n ∈ schema.fieldNames) {r : Record F}
    (hr : HoldsTypes schema r) {state v : Value F}
    (hs : agg.name.StateTyped (agg.childType schema) state) (h : agg.update state r = .ok v) :
    agg.name.StateTyped (agg.childType schema) v := by
  obtain ⟨name, child⟩ := agg
  cases name with
  | avg => trivial
  | count =>
      obtain ⟨n, rfl⟩ := hs
      cases child with
      | none =>
          cases h
          exact ⟨n + 1, rfl⟩
      | some e =>
          obtain ⟨value, -, h⟩ := ExceptList.bind_eq_ok.mp h
          cases h
          exact ⟨_, rfl⟩
  | sum =>
      obtain ⟨⟨e, he, hcolumn⟩, hbool⟩ := hd
      obtain rfl : child = some e := he
      obtain ⟨value, hvalue, h⟩ := ExceptList.bind_eq_ok.mp h
      have htyped := hr.child hcolumn (hsub e rfl) hvalue
      cases hnone : value.isNone with
      | true =>
          rw [hnone] at h
          cases h
          exact hs
      | false =>
          rw [hnone] at h
          simp only [Bool.false_eq_true, if_false, AggregateName.updateValue,
            AggregateName.updateSum] at h
          split at h
          · cases h
            exact htyped
          · next hstate => exact add_typed hbool hs htyped (by simpa using hstate) hnone h
  | min | max =>
      obtain ⟨e, he, hcolumn⟩ := hd
      obtain rfl : child = some e := he
      obtain ⟨value, hvalue, h⟩ := ExceptList.bind_eq_ok.mp h
      have htyped := hr.child hcolumn (hsub e rfl) hvalue
      split at h
      · cases h
        exact hs
      · simp only [AggregateName.updateValue] at h
        exact updateExtremum_typed hs htyped h

end Aggregates

section Groups

variable {schema : Schema} {aggs : List (AggregateFunction F)}

omit [PyRuntime F] in
lemma unwrapAggregate_declares {a : Expression F} {agg : AggregateFunction F}
    (h : unwrapAggregate a = .ok agg) (hd : a.DeclaresAggregate schema) : agg.Declares schema := by
  unfold unwrapAggregate at h
  unfold Expression.DeclaresAggregate at hd
  split at h
  · cases h
    trivial
  · next name child hchild =>
      cases h
      rw [hchild] at hd
      cases name with
      | count | avg => trivial
      | sum => exact ⟨⟨child, rfl, hd.1⟩, hd.2⟩
      | min | max => exact ⟨child, rfl, hd⟩
  · cases h

lemma unwrapAggregate_field {a : Expression F} {agg : AggregateFunction F} {f : Field}
    (h : unwrapAggregate a = .ok agg) (hf : aggregateOutputField a schema = .ok f) :
    f.dataType = agg.name.resultType (agg.childType schema) := by
  unfold unwrapAggregate at h
  obtain ⟨fieldName, -, hf⟩ := ExceptList.bind_eq_ok.mp hf
  split at h
  · next hstar =>
      rw [hstar] at hf
      cases h
      cases hf
      rfl
  · next name child hchild =>
      rw [hchild] at hf
      cases h
      cases hf
      rfl
  · cases h

omit [PyRuntime F] in
lemma unwrapAggregate_columns {a : Expression F} {agg : AggregateFunction F}
    (h : unwrapAggregate a = .ok agg) :
    ∀ e ∈ agg.child, e.referencedColumns ⊆ a.referencedColumns := by
  rw [← Expression.referencedColumns_unalias a]
  unfold unwrapAggregate at h
  split at h
  · cases h
    simp
  · next name child hchild =>
      cases h
      rintro e ⟨⟩
      rw [hchild]
      exact List.Subset.refl _
  · cases h

/-- The states of a group are of the types of their aggregates. -/
def StatesTyped (schema : Schema) (aggs : List (AggregateFunction F)) (states : List (Value F)) :
    Prop :=
  List.Forall₂ (fun agg state => agg.name.StateTyped (agg.childType schema) state) aggs states

/-- Folding a row into the states of its group keeps their types. -/
theorem nextState_typed
    (hd : ∀ agg ∈ aggs, agg.Declares schema ∧
      ∀ e ∈ agg.child, ∀ n ∈ e.referencedColumns, n ∈ schema.fieldNames)
    {r : Record F} (hr : HoldsTypes schema r) {existing : Option (List (Value F))}
    (hs : ∀ states, existing = some states → StatesTyped schema aggs states)
    {states : List (Value F)} (h : nextState true aggs existing r = .ok states) :
    StatesTyped schema aggs states := by
  have hbefore : StatesTyped schema aggs
      (existing.getD (aggs.map (fun a => a.name.initialState))) := by
    cases existing with
    | none =>
        have hinitial : List.Forall₂ (fun (agg : AggregateFunction F) (state : Value F) =>
            agg.name.StateTyped (agg.childType schema) state)
            aggs (aggs.map (fun a => a.name.initialState)) := by
          rw [List.forall₂_map_right_iff, List.forall₂_same]
          exact fun agg _ => agg.name.initialState_typed _
        exact hinitial
    | some states => exact hs states rfl
  have hrel : List.Forall₂ (fun p v => p.1.update p.2 r = .ok v)
      (aggs.zip (existing.getD (aggs.map (fun a => a.name.initialState)))) states :=
    ExceptList.mapM_eq_ok.mp h
  generalize existing.getD (aggs.map (fun a => a.name.initialState)) = before at hbefore hrel
  clear h hs
  induction hbefore generalizing states with
  | nil =>
      cases hrel
      exact .nil
  | @cons agg state aggs before hstate _ ih =>
      cases hrel with
      | cons hv hrel =>
          obtain ⟨hagg, hrest⟩ := List.forall_mem_cons.mp hd
          exact .cons (agg.update_typed hagg.1 hagg.2 hr hstate hv) (ih hrest hrel)

/-- The key of a row has values of the types of the grouping columns. -/
lemma tupleKey_typed {groupBy : List (Expression F)}
    (hg : ∀ g ∈ groupBy, ∃ n, g.unalias = .column n ∧ n ∈ schema.fieldNames) {r : Record F}
    (hr : HoldsTypes schema r) {key : List (Value F)} (h : tupleKey groupBy r = .ok key) :
    List.Forall₂ (fun g v => (columnField g schema).dataType.Admits v) groupBy key := by
  refine ExceptList.forall₂_imp_of_mem (ExceptList.mapM_eq_ok.mp h) (fun g hmem v _ hv => ?_)
  obtain ⟨n, hn, hknown⟩ := hg g hmem
  exact hr.column hn hknown hv

/-- A finished group whose key and states are typed makes a typed row. -/
theorem groupRow_typed {groupBy aggregates : List (Expression F)} {s : Schema}
    {fields : List Field} (hnd : ((groupBy ++ aggregates).map Expression.columnName).Nodup)
    (haggs : List.Forall₂ (fun a agg => unwrapAggregate a = .ok agg) aggregates aggs)
    (hfields : List.Forall₂ (fun a f => aggregateOutputField a schema = .ok f) aggregates fields)
    (hs : s.fields = groupBy.map (fun g => columnField g schema) ++ fields)
    {key states : List (Value F)}
    (hkey : List.Forall₂ (fun g v => (columnField g schema).dataType.Admits v) groupBy key)
    (hstates : StatesTyped schema aggs states) {row : Record F}
    (h : groupRow ⟨groupBy, aggregates, s, false, 0⟩ aggs key states = .ok row) :
    HoldsTypes s row := by
  obtain ⟨values, hvalues, hrow⟩ := ExceptList.bind_eq_ok.mp h
  cases hrow
  rw [List.map_append] at hnd
  obtain ⟨hgnd, hand, hdisjoint⟩ := List.nodup_append.mp hnd
  -- the final values, one for each aggregate
  have hfinal : List.Forall₂ (fun a v => ∀ f, aggregateOutputField a schema = .ok f →
      f.dataType.Admits v) aggregates values := by
    have hrel : List.Forall₂ (fun p v => p.1.name.finalize p.2 = .ok v) (aggs.zip states) values :=
      ExceptList.mapM_eq_ok.mp hvalues
    clear hvalues hfields hs h hnd hand hdisjoint
    induction haggs generalizing states values with
    | nil =>
        cases hstates
        cases hrel
        exact .nil
    | @cons a agg aggregates aggs ha _ ih =>
        cases hstates with
        | cons hstate hstates =>
            cases hrel with
            | cons hv hrel =>
                refine .cons (fun f hf => ?_) (ih hstates _ hrel)
                rw [unwrapAggregate_field ha hf]
                exact AggregateName.finalize_typed hstate hv
  have hafst : ((aggregates.map Expression.columnName).zip values).map Prod.fst =
      aggregates.map Expression.columnName := List.map_fst_zip (by simp [hfinal.length_eq])
  have hgfst : ((groupBy.map Expression.columnName).zip key).map Prod.fst =
      groupBy.map Expression.columnName := List.map_fst_zip (by simp [hkey.length_eq])
  intro f hf v hv
  rw [hs] at hf
  rcases List.mem_append.mp hf with hf | hf
  · obtain ⟨g, hg, rfl⟩ := List.mem_map.mp hf
    obtain ⟨w, hw, htyped⟩ := exists_named hkey hg
    rw [columnField_name, OrderedDict.get?_foldl_set_of_notMem,
      OrderedDict.get?_ofList_of_mem (by rwa [hgfst]) hw] at hv
    · cases hv
      exact htyped
    · rw [hafst]
      exact fun hmem => hdisjoint _ (List.mem_map_of_mem hg) _ hmem rfl
  · obtain ⟨a, ha, hf⟩ := Dealing.exists_partner hfields hf
    obtain ⟨w, hw, htyped⟩ := exists_named hfinal ha
    rw [(aggregateOutputField_eq_ok hf).1,
      OrderedDict.get?_foldl_set_of_mem (by rwa [hafst]) _ hw] at hv
    cases hv
    exact htyped f hf

/-- A group-by over typed rows yields rows of the types its own schema declares. -/
theorem aggregateRows_holdsTypes {groupBy aggregates : List (Expression F)} {s : Schema}
    {fields : List Field} (hnd : ((groupBy ++ aggregates).map Expression.columnName).Nodup)
    (hg : ∀ g ∈ groupBy, ∃ n, g.unalias = .column n ∧ n ∈ schema.fieldNames)
    (ha : ∀ a ∈ aggregates, a.DeclaresAggregate schema ∧
      ∀ n ∈ a.referencedColumns, n ∈ schema.fieldNames)
    (hfields : List.Forall₂ (fun a f => aggregateOutputField a schema = .ok f) aggregates fields)
    (hs : s.fields = groupBy.map (fun g => columnField g schema) ++ fields)
    {rows out : List (Record F)} (hrows : ∀ r ∈ rows, HoldsTypes schema r)
    (h : aggregateRows groupBy aggregates s rows = .ok out) : ∀ r ∈ out, HoldsTypes s r := by
  obtain ⟨aggs, haggs, h⟩ := ExceptList.bind_eq_ok.mp h
  obtain ⟨groups, hgroups, h⟩ := ExceptList.bind_eq_ok.mp h
  have hunwrap := ExceptList.mapM_eq_ok.mp haggs
  have hd : ∀ agg ∈ aggs, agg.Declares schema ∧
      ∀ e ∈ agg.child, ∀ n ∈ e.referencedColumns, n ∈ schema.fieldNames := by
    intro agg hagg
    obtain ⟨a, hmem, hagg⟩ := Dealing.exists_partner hunwrap hagg
    exact ⟨unwrapAggregate_declares hagg (ha a hmem).1,
      fun e he n hn => (ha a hmem).2 n (unwrapAggregate_columns hagg e he hn)⟩
  have htyped : ∀ p ∈ groups.items,
      List.Forall₂ (fun g v => (columnField g schema).dataType.Admits v) groupBy p.1 ∧
        StatesTyped schema aggs p.2 := by
    have hfold : rows.foldlM (OrderedDict.foldStep (tupleKey groupBy) (nextState true aggs))
        OrderedDict.empty = .ok groups := hgroups
    refine OrderedDict.foldStep_items hfold (fun r hr k hk => tupleKey_typed hg (hrows r hr) hk)
      (fun r hr existing states hold hnext => nextState_typed hd (hrows r hr) hold hnext)
      (by simp)
  intro row hrow
  obtain ⟨p, hp, hrow⟩ := Dealing.exists_partner (ExceptList.mapM_eq_ok.mp h) hrow
  exact groupRow_typed hnd hunwrap hfields hs (htyped p hp).1 (htyped p hp).2 hrow

end Groups

section Plans

/-- A row under new names, each the value of a column, is typed by the fields of the columns. -/
lemma projectRow_holdsTypes {schema s : Schema} {columns : List (Expression F)}
    (hnd : (columns.map Expression.columnName).Nodup)
    (hc : ∀ e ∈ columns, (∃ n, e.unalias = .column n) ∧
      ∀ n ∈ e.referencedColumns, n ∈ schema.fieldNames)
    (hs : s.fields = columns.map (fun e => columnField e schema)) {r p : Record F}
    (hr : HoldsTypes schema r)
    (h : projectRow (columns.map Expression.columnName) columns r = .ok p) : HoldsTypes s p := by
  obtain ⟨values, hvalues, rfl⟩ := projectRow_eq_ok h
  have htyped : List.Forall₂ (fun e v => (columnField e schema).dataType.Admits v) columns
      values := by
    refine ExceptList.forall₂_imp_of_mem hvalues (fun e he v _ hv => ?_)
    obtain ⟨⟨n, hn⟩, hsub⟩ := hc e he
    refine hr.column hn (hsub n ?_) hv
    rw [← Expression.referencedColumns_unalias, hn]
    exact List.mem_cons_self
  have hfst : ((columns.map Expression.columnName).zip values).map Prod.fst =
      columns.map Expression.columnName := List.map_fst_zip (by simp [htyped.length_eq])
  intro f hf v hv
  rw [hs] at hf
  obtain ⟨e, he, rfl⟩ := List.mem_map.mp hf
  obtain ⟨w, hw, hadmits⟩ := exists_named htyped he
  rw [columnField_name, OrderedDict.get?_ofList_of_mem (by rwa [hfst]) hw] at hv
  cases hv
  exact hadmits

omit [PyRuntime F] in
/-- A merged row is typed by the left schema and the rest of the right one. -/
lemma mergeRow_holdsTypes {ls rs s : Schema} {on : List String}
    (hcol : ∀ n ∈ ls.fieldNames, n ∈ rs.fieldNames → n ∈ on)
    (hs : s.fields = ls.fields ++ rs.fields.filter (fun f => f.name ∉ on)) {l r : Record F}
    (hl : HoldsTypes ls l) (hr : HoldsTypes rs r) (hrk : HasKeys rs.fieldNames r) :
    HoldsTypes s (mergeRow on l r) := by
  intro f hf v hv
  rw [mergeRow_get?] at hv
  rw [hs] at hf
  rcases List.mem_append.mp hf with hf | hf
  · split at hv
    · exact hl f hf v hv
    · next hon =>
        have hmem : f.name ∈ ls.fieldNames := List.mem_map_of_mem hf
        have hnone : r.get? f.name = none := by
          rw [← Option.not_isSome_iff_eq_none, hrk f.name]
          exact fun hright => hon (hcol _ hmem hright)
        rw [hnone, Option.none_or] at hv
        exact hl f hf v hv
  · obtain ⟨hf, hon⟩ := List.mem_filter.mp hf
    rw [if_neg (of_decide_eq_true hon)] at hv
    have hsome : (r.get? f.name).isSome = true := (hrk f.name).mpr (List.mem_map_of_mem hf)
    obtain ⟨w, hw⟩ := Option.isSome_iff_exists.mp hsome
    rw [hw, Option.some_or] at hv
    cases hv
    exact hr f hf _ hw

/-- The fields of a group-by: its columns, then one for each aggregate. -/
lemma LogicalPlan.schema_aggregate {child : LogicalPlan F} {cs s : Schema}
    (hcs : child.schema = .ok cs) {groupBy aggregates : List (Expression F)}
    (hs : (LogicalPlan.aggregate child groupBy aggregates).schema = .ok s) :
    ∃ fields, List.Forall₂ (fun a f => aggregateOutputField a cs = .ok f) aggregates fields ∧
      s.fields = groupBy.map (fun g => columnField g cs) ++ fields := by
  obtain ⟨groupFields, hgroup, hs⟩ := ExceptList.bind_eq_ok.mp hs
  obtain rfl := eq_of_outputFields hcs hgroup
  rw [hcs] at hs
  obtain ⟨fields, hfields, hs⟩ := ExceptList.bind_eq_ok.mp hs
  exact ⟨fields, ExceptList.mapM_eq_ok.mp hfields, Schema.make_eq_ok.mp hs⟩

/-- The rows of a plan have the types that its schema declares, where it computes no column other
than by an aggregate of a column. -/
theorem naiveRows_holdsTypes {plan : LogicalPlan F} {rows : List (Record F)} {s : Schema}
    (ha : plan.Analyzed) (hd : plan.Declares) (ht : plan.TablesConform) (htt : plan.TablesTyped)
    (hs : plan.schema = .ok s) (h : naiveRows plan = .ok rows) : ∀ r ∈ rows, HoldsTypes s r := by
  induction plan generalizing rows s with
  | scan dataset _ _ =>
      cases hs
      exact htt dataset (by simp [LogicalPlan.tables]) rows h
  | filter child condition ih =>
      obtain ⟨crows, hc, h⟩ := ExceptList.bind_eq_ok.mp h
      obtain ⟨-, rfl⟩ := ExceptList.filterE_eq_ok.mp h
      exact fun r hr => ih ha.1 hd ht htt hs hc r (List.mem_of_mem_filter hr)
  | project child columns ih =>
      rw [naiveRows_project ha] at h
      obtain ⟨crows, hc, h⟩ := ExceptList.bind_eq_ok.mp h
      obtain ⟨cs, hcs⟩ := ha.1.schema_ok
      rw [schema_project hcs ha.2.2.prints, Schema.make_eq_ok] at hs
      intro r hr
      obtain ⟨c, hmem, hrow⟩ := Dealing.exists_partner (ExceptList.mapM_eq_ok.mp h) hr
      refine projectRow_holdsTypes ha.2.2.nodup (fun e he => ⟨hd.2 e he, ?_⟩) hs
        (ih ha.1 hd.1 ht htt hcs hc c hmem) hrow
      rw [LogicalPlan.schema_names hcs]
      exact ha.2.1 e he
  | aggregate child groupBy aggregates ih =>
      obtain ⟨crows, hc, h⟩ := ExceptList.bind_eq_ok.mp h
      obtain ⟨s', hs', h⟩ := ExceptList.bind_eq_ok.mp h
      obtain rfl := Except.ok.inj (hs.symm.trans hs')
      obtain ⟨cs, hcs⟩ := ha.1.schema_ok
      obtain ⟨fields, hfields, hs⟩ := LogicalPlan.schema_aggregate hcs hs
      have hnames := LogicalPlan.schema_names hcs
      refine aggregateRows_holdsTypes ha.2.2.2.nodup (fun g hg => ?_)
        (fun a hmem => ⟨hd.2 cs hcs a hmem, ?_⟩) hfields hs (ih ha.1 hd.1 ht htt hcs hc) h
      · obtain ⟨hcolumn, hprovides⟩ := ha.2.1 g hg
        rw [hnames]
        cases g with
        | column n => exact ⟨n, rfl, hprovides n List.mem_cons_self⟩
        | _ => cases hcolumn
      · rw [hnames]
        exact (ha.2.2.1 a hmem).2
  | join left right on how broadcast ihl ihr =>
      obtain ⟨lrows, hl, h⟩ := ExceptList.bind_eq_ok.mp h
      obtain ⟨rrows, hr, h⟩ := ExceptList.bind_eq_ok.mp h
      obtain ⟨ls, hls, hs⟩ := ExceptList.bind_eq_ok.mp hs
      obtain ⟨rs, hrs, hs⟩ := ExceptList.bind_eq_ok.mp hs
      obtain ⟨-, -, rfl⟩ := hashJoinRows_eq_ok.mp h
      have hrt := ht.mono (List.subset_append_right left.tables right.tables)
      have hlnames := LogicalPlan.schema_names hls
      have hrnames := LogicalPlan.schema_names hrs
      intro m hm
      obtain ⟨r, hrm, hm⟩ := List.mem_flatMap.mp hm
      obtain ⟨l, hlm, rfl⟩ := List.mem_map.mp hm
      refine mergeRow_holdsTypes ?_ (Schema.make_eq_ok.mp hs) ?_ ?_ ?_
      · rw [hlnames, hrnames]
        exact ha.2.2.2.2.2
      · exact ihl ha.1 hd.1 (ht.mono (List.subset_append_left _ _))
          (htt.mono (List.subset_append_left _ _)) hls hl l (List.mem_of_mem_filter hlm)
      · exact ihr ha.2.1 hd.2 hrt (htt.mono (List.subset_append_right _ _)) hrs hr r hrm
      · rw [hrnames]
        exact naiveRows_hasKeys ha.2.1 hrt hr r hrm
  | sort child keys ih =>
      obtain ⟨crows, hc, h⟩ := ExceptList.bind_eq_ok.mp h
      obtain ⟨sorted, hsorted, h⟩ := ExceptList.bind_eq_ok.mp h
      cases h
      exact fun r hr => ih ha.1 hd ht htt hs hc r ((sortedRows_perm hsorted).mem_iff.mp hr)

end Plans

end MiniSpark
