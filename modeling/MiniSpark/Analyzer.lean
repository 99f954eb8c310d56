import Mathlib.Data.List.Sort
import MiniSpark.LogicalPlan

/-!
# The analyzer

`analyze` checks children first, then the node. `Analyzed` says what an
accepted plan guarantees at every node, without the error texts; the two agree
(`analyze_eq_ok`).
-/
namespace MiniSpark

variable {F : Type} [PyRuntime F]

/-- Names in a schema, printed for an error. -/
def availableColumns (F : Type) [PyRuntime F] (s : Schema) : String :=
  "Available columns: " ++ reprNames (PyRuntime.isPrintable F) s.fieldNames

/-- `_check_columns_exist`. -/
def checkColumnsExist (e : Expression F) (s : Schema) (context : String) : Py Unit :=
  match e.referencedColumns.find? (fun c => !s.hasField c) with
  | none => .ok ()
  | some c => .error (.analysisException
      ("Column '" ++ c ++ "' not found in " ++ context ++ ". " ++ availableColumns F s))

/-- `_reject_duplicate_name`, returning the enlarged set of seen names. -/
def rejectDuplicateName (name : String) (seen : List String) (context : String) :
    Py (List String) :=
  if name ∈ seen then .error (.analysisException
    ("Duplicate output column '" ++ name ++ "' in " ++ context ++
      "; give one of them a different alias()"))
  else .ok (name :: seen)

/-- The loop of `_analyze_project`. -/
def analyzeProjectColumns (child : LogicalPlan F) : List (Expression F) → List String → Py Unit
  | [], _ => .ok ()
  | e :: es, seen => do
      let s ← child.schema
      let text ← e.repr
      checkColumnsExist e s ("select(" ++ text ++ ")")
      let name ← e.outputName
      let seen' ← rejectDuplicateName name seen "select()"
      analyzeProjectColumns child es seen'

/-- The first loop of `_analyze_aggregate`. -/
def analyzeGroupBy (child : LogicalPlan F) : List (Expression F) → List String → Py (List String)
  | [], seen => .ok seen
  | .column name :: gs, seen => do
      let s ← child.schema
      let text ← (Expression.column name : Expression F).repr
      checkColumnsExist (.column name : Expression F) s ("group_by(" ++ text ++ ")")
      let seen' ← rejectDuplicateName name seen "group_by()/agg()"
      analyzeGroupBy child gs seen'
  | g :: _, _ => do
      let text ← g.repr
      .error (.analysisException ("group_by() only accepts column names, got " ++ text))

/-- One entry of `agg()`: an aggregate, under at most one alias. -/
def checkAggregate (child : LogicalPlan F) (a : Expression F) : Py Unit :=
  match a.unalias with
  | .countStar => .ok ()
  | .aggregate _ inner => do
      let s ← child.schema
      let text ← a.repr
      checkColumnsExist inner s ("agg(" ++ text ++ ")")
  | _ => do
      let text ← a.repr
      .error (.analysisException
        ("agg() only accepts aggregate expressions (count/sum/avg/min/max), got " ++ text))

/-- The second loop of `_analyze_aggregate`. -/
def analyzeAggregates (child : LogicalPlan F) : List (Expression F) → List String → Py Unit
  | [], _ => .ok ()
  | a :: as, seen => do
      checkAggregate child a
      let name ← a.outputName
      let seen' ← rejectDuplicateName name seen "group_by()/agg()"
      analyzeAggregates child as seen'

/-- The loop over `on` in `_analyze_join`. -/
def analyzeJoinColumns (F : Type) [PyRuntime F] (left right : Schema) : List String → Py Unit
  | [] => .ok ()
  | name :: on => do
      if left.hasField name then pure ()
      else .error (.analysisException ("Join column '" ++ name ++
        "' not found on the left side. " ++ availableColumns F left))
      if right.hasField name then pure ()
      else .error (.analysisException ("Join column '" ++ name ++
        "' not found on the right side. " ++ availableColumns F right))
      analyzeJoinColumns F left right on

/-- Names on both sides that are not join columns. -/
def collidingColumns (left right : Schema) (on : List String) : List String :=
  left.fieldNames.filter (fun n => n ∈ right.fieldNames ∧ n ∉ on)

/-- `_analyze_join`. -/
def analyzeJoin (left right : LogicalPlan F) (on : List String) (how : String) : Py Unit := do
  if how = "inner" then pure ()
  else .error (.analysisException ("Unsupported join type " ++
    reprStr (PyRuntime.isPrintable F) how ++ "; only ['inner'] are implemented " ++
    "(left/right/full outer and semi/anti joins are not)."))
  if on ≠ [] then pure ()
  else .error (.analysisException "join() requires at least one column in on=")
  let l ← left.schema
  let r ← right.schema
  analyzeJoinColumns F l r on
  let colliding := collidingColumns l r on
  if colliding = [] then pure ()
  else .error (.analysisException ("Column(s) " ++
    reprNames (PyRuntime.isPrintable F) (colliding.mergeSort (fun a b => decide (a ≤ b))) ++
    " exist on both sides of the join and are not in on=; rename or select() them on one side " ++
    "before joining (differently-named join keys via left_on/right_on are not supported)."))

/-- `_analyze_sort`. -/
def analyzeSort (child : LogicalPlan F) : List (Expression F × Bool) → Py Unit
  | [] => .ok ()
  | (.column name, _) :: ks => do
      let s ← child.schema
      let text ← (Expression.column name : Expression F).repr
      checkColumnsExist (.column name : Expression F) s ("order_by(" ++ text ++ ")")
      analyzeSort child ks
  | (e, _) :: _ => do
      let text ← e.repr
      .error (.analysisException ("order_by() only accepts column names, got " ++ text))

/-- `analyze`: children first; an accepted plan is returned unchanged. -/
def analyze : LogicalPlan F → Py (LogicalPlan F)
  | .scan dataset sourceName source => pure (.scan dataset sourceName source)
  | .filter child condition => do
      let _ ← analyze child
      let s ← child.schema
      let text ← condition.repr
      checkColumnsExist condition s ("filter(" ++ text ++ ")")
      pure (.filter child condition)
  | .project child columns => do
      let _ ← analyze child
      analyzeProjectColumns child columns []
      pure (.project child columns)
  | .aggregate child groupBy aggregates => do
      let _ ← analyze child
      let seen ← analyzeGroupBy child groupBy []
      analyzeAggregates child aggregates seen
      pure (.aggregate child groupBy aggregates)
  | .join left right on how broadcast => do
      let _ ← analyze left
      let _ ← analyze right
      analyzeJoin left right on how
      pure (.join left right on how broadcast)
  | .sort child keys => do
      let _ ← analyze child
      analyzeSort child keys
      pure (.sort child keys)

namespace Expression

/-- `isinstance(expr, Column)`. -/
def isColumn : Expression F → Bool
  | .column _ => true
  | _ => false

/-- `isinstance(expr, AggregateFunction)`. -/
def isAggregate : Expression F → Bool
  | .countStar => true
  | .aggregate _ _ => true
  | _ => false

omit [PyRuntime F] in
@[simp] theorem referencedColumns_unalias (e : Expression F) :
    e.unalias.referencedColumns = e.referencedColumns := by cases e <;> rfl

end Expression

/-- Output names that print and are distinct. -/
structure NamesOk (es : List (Expression F)) : Prop where
  nodup : (es.map Expression.columnName).Nodup
  prints : ∀ e ∈ es, e.namePrints = true

namespace LogicalPlan

/-- Output column names, read off the plan without building any schema. -/
def outputNames : LogicalPlan F → List String
  | .scan dataset _ _ => dataset.schema.fieldNames
  | .filter child _ => child.outputNames
  | .project _ columns => columns.map Expression.columnName
  | .aggregate _ groupBy aggregates => (groupBy ++ aggregates).map Expression.columnName
  | .join left right on _ _ => left.outputNames ++ right.outputNames.filter (fun n => n ∉ on)
  | .sort child _ => child.outputNames

/-- Every column the expression references is a column of the plan. -/
def Provides (plan : LogicalPlan F) (e : Expression F) : Prop :=
  ∀ n ∈ e.referencedColumns, n ∈ plan.outputNames

/-- What the analyzer establishes at every node of an accepted plan. -/
def Analyzed : LogicalPlan F → Prop
  | .scan _ _ _ => True
  | .filter child condition => child.Analyzed ∧ child.Provides condition
  | .project child columns =>
      child.Analyzed ∧ (∀ e ∈ columns, child.Provides e) ∧ NamesOk columns
  | .aggregate child groupBy aggregates =>
      child.Analyzed ∧ (∀ g ∈ groupBy, g.isColumn = true ∧ child.Provides g) ∧
        (∀ a ∈ aggregates, a.unalias.isAggregate = true ∧ child.Provides a) ∧
        NamesOk (groupBy ++ aggregates)
  | .join left right on how _ =>
      left.Analyzed ∧ right.Analyzed ∧ how = "inner" ∧ on ≠ [] ∧
        (∀ n ∈ on, n ∈ left.outputNames ∧ n ∈ right.outputNames) ∧
        (∀ n ∈ left.outputNames, n ∈ right.outputNames → n ∈ on)
  | .sort child keys => child.Analyzed ∧ ∀ k ∈ keys, k.1.isColumn = true ∧ child.Provides k.1

/-- Everything the analyzer prints has a text. -/
def Prints : LogicalPlan F → Prop
  | .scan _ _ _ => True
  | .filter child condition => child.Prints ∧ condition.prints = true
  | .project child columns => child.Prints ∧ ∀ e ∈ columns, e.prints = true
  | .aggregate child _ aggregates => child.Prints ∧ ∀ a ∈ aggregates, a.prints = true
  | .join left right _ _ _ => left.Prints ∧ right.Prints
  | .sort child _ => child.Prints

end LogicalPlan

theorem Expression.namePrints_of_isColumn {e : Expression F} (h : e.isColumn = true) :
    e.namePrints = true := by
  cases e with
  | column name => rfl
  | _ => cases h

theorem Expression.outputName_eq_ok {e : Expression F} {name : String} :
    e.outputName = .ok name ↔ e.namePrints = true ∧ name = e.columnName := by
  rw [outputName_eq, printed_eq_ok]

/-- What follows a printed expression. -/
theorem Expression.repr_bind_eq_ok {α : Type} {e : Expression F} {f : String → Py α} {a : α} :
    e.repr >>= f = .ok a ↔ e.prints = true ∧ f e.text = .ok a := by
  rw [repr_eq]
  cases e.prints <;> simp

/-- A refusal that prints the refused expression never accepts. -/
theorem Expression.repr_bind_error {α : Type} {e : Expression F} {f : String → PyError} {a : α} :
    ¬ (e.repr >>= fun text => .error (f text)) = .ok a := by
  simp [repr_bind_eq_ok]

/-- The field of an expression whose name prints. -/
def columnField (e : Expression F) (childSchema : Schema) : Field :=
  match e.unalias with
  | .column name =>
      match childSchema.getField? name with
      | some source => ⟨e.columnName, source.dataType, source.nullable⟩
      | none => ⟨e.columnName, .string, true⟩
  | _ => ⟨e.columnName, .string, true⟩

theorem outputField_eq (e : Expression F) (s : Schema) : outputField e s =
    if e.namePrints then .ok (columnField e s) else .error (digitLimitError F) := by
  rw [outputField, Expression.outputName_eq]
  cases e.namePrints with
  | false => rfl
  | true =>
      simp only [printed_true, ExceptList.bind_ok, columnField, if_true]
      cases e.unalias with
      | column c => cases hc : s.getField? c <;> simp [hc]
      | _ => rfl

theorem outputField_eq_ok {e : Expression F} {s : Schema} {f : Field} :
    outputField e s = .ok f ↔ e.namePrints = true ∧ f = columnField e s := by
  rw [outputField_eq]
  cases e.namePrints <;> simp [eq_comm]

/-- The fields of expressions whose names print. -/
theorem outputFields_ok {es : List (Expression F)} {child : LogicalPlan F} {s : Schema}
    (hs : child.schema = .ok s) (h : ∀ e ∈ es, e.namePrints = true) :
    es.mapM (fun e => child.schema >>= outputField e) = .ok (es.map (fun e => columnField e s)) :=
  ExceptList.mapM_ok_of_forall (fun e he => by
    rw [hs, ExceptList.bind_ok, outputField_eq_ok.mpr ⟨h e he, rfl⟩])

theorem eq_of_outputFields {es : List (Expression F)} {child : LogicalPlan F} {s : Schema}
    {fields : List Field} (hs : child.schema = .ok s)
    (h : es.mapM (fun e => child.schema >>= outputField e) = .ok fields) :
    fields = es.map (fun e => columnField e s) := by
  induction ExceptList.mapM_eq_ok.mp h with
  | nil => rfl
  | @cons e f es fields hf hrest ih =>
      rw [hs, ExceptList.bind_ok] at hf
      rw [List.map_cons, (outputField_eq_ok.mp hf).2, ih (ExceptList.mapM_eq_ok.mpr hrest)]

theorem columnField_name (e : Expression F) (s : Schema) : (columnField e s).name = e.columnName := by
  unfold columnField
  split
  · split <;> rfl
  · rfl

theorem aggregateOutputField_eq_ok {e : Expression F} {s : Schema} {f : Field}
    (h : aggregateOutputField e s = .ok f) :
    f.name = e.columnName ∧ e.unalias.isAggregate = true := by
  obtain ⟨name, hname, h⟩ := ExceptList.bind_eq_ok.mp h
  obtain ⟨-, rfl⟩ := Expression.outputName_eq_ok.mp hname
  split at h
  · next he => cases h; exact ⟨rfl, by rw [he]; rfl⟩
  · next he => cases h; exact ⟨rfl, by rw [he]; rfl⟩
  · obtain ⟨text, -, h⟩ := ExceptList.bind_eq_ok.mp h
    cases h

theorem aggregateOutputField_ok {e : Expression F} (s : Schema) (hprints : e.namePrints = true)
    (h : e.unalias.isAggregate = true) : ∃ f, aggregateOutputField e s = .ok f := by
  rw [aggregateOutputField, Expression.outputName_eq_ok.mpr ⟨hprints, rfl⟩, ExceptList.bind_ok]
  cases he : e.unalias <;> simp_all [Expression.isAggregate]

namespace LogicalPlan

/-- Names in `[f(e) for e in es]` when every `f(e)` is named after its expression. -/
lemma names_of_mapM {α : Type} {f : α → Py Field} {name : α → String} {es : List α}
    {fields : List Field} (hname : ∀ e g, f e = .ok g → g.name = name e)
    (h : es.mapM f = .ok fields) : fields.map Field.name = es.map name := by
  induction ExceptList.mapM_eq_ok.mp h with
  | nil => rfl
  | @cons e g es' fields' hg hrest ih =>
      simp [hname e g hg, ih (ExceptList.mapM_eq_ok.mpr hrest)]

/-- A schema that can be built has exactly the names read off the plan. -/
theorem schema_names {plan : LogicalPlan F} {s : Schema} (h : plan.schema = .ok s) :
    s.fieldNames = plan.outputNames := by
  induction plan generalizing s with
  | scan dataset sourceName source => cases h; rfl
  | filter child condition ih => exact ih h
  | project child columns ih =>
      simp only [schema, ExceptList.bind_eq_ok, Schema.make_eq_ok] at h
      obtain ⟨fields, hfields, hs⟩ := h
      rw [Schema.fieldNames, hs]
      refine names_of_mapM (fun e g hg => ?_) hfields
      obtain ⟨cs, _, hcs⟩ := ExceptList.bind_eq_ok.mp hg
      rw [(outputField_eq_ok.mp hcs).2, columnField_name]
  | aggregate child groupBy aggregates ih =>
      simp only [schema, ExceptList.bind_eq_ok, Schema.make_eq_ok] at h
      obtain ⟨gs, hgs, as, has, hs⟩ := h
      rw [Schema.fieldNames, hs, outputNames, List.map_append, List.map_append]
      congr 1
      · refine names_of_mapM (fun e g hg => ?_) hgs
        obtain ⟨cs, _, hcs⟩ := ExceptList.bind_eq_ok.mp hg
        rw [(outputField_eq_ok.mp hcs).2, columnField_name]
      · refine names_of_mapM (fun e g hg => ?_) has
        obtain ⟨cs, _, hcs⟩ := ExceptList.bind_eq_ok.mp hg
        exact (aggregateOutputField_eq_ok hcs).1
  | join left right on how broadcast ihl ihr =>
      simp only [schema, ExceptList.bind_eq_ok, Schema.make_eq_ok] at h
      obtain ⟨l, hl, r, hr, hs⟩ := h
      rw [Schema.fieldNames, hs, outputNames, ← ihl hl, ← ihr hr, List.map_append,
        Schema.fieldNames, Schema.fieldNames, List.filter_map]
      rfl
  | sort child keys ih => exact ih h

/-- An accepted join has no name twice. -/
lemma join_names_nodup {l r on : List String} (hl : l.Nodup) (hr : r.Nodup)
    (hcol : ∀ n ∈ l, n ∈ r → n ∈ on) : (l ++ r.filter (fun n => n ∉ on)).Nodup := by
  rw [List.nodup_append]
  refine ⟨hl, hr.filter _, ?_⟩
  rintro a ha b hb rfl
  obtain ⟨hbr, hon⟩ := List.mem_filter.mp hb
  exact of_decide_eq_true hon (hcol a ha hbr)

/-- An accepted plan's schema can be built, at the node and everywhere below. -/
theorem Analyzed.schema_ok {plan : LogicalPlan F} (h : plan.Analyzed) :
    ∃ s, plan.schema = .ok s := by
  induction plan with
  | scan dataset sourceName source => exact ⟨_, rfl⟩
  | filter child condition ih => exact ih h.1
  | project child columns ih =>
      obtain ⟨cs, hcs⟩ := ih h.1
      have hf := outputFields_ok hcs h.2.2.prints
      have hn : ((columns.map (fun e => columnField e cs)).map Field.name).Nodup := by
        simpa [List.map_map, Function.comp_def, columnField_name] using h.2.2.nodup
      obtain ⟨s, hs, _⟩ := Schema.make_ok_of_nodup (PyRuntime.isPrintable F) hn
      exact ⟨s, by rw [schema, hf]; exact hs⟩
  | aggregate child groupBy aggregates ih =>
      obtain ⟨hc, -, hagg, hnd, hprints⟩ := h
      obtain ⟨cs, hcs⟩ := ih hc
      have hnames : ∀ e ∈ groupBy, e.namePrints = true :=
        fun e he => hprints e (List.mem_append_left _ he)
      have hf := outputFields_ok hcs hnames
      replace hprints : ∀ a ∈ aggregates, a.namePrints = true :=
        fun a ha => hprints a (List.mem_append_right _ ha)
      obtain ⟨as, has⟩ : ∃ as, aggregates.mapM
          (fun a => child.schema >>= aggregateOutputField a) = .ok as := by
        clear hnd
        induction aggregates with
        | nil => exact ⟨[], rfl⟩
        | cons a rest ih' =>
            obtain ⟨f, hf⟩ := aggregateOutputField_ok cs (hprints a (by simp)) (hagg a (by simp)).1
            obtain ⟨fs, hfs⟩ := ih' (fun b hb => hagg b (by simp [hb]))
              (fun b hb => hprints b (by simp [hb]))
            refine ⟨f :: fs, ?_⟩
            rw [List.mapM_cons, hfs, hcs]
            simp [hf]
      have hasn : as.map Field.name = aggregates.map Expression.columnName :=
        names_of_mapM (fun e g hg => by
          obtain ⟨cs', _, hcs'⟩ := ExceptList.bind_eq_ok.mp hg
          exact (aggregateOutputField_eq_ok hcs').1) has
      have hn : ((groupBy.map (fun e => columnField e cs) ++ as).map Field.name).Nodup := by
        rw [List.map_append, hasn]
        simpa [List.map_map, Function.comp_def, columnField_name] using hnd
      obtain ⟨s, hs, _⟩ := Schema.make_ok_of_nodup (PyRuntime.isPrintable F) hn
      exact ⟨s, by simp only [schema, hf, has, ExceptList.bind_ok]; exact hs⟩
  | join left right on how broadcast ihl ihr =>
      obtain ⟨hl, hr, -, -, -, hcol⟩ := h
      obtain ⟨ls, hls⟩ := ihl hl
      obtain ⟨rs, hrs⟩ := ihr hr
      rw [← schema_names hls, ← schema_names hrs] at hcol
      have hn := join_names_nodup ls.fieldNames_nodup rs.fieldNames_nodup hcol
      have hn' : ((ls.fields ++ rs.fields.filter (fun f => f.name ∉ on)).map Field.name).Nodup := by
        rw [Schema.fieldNames, Schema.fieldNames, List.filter_map] at hn
        rw [List.map_append]
        exact hn
      obtain ⟨s, hs, _⟩ := Schema.make_ok_of_nodup (PyRuntime.isPrintable F) hn'
      exact ⟨s, by simp only [schema, hls, hrs, ExceptList.bind_ok]; exact hs⟩
  | sort child keys ih => exact ih h.1

theorem Analyzed.names_nodup {plan : LogicalPlan F} (h : plan.Analyzed) :
    plan.outputNames.Nodup := by
  obtain ⟨s, hs⟩ := h.schema_ok
  rw [← schema_names hs]
  exact s.fieldNames_nodup

end LogicalPlan

theorem checkColumnsExist_eq_ok {e : Expression F} {s : Schema} {context : String} {u : Unit} :
    checkColumnsExist e s context = .ok u ↔ ∀ n ∈ e.referencedColumns, n ∈ s.fieldNames := by
  unfold checkColumnsExist
  cases hf : e.referencedColumns.find? (fun c => !s.hasField c) with
  | none => simpa using hf
  | some c =>
      have hc := List.find?_some hf
      have hm := List.mem_of_find?_eq_some hf
      simp only [reduceCtorEq, false_iff, not_forall]
      exact ⟨c, hm, by simpa [← Schema.hasField_iff] using hc⟩

theorem rejectDuplicateName_eq_ok {name context : String} {seen seen' : List String} :
    rejectDuplicateName name seen context = .ok seen' ↔ name ∉ seen ∧ seen' = name :: seen := by
  unfold rejectDuplicateName
  by_cases h : name ∈ seen
  · simp [h]
  · simp [h, eq_comm]

section Loops

variable {child : LogicalPlan F} {s : Schema} (hs : child.schema = .ok s)
include hs

lemma provides_iff {e : Expression F} :
    (∀ n ∈ e.referencedColumns, n ∈ s.fieldNames) ↔ child.Provides e := by
  rw [LogicalPlan.Provides, LogicalPlan.schema_names hs]

theorem analyzeProjectColumns_eq_ok {es : List (Expression F)} {seen : List String} {u : Unit} :
    analyzeProjectColumns child es seen = .ok u ↔
      (∀ e ∈ es, child.Provides e) ∧ (∀ e ∈ es, e.prints = true) ∧
        (es.map Expression.columnName).Nodup ∧ ∀ e ∈ es, e.columnName ∉ seen := by
  induction es generalizing seen with
  | nil => simp [analyzeProjectColumns]
  | cons e es ih =>
      simp only [analyzeProjectColumns, hs, ExceptList.bind_ok, Expression.repr_bind_eq_ok]
      simp only [ExceptList.bind_eq_ok, Expression.outputName_eq_ok, checkColumnsExist_eq_ok,
        provides_iff hs, rejectDuplicateName_eq_ok, ih]
      simp only [List.forall_mem_cons, List.map_cons, List.nodup_cons, List.mem_map, not_exists,
        not_and]
      constructor
      · rintro ⟨hprint, _, he, _, ⟨-, rfl⟩, seen', ⟨hseen, rfl⟩, hes, hprints, hnd, hfresh⟩
        simp only [List.mem_cons, not_or] at hfresh
        exact ⟨⟨he, hes⟩, ⟨hprint, hprints⟩, ⟨fun e' he' => (hfresh e' he').1, hnd⟩, hseen,
          fun e' he' => (hfresh e' he').2⟩
      · rintro ⟨⟨he, hes⟩, ⟨hprint, hprints⟩, ⟨hne, hnd⟩, hseen, hfresh⟩
        refine ⟨hprint, (), he, _, ⟨Expression.namePrints_of_prints hprint, rfl⟩, _, ⟨hseen, rfl⟩,
          hes, hprints, hnd, fun e' he' => ?_⟩
        simp only [List.mem_cons, not_or]
        exact ⟨hne e' he', hfresh e' he'⟩

theorem analyzeGroupBy_eq_ok {gs : List (Expression F)} {seen seen' : List String} :
    analyzeGroupBy child gs seen = .ok seen' ↔
      (∀ g ∈ gs, g.isColumn = true ∧ child.Provides g) ∧ (gs.map Expression.columnName).Nodup ∧
        (∀ g ∈ gs, g.columnName ∉ seen) ∧
        seen' = (gs.map Expression.columnName).reverse ++ seen := by
  induction gs generalizing seen with
  | nil =>
      simp only [analyzeGroupBy, Except.ok.injEq, List.not_mem_nil, false_implies, implies_true,
        List.map_nil, List.nodup_nil, List.reverse_nil, List.nil_append, true_and]
      exact eq_comm
  | cons g gs ih =>
      cases g with
      | column name =>
          simp only [analyzeGroupBy, hs, Expression.repr, ExceptList.bind_ok, ExceptList.bind_eq_ok,
            checkColumnsExist_eq_ok, provides_iff hs, rejectDuplicateName_eq_ok, ih]
          simp only [List.forall_mem_cons, List.map_cons, List.nodup_cons, List.mem_map,
            Expression.isColumn, Expression.columnName, true_and, not_exists, not_and,
            List.reverse_cons, List.append_assoc, List.singleton_append]
          constructor
          · rintro ⟨_, he, _, ⟨hseen, rfl⟩, hgs, hnd, hfresh, rfl⟩
            simp only [List.mem_cons, not_or] at hfresh
            exact ⟨⟨he, hgs⟩, ⟨fun g' hg' => (hfresh g' hg').1, hnd⟩,
              ⟨hseen, fun g' hg' => (hfresh g' hg').2⟩, rfl⟩
          · rintro ⟨⟨he, hgs⟩, ⟨hne, hnd⟩, ⟨hseen, hfresh⟩, rfl⟩
            refine ⟨(), he, _, ⟨hseen, rfl⟩, hgs, hnd, fun g' hg' => ?_, rfl⟩
            simp only [List.mem_cons, not_or]
            exact ⟨hne g' hg', hfresh g' hg'⟩
      | _ => simp [analyzeGroupBy, Expression.isColumn, Expression.repr_bind_error]

theorem checkAggregate_eq_ok {a : Expression F} {u : Unit} :
    checkAggregate child a = .ok u ↔
      a.unalias.isAggregate = true ∧ child.Provides a ∧ a.prints = true := by
  have hp : child.Provides a ↔ child.Provides a.unalias := by simp [LogicalPlan.Provides]
  rw [hp, checkAggregate]
  cases ha : a.unalias with
  | aggregate name inner =>
      simp only [hs, ExceptList.bind_ok, Expression.repr_bind_eq_ok, checkColumnsExist_eq_ok,
        provides_iff hs, Expression.isAggregate, true_and]
      exact and_comm
  | countStar =>
      have hprints : a.prints = true := by
        cases a with
        | aliased child name =>
            obtain rfl : child = .countStar := ha
            rfl
        | countStar => rfl
        | _ => cases ha
      simp [Expression.isAggregate, LogicalPlan.Provides, Expression.referencedColumns, hprints]
  | _ => simp [Expression.isAggregate, Expression.repr_bind_error]

theorem analyzeAggregates_eq_ok {as : List (Expression F)} {seen : List String} {u : Unit} :
    analyzeAggregates child as seen = .ok u ↔
      (∀ a ∈ as, a.unalias.isAggregate = true ∧ child.Provides a) ∧ (∀ a ∈ as, a.prints = true) ∧
        (as.map Expression.columnName).Nodup ∧ ∀ a ∈ as, a.columnName ∉ seen := by
  induction as generalizing seen with
  | nil => simp [analyzeAggregates]
  | cons a as ih =>
      simp only [analyzeAggregates, ExceptList.bind_eq_ok, Expression.outputName_eq_ok,
        checkAggregate_eq_ok hs, rejectDuplicateName_eq_ok, ih]
      simp only [List.forall_mem_cons, List.map_cons, List.nodup_cons, List.mem_map, not_exists,
        not_and]
      constructor
      · rintro ⟨_, ⟨hagg, hprovides, hprint⟩, _, ⟨-, rfl⟩, seen', ⟨hseen, rfl⟩, has, hprints, hnd, hfresh⟩
        simp only [List.mem_cons, not_or] at hfresh
        exact ⟨⟨⟨hagg, hprovides⟩, has⟩, ⟨hprint, hprints⟩, ⟨fun e' he' => (hfresh e' he').1, hnd⟩, hseen,
          fun e' he' => (hfresh e' he').2⟩
      · rintro ⟨⟨⟨hagg, hprovides⟩, has⟩, ⟨hprint, hprints⟩, ⟨hne, hnd⟩, hseen, hfresh⟩
        refine ⟨(), ⟨hagg, hprovides, hprint⟩, _, ⟨Expression.namePrints_of_prints hprint, rfl⟩, _,
          ⟨hseen, rfl⟩, has, hprints, hnd, fun e' he' => ?_⟩
        simp only [List.mem_cons, not_or]
        exact ⟨hne e' he', hfresh e' he'⟩

theorem analyzeSort_eq_ok {ks : List (Expression F × Bool)} {u : Unit} :
    analyzeSort child ks = .ok u ↔ ∀ k ∈ ks, k.1.isColumn = true ∧ child.Provides k.1 := by
  induction ks with
  | nil => simp [analyzeSort]
  | cons k ks ih =>
      obtain ⟨e, asc⟩ := k
      cases e with
      | column name =>
          simp only [analyzeSort, hs, Expression.repr, ExceptList.bind_ok, ExceptList.bind_eq_ok,
            checkColumnsExist_eq_ok, provides_iff hs, ih, List.forall_mem_cons,
            Expression.isColumn, true_and, exists_const]
      | _ => simp [analyzeSort, Expression.isColumn, Expression.repr_bind_error]

end Loops

theorem analyzeJoinColumns_eq_ok {l r : Schema} {on : List String} {u : Unit} :
    analyzeJoinColumns F l r on = .ok u ↔
      ∀ n ∈ on, n ∈ l.fieldNames ∧ n ∈ r.fieldNames := by
  induction on with
  | nil => simp [analyzeJoinColumns]
  | cons n on ih =>
      by_cases hl : n ∈ l.fieldNames <;> by_cases hr : n ∈ r.fieldNames <;>
        simp [analyzeJoinColumns, hl, hr, ih]

theorem analyzeJoin_eq_ok {left right : LogicalPlan F} {l r : Schema} {on : List String}
    {how : String} {u : Unit} (hl : left.schema = .ok l) (hr : right.schema = .ok r) :
    analyzeJoin left right on how = .ok u ↔
      how = "inner" ∧ on ≠ [] ∧
        (∀ n ∈ on, n ∈ left.outputNames ∧ n ∈ right.outputNames) ∧
        ∀ n ∈ left.outputNames, n ∈ right.outputNames → n ∈ on := by
  have hcol : collidingColumns l r on = [] ↔
      ∀ n ∈ left.outputNames, n ∈ right.outputNames → n ∈ on := by
    rw [← LogicalPlan.schema_names hl, ← LogicalPlan.schema_names hr, collidingColumns,
      List.filter_eq_nil_iff]
    simp
  rw [← hcol, ← LogicalPlan.schema_names hl, ← LogicalPlan.schema_names hr]
  by_cases h1 : how = "inner" <;> by_cases h2 : on = [] <;>
    by_cases h3 : collidingColumns l r on = [] <;>
    simp [analyzeJoin, hl, hr, h1, h2, h3, ExceptList.bind_eq_ok, analyzeJoinColumns_eq_ok]

/-- `analyze` accepts exactly the `Analyzed` plans whose expressions print, and returns
them unchanged. -/
theorem analyze_eq_ok {plan plan' : LogicalPlan F} :
    analyze plan = .ok plan' ↔ plan' = plan ∧ plan.Analyzed ∧ plan.Prints := by
  induction plan generalizing plan' with
  | scan dataset sourceName source =>
      simp [analyze, LogicalPlan.Analyzed, LogicalPlan.Prints, eq_comm]
  | filter child condition ih =>
      simp only [analyze, ExceptList.bind_eq_ok, ih, LogicalPlan.Analyzed, LogicalPlan.Prints,
        Expression.repr_eq, printed_eq_ok, checkColumnsExist_eq_ok]
      constructor
      · rintro ⟨_, ⟨rfl, hc, hprints⟩, s, hs, _, ⟨hprint, rfl⟩, _, hcond, h⟩
        exact ⟨by cases h; rfl, ⟨hc, (provides_iff hs).mp hcond⟩, hprints, hprint⟩
      · rintro ⟨rfl, ⟨hc, hcond⟩, hprints, hprint⟩
        obtain ⟨s, hs⟩ := hc.schema_ok
        exact ⟨child, ⟨rfl, hc, hprints⟩, s, hs, _, ⟨hprint, rfl⟩, (), (provides_iff hs).mpr hcond,
          rfl⟩
  | project child columns ih =>
      simp only [analyze, ExceptList.bind_eq_ok, ih, LogicalPlan.Analyzed, LogicalPlan.Prints]
      constructor
      · rintro ⟨_, ⟨rfl, hc, hprints⟩, _, hcols, h⟩
        obtain ⟨s, hs⟩ := hc.schema_ok
        obtain ⟨hp, hprint, hnd, _⟩ := (analyzeProjectColumns_eq_ok hs).mp hcols
        exact ⟨by cases h; rfl,
          ⟨hc, hp, hnd, fun e he => Expression.namePrints_of_prints (hprint e he)⟩, hprints, hprint⟩
      · rintro ⟨rfl, ⟨hc, hp, hnd⟩, hprints, hprint⟩
        obtain ⟨s, hs⟩ := hc.schema_ok
        exact ⟨child, ⟨rfl, hc, hprints⟩, (), (analyzeProjectColumns_eq_ok hs).mpr
          ⟨hp, hprint, hnd.nodup, by simp⟩, rfl⟩
  | aggregate child groupBy aggregates ih =>
      simp only [analyze, ExceptList.bind_eq_ok, ih, LogicalPlan.Analyzed, LogicalPlan.Prints]
      constructor
      · rintro ⟨_, ⟨rfl, hc, hprints⟩, seen, hg, _, ha, h⟩
        obtain ⟨s, hs⟩ := hc.schema_ok
        obtain ⟨hgp, hgn, _, rfl⟩ := (analyzeGroupBy_eq_ok hs).mp hg
        obtain ⟨hap, hprint, han, hdis⟩ := (analyzeAggregates_eq_ok hs).mp ha
        refine ⟨by cases h; rfl, ⟨hc, hgp, hap, ?_, ?_⟩, hprints, hprint⟩
        · rw [List.map_append, List.nodup_append]
          refine ⟨hgn, han, ?_⟩
          rintro x hx y hy rfl
          obtain ⟨a, haa, rfl⟩ := List.mem_map.mp hy
          exact hdis a haa (by simpa using hx)
        · intro e he
          rcases List.mem_append.mp he with he | he
          · exact Expression.namePrints_of_isColumn (hgp e he).1
          · exact Expression.namePrints_of_prints (hprint e he)
      · rintro ⟨rfl, ⟨hc, hgp, hap, hnd, -⟩, hprints, hprint⟩
        obtain ⟨s, hs⟩ := hc.schema_ok
        rw [List.map_append, List.nodup_append] at hnd
        refine ⟨child, ⟨rfl, hc, hprints⟩, _, (analyzeGroupBy_eq_ok hs).mpr
          ⟨hgp, hnd.1, by simp, rfl⟩, (), (analyzeAggregates_eq_ok hs).mpr
          ⟨hap, hprint, hnd.2.1, fun a ha hmem => ?_⟩, rfl⟩
        have hg : a.columnName ∈ groupBy.map Expression.columnName := by simpa using hmem
        exact hnd.2.2 _ hg _ (List.mem_map_of_mem ha) rfl
  | join left right on how broadcast ihl ihr =>
      simp only [analyze, ExceptList.bind_eq_ok, ihl, ihr, LogicalPlan.Analyzed, LogicalPlan.Prints]
      constructor
      · rintro ⟨_, ⟨rfl, hl, hlprints⟩, _, ⟨rfl, hr, hrprints⟩, _, hj, h⟩
        obtain ⟨ls, hls⟩ := hl.schema_ok
        obtain ⟨rs, hrs⟩ := hr.schema_ok
        exact ⟨by cases h; rfl, ⟨hl, hr, (analyzeJoin_eq_ok hls hrs).mp hj⟩, hlprints, hrprints⟩
      · rintro ⟨rfl, ⟨hl, hr, hj⟩, hlprints, hrprints⟩
        obtain ⟨ls, hls⟩ := hl.schema_ok
        obtain ⟨rs, hrs⟩ := hr.schema_ok
        exact ⟨left, ⟨rfl, hl, hlprints⟩, right, ⟨rfl, hr, hrprints⟩, (),
          (analyzeJoin_eq_ok hls hrs).mpr hj, rfl⟩
  | sort child keys ih =>
      simp only [analyze, ExceptList.bind_eq_ok, ih, LogicalPlan.Analyzed, LogicalPlan.Prints]
      constructor
      · rintro ⟨_, ⟨rfl, hc, hprints⟩, _, hk, h⟩
        obtain ⟨s, hs⟩ := hc.schema_ok
        exact ⟨by cases h; rfl, ⟨hc, (analyzeSort_eq_ok hs).mp hk⟩, hprints⟩
      · rintro ⟨rfl, ⟨hc, hk⟩, hprints⟩
        obtain ⟨s, hs⟩ := hc.schema_ok
        exact ⟨child, ⟨rfl, hc, hprints⟩, (), (analyzeSort_eq_ok hs).mpr hk, rfl⟩

/-- An accepted plan is analyzed. -/
theorem analyzed_of_analyze {plan plan' : LogicalPlan F} (h : analyze plan = .ok plan') :
    plan.Analyzed := (analyze_eq_ok.mp h).2.1

end MiniSpark
