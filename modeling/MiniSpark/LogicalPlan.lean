import MiniSpark.Dataset

/-!
# Logical plans

The six logical nodes, the schema each one derives from its child, the printed
form the optimizer compares plans by, and the analyzer. A schema is recomputed
on every access and building it may raise.
-/
namespace MiniSpark

/-- `ScanSource.read(columns=, filter=)`. -/
structure ScanSource (F : Type) where
  read : Option (List String) → Option (Expression F) → Py (Dataset F)

/-- A `Sort` pairs each expression with its direction, so the two lists of the
source cannot differ in length. -/
inductive LogicalPlan (F : Type)
  | scan (dataset : Dataset F) (sourceName : String) (source : Option (ScanSource F))
  | filter (child : LogicalPlan F) (condition : Expression F)
  | project (child : LogicalPlan F) (columns : List (Expression F))
  | aggregate (child : LogicalPlan F) (groupBy aggregates : List (Expression F))
  | join (left right : LogicalPlan F) (on : List String) (how : String) (broadcast : Bool)
  | sort (child : LogicalPlan F) (keys : List (Expression F × Bool))

variable {F : Type} [PyRuntime F]

/-- `_output_field`: plain columns keep their type, anything computed is a string. -/
def outputField (e : Expression F) (childSchema : Schema) : Py Field := do
  let name ← e.outputName
  match e.unalias with
  | .column c =>
      match childSchema.getField? c with
      | some source => pure ⟨name, source.dataType, source.nullable⟩
      | none => pure ⟨name, .string, true⟩
  | _ => pure ⟨name, .string, true⟩

/-- `_infer_child_type`, and the planner's `_column_type`. -/
def inferChildType (e : Expression F) (schema : Schema) : DataType :=
  match e with
  | .column name => ((schema.getField? name).map Field.dataType).getD .string
  | _ => .string

/-- `result_type` of the aggregate classes. -/
def AggregateName.resultType : AggregateName → DataType → DataType
  | .count, _ => .int
  | .sum, t => t
  | .avg, _ => .float
  | .min, t => t
  | .max, t => t

/-- `_aggregate_output_field`. -/
def aggregateOutputField (e : Expression F) (childSchema : Schema) : Py Field := do
  let name ← e.outputName
  match e.unalias with
  | .countStar => pure ⟨name, AggregateName.resultType .count .string, true⟩
  | .aggregate aggregate child =>
      pure ⟨name, aggregate.resultType (inferChildType child childSchema), true⟩
  | _ => do
      let text ← e.repr
      .error (.valueError ("Expected an aggregate expression, got " ++ text))

namespace LogicalPlan

/-- The `schema` property. An empty column list never looks at the child's schema. -/
def schema : LogicalPlan F → Py Schema
  | .scan dataset _ _ => .ok dataset.schema
  | .filter child _ => child.schema
  | .project child columns => do
      let fields ← columns.mapM (fun e => child.schema >>= outputField e)
      Schema.make (PyRuntime.isPrintable F) fields
  | .aggregate child groupBy aggregates => do
      let groupFields ← groupBy.mapM (fun g => child.schema >>= outputField g)
      let aggFields ← aggregates.mapM (fun a => child.schema >>= aggregateOutputField a)
      Schema.make (PyRuntime.isPrintable F) (groupFields ++ aggFields)
  | .join left right on _ _ => do
      let l ← left.schema
      let r ← right.schema
      Schema.make (PyRuntime.isPrintable F) (l.fields ++ r.fields.filter (fun f => f.name ∉ on))
  | .sort child _ => child.schema

/-- Comma-separated output names. -/
def nameList (es : List (Expression F)) : Py String := do
  let names ← es.mapM Expression.outputName
  pure (", ".intercalate names)

/-- `node_label`. -/
def nodeLabel : LogicalPlan F → Py String
  | .scan dataset sourceName _ =>
      .ok ("Scan[" ++ sourceName ++ "] (" ++ ", ".intercalate dataset.schema.fieldNames ++ ")")
  | .filter _ condition => do
      let text ← condition.repr
      pure ("Filter[" ++ text ++ "]")
  | .project _ columns => do
      let names ← nameList columns
      pure ("Project[" ++ names ++ "]")
  | .aggregate _ groupBy aggregates => do
      let groups ← nameList groupBy
      let aggs ← nameList aggregates
      pure ("Aggregate[groupBy=(" ++ groups ++ "), aggregates=(" ++ aggs ++ ")]")
  | .join _ _ on how broadcast =>
      .ok ("Join[" ++ how ++ ", on=(" ++ ", ".intercalate on ++ ")]" ++
        if broadcast then " broadcast" else "")
  | .sort _ keys => do
      let labels ← keys.mapM (fun k => do
        let name ← k.1.outputName
        pure (name ++ if k.2 then " ASC" else " DESC"))
      pure ("Sort[" ++ ", ".intercalate labels ++ "]")

/-- `_render`: one line a node, children indented by two more blanks. -/
def render : LogicalPlan F → String → Py (List String)
  | p@(.scan _ _ _), indent => do
      let label ← p.nodeLabel
      pure [indent ++ label]
  | p@(.filter child _), indent => do
      let label ← p.nodeLabel
      let lines ← child.render (indent ++ "  ")
      pure ((indent ++ label) :: lines)
  | p@(.project child _), indent => do
      let label ← p.nodeLabel
      let lines ← child.render (indent ++ "  ")
      pure ((indent ++ label) :: lines)
  | p@(.aggregate child _ _), indent => do
      let label ← p.nodeLabel
      let lines ← child.render (indent ++ "  ")
      pure ((indent ++ label) :: lines)
  | p@(.join left right _ _ _), indent => do
      let label ← p.nodeLabel
      let leftLines ← left.render (indent ++ "  ")
      let rightLines ← right.render (indent ++ "  ")
      pure ((indent ++ label) :: (leftLines ++ rightLines))
  | p@(.sort child _), indent => do
      let label ← p.nodeLabel
      let lines ← child.render (indent ++ "  ")
      pure ((indent ++ label) :: lines)

/-- `explain_string`. -/
def explainString (plan : LogicalPlan F) : Py String := do
  let lines ← plan.render ""
  pure ("\n".intercalate lines)

/-- Everything `explain_string` prints has a text. -/
def Explains : LogicalPlan F → Prop
  | .scan _ _ _ => True
  | .filter child condition => child.Explains ∧ condition.prints = true
  | .project child columns => child.Explains ∧ ∀ e ∈ columns, e.namePrints = true
  | .aggregate child groupBy aggregates =>
      child.Explains ∧ ∀ e ∈ groupBy ++ aggregates, e.namePrints = true
  | .join left right _ _ _ => left.Explains ∧ right.Explains
  | .sort child keys => child.Explains ∧ ∀ k ∈ keys, k.1.namePrints = true

lemma nameList_ok {es : List (Expression F)} (h : ∀ e ∈ es, e.namePrints = true) :
    ∃ names, nameList es = .ok names := by
  have hnames : es.mapM Expression.outputName = .ok (es.map Expression.columnName) :=
    ExceptList.mapM_ok_of_forall (fun e he => by rw [e.outputName_eq, h e he, printed_true])
  exact ⟨_, by rw [nameList, hnames]; rfl⟩

lemma render_ok {plan : LogicalPlan F} (h : plan.Explains) (indent : String) :
    ∃ lines, plan.render indent = .ok lines := by
  induction plan generalizing indent with
  | scan dataset sourceName source => exact ⟨_, rfl⟩
  | filter child condition ih =>
      obtain ⟨lines, hlines⟩ := ih h.1 (indent ++ "  ")
      exact ⟨_, by rw [render, nodeLabel, condition.repr_eq, h.2, printed_true, hlines]; rfl⟩
  | project child columns ih =>
      obtain ⟨lines, hlines⟩ := ih h.1 (indent ++ "  ")
      obtain ⟨names, hnames⟩ := nameList_ok h.2
      exact ⟨_, by rw [render, nodeLabel, hnames, hlines]; rfl⟩
  | aggregate child groupBy aggregates ih =>
      obtain ⟨lines, hlines⟩ := ih h.1 (indent ++ "  ")
      obtain ⟨groups, hgroups⟩ := nameList_ok (fun e he => h.2 e (List.mem_append_left _ he))
      obtain ⟨aggs, haggs⟩ := nameList_ok (fun e he => h.2 e (List.mem_append_right _ he))
      exact ⟨_, by rw [render, nodeLabel, hgroups, haggs, hlines]; rfl⟩
  | join left right on how broadcast ihl ihr =>
      obtain ⟨llines, hl⟩ := ihl h.1 (indent ++ "  ")
      obtain ⟨rlines, hr⟩ := ihr h.2 (indent ++ "  ")
      exact ⟨_, by rw [render, nodeLabel, hl, hr]; rfl⟩
  | sort child keys ih =>
      obtain ⟨lines, hlines⟩ := ih h.1 (indent ++ "  ")
      have hlabels : keys.mapM (fun k => do
          let name ← k.1.outputName
          pure (name ++ if k.2 then " ASC" else " DESC")) =
          .ok (keys.map (fun k => k.1.columnName ++ if k.2 then " ASC" else " DESC")) :=
        ExceptList.mapM_ok_of_forall (fun k hk => by
          rw [k.1.outputName_eq, h.2 k hk, printed_true]
          rfl)
      exact ⟨_, by rw [render, nodeLabel, hlabels, hlines]; rfl⟩

/-- A plan whose labels print is printed. -/
theorem Explains.explainString_ok {plan : LogicalPlan F} (h : plan.Explains) :
    ∃ text, plan.explainString = .ok text := by
  obtain ⟨lines, hlines⟩ := render_ok h ""
  exact ⟨_, by rw [explainString, hlines]; rfl⟩

end LogicalPlan

section Examples

/-- Two integer columns. -/
def abSchema : Schema := ⟨[⟨"a", .int, false⟩, ⟨"b", .int, false⟩], by decide⟩

/-- A table with the one row `{"a": 1, "b": 2}`. -/
def abTable : LogicalPlan ℚ :=
  .scan (rowsDataset abSchema [[OrderedDict.ofList [("a", .int 1), ("b", .int 2)]]]) "memory" none

/-- Rows of the given columns, one list for each partition. -/
def intRows (columns : List String) (parts : List (List (List (Value ℚ)))) :
    List (List (Record ℚ)) :=
  parts.map (fun rows => rows.map (fun values => OrderedDict.ofList (columns.zip values)))

/-- A table of nullable integer columns. -/
def intTable (columns : List String) (h : columns.Nodup) (parts : List (List (List (Value ℚ)))) :
    LogicalPlan ℚ :=
  .scan (rowsDataset ⟨columns.map (fun c => ⟨c, .int, true⟩), by simpa [Function.comp_def] using h⟩
    (intRows columns parts)) "memory" none

end Examples

end MiniSpark
