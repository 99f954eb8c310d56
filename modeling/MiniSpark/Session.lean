import MiniSpark.DataFrame
import MiniSpark.DataSources
import MiniSpark.Parquet
import MiniSpark.SqlQueries

/-!
# The session

A session holds its configuration and the data frames registered as views. Its `sql` makes
a plan of a query over the plans of the views; the same data frame can be had by calls on
the registered frames, clause by clause, where the query groups what it aggregates.
-/
namespace MiniSpark

variable {F : Type}

section Model

/-- `MiniSparkSession`. -/
structure Session (F : Type) where
  config : Config
  tempViews : OrderedDict String (DataFrame F)

namespace Session

/-- `MiniSparkSession(config)`. -/
def start (config : Config) : Session F := ⟨config, OrderedDict.empty⟩

/-- `MiniSparkSession.builder.master(value).get_or_create()`. -/
def getOrCreate (master : String) : Session F := start { engine := { master := master } }

/-- `create_or_replace_temp_view`. -/
def createOrReplaceTempView (session : Session F) (name : String) (df : DataFrame F) : Session F :=
  { session with tempViews := session.tempViews.set name df }

/-- Views registered one after the other. -/
def registerAll (session : Session F) (views : List (String × DataFrame F)) : Session F :=
  views.foldl (fun s view => s.createOrReplaceTempView view.1 view.2) session

/-- The plans of the views, by name. -/
def tables (session : Session F) : OrderedDict String (LogicalPlan F) :=
  OrderedDict.ofList (session.tempViews.items.map (fun view => (view.1, view.2.plan)))

variable [PyRuntime F]

/-- `sql`. -/
def sql [PyText F] (session : Session F) (query : String) : Except SqlError (DataFrame F) := do
  let plan ← parseSql query session.tables
  pure ⟨session.config, plan⟩

/-- A frame that scans what a source reads. -/
def scanning (session : Session F) (sourceName : String) (source : ScanSource F) :
    Py (DataFrame F) := do
  let dataset ← source.read none none
  pure ⟨session.config, .scan dataset sourceName (some source)⟩

/-- `create_dataframe`. -/
def createDataframe (session : Session F) (records : List (Record F)) (schema : Option Schema)
    (numPartitions : ℤ) : Py (DataFrame F) :=
  session.scanning "memory" (memorySource records schema numPartitions)

/-- `read.csv` of a file with this text. -/
def readCsv [PyCsv F] (session : Session F) (path : String) (text : List Char)
    (numPartitions : ℤ) : Py (DataFrame F) :=
  session.scanning ("csv:" ++ path) (csvSource text numPartitions)

/-- `read.parquet` of a directory with these files. -/
def readParquet [PyArrow F] (session : Session F) (path : String) (files : Directory F)
    (numPartitions : ℤ) : Py (DataFrame F) :=
  session.scanning ("parquet:" ++ path) ⟨MiniSpark.readParquet numPartitions files⟩

end Session

end Model

section Views

/-- The frame registered last under a name. -/
def lastRegistered (views : List (String × DataFrame F)) (name : String) : Option (DataFrame F) :=
  views.foldl (fun found view => if view.1 == name then some view.2 else found) none

namespace Session

/-- Registering replaces the view of that name and no other. -/
lemma registerAll_tempViews (session : Session F) (views : List (String × DataFrame F))
    (name : String) : (session.registerAll views).tempViews.get? name =
      views.foldl (fun found view => if view.1 == name then some view.2 else found)
        (session.tempViews.get? name) := by
  induction views generalizing session with
  | nil => rfl
  | cons view views ih =>
      rw [registerAll, List.foldl_cons, ← registerAll, ih, List.foldl_cons, createOrReplaceTempView,
        OrderedDict.get?_set]

lemma registerAll_config (session : Session F) (views : List (String × DataFrame F)) :
    (session.registerAll views).config = session.config := by
  induction views generalizing session with
  | nil => rfl
  | cons view views ih => rw [registerAll, List.foldl_cons, ← registerAll, ih, createOrReplaceTempView]

lemma tables_get? (session : Session F) (name : String) :
    session.tables.get? name = (session.tempViews.get? name).map DataFrame.plan := by
  have hdistinct : ((session.tempViews.items.map (fun view => (view.1, view.2.plan))).map
      Prod.fst).Pairwise (fun a b => (a == b) = false) := by
    rw [List.map_map]
    exact session.tempViews.distinct
  simp only [OrderedDict.get?, tables, OrderedDict.items_ofList _ hdistinct, OrderedDict.findItem,
    List.find?_map, Option.map_map]
  rfl

end Session

lemma lastRegistered_mem {views : List (String × DataFrame F)} {name : String} {df : DataFrame F}
    (h : lastRegistered views name = some df) : (name, df) ∈ views := by
  induction views using List.reverseRecOn with
  | nil => cases h
  | append_singleton views view ih =>
      rw [lastRegistered, List.foldl_append, ← lastRegistered] at h
      by_cases hname : view.1 = name
      · simp only [List.foldl_cons, List.foldl_nil, hname, BEq.rfl, if_true, Option.some.injEq] at h
        simp [← hname, ← h]
      · simp only [List.foldl_cons, List.foldl_nil, beq_eq_false_iff_ne.mpr hname] at h
        exact List.mem_append_left _ (ih h)

end Views

section Calls

/-- What a call on a data frame raises, as an error of the query. -/
def calling {α : Type} (x : Py α) : Except SqlError α := x.mapError .raised

/-- `views[name]`. -/
def viewNamed (views : String → Option (DataFrame F)) (name : String) : Py (DataFrame F) :=
  match views name with
  | some df => .ok df
  | none => .error (.keyError name)

/-- `.join(views[name], on=column)`, where there is a join. -/
def callJoin (views : String → Option (DataFrame F)) (df : DataFrame F) :
    Option (String × String) → Py (DataFrame F)
  | none => .ok df
  | some (name, column) => do
      let other ← viewNamed views name
      df.join other [column] "inner" false

/-- `.filter(condition)`, where there is a condition. -/
def callFilter (df : DataFrame F) : Option (Expression F) → DataFrame F
  | none => df
  | some condition => df.filter condition

/-- `.select(*items)`, or `.group_by(*groupBy).agg(*aggregates)` where the query aggregates. -/
def callSelect (df : DataFrame F) (selectItems : Option (List (Expression F)))
    (groupBy : List (Expression F)) : Py (DataFrame F) :=
  match selectItems with
  | none => .ok df
  | some items =>
      if groupBy = [] ∧ items.filter containsAggregate = [] then
        df.select (items.map .expression)
      else do
        let grouped ← df.groupBy (groupBy.map .expression)
        grouped.agg (items.filter containsAggregate)

variable [PyRuntime F]

/-- The condition of `HAVING` over the columns it is about. -/
def havingCondition (plan : LogicalPlan F) (having : Expression F) :
    Except SqlError (Expression F) :=
  match plan with
  | .aggregate _ _ aggregates => substituteAggregates aggregates having
  | _ => .ok having

/-- `.filter(condition)` with the condition of `HAVING`. -/
def callHaving (df : DataFrame F) : Option (Expression F) → Except SqlError (DataFrame F)
  | none => .ok df
  | some having => do
      let condition ← havingCondition df.plan having
      pure (df.filter condition)

omit [PyRuntime F] in
/-- `.order_by(*columns, ascending=[...])`, where there is an order. -/
def callOrderBy (df : DataFrame F) : Option (List (Expression F × Bool)) → Py (DataFrame F)
  | none => .ok df
  | some keys => df.orderBy (keys.map (fun key => .expression key.1)) (.each (keys.map Prod.snd))

/-- The calls on the registered frames that say what the statement says. -/
def Statement.calls (s : Statement F) (views : String → Option (DataFrame F)) :
    Except SqlError (DataFrame F) := do
  let left ← calling (viewNamed views s.table)
  let joined ← calling (callJoin views left s.join)
  let selected ← calling (callSelect (callFilter joined s.condition) s.selectItems s.groupBy)
  let kept ← callHaving selected s.having
  calling (callOrderBy kept s.orderBy)

/-- A query with a select list aggregates exactly where it groups. -/
def Statement.AggregatesGroups (s : Statement F) : Prop :=
  ∀ items ∈ s.selectItems, (s.groupBy = [] ↔ items.filter containsAggregate = [])

end Calls

section Frames

variable [PyRuntime F] {views : String → Option (DataFrame F)} {df : DataFrame F}
variable {tables : OrderedDict String (LogicalPlan F)} {plan : LogicalPlan F}

omit [PyRuntime F] in
lemma calling_eq_ok {α : Type} {x : Py α} {a : α} : calling x = .ok a ↔ x = .ok a := by
  cases x <;> simp [calling, Except.mapError]

/-- The tables hold the plans of the views. -/
def Lists (tables : OrderedDict String (LogicalPlan F)) (views : String → Option (DataFrame F)) :
    Prop :=
  ∀ name, tables.get? name = (views name).map DataFrame.plan

lemma Lists.viewNamed (h : Lists tables views) {name : String}
    (hplan : resolveTable tables name = .ok plan) :
    ∃ df, viewNamed views name = .ok df ∧ views name = some df ∧ df.plan = plan := by
  rw [resolveTable_eq_ok, h name, Option.map_eq_some_iff] at hplan
  obtain ⟨df, hdf, rfl⟩ := hplan
  exact ⟨df, by simp [MiniSpark.viewNamed, hdf], hdf, rfl⟩

lemma callJoin_eq_ok (h : Lists tables views) {join : Option (String × String)}
    (hplan : joinTables tables df.plan join = .ok plan) :
    callJoin views df join = .ok { df with plan := plan } := by
  cases join with
  | none =>
      cases hplan
      rfl
  | some pair =>
      obtain ⟨right, hright, hplan⟩ := ExceptList.bind_eq_ok.mp hplan
      cases hplan
      obtain ⟨other, hother, -, rfl⟩ := h.viewNamed hright
      simp [callJoin, hother, DataFrame.join]

omit [PyRuntime F] in
lemma callFilter_eq (df : DataFrame F) (condition : Option (Expression F)) :
    callFilter df condition = { df with plan := filterBy df.plan condition } := by
  cases condition <;> rfl

omit [PyRuntime F] in
lemma map_expression (es : List (Expression F)) :
    (es.map ColumnLike.expression).map ColumnLike.toExpression = es := by
  rw [List.map_map]
  exact List.map_id es

omit [PyRuntime F] in
lemma select_expressions {es : List (Expression F)} (hes : es ≠ []) :
    df.select (es.map .expression) = .ok { df with plan := .project df.plan es } := by
  have hne : es.map ColumnLike.expression ≠ [] := by simpa using hes
  rw [DataFrame.select, if_neg hne, map_expression]

omit [PyRuntime F] in
/-- Neither `group_by` nor `agg` takes an empty list. -/
lemma groupBy_agg_eq_ok {df' : DataFrame F} {groupBy aggregates : List (Expression F)} :
    (df.groupBy (groupBy.map .expression) >>= fun grouped => grouped.agg aggregates) = .ok df' ↔
      groupBy ≠ [] ∧ aggregates ≠ [] ∧
        df' = { df with plan := .aggregate df.plan groupBy aggregates } := by
  by_cases hgroup : groupBy = []
  · simp [DataFrame.groupBy, hgroup]
  · have hne : groupBy.map ColumnLike.expression ≠ [] := by simpa using hgroup
    rw [DataFrame.groupBy, if_neg hne, ExceptList.bind_ok, map_expression, GroupedData.agg]
    by_cases haggregates : aggregates = []
    · simp [haggregates]
    · simp [haggregates, hgroup, eq_comm]

/-- The call makes the plan of the select list exactly where the query groups what it
aggregates, and no other plan. -/
lemma callSelect_eq_ok_iff {items : Option (List (Expression F))} {groupBy : List (Expression F)}
    {df' : DataFrame F} (hitems : ∀ es ∈ items, es ≠ [])
    (hplan : applySelect df.plan items groupBy = .ok plan) :
    callSelect df items groupBy = .ok df' ↔ df' = { df with plan := plan } ∧
      ∀ es ∈ items, (groupBy = [] ↔ es.filter containsAggregate = []) := by
  obtain ⟨rfl, rfl⟩ | ⟨es, rfl, rfl, hplain, rfl⟩ | ⟨es, rfl, hgrouped, rfl⟩ := applySelect_eq_ok hplan
  · simp only [callSelect, Except.ok.injEq, Option.mem_def, reduceCtorEq, false_implies,
      implies_true, and_true]
    exact eq_comm
  · rw [callSelect, if_pos ⟨rfl, hplain⟩, select_expressions (hitems es rfl)]
    simp only [Option.mem_def, Option.some.injEq, forall_eq', hplain, Except.ok.injEq]
    exact ⟨fun h => ⟨h.symm, trivial⟩, fun h => h.1.symm⟩
  · rw [callSelect, if_neg hgrouped, groupBy_agg_eq_ok]
    simp only [Option.mem_def, Option.some.injEq, forall_eq']
    constructor
    · rintro ⟨hgroup, haggregates, rfl⟩
      exact ⟨rfl, iff_of_false hgroup haggregates⟩
    · rintro ⟨rfl, hiff⟩
      have hgroup : groupBy ≠ [] := fun h => hgrouped ⟨h, hiff.mp h⟩
      exact ⟨hgroup, fun h => hgroup (hiff.mpr h), rfl⟩

omit [PyRuntime F] in
lemma callOrderBy_eq_ok {orderBy : Option (List (Expression F × Bool))}
    (hkeys : ∀ keys ∈ orderBy, keys ≠ []) :
    callOrderBy df orderBy = .ok { df with plan := sortBy df.plan orderBy } := by
  cases orderBy with
  | none => rfl
  | some keys =>
      have hne : keys.map (fun key => ColumnLike.expression key.1) ≠ [] := by
        simpa using hkeys keys rfl
      have hexprs : (keys.map (fun key => ColumnLike.expression key.1)).map
          ColumnLike.toExpression = keys.map Prod.fst := by
        rw [List.map_map]
        rfl
      have hzip : (keys.map Prod.fst).zip (keys.map Prod.snd) = keys := (List.zip_of_prod rfl rfl).symm
      rw [callOrderBy, DataFrame.orderBy, if_neg hne, hexprs]
      simp [hzip, sortBy]

/-- The filter that the parser puts above a plan has the condition of `HAVING`. -/
lemma applyHaving_eq_ok {child : LogicalPlan F} {having : Expression F}
    (h : applyHaving child having = .ok plan) :
    ∃ condition, havingCondition child having = .ok condition ∧ plan = .filter child condition := by
  cases child with
  | aggregate child groupBy aggregates =>
      obtain ⟨condition, hcondition, h⟩ := ExceptList.bind_eq_ok.mp h
      cases h
      exact ⟨condition, hcondition, rfl⟩
  | scan _ _ _ | filter _ _ | project _ _ | join _ _ _ _ _ | sort _ _ =>
      cases h
      exact ⟨having, rfl, rfl⟩

lemma callHaving_eq_ok {having : Option (Expression F)}
    (hplan : havingOf df.plan having = .ok plan) :
    callHaving df having = .ok { df with plan := plan } := by
  cases having with
  | none =>
      cases hplan
      rfl
  | some having =>
      obtain ⟨condition, hcondition, rfl⟩ := applyHaving_eq_ok hplan
      rw [callHaving, hcondition]
      rfl

/-- The calls of an accepted statement. -/
theorem Statement.calls_eq_ok_iff {s : Statement F} {df' : DataFrame F} (h : Lists tables views)
    (hitems : ∀ es ∈ s.selectItems, es ≠ []) (hkeys : ∀ keys ∈ s.orderBy, keys ≠ [])
    (hplan : s.toPlan tables = .ok plan) :
    s.calls views = .ok df' ↔
      (∃ left, views s.table = some left ∧ df' = { left with plan := plan }) ∧ s.AggregatesGroups := by
  obtain ⟨table, joined, selected, grouped, htable, hjoined, hselected, hgrouped, rfl⟩ :=
    Statement.toPlan_eq_ok hplan
  obtain ⟨left, hleft, hview, rfl⟩ := h.viewNamed htable
  have hjoin : callJoin views left s.join = .ok { left with plan := joined } := callJoin_eq_ok h hjoined
  rw [Statement.calls, calling_eq_ok.mpr hleft, ExceptList.bind_ok, calling_eq_ok.mpr hjoin,
    ExceptList.bind_ok, callFilter_eq, ExceptList.bind_eq_ok]
  simp only [calling_eq_ok]
  constructor
  · rintro ⟨chosen, hchosen, hrest⟩
    obtain ⟨rfl, hgroups⟩ := (callSelect_eq_ok_iff hitems hselected).mp hchosen
    rw [callHaving_eq_ok hgrouped, ExceptList.bind_ok, calling_eq_ok, callOrderBy_eq_ok hkeys] at hrest
    cases hrest
    exact ⟨⟨left, hview, rfl⟩, hgroups⟩
  · rintro ⟨⟨left', hview', rfl⟩, hgroups⟩
    obtain rfl : left = left' := Option.some.inj (hview.symm.trans hview')
    refine ⟨_, (callSelect_eq_ok_iff hitems hselected).mpr ⟨rfl, hgroups⟩, ?_⟩
    rw [callHaving_eq_ok hgrouped, ExceptList.bind_ok, calling_eq_ok, callOrderBy_eq_ok hkeys]

end Frames

section Sql

variable [PyRuntime F] [PyText F] [LawfulPyText F]

/-- No list of a spelled statement is empty. -/
lemma SpellsList.ne_nil {α : Type} {item : α → List Spelling → Prop} {as : List α}
    {ss : List Spelling} (h : SpellsList item as ss) : as ≠ [] := by
  cases h <;> simp

omit [PyText F] [LawfulPyText F] in
lemma SpellsStatement.ne_nil {s : Statement F} {ss : List Spelling} (h : SpellsStatement s ss) :
    (∀ es ∈ s.selectItems, es ≠ []) ∧ ∀ keys ∈ s.orderBy, keys ≠ [] := by
  cases h with
  | select hlist _ _ _ _ hsorted =>
      constructor
      · rintro es ⟨⟩
        cases hlist with
        | items hes => exact hes.ne_nil
      · rintro keys ⟨⟩
        cases hsorted with
        | present hbody =>
            cases hbody with
            | «by» hkeys => exact hkeys.ne_nil

/-- Whatever views a session has been given, in any order and under any names, the data frame
of an accepted query is the one the calls on the frames registered last make, exactly where the
query groups what it aggregates; no call aggregates without a grouping or groups without an
aggregate. -/
theorem sql_builds_calls {config : Config} {views : List (String × DataFrame F)}
    (hviews : ∀ view ∈ views, view.2.config = config) {s : Statement F} {ss : List Spelling}
    {cs : List Char} (hs : SpellsStatement s ss) (hcs : WritesAll F ss cs) {df : DataFrame F}
    (hsql : ((Session.start config).registerAll views).sql (String.ofList cs) = .ok df) :
    s.calls (lastRegistered views) = .ok df ↔ s.AggregatesGroups := by
  have hlists : Lists ((Session.start config).registerAll views).tables (lastRegistered views) := by
    intro name
    rw [Session.tables_get?, Session.registerAll_tempViews]
    rfl
  have hparse : parseSql (String.ofList cs) ((Session.start config).registerAll views).tables =
      s.toPlan ((Session.start config).registerAll views).tables := by
    obtain ⟨ts, eof, htokens, hts, heof⟩ := tokenize_written hcs
    exact parseSql_of_tokens hs htokens hts heof _
  obtain ⟨plan, hplan, hframe⟩ := ExceptList.bind_eq_ok.mp hsql
  cases hframe
  rw [hparse] at hplan
  rw [Statement.calls_eq_ok_iff hlists hs.ne_nil.1 hs.ne_nil.2 hplan]
  refine and_iff_right ?_
  obtain ⟨table, _, _, _, htable, -⟩ := Statement.toPlan_eq_ok hplan
  obtain ⟨left, -, hview, -⟩ := hlists.viewNamed htable
  refine ⟨left, hview, ?_⟩
  rw [Session.registerAll_config, Session.start, ← hviews _ (lastRegistered_mem hview)]

/-- Two frames registered under one name: the query is about the second. -/
def tViews : List (String × DataFrame ℚ) := [("t", ⟨{}, .filter abTable aAboveTwenty⟩), ("t", ⟨{}, abTable⟩)]

theorem sql_builds_calls_selfJoin :
    selfJoinDescending.calls (lastRegistered tViews) =
        .ok ⟨{}, .sort (.join abTable abTable ["a"] "inner" false) [(.column "a", false)]⟩ ↔
      selfJoinDescending.AggregatesGroups := by
  have hviews : ∀ view ∈ tViews, view.2.config = {} := by simp [tViews]
  have hsql : ((Session.start {}).registerAll tViews).sql (String.ofList selfJoinText) =
      .ok ⟨{}, .sort (.join abTable abTable ["a"] "inner" false) [(.column "a", false)]⟩ := by
    obtain ⟨ts, eof, htokens, hts, heof⟩ := tokenize_written selfJoin_written
    rw [Session.sql, parseSql_of_tokens selfJoin_spelled htokens hts heof]
    rfl
  exact sql_builds_calls hviews selfJoin_spelled selfJoin_written hsql

end Sql

end MiniSpark
