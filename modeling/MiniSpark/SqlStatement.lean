import MiniSpark.SqlParser

/-!
# The statement a query makes

What a query says, apart from the plan it is translated to: its clauses as parsed, and the
plan they stand for. The parser builds the plan as it goes; an accepted query is one whose
statement can be read and has a plan, and that is the plan returned.
-/
namespace MiniSpark

variable {F : Type}

section Statements

/-- The clauses of a query; `none` for `SELECT *`. -/
structure Statement (F : Type) where
  selectItems : Option (List (Expression F))
  table : String
  join : Option (String × String)
  condition : Option (Expression F)
  groupBy : List (Expression F)
  having : Option (Expression F)
  orderBy : Option (List (Expression F × Bool))

variable [PyRuntime F]

/-- The join of a statement: the right table and the column of both sides. -/
def joinTables (tables : OrderedDict String (LogicalPlan F)) (left : LogicalPlan F) :
    Option (String × String) → Except SqlError (LogicalPlan F)
  | none => .ok left
  | some (rightName, column) => do
      let right ← resolveTable tables rightName
      pure (.join left right [column] "inner" false)

/-- A filter, where there is a condition. -/
def filterBy (plan : LogicalPlan F) : Option (Expression F) → LogicalPlan F
  | none => plan
  | some condition => .filter plan condition

/-- A sort, where there is an order. -/
def sortBy (plan : LogicalPlan F) : Option (List (Expression F × Bool)) → LogicalPlan F
  | none => plan
  | some keys => .sort plan keys

/-- `HAVING`, where there is one. -/
def havingOf (plan : LogicalPlan F) : Option (Expression F) → Except SqlError (LogicalPlan F)
  | none => .ok plan
  | some having => applyHaving plan having

/-- The plan a statement stands for. -/
def Statement.toPlan (tables : OrderedDict String (LogicalPlan F)) (s : Statement F) :
    Except SqlError (LogicalPlan F) := do
  let table ← resolveTable tables s.table
  let joined ← joinTables tables table s.join
  let selected ← applySelect (filterBy joined s.condition) s.selectItems s.groupBy
  let grouped ← havingOf selected s.having
  pure (sortBy grouped s.orderBy)

/-- What the select list makes of the plan: `SELECT *` leaves it, a list without
aggregates projects, any other aggregates. -/
lemma applySelect_eq_ok {plan selected : LogicalPlan F} {items : Option (List (Expression F))}
    {groupBy : List (Expression F)} (h : applySelect plan items groupBy = .ok selected) :
    (items = none ∧ selected = plan) ∨
    (∃ es, items = some es ∧ groupBy = [] ∧ es.filter containsAggregate = [] ∧
      selected = .project plan es) ∨
    (∃ es, items = some es ∧ ¬ (groupBy = [] ∧ es.filter containsAggregate = []) ∧
      selected = .aggregate plan groupBy (es.filter containsAggregate)) := by
  cases items with
  | none =>
      by_cases hgroup : groupBy ≠ []
      · rw [applySelect, if_pos hgroup] at h
        cases h
      · rw [applySelect, if_neg hgroup] at h
        cases h
        exact Or.inl ⟨rfl, rfl⟩
  | some es =>
      right
      unfold applySelect at h
      dsimp only at h
      by_cases hplain : groupBy = [] ∧ es.filter containsAggregate = []
      · rw [if_pos hplain] at h
        cases h
        exact Or.inl ⟨es, rfl, hplain.1, hplain.2, rfl⟩
      · rw [if_neg hplain] at h
        refine Or.inr ⟨es, rfl, hplain, ?_⟩
        split at h
        · cases h
        · obtain ⟨_, -, h⟩ := ExceptList.bind_eq_ok.mp h
          cases h
          rfl

/-- The plan of a statement, clause by clause. -/
lemma Statement.toPlan_eq_ok {tables : OrderedDict String (LogicalPlan F)} {s : Statement F}
    {plan : LogicalPlan F} (h : s.toPlan tables = .ok plan) :
    ∃ table joined selected grouped, resolveTable tables s.table = .ok table ∧
      joinTables tables table s.join = .ok joined ∧
      applySelect (filterBy joined s.condition) s.selectItems s.groupBy = .ok selected ∧
      havingOf selected s.having = .ok grouped ∧ plan = sortBy grouped s.orderBy := by
  obtain ⟨table, htable, h⟩ := ExceptList.bind_eq_ok.mp h
  obtain ⟨joined, hjoined, h⟩ := ExceptList.bind_eq_ok.mp h
  obtain ⟨selected, hselected, h⟩ := ExceptList.bind_eq_ok.mp h
  obtain ⟨grouped, hgrouped, h⟩ := ExceptList.bind_eq_ok.mp h
  cases h
  exact ⟨table, joined, selected, grouped, htable, hjoined, hselected, hgrouped, rfl⟩

end Statements

section Reader

variable [PyRuntime F]

/-- `JOIN`: the right table and the column. -/
def readJoin : SqlParse F (Option (String × String)) := do
  let rightName ← expectIdentifier
  expectKeyword "ON"
  let leftCol ← parseQualifiedName
  expectOperator "="
  let _ ← parseQualifiedName
  pure (some (rightName, leftCol))

variable [PyText F]

/-- `WHERE` and `HAVING`: the condition. -/
def readCondition (fuel : ℕ) : SqlParse F (Option (Expression F)) := do
  let condition ← parseExpr fuel
  pure (some condition)

/-- `ORDER BY`: the keys. -/
def readOrderBy (fuel : ℕ) : SqlParse F (Option (List (Expression F × Bool))) := do
  expectKeyword "BY"
  let keys ← commaList (parseOrderItem fuel) fuel
  pure (some keys)

/-- The clauses of a query, whatever tables there are. -/
def readStatement (fuel : ℕ) : SqlParse F (Statement F) := do
  expectKeyword "SELECT"
  let selectItems ← parseSelectList fuel
  expectKeyword "FROM"
  let table ← expectIdentifier
  let join ← optionalClause "JOIN" readJoin none
  let condition ← optionalClause "WHERE" (readCondition fuel) none
  let groupBy ← optionalClause "GROUP" (parseGroupBy fuel) []
  let having ← optionalClause "HAVING" (readCondition fuel) none
  let orderBy ← optionalClause "ORDER" (readOrderBy fuel) none
  pure ⟨selectItems, table, join, condition, groupBy, having, orderBy⟩

/-- The statement of a query text. -/
def readQuery (query : String) : Except SqlError (Statement F) := do
  let tokens ← tokenize F query
  Prod.fst <$> Asks.run pyNumber (readStatement tokens.length tokens)

end Reader

section Runs

/-- A parser returns a value and leaves the given tokens. -/
def Returns {α : Type} (answer : String → Except SqlError (Value F)) (p : SqlParse F α)
    (ts : List Token) (a : α) (ts' : List Token) : Prop :=
  Asks.run answer (p ts) = .ok (a, ts')

variable {α β : Type} {answer : String → Except SqlError (Value F)} {ts ts' : List Token}

lemma returns_bind {p : SqlParse F α} {f : α → SqlParse F β} {b : β} :
    Returns answer (p >>= f) ts b ts' ↔
      ∃ a mid, Returns answer p ts a mid ∧ Returns answer (f a) mid b ts' := by
  show Asks.run answer (p ts >>= fun r => f r.1 r.2) = _ ↔ _
  rw [Asks.run_bind, ExceptList.bind_eq_ok]
  constructor
  · rintro ⟨⟨a, mid⟩, hp, hf⟩
    exact ⟨a, mid, hp, hf⟩
  · rintro ⟨a, mid, hp, hf⟩
    exact ⟨(a, mid), hp, hf⟩

lemma returns_pure {a b : α} :
    Returns answer (pure a : SqlParse F α) ts b ts' ↔ a = b ∧ ts = ts' := by
  show (Except.ok (a, ts) : Except SqlError _) = .ok (b, ts') ↔ _
  rw [Except.ok.injEq, Prod.mk.injEq]

lemma not_returns_fail {e : SqlError} {a : α} :
    ¬ Returns answer (failParse e : SqlParse F α) ts a ts' := by
  intro h
  cases h

lemma returns_liftExcept {x : Except SqlError α} {a : α} :
    Returns answer (liftExcept x : SqlParse F α) ts a ts' ↔ x = .ok a ∧ ts = ts' := by
  cases x with
  | ok b =>
      rw [liftExcept, returns_pure, Except.ok.injEq]
  | error e => exact iff_of_false not_returns_fail (fun h => by cases h.1)

lemma returns_current {t : Token} (h : Returns answer (current : SqlParse F Token) ts t ts') :
    ts' = ts := by
  cases ts with
  | nil => cases h
  | cons t₀ rest =>
      obtain ⟨-, rfl⟩ := returns_pure.mp (show Returns answer (pure t₀) (t₀ :: rest) t ts' from h)
      rfl

/-- A clause that is there, or is not. -/
lemma returns_optionalClause {keyword : String} {clause : SqlParse F α} {otherwise a : α} :
    Returns answer (optionalClause keyword clause otherwise) ts a ts' ↔
      (∃ mid, Returns answer (matchKeyword keyword) ts true mid ∧ Returns answer clause mid a ts') ∨
      (Returns answer (matchKeyword keyword) ts false ts' ∧ a = otherwise) := by
  unfold optionalClause
  rw [returns_bind]
  constructor
  · rintro ⟨found, mid, hfound, h⟩
    cases found with
    | true => exact Or.inl ⟨mid, hfound, h⟩
    | false =>
        obtain ⟨rfl, rfl⟩ := returns_pure.mp h
        exact Or.inr ⟨hfound, rfl⟩
  · rintro (⟨mid, hfound, h⟩ | ⟨hfound, rfl⟩)
    · exact ⟨true, mid, hfound, h⟩
    · exact ⟨false, ts', hfound, returns_pure.mpr ⟨rfl, rfl⟩⟩

/-- Two clauses of which one stands for the other: both are there or neither. -/
lemma returns_clause {keyword : String} {clause : SqlParse F α} {reader : SqlParse F β}
    {otherwise a : α} (absent : β) {R : β → α → Prop} (habsent : R absent otherwise)
    (hclause : ∀ mid, Returns answer clause mid a ts' → ∃ b, Returns answer reader mid b ts' ∧ R b a)
    (h : Returns answer (optionalClause keyword clause otherwise) ts a ts') :
    ∃ b, Returns answer (optionalClause keyword reader absent) ts b ts' ∧ R b a := by
  obtain ⟨mid, hfound, h⟩ | ⟨hfound, rfl⟩ := returns_optionalClause.mp h
  · obtain ⟨b, hb, hR⟩ := hclause mid h
    exact ⟨b, returns_optionalClause.mpr (Or.inl ⟨mid, hfound, hb⟩), hR⟩
  · exact ⟨absent, returns_optionalClause.mpr (Or.inr ⟨hfound, rfl⟩), habsent⟩

end Runs

section Refinement

variable [PyRuntime F] [PyText F] {answer : String → Except SqlError (Value F)}
variable {ts ts' : List Token} {tables : OrderedDict String (LogicalPlan F)}

omit [PyText F] in
lemma parseJoin_reads {left plan : LogicalPlan F}
    (h : Returns answer (parseJoin tables left) ts plan ts') :
    ∃ join, Returns answer readJoin ts join ts' ∧ joinTables tables left join = .ok plan := by
  obtain ⟨rightName, ts₁, h1, h⟩ := returns_bind.mp h
  obtain ⟨right, ts₂, h2, h⟩ := returns_bind.mp h
  obtain ⟨hright, rfl⟩ := returns_liftExcept.mp h2
  obtain ⟨_, ts₃, h3, h⟩ := returns_bind.mp h
  obtain ⟨leftCol, ts₄, h4, h⟩ := returns_bind.mp h
  obtain ⟨_, ts₅, h5, h⟩ := returns_bind.mp h
  obtain ⟨rightCol, ts₆, h6, h⟩ := returns_bind.mp h
  by_cases hne : leftCol ≠ rightCol
  · rw [if_pos hne] at h
    exact absurd h not_returns_fail
  · rw [if_neg hne] at h
    obtain ⟨rfl, rfl⟩ := returns_pure.mp h
    refine ⟨some (rightName, leftCol), ?_, ?_⟩
    · refine returns_bind.mpr ⟨_, _, h1, returns_bind.mpr ⟨_, _, h3, ?_⟩⟩
      refine returns_bind.mpr ⟨_, _, h4, returns_bind.mpr ⟨_, _, h5, ?_⟩⟩
      exact returns_bind.mpr ⟨_, _, h6, returns_pure.mpr ⟨rfl, rfl⟩⟩
    · rw [joinTables, hright]
      rfl

lemma readCondition_returns {fuel : ℕ} {e : Expression F}
    (h : Returns answer (parseExpr fuel) ts e ts') :
    Returns answer (readCondition fuel) ts (some e) ts' :=
  returns_bind.mpr ⟨e, ts', h, returns_pure.mpr ⟨rfl, rfl⟩⟩

lemma parseOrderBy_reads {fuel : ℕ} {child plan : LogicalPlan F}
    (h : Returns answer (parseOrderBy fuel child) ts plan ts') :
    ∃ order, Returns answer (readOrderBy fuel) ts order ts' ∧ sortBy child order = plan := by
  obtain ⟨_, rest, hby, h⟩ := returns_bind.mp h
  obtain ⟨keys, rest', hkeys, h⟩ := returns_bind.mp h
  obtain ⟨rfl, rfl⟩ := returns_pure.mp h
  refine ⟨some keys, returns_bind.mpr ⟨_, _, hby, ?_⟩, rfl⟩
  exact returns_bind.mpr ⟨_, _, hkeys, returns_pure.mpr ⟨rfl, rfl⟩⟩

/-- A statement the parser accepts can be read, and the plan returned is its plan. -/
theorem parseSelectStmt_reads {fuel : ℕ} {plan : LogicalPlan F}
    (h : Returns answer (parseSelectStmt tables fuel) ts plan ts') :
    ∃ s, Returns answer (readStatement fuel) ts s ts' ∧ s.toPlan tables = .ok plan := by
  obtain ⟨_, ts₁, h1, h⟩ := returns_bind.mp h
  obtain ⟨items, ts₂, h2, h⟩ := returns_bind.mp h
  obtain ⟨_, ts₃, h3, h⟩ := returns_bind.mp h
  obtain ⟨name, ts₄, h4, h⟩ := returns_bind.mp h
  obtain ⟨table, ts₅, h5, h⟩ := returns_bind.mp h
  obtain ⟨htable, rfl⟩ := returns_liftExcept.mp h5
  obtain ⟨joined, ts₆, h6, h⟩ := returns_bind.mp h
  obtain ⟨filtered, ts₇, h7, h⟩ := returns_bind.mp h
  obtain ⟨groupBy, ts₈, h8, h⟩ := returns_bind.mp h
  obtain ⟨selected, ts₉, h9, h⟩ := returns_bind.mp h
  obtain ⟨hselected, rfl⟩ := returns_liftExcept.mp h9
  obtain ⟨grouped, ts₁₀, h10, h⟩ := returns_bind.mp h
  obtain ⟨sorted, ts₁₁, h11, h⟩ := returns_bind.mp h
  obtain ⟨t, ts₁₂, h12, h⟩ := returns_bind.mp h
  obtain ⟨rfl, rfl⟩ : sorted = plan ∧ ts₁₂ = ts' := by
    by_cases heof : t.type ≠ .eof
    · rw [if_pos heof] at h
      exact absurd h not_returns_fail
    · rw [if_neg heof] at h
      exact returns_pure.mp h
  obtain rfl := returns_current h12
  obtain ⟨join, hjoin, hjoined⟩ := returns_clause none
    (R := fun j p => joinTables tables table j = .ok p) rfl (fun mid hmid => parseJoin_reads hmid) h6
  obtain ⟨condition, hcondition, hfiltered⟩ :=
    returns_clause none (R := fun c p => filterBy joined c = p) rfl (fun mid hmid => by
      obtain ⟨e, rest, he, hmid⟩ := returns_bind.mp hmid
      obtain ⟨rfl, rfl⟩ := returns_pure.mp hmid
      exact ⟨some e, readCondition_returns he, rfl⟩) h7
  obtain ⟨having, hhaving, hgrouped⟩ :=
    returns_clause none (R := fun c p => havingOf selected c = .ok p) rfl (fun mid hmid => by
      obtain ⟨e, rest, he, hmid⟩ := returns_bind.mp hmid
      obtain ⟨happly, rfl⟩ := returns_liftExcept.mp hmid
      exact ⟨some e, readCondition_returns he, happly⟩) h10
  obtain ⟨orderBy, horder, hsorted⟩ :=
    returns_clause none (R := fun c p => sortBy grouped c = p) rfl
      (fun mid hmid => parseOrderBy_reads hmid) h11
  refine ⟨⟨items, name, join, condition, groupBy, having, orderBy⟩, ?_, ?_⟩
  · refine returns_bind.mpr ⟨_, _, h1, returns_bind.mpr ⟨_, _, h2, ?_⟩⟩
    refine returns_bind.mpr ⟨_, _, h3, returns_bind.mpr ⟨_, _, h4, ?_⟩⟩
    refine returns_bind.mpr ⟨_, _, hjoin, returns_bind.mpr ⟨_, _, hcondition, ?_⟩⟩
    refine returns_bind.mpr ⟨_, _, h8, returns_bind.mpr ⟨_, _, hhaving, ?_⟩⟩
    exact returns_bind.mpr ⟨_, _, horder, returns_pure.mpr ⟨rfl, rfl⟩⟩
  · refine ExceptList.bind_eq_ok.mpr ⟨table, htable, ExceptList.bind_eq_ok.mpr ⟨joined, hjoined, ?_⟩⟩
    refine ExceptList.bind_eq_ok.mpr ⟨selected, ?_, ExceptList.bind_eq_ok.mpr ⟨grouped, hgrouped, ?_⟩⟩
    · rw [hfiltered]
      exact hselected
    · rw [hsorted]
      rfl

/-- What `parse_sql` returns is the plan of the statement the query makes. -/
theorem parseSql_reads {query : String} {plan : LogicalPlan F}
    (h : parseSql query tables = .ok plan) :
    ∃ s : Statement F, readQuery query = .ok s ∧ s.toPlan tables = .ok plan := by
  obtain ⟨tokens, htokens, h⟩ := ExceptList.bind_eq_ok.mp h
  obtain ⟨⟨p, rest⟩, hparse, rfl⟩ := ExceptList.map_eq_ok.mp h
  obtain ⟨s, hs, hplan⟩ := parseSelectStmt_reads hparse
  refine ⟨s, ExceptList.bind_eq_ok.mpr ⟨tokens, htokens, ?_⟩, hplan⟩
  exact ExceptList.map_eq_ok.mpr ⟨(s, rest), hs, rfl⟩

end Refinement

section Examples

/-- The table `t` with the columns `a` and `b`. -/
def tableT : OrderedDict String (LogicalPlan ℚ) := OrderedDict.ofList [("t", abTable)]

end Examples

end MiniSpark
