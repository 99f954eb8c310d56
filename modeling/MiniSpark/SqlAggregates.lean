import MiniSpark.Analyzer
import MiniSpark.SqlStatement

/-!
# Where the aggregates of a query end up

An aggregate has no value for a single row, so a plan may hold one only as an entry of an
`Aggregate` node. The parser and the analyzer keep it out of `GROUP BY`, `ORDER BY` and the
computed items of a select list, and `HAVING` over an aggregation refers to its columns.
Nothing keeps it out of `WHERE`, out of another aggregate's argument, or out of a `HAVING`
with no aggregation below.
-/
namespace MiniSpark

variable {F : Type}

section Parsed

/-- The literals the parser can build: its own, and the answers of the number conversion. -/
structure ParserLiterals (answer : String → Except SqlError (Value F)) (L : Value F → Prop) :
    Prop where
  number : ∀ text v, answer text = .ok v → L v
  str : ∀ s, L (.str s)
  bool : ∀ b, L (.bool b)
  none : L .none
  minusOne : L (.int (-1))

/-- What holds of every expression the parser can build from some literals. -/
structure ParserClosed (L : Value F → Prop) (P : Expression F → Prop) : Prop where
  literal : ∀ v, L v → P (.literal v)
  column : ∀ name, P (.column name)
  binary : ∀ op left right, P left → P right → P (.binary op left right)
  not : ∀ child, P child → P (.not child)
  isNull : ∀ child, P child → P (.isNull child)
  isNotNull : ∀ child, P child → P (.isNotNull child)
  countStar : P .countStar
  aggregate : ∀ name child, P child → P (.aggregate name child)

/-- Every value the parser returns has the property. -/
structure Produces {α : Type} (answer : String → Except SqlError (Value F)) (P : α → Prop)
    (p : SqlParse F α) : Prop where
  of_returns : ∀ {ts a ts'}, Returns answer p ts a ts' → P a

variable {α β : Type} {answer : String → Except SqlError (Value F)} {P : α → Prop} {Q : β → Prop}

lemma produces_bind {p : SqlParse F β} {f : β → SqlParse F α} (hp : Produces answer Q p)
    (hf : ∀ b, Q b → Produces answer P (f b)) : Produces answer P (p >>= f) := by
  constructor
  intro ts a ts' h
  obtain ⟨b, mid, hb, ha⟩ := returns_bind.mp h
  exact (hf b (hp.of_returns hb)).of_returns ha

/-- What the first parser returns does not matter. -/
lemma produces_seq {p : SqlParse F β} {f : β → SqlParse F α} (hf : ∀ b, Produces answer P (f b)) :
    Produces answer P (p >>= f) :=
  produces_bind (Q := fun _ => True) ⟨fun _ => trivial⟩ (fun b _ => hf b)

lemma produces_pure {a : α} (ha : P a) : Produces answer P (pure a : SqlParse F α) := by
  constructor
  intro ts b ts' h
  obtain ⟨rfl, -⟩ := returns_pure.mp h
  exact ha

lemma produces_fail (e : SqlError) : Produces answer P (failParse e : SqlParse F α) :=
  ⟨fun h => absurd h not_returns_fail⟩

lemma produces_optionalClause {keyword : String} {clause : SqlParse F α} {otherwise : α}
    (h : Produces answer P clause) (hotherwise : P otherwise) :
    Produces answer P (optionalClause keyword clause otherwise) := by
  constructor
  intro ts a ts' ha
  obtain ⟨mid, -, hclause⟩ | ⟨-, rfl⟩ := returns_optionalClause.mp ha
  · exact h.of_returns hclause
  · exact hotherwise

lemma produces_ite {c : Prop} [Decidable c] {p q : SqlParse F α} (hp : Produces answer P p)
    (hq : Produces answer P q) : Produces answer P (if c then p else q) := by
  by_cases hc : c
  · rw [if_pos hc]
    exact hp
  · rw [if_neg hc]
    exact hq

/-- The parser's literals print when the numbers do. -/
lemma parserLiterals_prints [PyRuntime F]
    (h : ∀ text v, answer text = .ok v → v.prints = true) :
    ParserLiterals answer (fun v => v.prints = true) where
  number := h
  str _ := rfl
  bool _ := rfl
  none := rfl
  minusOne := intPrints_of_lt (by decide)

lemma parserClosed_prints [PyRuntime F] :
    ParserClosed (fun v => v.prints = true) (fun e : Expression F => e.prints = true) where
  literal _ hv := hv
  column _ := rfl
  binary _ _ _ hl hr := Bool.and_eq_true_iff.mpr ⟨hl, hr⟩
  not _ h := h
  isNull _ h := h
  isNotNull _ h := h
  countStar := rfl
  aggregate _ _ h := h

end Parsed

section Expressions

variable [PyRuntime F] {answer : String → Except SqlError (Value F)} {L : Value F → Prop}
  {P : Expression F → Prop}

/-- An operator of a level combines two operands into a binary node. -/
def BuildsBinary (operator : Token → Option (Expression F → Expression F → Expression F)) : Prop :=
  ∀ t combine, operator t = some combine → ∃ op, combine = .binary op

omit [PyRuntime F] in
lemma buildsBinary_or : BuildsBinary (F := F) orOperator := by
  intro t combine h
  unfold orOperator at h
  split at h <;> cases h
  exact ⟨_, rfl⟩

omit [PyRuntime F] in
lemma buildsBinary_and : BuildsBinary (F := F) andOperator := by
  intro t combine h
  unfold andOperator at h
  split at h <;> cases h
  exact ⟨_, rfl⟩

omit [PyRuntime F] in
lemma buildsBinary_comparison : BuildsBinary (F := F) comparisonOperator := by
  intro t combine h
  unfold comparisonOperator at h
  repeat' split at h
  all_goals cases h
  all_goals exact ⟨_, rfl⟩

omit [PyRuntime F] in
lemma buildsBinary_additive : BuildsBinary (F := F) additiveOperator := by
  intro t combine h
  unfold additiveOperator at h
  repeat' split at h
  all_goals cases h
  all_goals exact ⟨_, rfl⟩

omit [PyRuntime F] in
lemma buildsBinary_multiplicative : BuildsBinary (F := F) multiplicativeOperator := by
  intro t combine h
  unfold multiplicativeOperator at h
  repeat' split at h
  all_goals cases h
  all_goals exact ⟨_, rfl⟩

variable (hP : ParserClosed L P)
include hP

omit [PyRuntime F] in
lemma produces_leftChain {operator : Token → Option (Expression F → Expression F → Expression F)}
    {operand : SqlParse F (Expression F)} (hop : BuildsBinary operator)
    (hoperand : Produces answer P operand) (fuel : ℕ) :
    ∀ left, P left → Produces answer P (leftChain operator operand fuel left) := by
  induction fuel with
  | zero => exact fun _ _ => produces_fail _
  | succ fuel ih =>
      intro left hleft
      apply produces_seq
      intro t
      cases hcombine : operator t with
      | none => exact produces_pure hleft
      | some combine =>
          obtain ⟨op, rfl⟩ := hop t combine hcombine
          apply produces_seq
          intro _
          apply produces_bind hoperand
          intro right hright
          exact ih _ (hP.binary op left right hleft hright)

variable [PyText F]

lemma produces_parseFunctionCall {expr : SqlParse F (Expression F)} (h : Produces answer P expr)
    (name : String) : Produces answer P (parseFunctionCall expr name) := by
  apply produces_seq
  intro _
  cases aggregateFunction F name with
  | none => exact produces_fail _
  | some function =>
      dsimp only
      have harguments : ∀ star : Bool, Produces answer P (
          if star = true then do
            expectPunctuation ")"
            pure .countStar
          else do
            let arg ← expr
            expectPunctuation ")"
            pure (.aggregate function arg)) := by
        intro star
        apply produces_ite
        · apply produces_seq
          intro _
          exact produces_pure hP.countStar
        · apply produces_bind h
          intro arg harg
          apply produces_seq
          intro _
          exact produces_pure (hP.aggregate function arg harg)
      exact produces_ite (produces_seq harguments) (produces_seq harguments)

lemma produces_parseName {expr : SqlParse F (Expression F)} (h : Produces answer P expr) :
    Produces answer P (parseName expr) := by
  apply produces_seq
  intro name
  apply produces_seq
  intro next
  apply produces_ite
  · exact produces_parseFunctionCall hP h name.value
  · apply produces_seq
    intro dot
    apply produces_ite
    · apply produces_seq
      intro column
      exact produces_pure (hP.column column)
    · exact produces_pure (hP.column name.value)

variable (hL : ParserLiterals answer L)
include hL

omit [PyRuntime F] [PyText F] hP in
lemma produces_convertNumber (text : String) : Produces answer L (convertNumber text) := by
  constructor
  intro ts v ts' h
  show L v
  unfold Returns convertNumber at h
  rw [Asks.run] at h
  cases hanswer : answer text with
  | error e => rw [hanswer] at h; cases h
  | ok w =>
      rw [hanswer] at h
      cases h
      exact hL.number text _ hanswer

lemma produces_parsePrimary {expr : SqlParse F (Expression F)} (h : Produces answer P expr) :
    Produces answer P (parsePrimary expr) := by
  have hliteral : ∀ v, L v → Produces answer P (do
      let _ ← (advance : SqlParse F Token)
      pure (.literal v)) := by
    intro v hv
    apply produces_seq
    intro _
    exact produces_pure (hP.literal v hv)
  apply produces_seq
  intro token
  apply produces_ite
  · apply produces_seq
    intro _
    apply produces_bind (produces_convertNumber hL token.value)
    intro v hv
    exact produces_pure (hP.literal v hv)
  apply produces_ite (hliteral _ (hL.str token.value))
  apply produces_ite (hliteral _ (hL.bool true))
  apply produces_ite (hliteral _ (hL.bool false))
  apply produces_ite (hliteral _ hL.none)
  apply produces_ite
  · apply produces_seq
    intro _
    apply produces_bind h
    intro e he
    apply produces_seq
    intro _
    exact produces_pure he
  exact produces_ite (produces_parseName hP h) (produces_fail _)

lemma produces_parseUnary {expr : SqlParse F (Expression F)} (h : Produces answer P expr) (fuel : ℕ) :
    Produces answer P (parseUnary expr fuel) := by
  induction fuel with
  | zero => exact produces_fail _
  | succ fuel ih =>
      apply produces_seq
      intro minus
      apply produces_ite
      · apply produces_bind ih
        intro e he
        exact produces_pure (hP.binary _ _ _ (hP.literal _ hL.minusOne) he)
      · exact produces_parsePrimary hP hL h

lemma produces_parseAdditive {expr : SqlParse F (Expression F)} (h : Produces answer P expr)
    (fuel : ℕ) : Produces answer P (parseAdditive expr fuel) := by
  have hmultiplicative : Produces answer P (parseMultiplicative expr fuel) :=
    produces_bind (produces_parseUnary hP hL h fuel) (fun left hleft =>
      produces_leftChain hP buildsBinary_multiplicative (produces_parseUnary hP hL h fuel) fuel left hleft)
  exact produces_bind hmultiplicative (fun left hleft =>
    produces_leftChain hP buildsBinary_additive hmultiplicative fuel left hleft)

lemma produces_parseNullCheck {expr : SqlParse F (Expression F)} (h : Produces answer P expr)
    (fuel : ℕ) : Produces answer P (parseNullCheck expr fuel) := by
  have hcomparison : Produces answer P (parseComparison expr fuel) := by
    apply produces_bind (produces_parseAdditive hP hL h fuel)
    intro left hleft
    apply produces_seq
    intro t
    cases hcombine : comparisonOperator (F := F) t with
    | none => exact produces_pure hleft
    | some combine =>
        obtain ⟨op, rfl⟩ := buildsBinary_comparison t combine hcombine
        apply produces_seq
        intro _
        apply produces_bind (produces_parseAdditive hP hL h fuel)
        intro right hright
        exact produces_pure (hP.binary op left right hleft hright)
  apply produces_bind hcomparison
  intro e he
  apply produces_seq
  intro is
  apply produces_ite
  · apply produces_seq
    intro not
    apply produces_seq
    intro _
    refine produces_pure ?_
    cases not
    · exact hP.isNull e he
    · exact hP.isNotNull e he
  · exact produces_pure he

lemma produces_parseNot {expr : SqlParse F (Expression F)} (h : Produces answer P expr)
    (nullFuel fuel : ℕ) : Produces answer P (parseNot expr nullFuel fuel) := by
  induction fuel with
  | zero => exact produces_fail _
  | succ fuel ih =>
      apply produces_seq
      intro not
      apply produces_ite
      · apply produces_bind ih
        intro e he
        exact produces_pure (hP.not e he)
      · exact produces_parseNullCheck hP hL h nullFuel

/-- Every expression the parser returns is built by its own nodes. -/
theorem produces_parseExpr (fuel : ℕ) : Produces answer P (parseExpr fuel) := by
  induction fuel with
  | zero => exact produces_fail _
  | succ fuel ih =>
      have hand : Produces answer P (parseAnd (parseExpr fuel) (fuel + 1)) :=
        produces_bind (produces_parseNot hP hL ih _ _) (fun left hleft =>
          produces_leftChain hP buildsBinary_and (produces_parseNot hP hL ih _ _) _ left hleft)
      exact produces_bind hand (fun left hleft =>
        produces_leftChain hP buildsBinary_or hand _ left hleft)

end Expressions

section Aliases

/-- No `Alias` anywhere. -/
def Expression.Unaliased : Expression F → Prop
  | .column _ => True
  | .literal _ => True
  | .aliased _ _ => False
  | .binary _ left right => left.Unaliased ∧ right.Unaliased
  | .not child => child.Unaliased
  | .isNull child => child.Unaliased
  | .isNotNull child => child.Unaliased
  | .countStar => True
  | .aggregate _ child => child.Unaliased

lemma parserLiterals_true {answer : String → Except SqlError (Value F)} :
    ParserLiterals answer (fun _ => True) :=
  ⟨fun _ _ _ => trivial, fun _ => trivial, fun _ => trivial, trivial, trivial⟩

/-- `AS` is no part of an expression. -/
lemma parserClosed_unaliased :
    ParserClosed (fun _ => True) (Expression.Unaliased (F := F)) where
  literal _ _ := trivial
  column _ := trivial
  binary _ _ _ hl hr := ⟨hl, hr⟩
  not _ h := h
  isNull _ h := h
  isNotNull _ h := h
  countStar := trivial
  aggregate _ _ h := h

variable [PyRuntime F] {answer : String → Except SqlError (Value F)}

lemma outputColumnOf_eq_ok {items : List (Expression F)} {e e' : Expression F}
    (h : outputColumnOf items e = .ok e') : containsAggregate e' = false := by
  obtain ⟨item, -, rfl⟩ := outputColumnOf_eq_column h
  rfl

/-- After the substitution the condition reads columns only. -/
lemma substituteAggregates_eq_ok {items : List (Expression F)} {e e' : Expression F}
    (he : e.Unaliased) (h : substituteAggregates items e = .ok e') :
    containsAggregate e' = false := by
  induction e generalizing e' with
  | column name | literal value =>
      cases h
      rfl
  | aliased child name ih => exact absurd he id
  | binary op left right ihl ihr =>
      obtain ⟨l, hl, h⟩ := ExceptList.bind_eq_ok.mp h
      obtain ⟨r, hr, h⟩ := ExceptList.bind_eq_ok.mp h
      cases h
      show (containsAggregate l || containsAggregate r) = false
      rw [ihl he.1 hl, ihr he.2 hr]
      rfl
  | not child ih | isNull child ih | isNotNull child ih =>
      obtain ⟨c, hc, h⟩ := ExceptList.bind_eq_ok.mp h
      cases h
      have hclean := ih he hc
      exact hclean
  | countStar => exact outputColumnOf_eq_ok h
  | aggregate name child ih => exact outputColumnOf_eq_ok h

variable [PyText F]

lemma produces_readStatement (fuel : ℕ) :
    Produces answer (fun s => ∀ c, s.having = some c → c.Unaliased) (readStatement fuel) := by
  have hcondition : Produces answer (fun having => ∀ c, having = some c → c.Unaliased)
      (readCondition fuel) := by
    apply produces_bind (produces_parseExpr parserClosed_unaliased parserLiterals_true fuel)
    intro e he
    refine produces_pure (fun c hc => ?_)
    cases hc
    exact he
  unfold readStatement
  iterate 7 refine produces_seq (fun _ => ?_)
  refine produces_bind (produces_optionalClause hcondition (fun c hc => by cases hc)) ?_
  intro having hhaving
  refine produces_seq (fun _ => ?_)
  exact produces_pure hhaving

lemma readQuery_having {query : String} {s : Statement F} (h : readQuery query = .ok s) :
    ∀ c, s.having = some c → c.Unaliased := by
  obtain ⟨tokens, -, h⟩ := ExceptList.bind_eq_ok.mp h
  obtain ⟨⟨s', rest⟩, hread, rfl⟩ := ExceptList.map_eq_ok.mp h
  exact (produces_readStatement tokens.length).of_returns hread

end Aliases

section Placement

/-- The entry is an aggregate whose argument holds another one. -/
def Expression.nestedAggregate (e : Expression F) : Bool :=
  match e.unalias with
  | .aggregate _ child => containsAggregate child
  | _ => false

namespace LogicalPlan

/-- Aggregates stand as entries of `Aggregate` nodes and nowhere else. -/
def AggregatesPlaced : LogicalPlan F → Prop
  | .scan _ _ _ => True
  | .filter child condition => child.AggregatesPlaced ∧ containsAggregate condition = false
  | .project child columns =>
      child.AggregatesPlaced ∧ ∀ e ∈ columns, containsAggregate e = false
  | .aggregate child groupBy aggregates =>
      child.AggregatesPlaced ∧ (∀ e ∈ groupBy, containsAggregate e = false) ∧
        ∀ e ∈ aggregates, e.unalias.isAggregate = true ∧ e.nestedAggregate = false
  | .join left right _ _ _ => left.AggregatesPlaced ∧ right.AggregatesPlaced
  | .sort child keys => child.AggregatesPlaced ∧ ∀ k ∈ keys, containsAggregate k.1 = false

/-- A table as `create_or_replace_temp_view` registers it. -/
def IsScan : LogicalPlan F → Prop
  | .scan _ _ _ => True
  | _ => False

/-- `isinstance(plan, Aggregate)`. -/
def IsAggregation : LogicalPlan F → Prop
  | .aggregate _ _ _ => True
  | _ => False

end LogicalPlan

namespace Statement

/-- The query groups, or its select list has an aggregate. -/
def Aggregates (s : Statement F) : Prop :=
  ∃ items, s.selectItems = some items ∧
    ¬ (s.groupBy = [] ∧ items.filter containsAggregate = [])

/-- Aggregates are written in the select list, not inside each other, and in the `HAVING`
of a query that aggregates. -/
structure AggregatesOnlySelected (s : Statement F) : Prop where
  condition : ∀ c, s.condition = some c → containsAggregate c = false
  items : ∀ items, s.selectItems = some items → ∀ e ∈ items, e.nestedAggregate = false
  having : ¬ s.Aggregates → ∀ c, s.having = some c → containsAggregate c = false

end Statement

/-- An expression that holds an aggregate has no value on any row. -/
theorem evaluate_raises_of_containsAggregate [PyRuntime F] {e : Expression F}
    (he : containsAggregate e = true) (r : Record F) : ¬ ∃ v, e.evaluate r = .ok v := by
  induction e with
  | column name | literal value => cases he
  | countStar | aggregate name child ih =>
      rintro ⟨v, hv⟩
      cases hv
  | aliased child name ih => exact ih he
  | binary op left right ihl ihr =>
      rintro ⟨v, hv⟩
      obtain ⟨a, b, ha, hb, -⟩ := Expression.evaluate_binary_ok.mp hv
      obtain hleft | hright := Bool.or_eq_true_iff.mp he
      · exact ihl hleft ⟨a, ha⟩
      · exact ihr hright ⟨b, hb⟩
  | not child ih =>
      rintro ⟨v, hv⟩
      obtain ⟨a, ha, -⟩ := Expression.evaluate_not_ok.mp hv
      exact ih he ⟨a, ha⟩
  | isNull child ih =>
      rintro ⟨v, hv⟩
      obtain ⟨a, ha, -⟩ := Expression.evaluate_isNull_ok.mp hv
      exact ih he ⟨a, ha⟩
  | isNotNull child ih =>
      rintro ⟨v, hv⟩
      obtain ⟨a, ha, -⟩ := Expression.evaluate_isNotNull_ok.mp hv
      exact ih he ⟨a, ha⟩

lemma containsAggregate_of_isColumn {e : Expression F} (h : e.isColumn = true) :
    containsAggregate e = false := by
  cases e <;> first | rfl | cases h

lemma nestedAggregate_of_not_containsAggregate {e : Expression F}
    (h : containsAggregate e = false) : e.nestedAggregate = false := by
  cases e with
  | aliased child name => cases child <;> first | rfl | cases h
  | aggregate name child => cases h
  | column name | literal value | binary op left right | not child | isNull child
  | isNotNull child | countStar => rfl

variable [PyRuntime F] {tables : OrderedDict String (LogicalPlan F)}

lemma resolveTable_isScan (htables : ∀ name plan, tables.get? name = some plan → plan.IsScan)
    {name : String} {plan : LogicalPlan F} (h : resolveTable tables name = .ok plan) :
    plan.IsScan := by
  unfold resolveTable at h
  split at h
  · next hp =>
      cases h
      exact htables name plan hp
  · cases h

omit [PyRuntime F] in
lemma LogicalPlan.IsScan.placed {plan : LogicalPlan F} (h : plan.IsScan) :
    plan.AggregatesPlaced ∧ ¬ plan.IsAggregation := by
  cases plan <;> first | exact ⟨trivial, id⟩ | exact absurd h id

/-- The tables and their join hold no aggregate. -/
lemma joinTables_placed (htables : ∀ name plan, tables.get? name = some plan → plan.IsScan)
    {left joined : LogicalPlan F} {join : Option (String × String)} (hleft : left.IsScan)
    (h : joinTables tables left join = .ok joined) :
    joined.AggregatesPlaced ∧ ¬ joined.IsAggregation := by
  cases join with
  | none =>
      cases h
      exact hleft.placed
  | some names =>
      obtain ⟨right, hright, h⟩ := ExceptList.bind_eq_ok.mp h
      cases h
      exact ⟨⟨hleft.placed.1, (resolveTable_isScan htables hright).placed.1⟩, id⟩

omit [PyRuntime F] in
lemma filterBy_placed_iff {plan : LogicalPlan F} {condition : Option (Expression F)}
    (hplan : plan.AggregatesPlaced) :
    (filterBy plan condition).AggregatesPlaced ↔
      ∀ c, condition = some c → containsAggregate c = false := by
  cases condition with
  | none => exact iff_of_true hplan (fun c hc => by cases hc)
  | some condition =>
      constructor
      · rintro ⟨-, hclean⟩ c hc
        cases hc
        exact hclean
      · exact fun h => ⟨hplan, h condition rfl⟩

omit [PyRuntime F] in
lemma filterBy_not_isAggregation {plan : LogicalPlan F} {condition : Option (Expression F)}
    (hplan : ¬ plan.IsAggregation) : ¬ (filterBy plan condition).IsAggregation := by
  cases condition with
  | none => exact hplan
  | some condition => exact id

/-- Over an aggregation `HAVING` never holds an aggregate; elsewhere it stays as written. -/
lemma havingOf_placed_iff {selected grouped : LogicalPlan F} {having : Option (Expression F)}
    (hparsed : ∀ c, having = some c → c.Unaliased) (h : havingOf selected having = .ok grouped) :
    grouped.AggregatesPlaced ↔ selected.AggregatesPlaced ∧
      (¬ selected.IsAggregation → ∀ c, having = some c → containsAggregate c = false) := by
  cases having with
  | none =>
      cases h
      exact (and_iff_left (fun _ c hc => by cases hc)).symm
  | some condition =>
      cases selected with
      | aggregate child groupBy aggregates =>
          obtain ⟨c, hc, h⟩ := ExceptList.bind_eq_ok.mp h
          cases h
          have hclean := substituteAggregates_eq_ok (hparsed condition rfl) hc
          exact and_congr_right (fun _ => iff_of_true hclean (fun hnot => absurd trivial hnot))
      | scan dataset sourceName source | filter child c | project child columns
      | join left right on how broadcast | sort child keys =>
          cases h
          refine and_congr_right (fun _ => ?_)
          constructor
          · intro hclean _ c hc
            cases hc
            exact hclean
          · exact fun hclean => hclean id condition rfl

lemma Statement.aggregates_iff {s : Statement F} {plan selected : LogicalPlan F}
    (hplan : ¬ plan.IsAggregation)
    (h : applySelect plan s.selectItems s.groupBy = .ok selected) :
    s.Aggregates ↔ selected.IsAggregation := by
  obtain ⟨hnone, rfl⟩ | ⟨es, hes, hgroup, hagg, rfl⟩ | ⟨es, hes, hsome, rfl⟩ :=
    applySelect_eq_ok h
  · refine iff_of_false ?_ hplan
    rintro ⟨items, hitems, -⟩
    cases hitems.symm.trans hnone
  · refine iff_of_false ?_ id
    rintro ⟨items, hitems, hsome⟩
    cases hitems.symm.trans hes
    exact hsome ⟨hgroup, hagg⟩
  · exact iff_of_true ⟨es, hes, hsome⟩ trivial

/-- What the select list adds: its aggregates must not hold others. -/
lemma applySelect_placed_iff {s : Statement F} {plan selected : LogicalPlan F}
    (hanalyzed : selected.Analyzed)
    (h : applySelect plan s.selectItems s.groupBy = .ok selected) :
    selected.AggregatesPlaced ↔ plan.AggregatesPlaced ∧
      ∀ items, s.selectItems = some items → ∀ e ∈ items, e.nestedAggregate = false := by
  obtain ⟨hnone, rfl⟩ | ⟨es, hes, hgroup, hagg, rfl⟩ | ⟨es, hes, hsome, rfl⟩ :=
    applySelect_eq_ok h
  · refine (and_iff_left (fun items hitems => ?_)).symm
    cases hitems.symm.trans hnone
  · have hclean : ∀ e ∈ es, containsAggregate e = false := by
      simpa using List.filter_eq_nil_iff.mp hagg
    refine and_congr_right (fun _ => iff_of_true hclean (fun items hitems e he => ?_))
    cases hitems.symm.trans hes
    exact nestedAggregate_of_not_containsAggregate (hclean e he)
  · obtain ⟨-, hgroups, haggregates, -⟩ := hanalyzed
    refine and_congr_right (fun _ => ?_)
    constructor
    · rintro ⟨-, hentries⟩ items hitems e he
      cases hitems.symm.trans hes
      by_cases hcontains : containsAggregate e = true
      · exact (hentries e (List.mem_filter.mpr ⟨he, hcontains⟩)).2
      · exact nestedAggregate_of_not_containsAggregate (Bool.eq_false_iff.mpr hcontains)
    · intro hitems
      refine ⟨fun e he => containsAggregate_of_isColumn (hgroups e he).1, fun e he => ?_⟩
      exact ⟨(haggregates e he).1, hitems es hes e (List.mem_of_mem_filter he)⟩

/-- `ORDER BY` is by columns only. -/
lemma sortBy_placed_iff {plan : LogicalPlan F} {order : Option (List (Expression F × Bool))}
    (hanalyzed : (sortBy plan order).Analyzed) :
    plan.Analyzed ∧ ((sortBy plan order).AggregatesPlaced ↔ plan.AggregatesPlaced) := by
  cases order with
  | none => exact ⟨hanalyzed, Iff.rfl⟩
  | some keys =>
      refine ⟨hanalyzed.1, and_iff_left (fun k hk => ?_)⟩
      exact containsAggregate_of_isColumn (hanalyzed.2 k hk).1

lemma havingOf_analyzed {selected grouped : LogicalPlan F} {having : Option (Expression F)}
    (h : havingOf selected having = .ok grouped) (hanalyzed : grouped.Analyzed) :
    selected.Analyzed := by
  cases having with
  | none =>
      cases h
      exact hanalyzed
  | some condition =>
      cases selected with
      | aggregate child groupBy aggregates =>
          obtain ⟨c, -, h⟩ := ExceptList.bind_eq_ok.mp h
          cases h
          exact hanalyzed.1
      | scan dataset sourceName source | filter child c | project child columns
      | join left right on how broadcast | sort child keys =>
          cases h
          exact hanalyzed.1

/-- Aggregates stand in an accepted plan where they have a value exactly when the query
writes them only in its select list, unnested, and in the `HAVING` of an aggregation. -/
theorem parseSql_aggregatesPlaced_iff [PyText F] {query : String} {plan accepted : LogicalPlan F}
    (htables : ∀ name plan, tables.get? name = some plan → plan.IsScan)
    (hplan : parseSql query tables = .ok plan) (haccepted : analyze plan = .ok accepted) :
    ∃ s : Statement F, readQuery query = .ok s ∧
      (plan.AggregatesPlaced ↔ s.AggregatesOnlySelected) := by
  obtain ⟨s, hread, htoPlan⟩ := parseSql_reads hplan
  obtain ⟨table, joined, selected, grouped, htable, hjoined, hselected, hgrouped, rfl⟩ :=
    Statement.toPlan_eq_ok htoPlan
  obtain ⟨-, hanalyzed, -⟩ := analyze_eq_ok.mp haccepted
  obtain ⟨hanalyzed, hsort⟩ := sortBy_placed_iff hanalyzed
  obtain ⟨hplaced, hnot⟩ := joinTables_placed htables (resolveTable_isScan htables htable) hjoined
  have haggregates := Statement.aggregates_iff (filterBy_not_isAggregation hnot) hselected
  refine ⟨s, hread, ?_⟩
  rw [hsort, havingOf_placed_iff (readQuery_having hread) hgrouped,
    applySelect_placed_iff (havingOf_analyzed hgrouped hanalyzed) hselected,
    filterBy_placed_iff hplaced, ← haggregates]
  constructor
  · rintro ⟨⟨hcondition, hitems⟩, hhaving⟩
    exact ⟨hcondition, hitems, hhaving⟩
  · rintro ⟨hcondition, hitems, hhaving⟩
    exact ⟨⟨hcondition, hitems⟩, hhaving⟩

end Placement

section Examples

/-- The condition on the rows counts them. -/
def countInWhere : String := "SELECT a FROM t WHERE COUNT(*) > 1"

lemma tableT_isScan : ∀ name plan, tableT.get? name = some plan → plan.IsScan := by
  intro name plan h
  rw [show tableT = OrderedDict.empty.set "t" abTable from rfl, OrderedDict.get?_set] at h
  split at h
  · cases h
    exact trivial
  · cases h

/-- The query is accepted, and a filter below the projection holds an aggregate. -/
def filtersByAggregate (query : String) (tables : OrderedDict String (LogicalPlan ℚ)) : Bool :=
  match parseSql query tables with
  | .ok (.project (.filter child condition) columns) =>
      (analyze (.project (.filter child condition) columns)).isOk && containsAggregate condition
  | _ => false

lemma exists_of_filtersByAggregate {query : String} {tables : OrderedDict String (LogicalPlan ℚ)}
    (h : filtersByAggregate query tables = true) :
    ∃ plan accepted : LogicalPlan ℚ, parseSql query tables = .ok plan ∧
      analyze plan = .ok accepted ∧ ¬ plan.AggregatesPlaced := by
  unfold filtersByAggregate at h
  split at h
  · next child condition columns hplan =>
      obtain ⟨haccepted, hcontains⟩ := Bool.and_eq_true_iff.mp h
      cases hanalyze : analyze (.project (.filter child condition) columns) with
      | error e =>
          rw [hanalyze] at haccepted
          cases haccepted
      | ok accepted =>
          refine ⟨_, accepted, hplan, hanalyze, fun hplaced => ?_⟩
          cases hcontains.symm.trans hplaced.1.2
  · cases h

lemma countInWhere_filters : filtersByAggregate countInWhere tableT = true := by decide +kernel

/-- `SELECT a FROM t WHERE COUNT(*) > 1` is accepted. -/
theorem parseSql_aggregatesPlaced_iff_countInWhere :
    ∃ plan : LogicalPlan ℚ, parseSql countInWhere tableT = .ok plan ∧
      ∃ s : Statement ℚ, readQuery countInWhere = .ok s ∧
        (plan.AggregatesPlaced ↔ s.AggregatesOnlySelected) := by
  obtain ⟨plan, accepted, hplan, haccepted, -⟩ :=
    exists_of_filtersByAggregate countInWhere_filters
  exact ⟨plan, hplan, parseSql_aggregatesPlaced_iff tableT_isScan hplan haccepted⟩

theorem parseSql_misplaces_aggregate : ¬ ∀ (query : String)
    (tables : OrderedDict String (LogicalPlan ℚ)) (plan accepted : LogicalPlan ℚ),
      (∀ name table, tables.get? name = some table → table.IsScan) →
      parseSql query tables = .ok plan → analyze plan = .ok accepted → plan.AggregatesPlaced := by
  intro hall
  obtain ⟨plan, accepted, hplan, haccepted, hmisplaced⟩ :=
    exists_of_filtersByAggregate countInWhere_filters
  exact hmisplaced (hall countInWhere tableT plan accepted tableT_isScan hplan haccepted)

end Examples

end MiniSpark
