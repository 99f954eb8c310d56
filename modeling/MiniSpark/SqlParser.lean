import MiniSpark.Asks
import MiniSpark.LogicalPlan
import MiniSpark.SqlTokenizer

/-!
# The SQL parser

Recursive descent over the tokens that are left, one function for each rule of the
grammar. The conversion of a number's text is the one thing it asks the interpreter for.
Loops and nested expressions are counted down from a bound that no query exceeds.
-/
namespace MiniSpark

section Numbers

variable (F : Type) [PyRuntime F] [PyText F]

/-- `int(text)` of a number token. -/
def intOfText (text : String) : Py ℤ :=
  match text.toList.mapM (decimalDigit F) with
  | some (d :: digits) =>
      match PyRuntime.intMaxStrDigits F with
      | some limit =>
          if limit < (d :: digits).length then .error (.valueError ("Exceeds the limit (" ++
            toString limit ++ " digits) for integer string conversion: value has " ++
            toString (d :: digits).length ++
            " digits; use sys.set_int_max_str_digits() to increase the limit"))
          else .ok (digitsValue (d :: digits))
      | none => .ok (digitsValue (d :: digits))
  | _ => .error (.valueError ("invalid literal for int() with base 10: " ++
      reprStr (PyRuntime.isPrintable F) text))

/-- `float(text)` of a number token. -/
def floatOfText (text : String) : Py F :=
  match (text.toList.takeWhile (· != '.')).mapM (decimalDigit F),
      ((text.toList.dropWhile (· != '.')).drop 1).mapM (decimalDigit F) with
  | some whole, some fraction =>
      if whole ++ fraction = [] then .error (.valueError ("could not convert string to float: " ++
        reprStr (PyRuntime.isPrintable F) text))
      else .ok (PyText.readFloat whole fraction)
  | _, _ => .error (.valueError ("could not convert string to float: " ++
      reprStr (PyRuntime.isPrintable F) text))

/-- The value of a number token: with a point a float, else an int. -/
def numberOfText (text : String) : Py (Value F) :=
  if '.' ∈ text.toList then Value.float <$> floatOfText F text
  else Value.int <$> intOfText F text

variable {F}

lemma exists_of_mapM_some {α β : Type} {f : α → Option β} {as : List α} {bs : List β}
    (h : as.mapM f = some bs) {b : β} (hb : b ∈ bs) : ∃ a, f a = some b := by
  induction as generalizing bs with
  | nil =>
      cases h
      cases hb
  | cons a as ih =>
      rw [List.mapM_cons] at h
      obtain ⟨x, hx, h⟩ := Option.bind_eq_some_iff.mp h
      obtain ⟨xs, hxs, h⟩ := Option.bind_eq_some_iff.mp h
      cases h
      rcases List.mem_cons.mp hb with rfl | hb
      · exact ⟨a, hx⟩
      · exact ih hxs hb

omit [PyRuntime F] in
lemma decimalDigit_lt {c : Char} {d : ℕ} (h : decimalDigit F c = some d) : d < 10 := by
  unfold decimalDigit at h
  split at h
  · split at h
    · next hdigit =>
        cases h
        obtain ⟨-, hhi⟩ := Bool.and_eq_true_iff.mp hdigit
        have : c.toNat ≤ 57 := of_decide_eq_true hhi
        omega
    · cases h
  · exact PyText.decimalDigit_lt c d h

lemma digitsValue_lt {digits : List ℕ} (h : ∀ d ∈ digits, d < 10) :
    digitsValue digits < 10 ^ digits.length := by
  have hfold : ∀ n k, n < 10 ^ k → digits.foldl (fun n d => 10 * n + d) n < 10 ^ (k + digits.length) := by
    induction digits with
    | nil => exact fun n k hn => hn
    | cons d digits ih =>
        intro n k hn
        obtain ⟨hd, hrest⟩ := List.forall_mem_cons.mp h
        have hstep : 10 * n + d < 10 ^ (k + 1) := by
          rw [Nat.pow_succ]
          omega
        have := ih hrest _ _ hstep
        rwa [List.length_cons, Nat.add_comm digits.length 1, ← Nat.add_assoc]
  have hall := hfold 0 0 (by decide)
  rwa [Nat.zero_add] at hall

/-- An integer that is read from text has a text again. -/
lemma intOfText_prints {text : String} {i : ℤ} (h : intOfText F text = .ok i) :
    intPrints F i = true := by
  rw [intPrints_iff]
  intro limit hlimit
  unfold intOfText at h
  split at h
  · next d digits hdigits =>
      have hlt : digitsValue (d :: digits) < 10 ^ (d :: digits).length := by
        refine digitsValue_lt (fun x hx => ?_)
        obtain ⟨c, hc⟩ := exists_of_mapM_some hdigits hx
        exact decimalDigit_lt hc
      rw [hlimit] at h
      dsimp only at h
      split at h
      · cases h
      · next hle =>
          cases h
          exact hlt.trans_le (Nat.pow_le_pow_right (by decide) (Nat.le_of_not_lt hle))
  · cases h

lemma numberOfText_prints {text : String} {v : Value F} (h : numberOfText F text = .ok v) :
    v.prints = true := by
  unfold numberOfText at h
  split at h
  · obtain ⟨x, -, rfl⟩ := ExceptList.map_eq_ok.mp h
    rfl
  · obtain ⟨i, hi, rfl⟩ := ExceptList.map_eq_ok.mp h
    exact intOfText_prints hi

end Numbers

/-- A parser reads tokens, and asks for the values of numbers. -/
abbrev SqlParse (F α : Type) := StateT (List Token) (Asks String (Value F) SqlError) α

variable {F : Type}

section Stream

/-- Raise. -/
def failParse {α : Type} (e : SqlError) : SqlParse F α := fun _ => .fail e

/-- `_current`. -/
def current : SqlParse F Token
  | [] => .fail (.raised .indexError)
  | t :: ts => .done (t, t :: ts)

/-- `_advance`: the last token stays. -/
def advance : SqlParse F Token
  | [] => .fail (.raised .indexError)
  | t :: ts => .done (t, if t.type = .eof then t :: ts else ts)

/-- The value of a number token. -/
def convertNumber (text : String) : SqlParse F (Value F) :=
  fun ts => .ask text (fun v => .done (v, ts))

/-- The token is of a type and has a value. -/
def Token.is (t : Token) (type : TokenType) (value : String) : Bool :=
  t.type = type && t.value == value

/-- Step over the current token if it is the one wanted. -/
def matchToken (type : TokenType) (value : String) : SqlParse F Bool := do
  let t ← current
  if t.is type value then
    let _ ← advance
    pure true
  else pure false

section Steps

variable {α β : Type}

/-- A parser that returns at once is followed by the next one. -/
lemma bind_of_done {p : SqlParse F α} {f : α → SqlParse F β} {ts ts' : List Token} {a : α}
    (h : p ts = .done (a, ts')) : (p >>= f) ts = f a ts' := by
  show (p ts >>= fun r => f r.1 r.2) = _
  rw [h]
  rfl

lemma Token.type_of_is {t : Token} {type : TokenType} {value : String}
    (h : t.is type value = true) : t.type = type := by
  simp only [Token.is, Bool.and_eq_true, decide_eq_true_eq] at h
  exact h.1

lemma current_cons (t : Token) (ts : List Token) :
    (current : SqlParse F Token) (t :: ts) = .done (t, t :: ts) := rfl

lemma advance_cons {t : Token} (ts : List Token) (h : t.type ≠ .eof) :
    (advance : SqlParse F Token) (t :: ts) = .done (t, ts) := by
  show Asks.done (t, if t.type = .eof then t :: ts else ts) = _
  rw [if_neg h]

lemma matchToken_of_is {type : TokenType} {value : String} {t : Token} (ts : List Token)
    (htype : type ≠ .eof) (h : t.is type value = true) :
    (matchToken type value : SqlParse F Bool) (t :: ts) = .done (true, ts) := by
  unfold matchToken
  rw [bind_of_done (current_cons t ts), if_pos h]
  exact bind_of_done (advance_cons ts (Token.type_of_is h ▸ htype))

lemma matchToken_of_not {type : TokenType} {value : String} {t : Token} (ts : List Token)
    (h : ¬ t.is type value = true) :
    (matchToken type value : SqlParse F Bool) (t :: ts) = .done (false, t :: ts) := by
  unfold matchToken
  rw [bind_of_done (current_cons t ts), if_neg h]
  rfl

end Steps

/-- `_match_keyword`. -/
def matchKeyword (keyword : String) : SqlParse F Bool := matchToken .keyword keyword

/-- `_match_punctuation`. -/
def matchPunctuation (value : String) : SqlParse F Bool := matchToken .punctuation value

/-- `_match_operator`. -/
def matchOperator (value : String) : SqlParse F Bool := matchToken .operator value

variable [PyRuntime F]

/-- What was expected, and what was found instead. -/
def expected (F : Type) [PyRuntime F] (wanted : String) (t : Token) : SqlError :=
  .parseError ("Expected " ++ wanted ++ " at position " ++ toString t.position ++ ", got " ++
    reprStr (PyRuntime.isPrintable F) t.value)

/-- Step over a token that has to be there. -/
def expectToken (type : TokenType) (value : String) : SqlParse F Unit := do
  let found ← matchToken type value
  if found then pure ()
  else
    let t ← current
    failParse (expected F (reprStr (PyRuntime.isPrintable F) value) t)

/-- `_expect_keyword`. -/
def expectKeyword (keyword : String) : SqlParse F Unit := expectToken .keyword keyword

/-- `_expect_punctuation`. -/
def expectPunctuation (value : String) : SqlParse F Unit := expectToken .punctuation value

/-- `_expect_operator`. -/
def expectOperator (value : String) : SqlParse F Unit := expectToken .operator value

/-- `_expect_identifier`. -/
def expectIdentifier : SqlParse F String := do
  let t ← current
  if t.type = .identifier then
    let t ← advance
    pure t.value
  else failParse (expected F "an identifier" t)

end Stream

section Expressions

/-- `while` the current token is an operator of the level: the operand after it is
combined with what stands on the left. -/
def leftChain (operator : Token → Option (Expression F → Expression F → Expression F))
    (operand : SqlParse F (Expression F)) : ℕ → Expression F → SqlParse F (Expression F)
  | 0, _ => failParse .outOfFuel
  | fuel + 1, left => do
      let t ← current
      match operator t with
      | some combine =>
          let _ ← advance
          let right ← operand
          leftChain operator operand fuel (combine left right)
      | none => pure left

/-- `OR`. -/
def orOperator (t : Token) : Option (Expression F → Expression F → Expression F) :=
  if t.is .keyword "OR" then some (.binary .or) else none

/-- `AND`. -/
def andOperator (t : Token) : Option (Expression F → Expression F → Expression F) :=
  if t.is .keyword "AND" then some (.binary .and) else none

/-- `_COMPARISON_OPERATORS`. -/
def comparisonOperator (t : Token) : Option (Expression F → Expression F → Expression F) :=
  if t.is .operator "=" then some (.binary .equal)
  else if t.is .operator "!=" then some (.binary .notEqual)
  else if t.is .operator "<>" then some (.binary .notEqual)
  else if t.is .operator "<" then some (.binary .lessThan)
  else if t.is .operator "<=" then some (.binary .lessEqual)
  else if t.is .operator ">" then some (.binary .greaterThan)
  else if t.is .operator ">=" then some (.binary .greaterEqual)
  else none

/-- `+` and `-`. -/
def additiveOperator (t : Token) : Option (Expression F → Expression F → Expression F) :=
  if t.is .operator "+" then some (.binary .add)
  else if t.is .operator "-" then some (.binary .subtract)
  else none

/-- `*` and `/`. -/
def multiplicativeOperator (t : Token) : Option (Expression F → Expression F → Expression F) :=
  if t.is .operator "*" then some (.binary .multiply)
  else if t.is .operator "/" then some (.binary .divide)
  else none

/-- The aggregate a function name means, in any case. -/
def aggregateFunction (F : Type) [PyText F] (name : String) : Option AggregateName :=
  if upper F name = "COUNT" then some .count
  else if upper F name = "SUM" then some .sum
  else if upper F name = "AVG" then some .avg
  else if upper F name = "MIN" then some .min
  else if upper F name = "MAX" then some .max
  else none

variable [PyRuntime F] [PyText F]

/-- `_parse_function_call`, from the opening parenthesis on. -/
def parseFunctionCall (expr : SqlParse F (Expression F)) (name : String) :
    SqlParse F (Expression F) := do
  expectPunctuation "("
  match aggregateFunction F name with
  | none => failParse (.parseError ("Unknown function " ++
      reprStr (PyRuntime.isPrintable F) name ++ ": only COUNT/SUM/AVG/MIN/MAX are supported, " ++
      "matching what the DataFrame API's aggregate functions cover (see api/functions.py)."))
  | some function =>
      let star ← if function = .count then matchOperator "*" else pure false
      if star then
        expectPunctuation ")"
        pure .countStar
      else
        let arg ← expr
        expectPunctuation ")"
        pure (.aggregate function arg)

/-- The `IDENTIFIER` case of `_parse_primary`. -/
def parseName (expr : SqlParse F (Expression F)) : SqlParse F (Expression F) := do
  let name ← advance
  let next ← current
  if next.is .punctuation "(" then parseFunctionCall expr name.value
  else
    let dot ← matchPunctuation "."
    if dot then
      let column ← expectIdentifier
      pure (.column column)
    else pure (.column name.value)

/-- `_parse_primary`; `expr` parses what stands in parentheses. -/
def parsePrimary (expr : SqlParse F (Expression F)) : SqlParse F (Expression F) := do
  let token ← current
  if token.type = .number then
    let _ ← advance
    let v ← convertNumber token.value
    pure (.literal v)
  else if token.type = .string then
    let _ ← advance
    pure (.literal (.str token.value))
  else if token.is .keyword "TRUE" then
    let _ ← advance
    pure (.literal (.bool true))
  else if token.is .keyword "FALSE" then
    let _ ← advance
    pure (.literal (.bool false))
  else if token.is .keyword "NULL" then
    let _ ← advance
    pure (.literal .none)
  else if token.is .punctuation "(" then
    let _ ← advance
    let e ← expr
    expectPunctuation ")"
    pure e
  else if token.type = .identifier then parseName expr
  else failParse (.parseError ("Unexpected token " ++
    reprStr (PyRuntime.isPrintable F) token.value ++ " at position " ++ toString token.position))

/-- `_parse_unary`. -/
def parseUnary (expr : SqlParse F (Expression F)) : ℕ → SqlParse F (Expression F)
  | 0 => failParse .outOfFuel
  | fuel + 1 => do
      let minus ← matchOperator "-"
      if minus then
        let e ← parseUnary expr fuel
        pure (.binary .multiply (.literal (.int (-1))) e)
      else parsePrimary expr

/-- `_parse_multiplicative`. -/
def parseMultiplicative (expr : SqlParse F (Expression F)) (fuel : ℕ) :
    SqlParse F (Expression F) := do
  let left ← parseUnary expr fuel
  leftChain multiplicativeOperator (parseUnary expr fuel) fuel left

/-- `_parse_additive`. -/
def parseAdditive (expr : SqlParse F (Expression F)) (fuel : ℕ) :
    SqlParse F (Expression F) := do
  let left ← parseMultiplicative expr fuel
  leftChain additiveOperator (parseMultiplicative expr fuel) fuel left

/-- `_parse_comparison`. -/
def parseComparison (expr : SqlParse F (Expression F)) (fuel : ℕ) :
    SqlParse F (Expression F) := do
  let left ← parseAdditive expr fuel
  let t ← current
  match comparisonOperator t with
  | some combine =>
      let _ ← advance
      let right ← parseAdditive expr fuel
      pure (combine left right)
  | none => pure left

/-- `_parse_null_check`. -/
def parseNullCheck (expr : SqlParse F (Expression F)) (fuel : ℕ) :
    SqlParse F (Expression F) := do
  let e ← parseComparison expr fuel
  let is ← matchKeyword "IS"
  if is then
    let not ← matchKeyword "NOT"
    expectKeyword "NULL"
    pure (if not then .isNotNull e else .isNull e)
  else pure e

/-- `_parse_not`. -/
def parseNot (expr : SqlParse F (Expression F)) (nullFuel : ℕ) : ℕ → SqlParse F (Expression F)
  | 0 => failParse .outOfFuel
  | fuel + 1 => do
      let not ← matchKeyword "NOT"
      if not then
        let e ← parseNot expr nullFuel fuel
        pure (.not e)
      else parseNullCheck expr nullFuel

/-- `_parse_and`. -/
def parseAnd (expr : SqlParse F (Expression F)) (fuel : ℕ) : SqlParse F (Expression F) := do
  let left ← parseNot expr fuel fuel
  leftChain andOperator (parseNot expr fuel fuel) fuel left

/-- `_parse_or`. -/
def parseOr (expr : SqlParse F (Expression F)) (fuel : ℕ) : SqlParse F (Expression F) := do
  let left ← parseAnd expr fuel
  leftChain orOperator (parseAnd expr fuel) fuel left

/-- `_parse_expr`. -/
def parseExpr : ℕ → SqlParse F (Expression F)
  | 0 => failParse .outOfFuel
  | fuel + 1 => parseOr (parseExpr fuel) (fuel + 1)

end Expressions

section Aggregates

/-- `_contains_aggregate`. -/
def containsAggregate : Expression F → Bool
  | .countStar => true
  | .aggregate _ _ => true
  | .column _ => false
  | .literal _ => false
  | .aliased child _ => containsAggregate child
  | .binary _ left right => containsAggregate left || containsAggregate right
  | .not child => containsAggregate child
  | .isNull child => containsAggregate child
  | .isNotNull child => containsAggregate child

/-- `_plain_column_name`. -/
def plainColumnName (e : Expression F) : Option String :=
  match e.unalias with
  | .column name => some name
  | _ => none

variable [PyRuntime F]

/-- An exception of the interpreter that the parser lets through. -/
def letThrough {α : Type} (x : Py α) : Except SqlError α := x.mapError .raised

/-- The output column of the first item of the select list that prints as `target`. -/
def matchingColumn (target : String) :
    List (Expression F) → Except SqlError (Option (Expression F))
  | [] => .ok none
  | item :: items => do
      let text ← letThrough item.unalias.repr
      if text = target then do
        let name ← letThrough item.outputName
        pure (some (.column name))
      else matchingColumn target items

/-- What an aggregate in `HAVING` becomes: the output column of the first item of the
select list that prints the same. -/
def outputColumnOf (items : List (Expression F)) (e : Expression F) :
    Except SqlError (Expression F) := do
  let target ← letThrough e.repr
  let found ← matchingColumn target items
  match found with
  | some column => pure column
  | none => do
      let text ← letThrough e.repr
      .error (.parseError ("HAVING references " ++ text ++
        ", which is not in the SELECT list. MiniSpark's HAVING only supports aggregates already " ++
        "selected; give it an alias in SELECT (e.g. `SELECT COUNT(*) AS n ... HAVING n >= 1`) " ++
        "and reference that."))

omit [PyRuntime F] in
theorem letThrough_eq_ok {α : Type} {x : Py α} {a : α} : letThrough x = .ok a ↔ x = .ok a := by
  cases x <;> simp [letThrough, Except.mapError]

/-- What an aggregate becomes is a column, named after one of the items. -/
theorem matchingColumn_eq_some {target : String} {items : List (Expression F)} {c : Expression F}
    (h : matchingColumn target items = .ok (some c)) :
    ∃ item ∈ items, item.outputName = .ok item.columnName ∧ c = .column item.columnName := by
  induction items with
  | nil => cases h
  | cons item items ih =>
      obtain ⟨text, -, h⟩ := ExceptList.bind_eq_ok.mp h
      split at h
      · obtain ⟨name, hname, h⟩ := ExceptList.bind_eq_ok.mp h
        cases h
        rw [letThrough_eq_ok, Expression.outputName_eq, printed_eq_ok] at hname
        obtain ⟨hprints, rfl⟩ := hname
        exact ⟨item, List.mem_cons_self,
          by rw [Expression.outputName_eq, hprints, printed_true], rfl⟩
      · obtain ⟨item', hmem, hcolumn⟩ := ih h
        exact ⟨item', List.mem_cons_of_mem _ hmem, hcolumn⟩

theorem outputColumnOf_eq_column {items : List (Expression F)} {e e' : Expression F}
    (h : outputColumnOf items e = .ok e') : ∃ item ∈ items, e' = .column item.columnName := by
  obtain ⟨target, -, h⟩ := ExceptList.bind_eq_ok.mp h
  obtain ⟨found, hfound, h⟩ := ExceptList.bind_eq_ok.mp h
  cases found with
  | none =>
      obtain ⟨text, -, h⟩ := ExceptList.bind_eq_ok.mp h
      cases h
  | some c =>
      cases h
      obtain ⟨item, hmem, -, hcolumn⟩ := matchingColumn_eq_some hfound
      exact ⟨item, hmem, hcolumn⟩

/-- `_substitute_aggregates_with_output_columns`. -/
def substituteAggregates (items : List (Expression F)) :
    Expression F → Except SqlError (Expression F)
  | .countStar => outputColumnOf items .countStar
  | .aggregate name child => outputColumnOf items (.aggregate name child)
  | .binary op left right => do
      let l ← substituteAggregates items left
      let r ← substituteAggregates items right
      pure (.binary op l r)
  | .not child => do
      let c ← substituteAggregates items child
      pure (.not c)
  | .isNull child => do
      let c ← substituteAggregates items child
      pure (.isNull c)
  | .isNotNull child => do
      let c ← substituteAggregates items child
      pure (.isNotNull c)
  | e => pure e

/-- The refusal of an item that is not aggregated. -/
def refuseItem (item : Expression F) : Except SqlError Unit := do
  let text ← letThrough item.repr
  .error (.parseError ("SELECT list item " ++ text ++
    " is neither aggregated nor a GROUP BY column"))

/-- The loop over the items that are not aggregated. -/
def checkPlainItems (groupByNames : List String) : List (Expression F) → Except SqlError Unit
  | [] => .ok ()
  | item :: items =>
      match plainColumnName item with
      | some name => if name ∈ groupByNames then checkPlainItems groupByNames items
          else refuseItem item
      | none => refuseItem item

/-- `_apply_select`. -/
def applySelect (plan : LogicalPlan F) (selectItems : Option (List (Expression F)))
    (groupBy : List (Expression F)) : Except SqlError (LogicalPlan F) :=
  match selectItems with
  | none =>
      if groupBy ≠ [] then .error (.parseError "SELECT * cannot be combined with GROUP BY")
      else .ok plan
  | some items =>
      let aggregates := items.filter containsAggregate
      let plainItems := items.filter (fun item => !containsAggregate item)
      if groupBy = [] ∧ aggregates = [] then .ok (.project plan items)
      else if groupBy = [] ∧ aggregates ≠ [] ∧ plainItems ≠ [] then
        .error (.parseError ("SELECT list mixes an aggregate with a non-aggregated column and " ++
          "there is no GROUP BY; every non-aggregated column must appear in GROUP BY."))
      else do
        checkPlainItems (groupBy.filterMap plainColumnName) plainItems
        pure (.aggregate plan groupBy aggregates)

/-- `HAVING`: over an aggregation its aggregates stand for output columns. -/
def applyHaving (plan : LogicalPlan F) (having : Expression F) :
    Except SqlError (LogicalPlan F) :=
  match plan with
  | .aggregate child groupBy aggregates => do
      let condition ← substituteAggregates aggregates having
      pure (.filter (.aggregate child groupBy aggregates) condition)
  | plan => pure (.filter plan having)

/-- `_resolve_table`. -/
def resolveTable (tables : OrderedDict String (LogicalPlan F)) (name : String) :
    Except SqlError (LogicalPlan F) :=
  match tables.get? name with
  | some plan => .ok plan
  | none => .error (.parseError ("Unknown table " ++ reprStr (PyRuntime.isPrintable F) name ++
      ". Register it first with session.create_or_replace_temp_view(" ++
      reprStr (PyRuntime.isPrintable F) name ++ ", df)."))

lemma resolveTable_eq_ok {tables : OrderedDict String (LogicalPlan F)} {name : String}
    {plan : LogicalPlan F} : resolveTable tables name = .ok plan ↔ tables.get? name = some plan := by
  unfold resolveTable
  split <;> simp_all

end Aggregates

section Statement

/-- Raise what a check outside the parser raises. -/
def liftExcept {α : Type} : Except SqlError α → SqlParse F α
  | .ok a => pure a
  | .error e => failParse e

/-- Items separated by commas. -/
def commaList {α : Type} (item : SqlParse F α) : ℕ → SqlParse F (List α)
  | 0 => failParse .outOfFuel
  | fuel + 1 => do
      let a ← item
      let comma ← matchPunctuation ","
      if comma then
        let rest ← commaList item fuel
        pure (a :: rest)
      else pure [a]

variable [PyRuntime F]

/-- `_parse_qualified_name`. -/
def parseQualifiedName : SqlParse F String := do
  let name ← expectIdentifier
  let dot ← matchPunctuation "."
  if dot then expectIdentifier else pure name

/-- `_parse_join`. -/
def parseJoin (tables : OrderedDict String (LogicalPlan F)) (left : LogicalPlan F) :
    SqlParse F (LogicalPlan F) := do
  let rightName ← expectIdentifier
  let right ← liftExcept (resolveTable tables rightName)
  expectKeyword "ON"
  let leftCol ← parseQualifiedName
  expectOperator "="
  let rightCol ← parseQualifiedName
  if leftCol ≠ rightCol then
    failParse (.parseError ("JOIN ... ON " ++ leftCol ++ " = " ++ rightCol ++
      ": MiniSpark's Join only supports joining on a column with the same name on both sides " ++
      "(see logical/nodes.py's Join docstring), not differently-named keys."))
  else pure (.join left right [leftCol] "inner" false)

variable [PyText F]

/-- `_parse_select_item`. -/
def parseSelectItem (fuel : ℕ) : SqlParse F (Expression F) := do
  let e ← parseExpr fuel
  let as ← matchKeyword "AS"
  if as then
    let name ← expectIdentifier
    pure (.aliased e name)
  else pure e

/-- `_parse_select_list`, `none` for `*`. -/
def parseSelectList (fuel : ℕ) : SqlParse F (Option (List (Expression F))) := do
  let star ← matchOperator "*"
  if star then pure none
  else
    let items ← commaList (parseSelectItem fuel) fuel
    pure (some items)

/-- `_parse_group_by`. -/
def parseGroupBy (fuel : ℕ) : SqlParse F (List (Expression F)) := do
  expectKeyword "BY"
  commaList (parseExpr fuel) fuel

/-- One entry of `ORDER BY`. -/
def parseOrderItem (fuel : ℕ) : SqlParse F (Expression F × Bool) := do
  let e ← parseExpr fuel
  let desc ← matchKeyword "DESC"
  if desc then pure (e, false)
  else
    let _ ← matchKeyword "ASC"
    pure (e, true)

/-- `_parse_order_by`. -/
def parseOrderBy (fuel : ℕ) (plan : LogicalPlan F) : SqlParse F (LogicalPlan F) := do
  expectKeyword "BY"
  let keys ← commaList (parseOrderItem fuel) fuel
  pure (.sort plan keys)

/-- `if self._match_keyword(keyword)`: what follows the keyword, when it is there. -/
def optionalClause {α : Type} (keyword : String) (clause : SqlParse F α) (otherwise : α) :
    SqlParse F α := do
  let found ← matchKeyword keyword
  if found then clause else pure otherwise

/-- `parse_select_stmt`. -/
def parseSelectStmt (tables : OrderedDict String (LogicalPlan F)) (fuel : ℕ) :
    SqlParse F (LogicalPlan F) := do
  expectKeyword "SELECT"
  let selectItems ← parseSelectList fuel
  expectKeyword "FROM"
  let name ← expectIdentifier
  let table ← liftExcept (resolveTable tables name)
  let joined ← optionalClause "JOIN" (parseJoin tables table) table
  let filtered ← optionalClause "WHERE"
    (do let condition ← parseExpr fuel
        pure (.filter joined condition)) joined
  let groupBy ← optionalClause "GROUP" (parseGroupBy fuel) []
  let selected ← liftExcept (applySelect filtered selectItems groupBy)
  let grouped ← optionalClause "HAVING"
    (do let having ← parseExpr fuel
        liftExcept (applyHaving selected having)) selected
  let sorted ← optionalClause "ORDER" (parseOrderBy fuel grouped) grouped
  let t ← current
  if t.type ≠ .eof then
    failParse (.parseError ("Unexpected " ++ reprStr (PyRuntime.isPrintable F) t.value ++
      " at position " ++ toString t.position))
  else pure sorted

/-- The parse of a token list, its numbers converted by `number`. -/
def runSelectStmt (number : String → Except SqlError (Value F))
    (tables : OrderedDict String (LogicalPlan F)) (tokens : List Token) :
    Except SqlError (LogicalPlan F) :=
  Prod.fst <$> Asks.run number (parseSelectStmt tables tokens.length tokens)

/-- The conversion the interpreter does. -/
def pyNumber (text : String) : Except SqlError (Value F) := letThrough (numberOfText F text)

/-- `parse_sql`. -/
def parseSql (query : String) (tables : OrderedDict String (LogicalPlan F)) :
    Except SqlError (LogicalPlan F) := do
  let tokens ← tokenize F query
  runSelectStmt pyNumber tables tokens

end Statement

end MiniSpark
