import MiniSpark.SqlPrecedence
import MiniSpark.SqlWriting

/-!
# A query text says its statement

The grammar of a query, as a relation between a statement and the tokens that spell it: a
column of `ON` may carry its table's name, `ASC` may be left out, a clause that says
nothing is not written. Whatever text is written from those tokens, the parser makes the
statement's plan of it, and where the statement has none it raises the statement's error.
-/
namespace MiniSpark

variable {F : Type}

section Grammar

/-- `qualified_name`: the table before the point is read and dropped. -/
inductive SpellsName : String → List Spelling → Prop
  | bare (name : String) : SpellsName name [(.identifier, name)]
  | qualified (table name : String) :
      SpellsName name [(.identifier, table), (.punctuation, "."), (.identifier, name)]

/-- One thing after another, with commas between them. -/
inductive SpellsList {α : Type} (item : α → List Spelling → Prop) : List α → List Spelling → Prop
  | one {a : α} {ss : List Spelling} : item a ss → SpellsList item [a] ss
  | cons {a : α} {as : List α} {ss rest : List Spelling} : item a ss → SpellsList item as rest →
      SpellsList item (a :: as) (ss ++ (.punctuation, ",") :: rest)

/-- A clause: its keyword and what it says, or nothing where it says what its absence does. -/
inductive SpellsClause {α : Type} (keyword : String) (body : α → List Spelling → Prop)
    (absent : α) : α → List Spelling → Prop
  | absent : SpellsClause keyword body absent absent []
  | present {a : α} {ss : List Spelling} : body a ss →
      SpellsClause keyword body absent a ((.keyword, keyword) :: ss)

/-- `join_clause`, after its keyword. -/
inductive SpellsJoin : Option (String × String) → List Spelling → Prop
  | on {right column : String} {left other : List Spelling} : SpellsName column left →
      SpellsName column other → SpellsJoin (some (right, column))
        ((.identifier, right) :: (.keyword, "ON") :: (left ++ (.operator, "=") :: other))

variable [PyRuntime F] [PyText F]

/-- `expr`, with the parentheses the grammar requires. -/
inductive SpellsExpression : Expression F → List Spelling → Prop
  | rendered {e : Expression F} : e.SqlTree (IsReadableInt F) → SpellsExpression e e.rendering

/-- `select_item`. -/
inductive SpellsItem : Expression F → List Spelling → Prop
  | bare {e : Expression F} {ss : List Spelling} : SpellsExpression e ss → SpellsItem e ss
  | named {e : Expression F} {ss : List Spelling} (name : String) : SpellsExpression e ss →
      SpellsItem (.aliased e name) (ss ++ [(.keyword, "AS"), (.identifier, name)])

/-- `select_list`. -/
inductive SpellsSelect : Option (List (Expression F)) → List Spelling → Prop
  | star : SpellsSelect none [(.operator, "*")]
  | items {es : List (Expression F)} {ss : List Spelling} : SpellsList SpellsItem es ss →
      SpellsSelect (some es) ss

/-- `WHERE` and `HAVING`, after the keyword. -/
inductive SpellsCondition : Option (Expression F) → List Spelling → Prop
  | holds {e : Expression F} {ss : List Spelling} : SpellsExpression e ss →
      SpellsCondition (some e) ss

/-- `GROUP BY`, after its first word. -/
inductive SpellsGroupBy : List (Expression F) → List Spelling → Prop
  | by {es : List (Expression F)} {ss : List Spelling} : SpellsList SpellsExpression es ss →
      SpellsGroupBy es ((.keyword, "BY") :: ss)

/-- `order_item`. -/
inductive SpellsKey : Expression F × Bool → List Spelling → Prop
  | bare {e : Expression F} {ss : List Spelling} : SpellsExpression e ss → SpellsKey (e, true) ss
  | ascending {e : Expression F} {ss : List Spelling} : SpellsExpression e ss →
      SpellsKey (e, true) (ss ++ [(.keyword, "ASC")])
  | descending {e : Expression F} {ss : List Spelling} : SpellsExpression e ss →
      SpellsKey (e, false) (ss ++ [(.keyword, "DESC")])

/-- `ORDER BY`, after its first word. -/
inductive SpellsOrderBy : Option (List (Expression F × Bool)) → List Spelling → Prop
  | by {keys : List (Expression F × Bool)} {ss : List Spelling} : SpellsList SpellsKey keys ss →
      SpellsOrderBy (some keys) ((.keyword, "BY") :: ss)

/-- `select_stmt`. -/
inductive SpellsStatement : Statement F → List Spelling → Prop
  | select {items : Option (List (Expression F))} {table : String}
      {join : Option (String × String)} {condition having : Option (Expression F)}
      {groupBy : List (Expression F)} {orderBy : Option (List (Expression F × Bool))}
      {list joined filtered grouped kept sorted : List Spelling} :
      SpellsSelect items list →
      SpellsClause "JOIN" SpellsJoin none join joined →
      SpellsClause "WHERE" SpellsCondition none condition filtered →
      SpellsClause "GROUP" SpellsGroupBy [] groupBy grouped →
      SpellsClause "HAVING" SpellsCondition none having kept →
      SpellsClause "ORDER" SpellsOrderBy none orderBy sorted →
      SpellsStatement ⟨items, table, join, condition, groupBy, having, orderBy⟩
        ((.keyword, "SELECT") :: (list ++ (.keyword, "FROM") :: (.identifier, table) ::
          (joined ++ (filtered ++ (grouped ++ (kept ++ sorted))))))

end Grammar

section Reading

variable {α β : Type} {answer : String → Except SqlError (Value F)} {ts mid rest : List Token}

/-- What comes of a parser, and the tokens it leaves where it returns. -/
def Outcomes (answer : String → Except SqlError (Value F)) (p : SqlParse F α) (ts : List Token)
    (x : Except SqlError α) (rest : List Token) : Prop :=
  Asks.run answer (p ts) = x.map (fun a => (a, rest))

lemma Returns.outcomes {p : SqlParse F α} {a : α} (h : Returns answer p ts a rest) :
    Outcomes answer p ts (.ok a) rest := h

lemma outcomes_liftExcept (x : Except SqlError α) :
    Outcomes answer (liftExcept x : SqlParse F α) ts x ts := by
  cases x <;> rfl

lemma Outcomes.bind {p : SqlParse F α} {f : α → SqlParse F β} {x : Except SqlError α}
    {g : α → Except SqlError β} (hp : Outcomes answer p ts x mid)
    (hf : ∀ a, x = .ok a → Outcomes answer (f a) mid (g a) rest) :
    Outcomes answer (p >>= f) ts (x >>= g) rest := by
  show Asks.run answer (p ts >>= fun r => f r.1 r.2) = _
  rw [Asks.run_bind, hp]
  cases x with
  | error e => rfl
  | ok a => exact hf a rfl

/-- A parser that returns is followed by the next one. -/
lemma Returns.bind_outcomes {p : SqlParse F α} {f : α → SqlParse F β} {a : α}
    {y : Except SqlError β} (hp : Returns answer p ts a mid)
    (hf : Outcomes answer (f a) mid y rest) : Outcomes answer (p >>= f) ts y rest := by
  have hbind : Outcomes answer (p >>= f) ts (Except.ok a >>= fun _ => y) rest := by
    apply hp.outcomes.bind
    intro b hb
    cases hb
    exact hf
  exact hbind

lemma Returns.and_then {p : SqlParse F α} {f : α → SqlParse F β} {a : α} {b : β}
    (hp : Returns answer p ts a mid) (hf : Returns answer (f a) mid b rest) :
    Returns answer (p >>= f) ts b rest :=
  returns_bind.mpr ⟨a, mid, hp, hf⟩

/-- What is left starts with one of the given tokens. -/
def GoesOn (heads : List Spelling) (ts : List Token) : Prop :=
  ∃ t rest, ts = t :: rest ∧ t.spelling ∈ heads

/-- The tokens that may come after an item of a list or the expression of a clause. -/
def itemEnds : List Spelling :=
  [(.punctuation, ","), (.keyword, "FROM"), (.keyword, "JOIN"), (.keyword, "WHERE"),
    (.keyword, "GROUP"), (.keyword, "HAVING"), (.keyword, "ORDER"), (.eof, "")]

lemma itemEnds_stop : ∀ s ∈ itemEnds, Stops 0 s := by
  simp only [itemEnds, List.mem_cons, List.not_mem_nil, or_false, forall_eq_or_imp, forall_eq]
  refine ⟨?_, ?_, ?_, ?_, ?_, ?_, ?_, ?_⟩ <;> (constructor <;> decide)

lemma GoesOn.mono {heads more : List Spelling} (h : GoesOn heads ts) (hsub : heads ⊆ more) :
    GoesOn more ts := by
  obtain ⟨t, tail, rfl, ht⟩ := h
  exact ⟨t, tail, rfl, hsub ht⟩

/-- A token that is not among those that may come is not matched. -/
lemma GoesOn.not_matched {heads : List Spelling} (h : GoesOn heads ts) {type : TokenType}
    {value : String} (hnot : (type, value) ∉ heads) :
    Returns answer (matchToken type value : SqlParse F Bool) ts false ts := by
  obtain ⟨t, tail, rfl, ht⟩ := h
  exact matchToken_false tail (fun heq => hnot (heq ▸ ht))

/-- After a clause, or in its place, come the clauses after it. -/
lemma SpellsClause.goesOn {keyword : String} {body : α → List Spelling → Prop} {absent a : α}
    {ss heads : List Spelling} (h : SpellsClause keyword body absent a ss)
    (hts : ts.map Token.spelling = ss) (hrest : GoesOn heads rest) :
    GoesOn ((.keyword, keyword) :: heads) (ts ++ rest) := by
  cases h with
  | absent =>
      obtain rfl := List.map_eq_nil_iff.mp hts
      exact hrest.mono (List.subset_cons_self _ _)
  | present _ =>
      obtain ⟨t, tail, rfl, ht, -⟩ := List.map_eq_cons_iff.mp hts
      exact ⟨t, tail ++ rest, rfl, by simp [ht]⟩

end Reading

section Clauses

variable {α β : Type} {answer : String → Except SqlError (Value F)} {ts rest : List Token}

/-- A clause that is written is read, and one that is not is passed over. -/
lemma SpellsClause.outcomes {keyword : String} {body : α → List Spelling → Prop} {absent a : α}
    {ss heads : List Spelling} {clause : SqlParse F β} {otherwise : β} {x : α → Except SqlError β}
    (h : SpellsClause keyword body absent a ss) (hts : ts.map Token.spelling = ss)
    (hrest : GoesOn heads rest) (hkeyword : (TokenType.keyword, keyword) ∉ heads)
    (habsent : x absent = .ok otherwise)
    (hclause : ∀ ss' tail, body a ss' → tail.map Token.spelling = ss' →
      tail.length ≤ ts.length → Outcomes answer clause (tail ++ rest) (x a) rest) :
    Outcomes answer (optionalClause keyword clause otherwise) (ts ++ rest) (x a) rest := by
  cases h with
  | absent =>
      obtain rfl := List.map_eq_nil_iff.mp hts
      rw [habsent]
      exact (hrest.not_matched hkeyword).bind_outcomes rfl
  | present hbody =>
      obtain ⟨t, tail, rfl, ht, htail⟩ := List.map_eq_cons_iff.mp hts
      have hmatch : Returns answer (matchKeyword keyword) (t :: tail ++ rest) true (tail ++ rest) :=
        matchToken_true _ (by decide) ht
      exact hmatch.bind_outcomes (hclause _ tail hbody htail (by simp))

/-- A list is read up to the token after its last item. -/
lemma SpellsList.returns {item : α → List Spelling → Prop} {p : SqlParse F α} {fuel : ℕ}
    (hitem : ∀ a ss us r, item a ss → us.map Token.spelling = ss → us.length < fuel →
      GoesOn itemEnds r → Returns answer p (us ++ r) a r)
    {as : List α} {ss : List Spelling} (h : SpellsList item as ss)
    (hts : ts.map Token.spelling = ss) (hfuel : ts.length < fuel)
    (hrest : GoesOn (itemEnds.drop 1) rest) {n : ℕ} (hn : ts.length < n) :
    Returns answer (commaList p n) (ts ++ rest) as rest := by
  have hcomma : GoesOn itemEnds rest := hrest.mono (List.drop_subset 1 itemEnds)
  induction h generalizing ts n with
  | one ha =>
      obtain ⟨n, rfl⟩ : ∃ m, n = m + 1 := ⟨n - 1, by omega⟩
      apply (hitem _ _ ts rest ha hts hfuel hcomma).and_then
      apply Returns.and_then (hrest.not_matched (by decide))
      exact returns_pure.mpr ⟨rfl, rfl⟩
  | cons ha _ ih =>
      obtain ⟨n, rfl⟩ : ∃ m, n = m + 1 := ⟨n - 1, by omega⟩
      obtain ⟨us, tail, rfl, hus, htail⟩ := List.map_eq_append_iff.mp hts
      obtain ⟨comma, vs, rfl, hc, hvs⟩ := List.map_eq_cons_iff.mp htail
      simp only [List.length_append, List.length_cons] at hfuel hn
      rw [List.append_assoc, List.cons_append]
      apply (hitem _ _ us _ ha hus (by omega) ⟨comma, vs ++ rest, rfl, by simp [hc, itemEnds]⟩).and_then
      apply (matchToken_true (vs ++ rest) (by decide) hc).and_then
      apply (ih hvs (by omega) (by omega)).and_then
      exact returns_pure.mpr ⟨rfl, rfl⟩

lemma expectIdentifier_returns [PyRuntime F] {t : Token} {name : String}
    (ht : t.spelling = (.identifier, name)) :
    Returns answer (expectIdentifier : SqlParse F String) (t :: rest) name rest := by
  obtain ⟨htype, rfl⟩ := Token.type_eq ht
  apply (current_returns t rest).and_then
  rw [if_pos htype]
  apply (advance_returns rest (by rw [htype]; decide)).and_then
  exact returns_pure.mpr ⟨rfl, rfl⟩

lemma SpellsName.returns [PyRuntime F] {name : String} {ss heads : List Spelling}
    (h : SpellsName name ss) (hts : ts.map Token.spelling = ss) (hrest : GoesOn heads rest)
    (hpoint : (TokenType.punctuation, ".") ∉ heads) :
    Returns answer (parseQualifiedName : SqlParse F String) (ts ++ rest) name rest := by
  cases h with
  | bare =>
      obtain ⟨t, tail, rfl, ht, htail⟩ := List.map_eq_cons_iff.mp hts
      obtain rfl := List.map_eq_nil_iff.mp htail
      apply (expectIdentifier_returns ht).and_then
      apply Returns.and_then (hrest.not_matched hpoint)
      exact returns_pure.mpr ⟨rfl, rfl⟩
  | qualified table =>
      obtain ⟨t, tail, rfl, ht, htail⟩ := List.map_eq_cons_iff.mp hts
      obtain ⟨dot, tail, rfl, hdot, htail⟩ := List.map_eq_cons_iff.mp htail
      obtain ⟨t', tail, rfl, ht', htail⟩ := List.map_eq_cons_iff.mp htail
      obtain rfl := List.map_eq_nil_iff.mp htail
      apply (expectIdentifier_returns ht).and_then
      apply (matchToken_true _ (by decide) hdot).and_then
      exact expectIdentifier_returns ht'

/-- The joined plan, or the error of a right table that is not there. -/
lemma SpellsJoin.outcomes [PyRuntime F] {tables : OrderedDict String (LogicalPlan F)}
    {left : LogicalPlan F} {join : Option (String × String)} {ss heads : List Spelling}
    (h : SpellsJoin join ss) (hts : ts.map Token.spelling = ss) (hrest : GoesOn heads rest)
    (hpoint : (TokenType.punctuation, ".") ∉ heads) :
    Outcomes answer (parseJoin tables left) (ts ++ rest) (joinTables tables left join) rest := by
  cases h with
  | @on right column leftName other hleft hother =>
      obtain ⟨t, tail, rfl, ht, htail⟩ := List.map_eq_cons_iff.mp hts
      obtain ⟨on, tail, rfl, hon, htail⟩ := List.map_eq_cons_iff.mp htail
      obtain ⟨us, tail, rfl, hus, htail⟩ := List.map_eq_append_iff.mp htail
      obtain ⟨eq, vs, rfl, heq, hvs⟩ := List.map_eq_cons_iff.mp htail
      simp only [List.cons_append, List.append_assoc]
      apply (expectIdentifier_returns ht).bind_outcomes
      apply (outcomes_liftExcept _).bind
      intro plan _
      apply (expectToken_returns _ (by decide) hon).bind_outcomes
      have hgoes : GoesOn [(.operator, "=")] (eq :: (vs ++ rest)) :=
        ⟨eq, vs ++ rest, rfl, by simp [heq]⟩
      apply (hleft.returns hus hgoes (by decide)).bind_outcomes
      apply (expectToken_returns _ (by decide) heq).bind_outcomes
      apply (hother.returns hvs hrest hpoint).bind_outcomes
      rw [if_neg (fun hne => hne rfl)]
      rfl

end Clauses

section Statements

variable [PyRuntime F] [PyText F] {ts rest : List Token} {fuel : ℕ}

/-- An expression is read up to the token after it. -/
lemma SpellsExpression.returns {e : Expression F} {ss : List Spelling} (h : SpellsExpression e ss)
    (hts : ts.map Token.spelling = ss) (hfuel : ts.length < fuel) {t : Token}
    (ht : Stops 0 t.spelling) :
    Returns pyNumber (parseExpr fuel) (ts ++ t :: rest) e (t :: rest) := by
  cases h with
  | rendered he =>
      obtain ⟨fuel, rfl⟩ : ∃ n, fuel = n + 1 := ⟨fuel - 1, by omega⟩
      have hwhole : ts.map Token.spelling = e.parenthesized 0 e.rendering := by
        simp [hts, Expression.parenthesized]
      exact (renders_sqlTree he (fun n hn => pyNumber_toString F hn)).parenthesized (Nat.zero_le 8)
        hwhole fuel (fuel + 1) t rest (by omega) (by omega) ht

lemma SpellsExpression.returns_end {e : Expression F} {ss : List Spelling}
    (h : SpellsExpression e ss) (hts : ts.map Token.spelling = ss) (hfuel : ts.length < fuel)
    (hrest : GoesOn itemEnds rest) :
    Returns pyNumber (parseExpr fuel) (ts ++ rest) e rest := by
  obtain ⟨t, tail, rfl, ht⟩ := hrest
  exact h.returns hts hfuel (itemEnds_stop _ ht)

/-- An expression with one word after it. -/
lemma SpellsExpression.returns_word {e : Expression F} {ss : List Spelling} {word : String}
    (h : SpellsExpression e ss) (hword : Stops 0 (.keyword, word)) {more : List Spelling}
    (hts : ts.map Token.spelling = ss ++ (.keyword, word) :: more) (hfuel : ts.length < fuel)
    (rest : List Token) :
    ∃ w tail, w.spelling = (.keyword, word) ∧ tail.map Token.spelling = more ∧
      Returns pyNumber (parseExpr fuel) (ts ++ rest) e (w :: (tail ++ rest)) := by
  obtain ⟨us, tail, rfl, hus, htail⟩ := List.map_eq_append_iff.mp hts
  obtain ⟨w, tail, rfl, hw, htail⟩ := List.map_eq_cons_iff.mp htail
  simp only [List.length_append, List.length_cons] at hfuel
  simp only [List.cons_append, List.append_assoc]
  exact ⟨w, tail, hw, htail, h.returns hus (by omega) (hw ▸ hword)⟩

lemma SpellsItem.returns {e : Expression F} {ss : List Spelling} (h : SpellsItem e ss)
    (hts : ts.map Token.spelling = ss) (hfuel : ts.length < fuel) (hrest : GoesOn itemEnds rest) :
    Returns pyNumber (parseSelectItem fuel) (ts ++ rest) e rest := by
  cases h with
  | bare he =>
      apply (he.returns_end hts hfuel hrest).and_then
      apply Returns.and_then (hrest.not_matched (by decide))
      exact returns_pure.mpr ⟨rfl, rfl⟩
  | named name he =>
      have hstops : Stops 0 (.keyword, "AS") := by constructor <;> decide
      obtain ⟨w, tail, hw, htail, he⟩ := he.returns_word hstops hts hfuel rest
      obtain ⟨t, tail, rfl, ht, hnil⟩ := List.map_eq_cons_iff.mp htail
      obtain rfl := List.map_eq_nil_iff.mp hnil
      apply he.and_then
      apply (matchToken_true _ (by decide) hw).and_then
      apply (expectIdentifier_returns ht).and_then
      exact returns_pure.mpr ⟨rfl, rfl⟩

lemma SpellsKey.returns {key : Expression F × Bool} {ss : List Spelling} (h : SpellsKey key ss)
    (hts : ts.map Token.spelling = ss) (hfuel : ts.length < fuel) (hrest : GoesOn itemEnds rest) :
    Returns pyNumber (parseOrderItem fuel) (ts ++ rest) key rest := by
  cases h with
  | bare he =>
      apply (he.returns_end hts hfuel hrest).and_then
      apply Returns.and_then (hrest.not_matched (by decide))
      apply Returns.and_then (hrest.not_matched (by decide))
      exact returns_pure.mpr ⟨rfl, rfl⟩
  | ascending he =>
      have hstops : Stops 0 (.keyword, "ASC") := by constructor <;> decide
      obtain ⟨w, tail, hw, htail, he⟩ := he.returns_word hstops hts hfuel rest
      obtain rfl := List.map_eq_nil_iff.mp htail
      apply he.and_then
      apply (matchToken_false _ (by rw [hw]; decide)).and_then
      apply (matchToken_true _ (by decide) hw).and_then
      exact returns_pure.mpr ⟨rfl, rfl⟩
  | descending he =>
      have hstops : Stops 0 (.keyword, "DESC") := by constructor <;> decide
      obtain ⟨w, tail, hw, htail, he⟩ := he.returns_word hstops hts hfuel rest
      obtain rfl := List.map_eq_nil_iff.mp htail
      apply he.and_then
      apply (matchToken_true _ (by decide) hw).and_then
      exact returns_pure.mpr ⟨rfl, rfl⟩

/-- An expression does not start with `*`, so no list of them is taken for `SELECT *`. -/
lemma SpellsExpression.begins {e : Expression F} {ss : List Spelling} (h : SpellsExpression e ss) :
    ∃ s more, ss = s :: more ∧ s ≠ (.operator, "*") := by
  cases h with
  | rendered he =>
      obtain ⟨s, more, hbody, hs⟩ := (renders_sqlTree he (fun n hn => pyNumber_toString F hn)).begins
      exact ⟨s, more, hbody, hs.star⟩

lemma SpellsItem.begins {e : Expression F} {ss : List Spelling} (h : SpellsItem e ss) :
    ∃ s more, ss = s :: more ∧ s ≠ (.operator, "*") := by
  cases h with
  | bare he => exact he.begins
  | named name he =>
      obtain ⟨s, more, rfl, hs⟩ := he.begins
      exact ⟨s, _, List.cons_append, hs⟩

lemma SpellsSelect.returns {items : Option (List (Expression F))} {ss : List Spelling}
    (h : SpellsSelect items ss) (hts : ts.map Token.spelling = ss) (hfuel : ts.length < fuel)
    (hrest : GoesOn [(.keyword, "FROM")] rest) :
    Returns pyNumber (parseSelectList fuel) (ts ++ rest) items rest := by
  cases h with
  | star =>
      obtain ⟨t, tail, rfl, ht, hnil⟩ := List.map_eq_cons_iff.mp hts
      obtain rfl := List.map_eq_nil_iff.mp hnil
      apply (matchToken_true _ (by decide) ht).and_then
      exact returns_pure.mpr ⟨rfl, rfl⟩
  | items hlist =>
      have hbegins : ∃ s more, ss = s :: more ∧ s ≠ (TokenType.operator, "*") := by
        cases hlist with
        | one ha => exact ha.begins
        | cons ha _ =>
            obtain ⟨s, more, rfl, hs⟩ := ha.begins
            exact ⟨s, _, List.cons_append, hs⟩
      obtain ⟨s, more, rfl, hs⟩ := hbegins
      have hread : Returns pyNumber (commaList (parseSelectItem fuel) fuel) (ts ++ rest) _ rest :=
        hlist.returns (fun _ _ _ _ ha => ha.returns) hts hfuel (hrest.mono (by simp [itemEnds])) hfuel
      obtain ⟨t, tail, rfl, ht, -⟩ := List.map_eq_cons_iff.mp hts
      apply (matchToken_false _ (by rw [ht]; exact hs)).and_then
      apply hread.and_then
      exact returns_pure.mpr ⟨rfl, rfl⟩

lemma SpellsGroupBy.returns {groupBy : List (Expression F)} {ss : List Spelling}
    (h : SpellsGroupBy groupBy ss) (hts : ts.map Token.spelling = ss) (hfuel : ts.length < fuel)
    (hrest : GoesOn (itemEnds.drop 1) rest) :
    Returns pyNumber (parseGroupBy fuel) (ts ++ rest) groupBy rest := by
  cases h with
  | «by» hlist =>
      obtain ⟨t, tail, rfl, ht, htail⟩ := List.map_eq_cons_iff.mp hts
      rw [List.length_cons] at hfuel
      apply (expectToken_returns _ (by decide) ht).and_then
      exact hlist.returns (fun _ _ _ _ ha hus hlt hr => ha.returns_end hus hlt hr) htail
        (by omega) hrest (by omega)

lemma SpellsOrderBy.returns {orderBy : Option (List (Expression F × Bool))} {ss : List Spelling}
    (h : SpellsOrderBy orderBy ss) (hts : ts.map Token.spelling = ss) (hfuel : ts.length < fuel)
    (hrest : GoesOn (itemEnds.drop 1) rest) (child : LogicalPlan F) :
    Returns pyNumber (parseOrderBy fuel child) (ts ++ rest) (sortBy child orderBy) rest := by
  cases h with
  | «by» hlist =>
      obtain ⟨t, tail, rfl, ht, htail⟩ := List.map_eq_cons_iff.mp hts
      rw [List.length_cons] at hfuel
      apply (expectToken_returns _ (by decide) ht).and_then
      have hread : Returns pyNumber (commaList (parseOrderItem fuel) fuel) (tail ++ rest) _ rest :=
        hlist.returns (fun _ _ _ _ ha => ha.returns) htail (by omega) hrest (by omega)
      apply hread.and_then
      exact returns_pure.mpr ⟨rfl, rfl⟩

/-- The keywords of the clauses from the given one on, and the end of the query. -/
def clauseHeads (n : ℕ) : List Spelling :=
  [(TokenType.keyword, "JOIN"), (.keyword, "WHERE"), (.keyword, "GROUP"), (.keyword, "HAVING"),
    (.keyword, "ORDER"), (.eof, "")].drop n

lemma clauseHeads_ends (n : ℕ) : clauseHeads n ⊆ itemEnds.drop 1 :=
  List.Subset.trans (List.drop_subset n _) (by simp [itemEnds])

/-- The filter of `WHERE`, where there is one. -/
lemma where_returns {condition : Option (Expression F)} {ss : List Spelling}
    (h : SpellsClause "WHERE" SpellsCondition none condition ss)
    (hts : ts.map Token.spelling = ss) (hfuel : ts.length < fuel)
    (hrest : GoesOn (clauseHeads 2) rest) (plan : LogicalPlan F) :
    Returns pyNumber (optionalClause "WHERE"
      (do let condition ← parseExpr fuel
          pure (.filter plan condition)) plan) (ts ++ rest) (filterBy plan condition) rest := by
  have hends : GoesOn itemEnds rest :=
    (hrest.mono (clauseHeads_ends 2)).mono (List.drop_subset 1 itemEnds)
  apply h.outcomes (x := fun c => .ok (filterBy plan c)) hts hrest (by decide) rfl
  intro ss' tail hbody htail hle
  cases hbody with
  | holds he =>
      apply (he.returns_end htail (by omega) hends).and_then
      exact returns_pure.mpr ⟨rfl, rfl⟩

lemma having_outcomes {having : Option (Expression F)} {ss : List Spelling}
    (h : SpellsClause "HAVING" SpellsCondition none having ss)
    (hts : ts.map Token.spelling = ss) (hfuel : ts.length < fuel)
    (hrest : GoesOn (clauseHeads 4) rest) (plan : LogicalPlan F) :
    Outcomes pyNumber (optionalClause "HAVING"
      (do let having ← parseExpr fuel
          liftExcept (applyHaving plan having)) plan) (ts ++ rest) (havingOf plan having) rest := by
  have hends : GoesOn itemEnds rest :=
    (hrest.mono (clauseHeads_ends 4)).mono (List.drop_subset 1 itemEnds)
  apply h.outcomes (x := havingOf plan) hts hrest (by decide) rfl
  intro ss' tail hbody htail hle
  cases hbody with
  | holds he =>
      apply (he.returns_end htail (by omega) hends).bind_outcomes
      exact outcomes_liftExcept _

/-- The tokens of a statement are read as its plan, or end in its error. -/
theorem SpellsStatement.outcomes {s : Statement F} {ss : List Spelling} (h : SpellsStatement s ss)
    (tables : OrderedDict String (LogicalPlan F)) (hts : ts.map Token.spelling = ss)
    (hfuel : ts.length < fuel) {eof : Token} (heof : eof.spelling = (.eof, "")) :
    Outcomes pyNumber (parseSelectStmt tables fuel) (ts ++ [eof]) (s.toPlan tables) [eof] := by
  cases h with
  | select hlist hjoined hfiltered hgrouped hkept hsorted =>
      obtain ⟨t₁, tail, rfl, h1, htail⟩ := List.map_eq_cons_iff.mp hts
      obtain ⟨list, tail, rfl, hts₂, htail⟩ := List.map_eq_append_iff.mp htail
      obtain ⟨t₂, tail, rfl, h2, htail⟩ := List.map_eq_cons_iff.mp htail
      obtain ⟨t₃, tail, rfl, h3, htail⟩ := List.map_eq_cons_iff.mp htail
      obtain ⟨joined, tail, rfl, hts₃, htail⟩ := List.map_eq_append_iff.mp htail
      obtain ⟨filtered, tail, rfl, hts₄, htail⟩ := List.map_eq_append_iff.mp htail
      obtain ⟨grouped, tail, rfl, hts₅, htail⟩ := List.map_eq_append_iff.mp htail
      obtain ⟨kept, sorted, rfl, hts₆, hts₇⟩ := List.map_eq_append_iff.mp htail
      simp only [List.length_append, List.length_cons] at hfuel
      simp only [List.cons_append, List.append_assoc]
      -- Every clause is followed by a later one or by the end.
      have hends₇ : GoesOn (clauseHeads 5) [eof] := ⟨eof, [], rfl, by simp [clauseHeads, heof]⟩
      have hends₆ : GoesOn (clauseHeads 4) (sorted ++ [eof]) := hsorted.goesOn hts₇ hends₇
      have hends₅ : GoesOn (clauseHeads 3) (kept ++ (sorted ++ [eof])) := hkept.goesOn hts₆ hends₆
      have hends₄ : GoesOn (clauseHeads 2) (grouped ++ (kept ++ (sorted ++ [eof]))) :=
        hgrouped.goesOn hts₅ hends₅
      have hends₃ : GoesOn (clauseHeads 1) (filtered ++ (grouped ++ (kept ++ (sorted ++ [eof])))) :=
        hfiltered.goesOn hts₄ hends₄
      have hfrom : GoesOn [(.keyword, "FROM")] (t₂ :: t₃ :: (joined ++ (filtered ++ (grouped ++
          (kept ++ (sorted ++ [eof])))))) := ⟨t₂, _, rfl, by simp [h2]⟩
      apply (expectToken_returns _ (by decide) h1).bind_outcomes
      apply (hlist.returns hts₂ (by omega) hfrom).bind_outcomes
      apply (expectToken_returns _ (by decide) h2).bind_outcomes
      apply (expectIdentifier_returns h3).bind_outcomes
      apply (outcomes_liftExcept _).bind
      intro table _
      apply (hjoined.outcomes (x := joinTables tables table) hts₃ hends₃ (by decide) rfl
        (fun ss' us hbody hus _ => hbody.outcomes hus hends₃ (by decide))).bind
      intro plan _
      apply (where_returns hfiltered hts₄ (by omega) hends₄ plan).bind_outcomes
      have hgroup : Returns pyNumber (optionalClause "GROUP" (parseGroupBy fuel) [])
          (grouped ++ (kept ++ (sorted ++ [eof]))) _ (kept ++ (sorted ++ [eof])) :=
        hgrouped.outcomes (x := .ok) hts₅ hends₅ (by decide) rfl (fun ss' us hbody hus hle =>
          hbody.returns hus (by omega) (hends₅.mono (clauseHeads_ends 3)))
      apply hgroup.bind_outcomes
      apply (outcomes_liftExcept _).bind
      intro selected _
      apply (having_outcomes hkept hts₆ (by omega) hends₆ selected).bind
      intro child _
      have horder : Returns pyNumber (optionalClause "ORDER" (parseOrderBy fuel child) child)
          (sorted ++ [eof]) (sortBy child _) [eof] :=
        hsorted.outcomes (x := fun keys => .ok (sortBy child keys)) hts₇ hends₇ (by decide) rfl
          (fun ss' us hbody hus hle =>
            hbody.returns hus (by omega) (hends₇.mono (clauseHeads_ends 5)) child)
      apply horder.bind_outcomes
      apply (current_returns eof []).bind_outcomes
      rw [if_neg (fun hne => hne (Token.type_eq heof).1)]
      rfl

end Statements

section RoundTrip

variable [PyRuntime F] [PyText F] [LawfulPyText F]

omit [LawfulPyText F] in
/-- Tokens that spell a statement and then end are parsed to its plan or its error. -/
lemma parseSql_of_tokens {s : Statement F} {ss : List Spelling} (hs : SpellsStatement s ss)
    {query : String} {ts : List Token} {eof : Token} (htokens : tokenize F query = .ok (ts ++ [eof]))
    (hts : ts.map Token.spelling = ss) (heof : eof.spelling = (.eof, ""))
    (tables : OrderedDict String (LogicalPlan F)) : parseSql query tables = s.toPlan tables := by
  have hparse : Outcomes pyNumber (parseSelectStmt tables (ts ++ [eof]).length) (ts ++ [eof])
      (s.toPlan tables) [eof] := hs.outcomes tables hts (by simp) heof
  show (tokenize F query >>= runSelectStmt pyNumber tables) = s.toPlan tables
  rw [htokens, ExceptList.bind_ok, runSelectStmt, hparse]
  cases s.toPlan tables <;> rfl

/-- The tokens of a written text, and the end of it. -/
lemma tokenize_written {ss : List Spelling} {cs : List Char} (h : WritesAll F ss cs) :
    ∃ ts eof, tokenize F (String.ofList cs) = .ok (ts ++ [eof]) ∧ ts.map Token.spelling = ss ∧
      eof.spelling = (.eof, "") := by
  have hscans : ∃ tokens, tokenizeLoop F (String.ofList cs) cs.length cs = .ok tokens ∧
      tokens.map Token.spelling = ss ++ [(.eof, "")] := scans_writesAll h _ le_rfl
  obtain ⟨tokens, htokens, hspelling⟩ := hscans
  obtain ⟨ts, ends, rfl, hts, hends⟩ := List.map_eq_append_iff.mp hspelling
  obtain ⟨eof, after, rfl, heof, hnil⟩ := List.map_eq_cons_iff.mp hends
  obtain rfl := List.map_eq_nil_iff.mp hnil
  refine ⟨ts, eof, ?_, hts, heof⟩
  rw [tokenize, String.toList_ofList, String.length_ofList]
  exact htokens

/-- `SELECT * FROM t JOIN t ON t.a = a ORDER BY a DESC`. -/
def selfJoinDescending : Statement ℚ where
  selectItems := none
  table := "t"
  join := some ("t", "a")
  condition := none
  groupBy := []
  having := none
  orderBy := some [(.column "a", false)]

lemma writes_keyword (word : List Char) {keyword : String}
    (hletters : word.all Char.isAlpha = true)
    (hupper : String.ofList (word.map Char.toUpper) = keyword) (hkeyword : keyword ∈ keywords) :
    Writes (.keyword, keyword) word := by
  subst hupper
  exact .keyword (List.all_eq_true.mp hletters) hkeyword

/-- The statement's text in lower case, with a qualified name and a comment. -/
def selfJoinText : List Char :=
  "select * from t join t on t . a = a order by --\na desc".toList

def selfJoinSpelling : List Spelling :=
  [(.keyword, "SELECT"), (.operator, "*"), (.keyword, "FROM"), (.identifier, "t"),
    (.keyword, "JOIN"), (.identifier, "t"), (.keyword, "ON"), (.identifier, "t"),
    (.punctuation, "."), (.identifier, "a"), (.operator, "="), (.identifier, "a"),
    (.keyword, "ORDER"), (.keyword, "BY"), (.identifier, "a"), (.keyword, "DESC")]

lemma selfJoin_spelled : SpellsStatement selfJoinDescending selfJoinSpelling :=
  .select .star (.present (.on (.qualified "t" "a") (.bare "a"))) .absent .absent .absent
    (.present (.by (.one (.descending (.rendered (e := .column "a") trivial)))))

lemma selfJoin_written : WritesAll ℚ selfJoinSpelling selfJoinText := by
  have hname : ∀ c ∈ ['a', 't'], Writes (.identifier, String.ofList [c]) [c] := by
    simp only [List.mem_cons, List.not_mem_nil, or_false, forall_eq_or_imp, forall_eq]
    exact ⟨.identifier rfl (List.forall_mem_singleton.mpr rfl) (by decide),
      .identifier rfl (List.forall_mem_singleton.mpr rfl) (by decide)⟩
  have ha : Writes (.identifier, "a") ['a'] := hname 'a' (by decide)
  have ht : Writes (.identifier, "t") ['t'] := hname 't' (by decide)
  have hcomment : Blanks ℚ ('-' :: '-' :: ([] ++ '\n' :: [])) := .comment (by decide) .nil
  exact
    .cons (c := ' ') (writes_keyword "select".toList rfl rfl (by decide)) rfl .nil <|
    .cons (c := ' ') (.operator (c := '*') (by decide)) rfl .nil <|
    .cons (c := ' ') (writes_keyword "from".toList rfl rfl (by decide)) rfl .nil <|
    .cons (c := ' ') ht rfl .nil <|
    .cons (c := ' ') (writes_keyword "join".toList rfl rfl (by decide)) rfl .nil <|
    .cons (c := ' ') ht rfl .nil <|
    .cons (c := ' ') (writes_keyword "on".toList rfl rfl (by decide)) rfl .nil <|
    .cons (c := ' ') ht rfl .nil <|
    .cons (c := ' ') (.punctuation (c := '.') (by decide)) rfl .nil <|
    .cons (c := ' ') ha rfl .nil <|
    .cons (c := ' ') (.operator (c := '=') (by decide)) rfl .nil <|
    .cons (c := ' ') ha rfl .nil <|
    .cons (c := ' ') (writes_keyword "order".toList rfl rfl (by decide)) rfl .nil <|
    .cons (c := ' ') (writes_keyword "by".toList rfl rfl (by decide)) rfl hcomment <|
    .cons (c := ' ') ha rfl .nil <|
    .last (writes_keyword "desc".toList rfl rfl (by decide))

end RoundTrip

end MiniSpark
