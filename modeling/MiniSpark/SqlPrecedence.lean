import MiniSpark.SqlRendering
import MiniSpark.SqlTotality

/-!
# Expressions parse back from their rendering

The induction is on the tree: a level of the parser reads the rendering of a tree of that
level or a tighter one and stops before a token that cannot continue it. A loop of a
left-associative level goes on from whatever its left operand was, so there the statement is
about the rest of the loop.
-/
namespace MiniSpark

variable {F : Type}

section Levels

variable [PyRuntime F] [PyText F]

/-- The parser of a level; `n` bounds the prefix operators it may still read. -/
def parseLevel (fuel n : ℕ) : ℕ → SqlParse F (Expression F)
  | 0 => parseOr (parseExpr fuel) (fuel + 1)
  | 1 => parseAnd (parseExpr fuel) (fuel + 1)
  | 2 => parseNot (parseExpr fuel) (fuel + 1) n
  | 3 => parseNullCheck (parseExpr fuel) (fuel + 1)
  | 4 => parseComparison (parseExpr fuel) (fuel + 1)
  | 5 => parseAdditive (parseExpr fuel) (fuel + 1)
  | 6 => parseMultiplicative (parseExpr fuel) (fuel + 1)
  | 7 => parseUnary (parseExpr fuel) n
  | _ => parsePrimary (parseExpr fuel)

/-- The levels that are loops. -/
def IsChain (k : ℕ) : Prop := k = 0 ∨ k = 1 ∨ k = 5 ∨ k = 6

/-- The operators of a loop. -/
def chainOperator (k : ℕ) (t : Token) : Option (Expression F → Expression F → Expression F) :=
  match k with
  | 0 => orOperator t
  | 1 => andOperator t
  | 5 => additiveOperator t
  | 6 => multiplicativeOperator t
  | _ => none

lemma parseLevel_chain {k : ℕ} (hk : IsChain k) (fuel n : ℕ) :
    (parseLevel fuel n k : SqlParse F (Expression F)) = (do
      let left ← parseLevel fuel (fuel + 1) (k + 1)
      leftChain (chainOperator k) (parseLevel fuel (fuel + 1) (k + 1)) (fuel + 1) left) := by
  obtain rfl | rfl | rfl | rfl := hk <;> rfl

omit [PyRuntime F] [PyText F] in
lemma chainOperator_stops {k : ℕ} (hk : IsChain k) {t : Token} (h : Stops k t.spelling) :
    (chainOperator k t : Option (Expression F → Expression F → Expression F)) = none := by
  obtain rfl | rfl | rfl | rfl := hk
  · exact orOperator_stops h
  · exact andOperator_stops h
  · exact additiveOperator_stops h
  · exact multiplicativeOperator_stops h

omit [PyRuntime F] [PyText F] in
lemma chainOperator_symbol {op : BinaryOp} (hop : IsChain op.grammarLevel) {t : Token}
    (h : t.spelling = op.symbol) :
    (chainOperator op.grammarLevel t : Option (Expression F → Expression F → Expression F)) =
      some (.binary op) := by
  obtain ⟨type, value, position⟩ := t
  cases op with
  | greaterThan | greaterEqual | lessThan | lessEqual | equal | notEqual =>
      exact absurd hop (by unfold IsChain; decide)
  | or | and | add | subtract | multiply | divide =>
      obtain ⟨rfl, rfl⟩ := Token.type_eq h
      rfl

variable (answer : String → Except SqlError (Value F))

/-- The level reads the tokens as the tree and stops before a token that cannot continue it. -/
def Parses (k : ℕ) (e : Expression F) (ts : List Token) : Prop :=
  ∀ fuel n t rest, ts.length ≤ fuel → ts.length < n → Stops k t.spelling →
    Returns answer (parseLevel fuel n k) (ts ++ t :: rest) e (t :: rest)

/-- The level reads the tokens as the tree and goes on with its loop. -/
def Chains (k : ℕ) (e : Expression F) (ts : List Token) : Prop :=
  ∀ fuel n t rest b out, ts.length ≤ fuel → Stops (k + 1) t.spelling →
    (∀ m, fuel + 1 ≤ m + ts.length → Returns answer
      (leftChain (chainOperator k) (parseLevel fuel (fuel + 1) (k + 1)) m e) (t :: rest) b out) →
    Returns answer (parseLevel fuel n k) (ts ++ t :: rest) b out

variable {answer} {k : ℕ} {e : Expression F} {ts : List Token}

lemma chains_of_parses (hk : IsChain k) (h : Parses answer (k + 1) e ts) :
    Chains answer k e ts := by
  intro fuel n t rest b out hlength hstops hloop
  rw [parseLevel_chain hk]
  refine returns_bind.mpr ⟨e, t :: rest, ?_, hloop (fuel + 1) (by omega)⟩
  exact h fuel (fuel + 1) t rest hlength (by omega) hstops

lemma parses_of_chains (hk : IsChain k) (h : Chains answer k e ts) : Parses answer k e ts := by
  intro fuel n t rest hlength _ hstops
  apply h fuel n t rest e (t :: rest) hlength (hstops.mono (Nat.le_succ k))
  intro m hm
  obtain ⟨m, rfl⟩ : ∃ m', m = m' + 1 := ⟨m - 1, by omega⟩
  refine returns_bind.mpr ⟨t, t :: rest, current_returns t rest, ?_⟩
  rw [chainOperator_stops hk hstops]
  exact returns_pure.mpr ⟨rfl, rfl⟩

/-- One more round of the loop. -/
lemma chains_binary {op : BinaryOp} (hop : IsChain op.grammarLevel) {left right : Expression F}
    {tl tr : List Token} {o : Token} (ho : o.spelling = op.symbol)
    (hl : Chains answer op.grammarLevel left tl)
    (hr : Parses answer (op.grammarLevel + 1) right tr) :
    Chains answer op.grammarLevel (.binary op left right) (tl ++ o :: tr) := by
  intro fuel n t rest b out hlength hstops hloop
  rw [List.length_append, List.length_cons] at hlength hloop
  rw [List.append_assoc, List.cons_append]
  apply hl fuel n o (tr ++ t :: rest) b out (by omega) (ho ▸ stops_symbol op)
  intro m hm
  obtain ⟨m, rfl⟩ : ∃ m', m = m' + 1 := ⟨m - 1, by omega⟩
  have heof : o.type ≠ .eof := by
    intro he
    have htype := congrArg Prod.fst ho
    rw [show o.spelling.1 = o.type from rfl, he] at htype
    cases op <;> cases htype
  refine returns_bind.mpr ⟨o, o :: (tr ++ t :: rest), current_returns o _, ?_⟩
  rw [chainOperator_symbol hop ho]
  refine returns_bind.mpr ⟨o, tr ++ t :: rest, advance_returns _ heof, ?_⟩
  refine returns_bind.mpr ⟨right, t :: rest, ?_, hloop m (by omega)⟩
  exact hr fuel (fuel + 1) t rest (by omega) (by omega) hstops

/-- The first token may start an expression of the level. -/
def Begins (k : ℕ) (ts : List Token) : Prop :=
  ∃ t rest, ts = t :: rest ∧ Starts k t.spelling

omit [PyRuntime F] [PyText F] in
lemma begins_of_spelling {s : Spelling} {ss : List Spelling} (h : ts.map Token.spelling = s :: ss)
    (hs : Starts k s) : Begins k ts := by
  obtain ⟨t, rest, rfl, rfl, -⟩ := List.map_eq_cons_iff.mp h
  exact ⟨t, rest, rfl, hs⟩

lemma parses_not_level (h : Parses answer 3 e ts) (hbegins : Begins 3 ts) :
    Parses answer 2 e ts := by
  intro fuel n t rest hlength hn hstops
  obtain ⟨n, rfl⟩ : ∃ n', n = n' + 1 := ⟨n - 1, by omega⟩
  obtain ⟨t₀, rest₀, rfl, hstarts⟩ := hbegins
  refine returns_bind.mpr ⟨false, _, matchToken_false _ (hstarts.not (Nat.le_refl 3)), ?_⟩
  exact h fuel (fuel + 1) t rest hlength (by omega) (hstops.mono (by omega))

lemma parses_null_level (h : Parses answer 4 e ts) : Parses answer 3 e ts := by
  intro fuel n t rest hlength hn hstops
  refine returns_bind.mpr ⟨e, t :: rest, ?_, ?_⟩
  · exact h fuel n t rest hlength hn (hstops.mono (by omega))
  · refine returns_bind.mpr ⟨false, _, matchToken_false _ (hstops.is (Nat.le_refl 3)), ?_⟩
    exact returns_pure.mpr ⟨rfl, rfl⟩

lemma parses_comparison_level (h : Parses answer 5 e ts) : Parses answer 4 e ts := by
  intro fuel n t rest hlength hn hstops
  refine returns_bind.mpr ⟨e, t :: rest, ?_, ?_⟩
  · exact h fuel n t rest hlength hn (hstops.mono (by omega))
  · refine returns_bind.mpr ⟨t, t :: rest, current_returns t rest, ?_⟩
    rw [comparisonOperator_stops hstops]
    exact returns_pure.mpr ⟨rfl, rfl⟩

lemma parses_unary_level (h : Parses answer 8 e ts) (hbegins : Begins 8 ts) :
    Parses answer 7 e ts := by
  intro fuel n t rest hlength hn hstops
  obtain ⟨n, rfl⟩ : ∃ n', n = n' + 1 := ⟨n - 1, by omega⟩
  obtain ⟨t₀, rest₀, rfl, hstarts⟩ := hbegins
  refine returns_bind.mpr ⟨false, _, matchToken_false _ (hstarts.minus (Nat.le_refl 8)), ?_⟩
  exact h fuel (fuel + 1) t rest hlength (by omega) (hstops.mono (by omega))

/-- What a level reads, the next looser one reads too. -/
lemma parses_looser (hk : k < 8) (h : Parses answer (k + 1) e ts) (hbegins : Begins (k + 1) ts) :
    Parses answer k e ts := by
  have hchain : IsChain k → Parses answer k e ts :=
    fun hk => parses_of_chains hk (chains_of_parses hk h)
  match k, hk with
  | 0, _ => exact hchain (by unfold IsChain; omega)
  | 1, _ => exact hchain (by unfold IsChain; omega)
  | 2, _ => exact parses_not_level h hbegins
  | 3, _ => exact parses_null_level h
  | 4, _ => exact parses_comparison_level h
  | 5, _ => exact hchain (by unfold IsChain; omega)
  | 6, _ => exact hchain (by unfold IsChain; omega)
  | 7, _ => exact parses_unary_level h hbegins

lemma parses_of_le {j : ℕ} (hj : j ≤ 8) (h : Parses answer j e ts) (hbegins : Begins j ts)
    (hk : k ≤ j) : Parses answer k e ts := by
  induction j with
  | zero =>
      obtain rfl : k = 0 := by omega
      exact h
  | succ j ih =>
      by_cases heq : k = j + 1
      · subst heq
        exact h
      · obtain ⟨t, rest, hts, hstarts⟩ := hbegins
        apply ih (by omega) (parses_looser (by omega) h ⟨t, rest, hts, hstarts⟩)
        · exact ⟨t, rest, hts, hstarts.mono (by omega)⟩
        · omega

/-- An expression in parentheses is a primary. -/
lemma parses_parentheses {a b : Token} (ha : a.spelling = (.punctuation, "("))
    (hb : b.spelling = (.punctuation, ")")) (h : Parses answer 0 e ts) :
    Parses answer 8 e (a :: (ts ++ [b])) := by
  intro fuel n t rest hlength hn hstops
  rw [List.length_cons, List.length_append, List.length_singleton] at hlength
  obtain ⟨fuel, rfl⟩ : ∃ f, fuel = f + 1 := ⟨fuel - 1, by omega⟩
  obtain ⟨htype, hvalue⟩ := Token.type_eq ha
  rw [List.cons_append, List.append_assoc]
  refine returns_bind.mpr ⟨a, _, current_returns a _, ?_⟩
  rw [htype, if_neg (by decide), if_neg (by decide)]
  have hno : ∀ s, ¬ a.is .keyword s = true := by
    intro s his
    have := (Token.type_eq (Token.is_iff.mp his)).1
    rw [htype] at this
    cases this
  rw [if_neg (hno _), if_neg (hno _), if_neg (hno _), if_pos (Token.is_iff.mpr ha)]
  refine returns_bind.mpr ⟨a, _, advance_returns _ (by rw [htype]; decide), ?_⟩
  refine returns_bind.mpr ⟨e, b :: t :: rest, ?_, ?_⟩
  · exact h fuel (fuel + 1) b (t :: rest) (by omega) (by omega) (hb ▸ stops_close)
  · refine returns_bind.mpr ⟨(), _, expectToken_returns _ (by decide) hb, ?_⟩
    exact returns_pure.mpr ⟨rfl, rfl⟩

end Levels

section Trees

variable [PyRuntime F] [PyText F] {answer : String → Except SqlError (Value F)}
variable {e : Expression F} {ts : List Token} {k : ℕ} {integers : ℤ → Prop}

/-- The parser of its own level reads the rendering of the tree. -/
structure Renders (answer : String → Except SqlError (Value F)) (e : Expression F) : Prop where
  begins : ∃ s ss, e.rendering = s :: ss ∧ Starts e.grammarLevel s
  parses : ∀ ts, ts.map Token.spelling = e.rendering → Parses answer e.grammarLevel e ts
  chains : ∀ ts, ts.map Token.spelling = e.rendering → IsChain e.grammarLevel →
    Chains answer e.grammarLevel e ts

omit [PyRuntime F] [PyText F] in
lemma grammarLevel_le (e : Expression F) : e.grammarLevel ≤ 8 := by
  cases e with
  | binary op left right =>
      rw [Expression.grammarLevel_binary]
      split
      · omega
      · cases op <;> decide
  | column name | literal value | aliased child name | not child | isNull child | isNotNull child
  | countStar | aggregate name child =>
      unfold Expression.grammarLevel
      simp

/-- A tree where one of at least level `k` is wanted. -/
lemma Renders.parenthesized (h : Renders answer e) (hk : k ≤ 8)
    (hts : ts.map Token.spelling = e.parenthesized k e.rendering) : Parses answer k e ts := by
  obtain ⟨s, ss, hbody, hs⟩ := starts_parenthesized (k := k) h.begins
  have hbegins : Begins k ts := begins_of_spelling (hts.trans hbody) hs
  unfold Expression.parenthesized at hts
  by_cases hlevel : e.grammarLevel < k
  · rw [if_pos hlevel] at hts
    obtain ⟨a, tail, rfl, ha, htail⟩ := List.map_eq_cons_iff.mp hts
    obtain ⟨inner, close, rfl, hinner, hclose⟩ := List.map_eq_append_iff.mp htail
    obtain ⟨b, last, rfl, hb, hnil⟩ := List.map_eq_cons_iff.mp hclose
    obtain rfl := List.map_eq_nil_iff.mp hnil
    obtain ⟨s', ss', hbody', hs'⟩ := h.begins
    have hinside : Parses answer 0 e inner :=
      parses_of_le (grammarLevel_le e) (h.parses inner hinner)
        (begins_of_spelling (hinner.trans hbody') hs') (Nat.zero_le _)
    apply parses_of_le (Nat.le_refl 8) (parses_parentheses ha hb hinside) _ hk
    exact ⟨a, _, rfl, ha ▸ starts_operand (by decide) (by decide) (by decide) 8⟩
  · rw [if_neg hlevel] at hts
    obtain ⟨s', ss', hbody', hs'⟩ := h.begins
    exact parses_of_le (grammarLevel_le e) (h.parses ts hts)
      (begins_of_spelling (hts.trans hbody') hs') (by omega)

/-- The left operand of a loop. -/
lemma Renders.chains_parenthesized (h : Renders answer e) (hk : IsChain k)
    (hts : ts.map Token.spelling = e.parenthesized k e.rendering) : Chains answer k e ts := by
  by_cases hlevel : e.grammarLevel = k
  · subst hlevel
    apply h.chains ts _ hk
    rw [hts]
    exact if_neg (Nat.lt_irrefl _)
  · apply chains_of_parses hk
    apply h.parenthesized
    · obtain rfl | rfl | rfl | rfl := hk <;> omega
    · rw [hts]
      unfold Expression.parenthesized
      by_cases hlt : e.grammarLevel < k
      · rw [if_pos hlt, if_pos (Nat.lt_succ_of_lt hlt)]
      · rw [if_neg hlt, if_neg (by omega)]

/-- A tree of a level that is no loop. -/
lemma renders_of_parses (hk : ¬ IsChain e.grammarLevel)
    (hbegins : ∃ s ss, e.rendering = s :: ss ∧ Starts e.grammarLevel s)
    (h : ∀ ts, ts.map Token.spelling = e.rendering → Parses answer e.grammarLevel e ts) :
    Renders answer e :=
  ⟨hbegins, h, fun _ _ hchain => absurd hchain hk⟩

lemma renders_not {child : Expression F} (h : Renders answer child) :
    Renders answer (.not child) := by
  apply renders_of_parses
  · rintro (h | h | h | h) <;> cases h
  · exact ⟨_, _, rfl, ⟨fun h => absurd (show 3 ≤ 2 from h) (by omega), fun _ => by decide, by decide⟩⟩
  · intro ts hts fuel n t rest hlength hn hstops
    obtain ⟨o, tail, rfl, ho, htail⟩ := List.map_eq_cons_iff.mp hts
    rw [List.length_cons] at hlength hn
    obtain ⟨n, rfl⟩ : ∃ n', n = n' + 1 := ⟨n - 1, by omega⟩
    refine returns_bind.mpr ⟨true, _, matchToken_true _ (by decide) ho, ?_⟩
    refine returns_bind.mpr ⟨child, t :: rest, ?_, returns_pure.mpr ⟨rfl, rfl⟩⟩
    exact h.parenthesized (by omega) htail fuel n t rest (by omega) (by omega) hstops

/-- The operand of `IS NULL` and `IS NOT NULL`. -/
lemma nullCheck_operand {child : Expression F} {is : Token} (h : Renders answer child)
    (hts : ts.map Token.spelling = child.parenthesized 4 child.rendering)
    (his : is.spelling = (.keyword, "IS")) {fuel : ℕ} (rest : List Token)
    (hlength : ts.length ≤ fuel) :
    Returns answer (parseComparison (parseExpr fuel) (fuel + 1)) (ts ++ is :: rest) child
      (is :: rest) :=
  h.parenthesized (by omega) hts fuel (fuel + 1) is rest hlength (by omega) (his ▸ stops_is)

lemma renders_isNull {child : Expression F} (h : Renders answer child) :
    Renders answer (.isNull child) := by
  apply renders_of_parses
  · rintro (h | h | h | h) <;> cases h
  · obtain ⟨s, ss, hbody, hs⟩ := starts_parenthesized (k := 4) h.begins
    exact exists_cons_append hbody hs (Nat.le_succ 3)
  · intro ts hts fuel n t rest hlength hn hstops
    obtain ⟨operand, tail, rfl, hoperand, htail⟩ := List.map_eq_append_iff.mp hts
    obtain ⟨is, tail, rfl, his, htail⟩ := List.map_eq_cons_iff.mp htail
    obtain ⟨null, tail, rfl, hnull, htail⟩ := List.map_eq_cons_iff.mp htail
    obtain rfl := List.map_eq_nil_iff.mp htail
    simp only [List.length_append, List.length_cons] at hlength hn
    rw [List.append_assoc]
    refine returns_bind.mpr ⟨child, _, nullCheck_operand h hoperand his _ (by omega), ?_⟩
    refine returns_bind.mpr ⟨true, _, matchToken_true _ (by decide) his, ?_⟩
    refine returns_bind.mpr ⟨false, _, matchToken_false _ (by rw [hnull]; decide), ?_⟩
    refine returns_bind.mpr ⟨(), _, expectToken_returns _ (by decide) hnull, ?_⟩
    exact returns_pure.mpr ⟨rfl, rfl⟩

lemma renders_isNotNull {child : Expression F} (h : Renders answer child) :
    Renders answer (.isNotNull child) := by
  apply renders_of_parses
  · rintro (h | h | h | h) <;> cases h
  · obtain ⟨s, ss, hbody, hs⟩ := starts_parenthesized (k := 4) h.begins
    exact exists_cons_append hbody hs (Nat.le_succ 3)
  · intro ts hts fuel n t rest hlength hn hstops
    obtain ⟨operand, tail, rfl, hoperand, htail⟩ := List.map_eq_append_iff.mp hts
    obtain ⟨is, tail, rfl, his, htail⟩ := List.map_eq_cons_iff.mp htail
    obtain ⟨not, tail, rfl, hnot, htail⟩ := List.map_eq_cons_iff.mp htail
    obtain ⟨null, tail, rfl, hnull, htail⟩ := List.map_eq_cons_iff.mp htail
    obtain rfl := List.map_eq_nil_iff.mp htail
    simp only [List.length_append, List.length_cons] at hlength hn
    rw [List.append_assoc]
    refine returns_bind.mpr ⟨child, _, nullCheck_operand h hoperand his _ (by omega), ?_⟩
    refine returns_bind.mpr ⟨true, _, matchToken_true _ (by decide) his, ?_⟩
    refine returns_bind.mpr ⟨true, _, matchToken_true _ (by decide) hnot, ?_⟩
    refine returns_bind.mpr ⟨(), _, expectToken_returns _ (by decide) hnull, ?_⟩
    exact returns_pure.mpr ⟨rfl, rfl⟩

/-- A unary minus. -/
lemma renders_minus {left right : Expression F} (hleft : left.isMinusOne = true)
    (h : Renders answer right) : Renders answer (.binary .multiply left right) := by
  have hneg : BinaryOp.multiply = .multiply ∧ left.isMinusOne = true := ⟨rfl, hleft⟩
  have hlevel : (Expression.binary .multiply left right).grammarLevel = 7 := if_pos hneg
  have hrendering : (Expression.binary .multiply left right).rendering =
      (.operator, "-") :: right.parenthesized 7 right.rendering := if_pos hneg
  have hminus : left = .literal (.int (-1)) := by
    unfold Expression.isMinusOne at hleft
    split at hleft
    · rw [beq_iff_eq.mp hleft]
    · cases hleft
  apply renders_of_parses
  · rw [hlevel]
    rintro (h | h | h | h) <;> cases h
  · rw [hlevel]
    exact ⟨_, _, hrendering, ⟨fun _ => by decide, fun h => absurd h (by omega), by decide⟩⟩
  · rw [hlevel, hrendering]
    intro ts hts fuel n t rest hlength hn hstops
    obtain ⟨o, tail, rfl, ho, htail⟩ := List.map_eq_cons_iff.mp hts
    rw [List.length_cons] at hlength hn
    obtain ⟨n, rfl⟩ : ∃ n', n = n' + 1 := ⟨n - 1, by omega⟩
    refine returns_bind.mpr ⟨true, _, matchToken_true _ (by decide) ho, ?_⟩
    refine returns_bind.mpr ⟨right, t :: rest, ?_, returns_pure.mpr ⟨by rw [hminus], rfl⟩⟩
    exact h.parenthesized (by omega) htail fuel n t rest (by omega) (by omega) hstops

omit [PyRuntime F] [PyText F] in
/-- The tokens of a binary tree that is no unary minus. -/
lemma rendering_binary {op : BinaryOp} {left right : Expression F}
    (hneg : ¬ (op = .multiply ∧ left.isMinusOne = true)) :
    (Expression.binary op left right).rendering =
      left.parenthesized op.leftLevel left.rendering ++
        op.symbol :: right.parenthesized (op.grammarLevel + 1) right.rendering := if_neg hneg

lemma begins_binary {op : BinaryOp} {left right : Expression F}
    (hneg : ¬ (op = .multiply ∧ left.isMinusOne = true)) (h : Renders answer left) :
    ∃ s ss, (Expression.binary op left right).rendering = s :: ss ∧ Starts op.grammarLevel s := by
  rw [rendering_binary hneg]
  obtain ⟨s, ss, hbody, hs⟩ := starts_parenthesized h.begins
  exact exists_cons_append hbody hs (by cases op <;> decide)

lemma renders_chain {op : BinaryOp} (hop : IsChain op.grammarLevel) {left right : Expression F}
    (hneg : ¬ (op = .multiply ∧ left.isMinusOne = true)) (hl : Renders answer left)
    (hr : Renders answer right) : Renders answer (.binary op left right) := by
  have hlevel : (Expression.binary op left right).grammarLevel = op.grammarLevel := if_neg hneg
  have hleft : op.leftLevel = op.grammarLevel := by
    unfold BinaryOp.leftLevel
    rw [if_neg]
    rintro h
    rw [h] at hop
    unfold IsChain at hop
    omega
  have hchains : ∀ ts, ts.map Token.spelling = (Expression.binary op left right).rendering →
      Chains answer op.grammarLevel (.binary op left right) ts := by
    intro ts hts
    rw [rendering_binary hneg, hleft] at hts
    obtain ⟨tl, tail, rfl, htl, htail⟩ := List.map_eq_append_iff.mp hts
    obtain ⟨o, tr, rfl, ho, htr⟩ := List.map_eq_cons_iff.mp htail
    apply chains_binary hop ho (hl.chains_parenthesized hop htl)
    apply hr.parenthesized _ htr
    cases op <;> decide
  constructor
  · rw [hlevel]
    exact begins_binary hneg hl
  · intro ts hts
    rw [hlevel]
    exact parses_of_chains hop (hchains ts hts)
  · intro ts hts _
    rw [hlevel]
    exact hchains ts hts

omit [PyRuntime F] [PyText F] in
lemma comparisonOperator_symbol {op : BinaryOp} (hop : op.grammarLevel = 4) {t : Token}
    (h : t.spelling = op.symbol) :
    (comparisonOperator t : Option (Expression F → Expression F → Expression F)) =
      some (.binary op) ∧ t.type ≠ .eof := by
  obtain ⟨type, value, position⟩ := t
  cases op with
  | or | and | add | subtract | multiply | divide => cases hop
  | greaterThan | greaterEqual | lessThan | lessEqual | equal | notEqual =>
      obtain ⟨rfl, rfl⟩ := Token.type_eq h
      exact ⟨rfl, by simp⟩

lemma renders_comparison {op : BinaryOp} (hop : op.grammarLevel = 4) {left right : Expression F}
    (hl : Renders answer left) (hr : Renders answer right) :
    Renders answer (.binary op left right) := by
  have hneg : ¬ (op = .multiply ∧ left.isMinusOne = true) := by
    rintro ⟨rfl, -⟩
    cases hop
  have hlevel : (Expression.binary op left right).grammarLevel = 4 := (if_neg hneg).trans hop
  have hleft : op.leftLevel = 5 := if_pos hop
  apply renders_of_parses
  · rw [hlevel]
    rintro (h | h | h | h) <;> cases h
  · rw [hlevel, ← hop]
    exact begins_binary hneg hl
  · rw [hlevel, rendering_binary hneg, hleft, hop]
    intro ts hts fuel n t rest hlength hn hstops
    obtain ⟨tl, tail, rfl, htl, htail⟩ := List.map_eq_append_iff.mp hts
    obtain ⟨o, tr, rfl, ho, htr⟩ := List.map_eq_cons_iff.mp htail
    rw [List.length_append, List.length_cons] at hlength hn
    rw [List.append_assoc]
    obtain ⟨hcombine, heof⟩ := comparisonOperator_symbol (F := F) hop ho
    have hstopsOp : Stops 5 o.spelling := by
      have h := stops_symbol op
      rw [hop] at h
      rw [ho]
      exact h
    refine returns_bind.mpr ⟨left, o :: (tr ++ t :: rest), ?_, ?_⟩
    · exact hl.parenthesized (by omega) htl fuel n o _ (by omega) (by omega) hstopsOp
    · refine returns_bind.mpr ⟨o, _, current_returns o _, ?_⟩
      rw [hcombine]
      refine returns_bind.mpr ⟨o, _, advance_returns _ heof, ?_⟩
      refine returns_bind.mpr ⟨right, t :: rest, ?_, returns_pure.mpr ⟨rfl, rfl⟩⟩
      exact hr.parenthesized (by omega) htr fuel n t rest (by omega) (by omega)
        (hstops.mono (by omega))

lemma primary_of_identifier {expr : SqlParse F (Expression F)} {t : Token} {rest out : List Token}
    (htype : t.type = .identifier) (h : Returns answer (parseName expr) (t :: rest) e out) :
    Returns answer (parsePrimary expr) (t :: rest) e out := by
  have hno : ∀ type value, type ≠ .identifier → ¬ t.is type value = true := by
    intro type value hne his
    exact hne ((Token.type_eq (Token.is_iff.mp his)).1.symm.trans htype)
  refine returns_bind.mpr ⟨t, _, current_returns t rest, ?_⟩
  rw [if_neg (by rw [htype]; decide), if_neg (by rw [htype]; decide),
    if_neg (hno _ _ (by decide)), if_neg (hno _ _ (by decide)), if_neg (hno _ _ (by decide)),
    if_neg (hno _ _ (by decide)), if_pos htype]
  exact h

lemma renders_column (name : String) : Renders answer (.column name) := by
  apply renders_of_parses
  · rintro (h | h | h | h) <;> cases h
  · exact ⟨_, _, rfl, starts_operand (by simp) (by simp) (by simp) _⟩
  · intro ts hts fuel n t rest hlength hn hstops
    obtain ⟨a, tail, rfl, ha, htail⟩ := List.map_eq_cons_iff.mp hts
    obtain rfl := List.map_eq_nil_iff.mp htail
    obtain ⟨htype, rfl⟩ := Token.type_eq ha
    apply primary_of_identifier htype
    refine returns_bind.mpr ⟨a, _, advance_returns _ (by rw [htype]; decide), ?_⟩
    refine returns_bind.mpr ⟨t, _, current_returns t rest, ?_⟩
    rw [if_neg (fun his => hstops.call (Token.is_iff.mp his))]
    refine returns_bind.mpr ⟨false, _, matchToken_false rest hstops.qualifier, ?_⟩
    exact returns_pure.mpr ⟨rfl, rfl⟩

lemma renders_literal {v : Value F} (hv : (Expression.literal v).SqlTree integers)
    (hanswer : ∀ n, integers n → answer (toString n.toNat) = .ok (.int n)) :
    Renders answer (.literal v) := by
  apply renders_of_parses
  · rintro (h | h | h | h) <;> cases h
  · exact ⟨_, _, rfl, starts_value v _⟩
  · intro ts hts fuel n t rest hlength hn hstops
    obtain ⟨a, tail, rfl, ha, htail⟩ := List.map_eq_cons_iff.mp hts
    obtain rfl := List.map_eq_nil_iff.mp htail
    obtain ⟨type, value, position⟩ := a
    refine returns_bind.mpr ⟨_, _, current_returns _ _, ?_⟩
    cases v with
    | float x | pair total count => exact absurd hv id
    | int i =>
        obtain ⟨rfl, rfl⟩ := Token.type_eq ha
        refine returns_bind.mpr ⟨_, _, advance_returns _ (by simp), ?_⟩
        refine returns_bind.mpr ⟨.int i, _, convertNumber_returns _ (hanswer i hv), ?_⟩
        exact returns_pure.mpr ⟨rfl, rfl⟩
    | str s =>
        obtain ⟨rfl, rfl⟩ := Token.type_eq ha
        refine returns_bind.mpr ⟨_, _, advance_returns _ (by simp), ?_⟩
        exact returns_pure.mpr ⟨rfl, rfl⟩
    | none =>
        obtain ⟨rfl, rfl⟩ := Token.type_eq ha
        refine returns_bind.mpr ⟨_, _, advance_returns _ (by simp), ?_⟩
        exact returns_pure.mpr ⟨rfl, rfl⟩
    | bool b =>
        cases b with
        | false =>
            obtain ⟨rfl, rfl⟩ := Token.type_eq ha
            refine returns_bind.mpr ⟨_, _, advance_returns _ (by simp), ?_⟩
            exact returns_pure.mpr ⟨rfl, rfl⟩
        | true =>
            obtain ⟨rfl, rfl⟩ := Token.type_eq ha
            refine returns_bind.mpr ⟨_, _, advance_returns _ (by simp), ?_⟩
            exact returns_pure.mpr ⟨rfl, rfl⟩

omit [PyRuntime F] in
lemma aggregateFunction_sqlName (name : AggregateName) :
    aggregateFunction F name.sqlName = some name := by
  cases name <;> rfl

/-- A function call, from its name to the closing parenthesis. -/
lemma functionCall_returns {expr : SqlParse F (Expression F)} {a b : Token} {rest out : List Token}
    (ha : a.type = .identifier) (hb : b.spelling = (.punctuation, "("))
    (h : Returns answer (parseFunctionCall expr a.value) (b :: rest) e out) :
    Returns answer (parsePrimary expr) (a :: b :: rest) e out := by
  apply primary_of_identifier ha
  refine returns_bind.mpr ⟨a, _, advance_returns _ (by rw [ha]; decide), ?_⟩
  refine returns_bind.mpr ⟨b, _, current_returns b rest, ?_⟩
  rw [if_pos (Token.is_iff.mpr hb)]
  exact h

lemma renders_countStar : Renders answer (.countStar : Expression F) := by
  apply renders_of_parses
  · rintro (h | h | h | h) <;> cases h
  · exact ⟨_, _, rfl, starts_operand (by decide) (by decide) (by decide) _⟩
  · intro ts hts fuel n t rest hlength hn hstops
    obtain ⟨a, tail, rfl, ha, htail⟩ := List.map_eq_cons_iff.mp hts
    obtain ⟨b, tail, rfl, hb, htail⟩ := List.map_eq_cons_iff.mp htail
    obtain ⟨star, tail, rfl, hstar, htail⟩ := List.map_eq_cons_iff.mp htail
    obtain ⟨c, tail, rfl, hc, htail⟩ := List.map_eq_cons_iff.mp htail
    obtain rfl := List.map_eq_nil_iff.mp htail
    obtain ⟨htype, hvalue⟩ := Token.type_eq ha
    apply functionCall_returns htype hb
    rw [hvalue]
    refine returns_bind.mpr ⟨(), _, expectToken_returns _ (by decide) hb, ?_⟩
    rw [show aggregateFunction F "COUNT" = some .count from aggregateFunction_sqlName .count]
    refine returns_bind.mpr ⟨true, _, matchToken_true _ (by decide) hstar, ?_⟩
    refine returns_bind.mpr ⟨(), _, expectToken_returns _ (by decide) hc, ?_⟩
    exact returns_pure.mpr ⟨rfl, rfl⟩

lemma renders_aggregate (name : AggregateName) {child : Expression F} (h : Renders answer child) :
    Renders answer (.aggregate name child) := by
  apply renders_of_parses
  · rintro (h | h | h | h) <;> cases h
  · exact ⟨_, _, rfl, starts_operand (by simp) (by simp) (by simp) _⟩
  · intro ts hts fuel n t rest hlength hn hstops
    obtain ⟨a, tail, rfl, ha, htail⟩ := List.map_eq_cons_iff.mp hts
    obtain ⟨b, tail, rfl, hb, htail⟩ := List.map_eq_cons_iff.mp htail
    obtain ⟨inner, tail, rfl, hinner, htail⟩ := List.map_eq_append_iff.mp htail
    obtain ⟨c, tail, rfl, hc, htail⟩ := List.map_eq_cons_iff.mp htail
    obtain rfl := List.map_eq_nil_iff.mp htail
    obtain ⟨htype, hvalue⟩ := Token.type_eq ha
    simp only [List.length_cons, List.length_append, List.length_nil] at hlength
    obtain ⟨fuel, rfl⟩ : ∃ f, fuel = f + 1 := ⟨fuel - 1, by omega⟩
    have hparen : inner.map Token.spelling = child.parenthesized 0 child.rendering := hinner
    have hargument : Returns answer (parseExpr (fuel + 1)) (inner ++ c :: (t :: rest)) child
        (c :: t :: rest) :=
      h.parenthesized (by omega) hparen fuel (fuel + 1) c (t :: rest) (by omega) (by omega)
        (hc ▸ stops_close)
    have hcall : Returns answer (do
        let arg ← parseExpr (fuel + 1)
        expectPunctuation ")"
        pure (Expression.aggregate name arg)) (inner ++ c :: (t :: rest)) (Expression.aggregate name child)
        (t :: rest) := by
      refine returns_bind.mpr ⟨child, _, hargument, ?_⟩
      refine returns_bind.mpr ⟨(), _, expectToken_returns _ (by decide) hc, ?_⟩
      exact returns_pure.mpr ⟨rfl, rfl⟩
    simp only [List.cons_append, List.append_assoc, List.nil_append]
    apply functionCall_returns htype hb
    rw [hvalue]
    refine returns_bind.mpr ⟨(), _, expectToken_returns _ (by decide) hb, ?_⟩
    rw [aggregateFunction_sqlName]
    dsimp only
    split
    · obtain ⟨s, ss, hbody, hs⟩ := h.begins
      obtain ⟨t₀, rest₀, rfl, hstarts⟩ := begins_of_spelling (hinner.trans hbody) hs
      exact returns_bind.mpr ⟨false, _, matchToken_false _ hstarts.star, hcall⟩
    · exact returns_bind.mpr ⟨false, _, returns_pure.mpr ⟨rfl, rfl⟩, hcall⟩

/-- Every tree SQL can write is read back from its rendering. -/
theorem renders_sqlTree (he : e.SqlTree integers)
    (hanswer : ∀ n, integers n → answer (toString n.toNat) = .ok (.int n)) : Renders answer e := by
  induction e with
  | column name => exact renders_column name
  | literal value => exact renders_literal he hanswer
  | aliased child name ih => exact absurd he id
  | binary op left right ihl ihr =>
      by_cases hneg : op = .multiply ∧ left.isMinusOne = true
      · obtain ⟨rfl, hleft⟩ := hneg
        exact renders_minus hleft (ihr he.2)
      · have hl := ihl (he.1.resolve_left hneg)
        by_cases hop : op.grammarLevel = 4
        · exact renders_comparison hop hl (ihr he.2)
        · apply renders_chain _ hneg hl (ihr he.2)
          cases op <;> first | exact absurd rfl hop | (unfold IsChain; decide)
  | not child ih => exact renders_not (ih he)
  | isNull child ih => exact renders_isNull (ih he)
  | isNotNull child ih => exact renders_isNotNull (ih he)
  | countStar => exact renders_countStar
  | aggregate name child ih => exact renders_aggregate name (ih he)

end Trees

section Integers

variable (F : Type) [PyRuntime F]

/-- The decimal text of the number is not longer than `int` takes. -/
def IsReadableInt (n : ℤ) : Prop :=
  0 ≤ n ∧ ∀ limit ∈ PyRuntime.intMaxStrDigits F, (toString n.toNat).length ≤ limit

variable [PyText F]

omit [PyRuntime F] in
lemma decimalDigit_of_isDigit {c : Char} (h : c.isDigit = true) :
    decimalDigit F c = some (c.toNat - 48) := by
  have hascii : isAscii c = true := by
    have hrange : 48 ≤ c.toNat ∧ c.toNat ≤ 57 := Char.isDigit_iff_toNat.mp h
    simp only [isAscii, decide_eq_true_eq]
    omega
  unfold decimalDigit
  rw [if_pos hascii, if_pos h]

omit [PyRuntime F] in
lemma mapM_decimalDigit {cs : List Char} (h : ∀ c ∈ cs, c.isDigit = true) :
    cs.mapM (decimalDigit F) = some (cs.map (fun c => c.toNat - 48)) := by
  induction cs with
  | nil => rfl
  | cons c cs ih =>
      rw [List.mapM_cons, decimalDigit_of_isDigit F (h c (by simp)),
        ih (fun d hd => h d (by simp [hd]))]
      rfl

lemma digitsValue_toDigits (n : ℕ) :
    digitsValue ((Nat.toDigits 10 n).map (fun c => c.toNat - 48)) = n := by
  rw [digitsValue, List.foldl_map]
  exact Nat.ofDigitChars_ten_toDigits

lemma isDigit_of_mem_toString {n : ℕ} {c : Char} (h : c ∈ (toString n).toList) :
    c.isDigit = true := by
  rw [Nat.toString_eq_repr, Nat.toList_repr] at h
  exact Nat.isDigit_of_mem_toDigits (by decide) (by decide) h

/-- `int(str(n))` is `n`. -/
lemma intOfText_toString {n : ℤ} (hn : IsReadableInt F n) :
    intOfText F (toString n.toNat) = .ok n := by
  obtain ⟨hpos, hlimit⟩ := hn
  have hdigits : (toString n.toNat).toList.mapM (decimalDigit F) =
      some ((toString n.toNat).toList.map (fun c => c.toNat - 48)) :=
    mapM_decimalDigit F (fun c hc => isDigit_of_mem_toString hc)
  rw [Nat.toString_eq_repr, Nat.toList_repr] at hdigits
  have hvalue : (digitsValue ((Nat.toDigits 10 n.toNat).map (fun c => c.toNat - 48)) : ℤ) = n := by
    rw [digitsValue_toDigits, Int.toNat_of_nonneg hpos]
  have hlength : ((Nat.toDigits 10 n.toNat).map (fun c => c.toNat - 48)).length =
      (toString n.toNat).length := by
    rw [List.length_map, Nat.toString_eq_repr, ← Nat.toList_repr, String.length_toList]
  obtain ⟨d, ds, hds⟩ := List.exists_cons_of_ne_nil
    (show (Nat.toDigits 10 n.toNat).map (fun c => c.toNat - 48) ≠ [] by simp)
  rw [hds] at hdigits hvalue hlength
  unfold intOfText
  rw [Nat.toString_eq_repr, Nat.toList_repr, hdigits]
  dsimp only
  cases hmax : PyRuntime.intMaxStrDigits F with
  | none => rw [hvalue]
  | some limit =>
      have hle := hlimit limit hmax
      dsimp only
      rw [if_neg (by omega), hvalue]

lemma pyNumber_toString {n : ℤ} (hn : IsReadableInt F n) :
    pyNumber (F := F) (toString n.toNat) = .ok (.int n) := by
  have hpoint : '.' ∉ (toString n.toNat).toList :=
    fun h => absurd (isDigit_of_mem_toString h) (by decide)
  unfold pyNumber numberOfText
  rw [if_neg hpoint, intOfText_toString F hn]
  rfl

end Integers

section Parsing

variable [PyRuntime F] [PyText F]

/-- A tree whose integers `int` takes is read back from its rendering, up to any token that
cannot continue an expression. -/
theorem parseExpr_rendering {e : Expression F} {ts : List Token} {t : Token} {fuel : ℕ}
    (he : e.SqlTree (IsReadableInt F)) (hts : ts.map Token.spelling = e.rendering)
    (ht : Stops 0 t.spelling) (rest : List Token) (hfuel : ts.length < fuel) :
    Returns pyNumber (parseExpr fuel) (ts ++ t :: rest) e (t :: rest) := by
  obtain ⟨fuel, rfl⟩ : ∃ f, fuel = f + 1 := ⟨fuel - 1, by omega⟩
  have h := renders_sqlTree he (fun n hn => pyNumber_toString F hn)
  have hwhole : ts.map Token.spelling = e.parenthesized 0 e.rendering := by
    rw [hts]
    exact (if_neg (Nat.not_lt_zero _)).symm
  exact h.parenthesized (Nat.zero_le 8) hwhole fuel (fuel + 1) t rest (by omega) (by omega) ht

end Parsing

section Examples

/-- `NOT a = 1 + 2 * -b`, with the places left out. -/
def notEqualTree : Expression ℚ :=
  .not (.binary .equal (.column "a") (.binary .add (.literal (.int 1))
    (.binary .multiply (.literal (.int 2)) (.binary .multiply (.literal (.int (-1))) (.column "b")))))

/-- Tokens of the given spellings. -/
def tokensOf (ss : List Spelling) : List Token := ss.map (fun s => ⟨s.1, s.2, 0⟩)

/-- The end of the query. -/
def endToken : Token := ⟨.eof, "", 0⟩

lemma notEqualTree_sqlTree : notEqualTree.SqlTree (IsReadableInt ℚ) := by
  have hsmall : ∀ n : ℤ, 0 ≤ n → n < 10 ^ 2 → IsReadableInt ℚ n := by
    intro n hpos hlt
    refine ⟨hpos, fun limit hlimit => ?_⟩
    cases hlimit
    have hlength : (toString n.toNat).length ≤ 2 := by
      rw [Nat.toString_eq_repr, Nat.length_repr_le_iff (by decide)]
      omega
    omega
  refine ⟨Or.inr trivial, Or.inr (hsmall 1 (by decide) (by decide)), Or.inr ?_, Or.inl ?_, trivial⟩
  · exact hsmall 2 (by decide) (by decide)
  · exact ⟨rfl, rfl⟩

lemma stops_end : Stops 0 endToken.spelling := by constructor <;> decide

theorem parseExpr_rendering_notEqualTree :
    Returns pyNumber (parseExpr 20) (tokensOf notEqualTree.rendering ++ [endToken]) notEqualTree
      [endToken] :=
  parseExpr_rendering notEqualTree_sqlTree (by decide) stops_end [] (by decide)

example : (Expression.not (notEqualTree)).rendering =
    [(.keyword, "NOT"), (.keyword, "NOT"), (.identifier, "a"), (.operator, "="), (.number, "1"),
      (.operator, "+"), (.number, "2"), (.operator, "*"), (.operator, "-"), (.identifier, "b")] := by
  decide

/-- A number whose text `int` does not take is not read. -/
lemma not_returns_number {text : String} {e : SqlError} {out : List Token} {tree : Expression ℚ}
    (h : pyNumber (F := ℚ) text = .error e) :
    ¬ Returns pyNumber (parseExpr 2) [⟨.number, text, 0⟩, endToken] tree out := by
  intro hreturns
  have hasked : (parseExpr (F := ℚ) 2 [⟨.number, text, 0⟩, endToken]).asked numberOrNone =
      [text] := rfl
  have htotal : ∀ q v, pyNumber q = .ok v → v = (numberOrNone q : Value ℚ) :=
    fun _ _ hv => pyNumber_eq_ok hv
  obtain ⟨q, -, e', -, hrun⟩ := Asks.run_error_of_asked htotal
    (hasked ▸ List.mem_singleton_self text) h
  rw [Returns, hrun] at hreturns
  cases hreturns

/-- A number with one digit too many. -/
lemma not_convertible_long {limit : ℕ} (hlimit : limit ∈ PyRuntime.intMaxStrDigits ℚ)
    (hpos : 0 < limit) : ¬ Convertible ℚ (toString (10 ^ limit)) := by
  rintro ⟨-, -, -, hlength⟩
  have hpoint : '.' ∉ (toString (10 ^ limit)).toList :=
    fun h => absurd (isDigit_of_mem_toString h) (by decide)
  have hle := hlength hpoint limit hlimit
  rw [String.length_toList, Nat.toString_eq_repr, Nat.length_repr_le_iff hpos] at hle
  exact Nat.lt_irrefl _ hle

/-- The text of `10 ** 4300` has one digit too many. -/
theorem parseExpr_rendering_long_integer : ¬ ∀ (e : Expression ℚ) (ts : List Token) (t : Token)
    (fuel : ℕ) (rest : List Token), e.SqlTree (0 ≤ ·) → ts.map Token.spelling = e.rendering →
      Stops 0 t.spelling → ts.length < fuel →
      Returns pyNumber (parseExpr fuel) (ts ++ t :: rest) e (t :: rest) := by
  intro hall
  obtain ⟨e, he⟩ := pyNumber_of_not_convertible (not_convertible_long rfl (by decide : 0 < 4300))
  exact not_returns_number he (hall (.literal (.int ((10 ^ 4300 : ℕ) : ℤ)))
    [⟨.number, toString (10 ^ 4300), 0⟩] endToken 2 [] (Int.natCast_nonneg _) rfl stops_end
    (by decide))

end Examples

end MiniSpark
