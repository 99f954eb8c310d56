import MiniSpark.SqlStatement

/-!
# How an expression is written

The grammar has nine levels, from `OR` to a primary. A tree is written with parentheses
only where an operand stands looser than its place allows. Which tokens an expression of a
level can start with and which ones stop it is all a reader has to know about its
surroundings.
-/
namespace MiniSpark

variable {F : Type}

section Rendering

/-- A token without its place. -/
abbrev Spelling := TokenType × String

def Token.spelling (t : Token) : Spelling := (t.type, t.value)

lemma Token.is_iff {t : Token} {type : TokenType} {value : String} :
    t.is type value = true ↔ t.spelling = (type, value) := by
  simp only [Token.is, Token.spelling, Bool.and_eq_true, decide_eq_true_eq, beq_iff_eq,
    Prod.mk.injEq]

/-- The level of the grammar an operator belongs to: 0 is the loosest. -/
def BinaryOp.grammarLevel : BinaryOp → ℕ
  | .or => 0
  | .and => 1
  | .greaterThan | .greaterEqual | .lessThan | .lessEqual | .equal | .notEqual => 4
  | .add | .subtract => 5
  | .multiply | .divide => 6

/-- How an operator is written. -/
def BinaryOp.symbol : BinaryOp → Spelling
  | .or => (.keyword, "OR")
  | .and => (.keyword, "AND")
  | .greaterThan => (.operator, ">")
  | .greaterEqual => (.operator, ">=")
  | .lessThan => (.operator, "<")
  | .lessEqual => (.operator, "<=")
  | .equal => (.operator, "=")
  | .notEqual => (.operator, "!=")
  | .add => (.operator, "+")
  | .subtract => (.operator, "-")
  | .multiply => (.operator, "*")
  | .divide => (.operator, "/")

/-- A left operand may be of the operator's own level, but comparisons do not chain. -/
def BinaryOp.leftLevel (op : BinaryOp) : ℕ :=
  if op.grammarLevel = 4 then 5 else op.grammarLevel

/-- The function name of an aggregate. -/
def AggregateName.sqlName : AggregateName → String
  | .count => "COUNT"
  | .sum => "SUM"
  | .avg => "AVG"
  | .min => "MIN"
  | .max => "MAX"

/-- How a value is written; floats have no place here. -/
def Value.spelling : Value F → Spelling
  | .none => (.keyword, "NULL")
  | .bool true => (.keyword, "TRUE")
  | .bool false => (.keyword, "FALSE")
  | .int n => (.number, toString n.toNat)
  | .str s => (.string, s)
  | .float _ | .pair _ _ => (.number, "")

namespace Expression

/-- `Literal(-1)`, which only a unary minus makes. -/
def isMinusOne : Expression F → Bool
  | .literal (.int n) => n == -1
  | _ => false

/-- The level of the grammar a tree belongs to. -/
def grammarLevel : Expression F → ℕ
  | .binary op left _ => if op = .multiply ∧ left.isMinusOne = true then 7 else op.grammarLevel
  | .not _ => 2
  | .isNull _ | .isNotNull _ => 3
  | _ => 8

/-- The body of a tree where one of at least level `k` is wanted. -/
def parenthesized (e : Expression F) (k : ℕ) (body : List Spelling) : List Spelling :=
  if e.grammarLevel < k then (.punctuation, "(") :: (body ++ [(.punctuation, ")")]) else body

/-- A tree with only the parentheses the grammar requires. -/
def rendering : Expression F → List Spelling
  | .column name => [(.identifier, name)]
  | .literal value => [value.spelling]
  | .aliased child _ => child.rendering
  | .binary op left right =>
      if op = .multiply ∧ left.isMinusOne = true then
        (.operator, "-") :: right.parenthesized 7 right.rendering
      else left.parenthesized op.leftLevel left.rendering ++
        op.symbol :: right.parenthesized (op.grammarLevel + 1) right.rendering
  | .not child => (.keyword, "NOT") :: child.parenthesized 2 child.rendering
  | .isNull child =>
      child.parenthesized 4 child.rendering ++ [(.keyword, "IS"), (.keyword, "NULL")]
  | .isNotNull child =>
      child.parenthesized 4 child.rendering ++
        [(.keyword, "IS"), (.keyword, "NOT"), (.keyword, "NULL")]
  | .countStar =>
      [(.identifier, "COUNT"), (.punctuation, "("), (.operator, "*"), (.punctuation, ")")]
  | .aggregate name child =>
      (.identifier, name.sqlName) :: (.punctuation, "(") ::
        (child.rendering ++ [(.punctuation, ")")])

lemma grammarLevel_binary (op : BinaryOp) (left right : Expression F) :
    (binary op left right).grammarLevel =
      if op = .multiply ∧ left.isMinusOne = true then 7 else op.grammarLevel := rfl

/-- The trees SQL can write, where integer literals are among the given ones. -/
def SqlTree (integers : ℤ → Prop) : Expression F → Prop
  | .column _ => True
  | .literal (.int n) => integers n
  | .literal (.float _) => False
  | .literal (.pair _ _) => False
  | .literal _ => True
  | .aliased _ _ => False
  | .binary op left right =>
      ((op = .multiply ∧ left.isMinusOne = true) ∨ left.SqlTree integers) ∧ right.SqlTree integers
  | .not child => child.SqlTree integers
  | .isNull child => child.SqlTree integers
  | .isNotNull child => child.SqlTree integers
  | .countStar => True
  | .aggregate _ child => child.SqlTree integers

end Expression

end Rendering

section Tokens

def comparisonSymbols : List String := ["=", "!=", "<>", "<", "<=", ">", ">="]

/-- The token after an expression does not continue it, at level `k` or a tighter one. -/
structure Stops (k : ℕ) (s : Spelling) : Prop where
  or : k ≤ 0 → s ≠ (.keyword, "OR")
  and : k ≤ 1 → s ≠ (.keyword, "AND")
  is : k ≤ 3 → s ≠ (.keyword, "IS")
  comparison : k ≤ 4 → ∀ v ∈ comparisonSymbols, s ≠ (.operator, v)
  add : k ≤ 5 → s ≠ (.operator, "+") ∧ s ≠ (.operator, "-")
  multiply : k ≤ 6 → s ≠ (.operator, "*") ∧ s ≠ (.operator, "/")
  call : s ≠ (.punctuation, "(")
  qualifier : s ≠ (.punctuation, ".")

lemma Stops.mono {k k' : ℕ} {s : Spelling} (h : Stops k s) (hk : k ≤ k') : Stops k' s where
  or hk' := h.or (hk.trans hk')
  and hk' := h.and (hk.trans hk')
  is hk' := h.is (hk.trans hk')
  comparison hk' := h.comparison (hk.trans hk')
  add hk' := h.add (hk.trans hk')
  multiply hk' := h.multiply (hk.trans hk')
  call := h.call
  qualifier := h.qualifier

/-- An operator does not continue an operand of a tighter level. -/
lemma stops_symbol (op : BinaryOp) : Stops (op.grammarLevel + 1) op.symbol := by
  cases op <;> constructor <;> decide

lemma stops_is : Stops 4 (.keyword, "IS") := by constructor <;> decide

lemma stops_close : Stops 0 (.punctuation, ")") := by constructor <;> decide

/-- A token an expression of level `k` may start with. -/
structure Starts (k : ℕ) (s : Spelling) : Prop where
  not : 3 ≤ k → s ≠ (.keyword, "NOT")
  minus : 8 ≤ k → s ≠ (.operator, "-")
  star : s ≠ (.operator, "*")

lemma Starts.mono {k k' : ℕ} {s : Spelling} (h : Starts k s) (hk : k' ≤ k) : Starts k' s where
  not hk' := h.not (hk'.trans hk)
  minus hk' := h.minus (hk'.trans hk)
  star := h.star

/-- What only an operand starts with. -/
lemma starts_operand {s : Spelling} (hnot : s ≠ (.keyword, "NOT")) (hminus : s ≠ (.operator, "-"))
    (hstar : s ≠ (.operator, "*")) (k : ℕ) : Starts k s :=
  ⟨fun _ => hnot, fun _ => hminus, hstar⟩

lemma starts_value (v : Value F) (k : ℕ) : Starts k v.spelling := by
  have hvalue : ∀ w : Spelling, w ∈ [(TokenType.keyword, "NOT"), (.operator, "-"), (.operator, "*")] →
      v.spelling ≠ w := by
    intro w hw
    simp only [List.mem_cons, List.not_mem_nil, or_false] at hw
    cases v with
    | bool b => cases b <;> rcases hw with rfl | rfl | rfl <;> simp [Value.spelling]
    | none | int n | str s | float x | pair total count =>
        rcases hw with rfl | rfl | rfl <;> simp [Value.spelling]
  exact starts_operand (hvalue _ (by simp)) (hvalue _ (by simp)) (hvalue _ (by simp)) k

lemma starts_parenthesized {e : Expression F} {body : List Spelling} {k : ℕ}
    (h : ∃ s ss, body = s :: ss ∧ Starts e.grammarLevel s) :
    ∃ s ss, e.parenthesized k body = s :: ss ∧ Starts k s := by
  unfold Expression.parenthesized
  by_cases hk : e.grammarLevel < k
  · rw [if_pos hk]
    exact ⟨_, _, rfl, starts_operand (by decide) (by decide) (by decide) k⟩
  · rw [if_neg hk]
    obtain ⟨s, ss, rfl, hs⟩ := h
    exact ⟨s, ss, rfl, hs.mono (by omega)⟩

lemma exists_cons_append {s : Spelling} {ss ts rest : List Spelling} {k k' : ℕ}
    (h : ts = s :: ss) (hs : Starts k s) (hk : k' ≤ k) :
    ∃ s' ss', ts ++ rest = s' :: ss' ∧ Starts k' s' :=
  ⟨s, ss ++ rest, by rw [h, List.cons_append], hs.mono hk⟩

end Tokens

section Steps

variable {answer : String → Except SqlError (Value F)} {α : Type}

lemma current_returns (t : Token) (ts : List Token) :
    Returns answer (current : SqlParse F Token) (t :: ts) t (t :: ts) := rfl

lemma advance_returns {t : Token} (ts : List Token) (h : t.type ≠ .eof) :
    Returns answer (advance : SqlParse F Token) (t :: ts) t ts := by
  unfold Returns
  rw [advance_cons ts h]
  rfl

lemma matchToken_true {type : TokenType} {value : String} {t : Token} (ts : List Token)
    (htype : type ≠ .eof) (h : t.spelling = (type, value)) :
    Returns answer (matchToken type value : SqlParse F Bool) (t :: ts) true ts := by
  unfold Returns
  rw [matchToken_of_is ts htype (Token.is_iff.mpr h)]
  rfl

lemma matchToken_false {type : TokenType} {value : String} {t : Token} (ts : List Token)
    (h : t.spelling ≠ (type, value)) :
    Returns answer (matchToken type value : SqlParse F Bool) (t :: ts) false (t :: ts) := by
  unfold Returns
  rw [matchToken_of_not ts (fun his => h (Token.is_iff.mp his))]
  rfl

lemma expectToken_returns [PyRuntime F] {type : TokenType} {value : String} {t : Token}
    (ts : List Token) (htype : type ≠ .eof) (h : t.spelling = (type, value)) :
    Returns answer (expectToken type value : SqlParse F Unit) (t :: ts) () ts :=
  returns_bind.mpr ⟨true, ts, matchToken_true ts htype h, returns_pure.mpr ⟨rfl, rfl⟩⟩

lemma convertNumber_returns {text : String} {v : Value F} (ts : List Token)
    (h : answer text = .ok v) : Returns answer (convertNumber text) ts v ts := by
  unfold Returns convertNumber
  rw [Asks.run, h]
  rfl

lemma Token.type_eq {t : Token} {type : TokenType} {value : String}
    (h : t.spelling = (type, value)) : t.type = type ∧ t.value = value := by
  rw [Token.spelling, Prod.mk.injEq] at h
  exact h

/-- A token that cannot continue the level is no operator of it. -/
lemma orOperator_stops {t : Token} (h : Stops 0 t.spelling) :
    (orOperator t : Option (Expression F → Expression F → Expression F)) = none :=
  if_neg (fun his => h.or (Nat.le_refl 0) (Token.is_iff.mp his))

lemma andOperator_stops {t : Token} (h : Stops 1 t.spelling) :
    (andOperator t : Option (Expression F → Expression F → Expression F)) = none :=
  if_neg (fun his => h.and (Nat.le_refl 1) (Token.is_iff.mp his))

lemma comparisonOperator_stops {t : Token} (h : Stops 4 t.spelling) :
    (comparisonOperator t : Option (Expression F → Expression F → Expression F)) = none := by
  have hno : ∀ v ∈ comparisonSymbols, ¬ t.is .operator v = true :=
    fun v hv his => h.comparison (Nat.le_refl 4) v hv (Token.is_iff.mp his)
  unfold comparisonOperator
  rw [if_neg (hno "=" (by decide)), if_neg (hno "!=" (by decide)), if_neg (hno "<>" (by decide)),
    if_neg (hno "<" (by decide)), if_neg (hno "<=" (by decide)), if_neg (hno ">" (by decide)),
    if_neg (hno ">=" (by decide))]

lemma additiveOperator_stops {t : Token} (h : Stops 5 t.spelling) :
    (additiveOperator t : Option (Expression F → Expression F → Expression F)) = none := by
  unfold additiveOperator
  rw [if_neg (fun his => (h.add (Nat.le_refl 5)).1 (Token.is_iff.mp his)),
    if_neg (fun his => (h.add (Nat.le_refl 5)).2 (Token.is_iff.mp his))]

lemma multiplicativeOperator_stops {t : Token} (h : Stops 6 t.spelling) :
    (multiplicativeOperator t : Option (Expression F → Expression F → Expression F)) = none := by
  unfold multiplicativeOperator
  rw [if_neg (fun his => (h.multiply (Nat.le_refl 6)).1 (Token.is_iff.mp his)),
    if_neg (fun his => (h.multiply (Nat.le_refl 6)).2 (Token.is_iff.mp his))]

end Steps

end MiniSpark
