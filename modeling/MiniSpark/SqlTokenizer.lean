import MiniSpark.Repr

/-!
# The SQL tokenizer

A hand-written scanner over the characters of a query. It works on what is left of the
text; an index of the source is the length of the text less what is left. What the
interpreter knows about characters beyond ASCII is a parameter.
-/
namespace MiniSpark

section Characters

/-- What the interpreter knows about characters beyond ASCII, and about reading numbers. -/
class PyText (F : Type) where
  isSpace : Char → Bool
  isDigit : Char → Bool
  isAlpha : Char → Bool
  isAlnum : Char → Bool
  upper : Char → List Char
  /-- The value of a decimal digit; not every digit is one. -/
  decimalDigit : Char → Option ℕ
  /-- `float(text)` from the digits before and after the point. -/
  readFloat : (whole fraction : List ℕ) → F
  isAlnum_of_isAlpha : ∀ c, isAlpha c = true → isAlnum c = true
  decimalDigit_lt : ∀ c d, decimalDigit c = some d → d < 10

variable (F : Type) [PyText F]

/-- Whether a character property is left to the interpreter's tables. -/
def isAscii (c : Char) : Bool := c.toNat < 128

/-- `c.isspace()`. -/
def isSpace (c : Char) : Bool :=
  if isAscii c then (9 ≤ c.toNat && c.toNat ≤ 13) || (28 ≤ c.toNat && c.toNat ≤ 32)
  else PyText.isSpace F c

/-- `c.isdigit()`. -/
def isDigit (c : Char) : Bool := if isAscii c then c.isDigit else PyText.isDigit F c

/-- `c.isalpha()`. -/
def isAlpha (c : Char) : Bool := if isAscii c then c.isAlpha else PyText.isAlpha F c

/-- `c.isalnum()`. -/
def isAlnum (c : Char) : Bool := if isAscii c then c.isAlphanum else PyText.isAlnum F c

lemma isAlnum_of_isAlpha {c : Char} (h : isAlpha F c = true) : isAlnum F c = true := by
  unfold isAlpha at h
  unfold isAlnum
  by_cases hc : isAscii c = true
  · rw [if_pos hc] at h ⊢
    exact Bool.or_eq_true_iff.mpr (Or.inl h)
  · rw [if_neg hc] at h ⊢
    exact PyText.isAlnum_of_isAlpha c h

/-- `text.upper()`. -/
def upper (text : String) : String :=
  String.ofList (text.toList.flatMap
    (fun c => if isAscii c then [c.toUpper] else PyText.upper F c))

/-- The value of a decimal digit of any script. -/
def decimalDigit (c : Char) : Option ℕ :=
  if isAscii c then (if c.isDigit then some (c.toNat - 48) else none)
  else PyText.decimalDigit F c

/-- The number a list of decimal digits writes. -/
def digitsValue (digits : List ℕ) : ℕ := digits.foldl (fun n d => 10 * n + d) 0

/-- Latin-1 characters beyond ASCII, with exact floats. -/
instance latinText : PyText ℚ where
  isSpace c := c.toNat = 133 || c.toNat = 160
  isDigit c := c.toNat ∈ [178, 179, 185]
  isAlpha c := c.toNat ∈ [170, 181, 186] ||
    (192 ≤ c.toNat && c.toNat ≤ 255 && c.toNat != 215 && c.toNat != 247)
  isAlnum c := c.toNat ∈ [170, 178, 179, 181, 185, 186, 188, 189, 190] ||
    (192 ≤ c.toNat && c.toNat ≤ 255 && c.toNat != 215 && c.toNat != 247)
  upper c :=
    if c.toNat = 181 then [Char.ofNat 924]
    else if c.toNat = 223 then ['S', 'S']
    else if c.toNat = 255 then [Char.ofNat 376]
    else if 224 ≤ c.toNat ∧ c.toNat ≤ 254 ∧ c.toNat ≠ 247 then [Char.ofNat (c.toNat - 32)]
    else [c]
  decimalDigit _ := none
  readFloat whole fraction := (digitsValue (whole ++ fraction) : ℚ) / 10 ^ fraction.length
  isAlnum_of_isAlpha c h := by
    rw [Bool.or_eq_true] at h ⊢
    refine h.imp_left (fun h => ?_)
    simp only [decide_eq_true_eq, List.mem_cons, List.not_mem_nil, or_false] at h ⊢
    omega
  decimalDigit_lt _ _ h := by cases h

end Characters

section Tokens

/-- `KEYWORDS`. -/
def keywords : List String :=
  ["SELECT", "FROM", "WHERE", "GROUP", "BY", "HAVING", "ORDER", "ASC", "DESC", "JOIN", "ON", "AS",
    "AND", "OR", "NOT", "NULL", "IS", "TRUE", "FALSE"]

inductive TokenType
  | keyword | identifier | number | string | operator | punctuation | eof
  deriving DecidableEq, Repr

structure Token where
  type : TokenType
  value : String
  position : ℕ
  deriving DecidableEq, Repr

/-- What parsing a query raises: the two kinds of `SqlSyntaxError`, another exception, or
a bound that was too small. -/
inductive SqlError
  | lexError (message : String)
  | parseError (message : String)
  | raised (e : PyError)
  | outOfFuel
  deriving DecidableEq, Repr

/-- `_MULTI_CHAR_OPERATORS`. -/
def multiCharOperators : List String := ["<=", ">=", "!=", "<>"]

/-- `_SINGLE_CHAR_OPERATORS`. -/
def singleCharOperators : List Char := ['=', '<', '>', '+', '-', '*', '/']

/-- `_PUNCTUATION`. -/
def punctuation : List Char := ['(', ')', ',', '.']

end Tokens

section Scanner

variable (F : Type) [PyText F]

/-- A token, and what is left of the text. -/
def scanned (token : Token) (left : List Char) : Except SqlError (Option Token × List Char) :=
  .ok (some token, left)

/-- `_read_string` after the opening quote, with the characters read so far. -/
def readString (start : ℕ) : List Char → List Char → Except SqlError (String × List Char)
  | _, [] => .error (.lexError ("Unterminated string literal starting at position " ++
      toString start))
  | chars, c :: rest =>
      if c = singleQuote then
        match rest with
        | d :: rest' =>
            if d = singleQuote then readString start (chars ++ [singleQuote]) rest'
            else .ok (String.ofList chars, rest)
        | [] => .ok (String.ofList chars, [])
      else readString start (chars ++ [c]) rest

/-- `_read_number`: digits and at most one point. -/
def readNumber : Bool → List Char → List Char × List Char
  | _, [] => ([], [])
  | sawDot, c :: rest =>
      if isDigit F c || (c == '.' && !sawDot) then
        let tail := readNumber (sawDot || c == '.') rest
        (c :: tail.1, tail.2)
      else ([], c :: rest)

/-- `_read_identifier`. -/
def readIdentifier (text : List Char) : String × List Char :=
  (String.ofList (text.takeWhile (fun c => isAlnum F c || c == '_')),
    text.dropWhile (fun c => isAlnum F c || c == '_'))

/-- A line comment ends after the next newline. -/
def skipComment (text : List Char) : List Char := (text.dropWhile (· != '\n')).drop 1

/-- The number branch is taken on a digit, and on a point before one. -/
def startsNumber : List Char → Bool
  | c :: rest => isDigit F c || (c == '.' && (rest.head?.map (isDigit F)).getD false)
  | [] => false

variable [PyRuntime F]

/-- One turn of the loop of `tokenize`, on text that is not used up: a token or a blank,
and what is left. -/
def nextToken (text : String) (c : Char) (rest : List Char) :
    Except SqlError (Option Token × List Char) :=
  let n := text.length
  let i := n - (rest.length + 1)
  if isSpace F c then .ok (none, rest)
  else if c = '-' ∧ rest.head? = some '-' then .ok (none, skipComment (c :: rest))
  else if c = singleQuote then do
    let r ← readString i [] rest
    scanned ⟨.string, r.1, n - r.2.length⟩ r.2
  else if startsNumber F (c :: rest) then
    let r := readNumber F false (c :: rest)
    scanned ⟨.number, String.ofList r.1, n - r.2.length⟩ r.2
  else if isAlpha F c || c == '_' then
    let r := readIdentifier F (c :: rest)
    if upper F r.1 ∈ keywords then scanned ⟨.keyword, upper F r.1, n - r.2.length⟩ r.2
    else scanned ⟨.identifier, r.1, n - r.2.length⟩ r.2
  else if String.ofList ((c :: rest).take 2) ∈ multiCharOperators then
    scanned ⟨.operator, String.ofList ((c :: rest).take 2), i⟩ (rest.drop 1)
  else if c ∈ singleCharOperators then scanned ⟨.operator, String.ofList [c], i⟩ rest
  else if c ∈ punctuation then scanned ⟨.punctuation, String.ofList [c], i⟩ rest
  else .error (.lexError ("Unexpected character " ++
    reprStr (PyRuntime.isPrintable F) (String.ofList [c]) ++ " at position " ++ toString i ++
    " in: " ++ reprStr (PyRuntime.isPrintable F) text))

/-- The loop of `tokenize`; each turn uses up a character. -/
def tokenizeLoop (text : String) : ℕ → List Char → Except SqlError (List Token)
  | _, [] => .ok [⟨.eof, "", text.length⟩]
  | 0, _ :: _ => .error .outOfFuel
  | fuel + 1, c :: rest => do
      let r ← nextToken F text c rest
      let tokens ← tokenizeLoop text fuel r.2
      pure (r.1.toList ++ tokens)

/-- `tokenize`. -/
def tokenize (text : String) : Except SqlError (List Token) :=
  tokenizeLoop F text text.length text.toList

end Scanner

end MiniSpark
