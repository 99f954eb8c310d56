import MiniSpark.Value

/-!
# `repr`

Text of values and lists as the interpreter prints them. Output column names,
plan fingerprints and shuffle hashes are all made of this text. Printing raises
at an integer with more digits than the interpreter converts; `text` is what
would be printed without that limit, and `prints` says whether it is.
-/
namespace MiniSpark

def singleQuote : Char := Char.ofNat 39
def doubleQuote : Char := Char.ofNat 34
def backslash : Char := Char.ofNat 92

/-- Lowercase hexadecimal digits, padded with zeros to `width`. -/
def hexDigits (width n : ℕ) : List Char :=
  let digits := Nat.toDigits 16 n
  List.replicate (width - digits.length) '0' ++ digits

/-- One character of a text between `quote`s. -/
def reprChar (isPrintable : Char → Bool) (quote c : Char) : List Char :=
  if c = quote ∨ c = backslash then [backslash, c]
  else if c = '\t' then [backslash, 't']
  else if c = '\n' then [backslash, 'n']
  else if c = '\r' then [backslash, 'r']
  else if c.toNat < 32 ∨ c.toNat = 127 then backslash :: 'x' :: hexDigits 2 c.toNat
  else if c.toNat < 127 ∨ isPrintable c then [c]
  else if c.toNat ≤ 255 then backslash :: 'x' :: hexDigits 2 c.toNat
  else if c.toNat ≤ 65535 then backslash :: 'u' :: hexDigits 4 c.toNat
  else backslash :: 'U' :: hexDigits 8 c.toNat

/-- Double quotes are used only for a text with a single and no double quote. -/
def reprStr (isPrintable : Char → Bool) (s : String) : String :=
  let chars := s.toList
  let quote := if singleQuote ∈ chars ∧ doubleQuote ∉ chars then doubleQuote else singleQuote
  String.ofList (quote :: chars.flatMap (reprChar isPrintable quote) ++ [quote])

def reprBool (b : Bool) : String := if b then "True" else "False"

section Values

variable {F : Type} [PyRuntime F]

/-- `ValueError` of an integer beyond the digit limit. -/
def digitLimitError (F : Type) [PyRuntime F] : PyError :=
  .valueError ("Exceeds the limit (" ++ toString ((PyRuntime.intMaxStrDigits F).getD 0) ++
    " digits) for integer string conversion; use sys.set_int_max_str_digits() to increase the limit")

/-- Whether the interpreter converts an integer to text. -/
def intPrints (F : Type) [PyRuntime F] (i : ℤ) : Bool :=
  match PyRuntime.intMaxStrDigits F with
  | some limit => (toString i.natAbs).length ≤ limit
  | none => true

/-- A text that prints or fails as a whole. -/
def printed (F : Type) [PyRuntime F] (prints : Bool) (text : String) : Py String :=
  if prints then .ok text else .error (digitLimitError F)

/-- `repr` of an integer. -/
def reprInt (F : Type) [PyRuntime F] (i : ℤ) : Py String := printed F (intPrints F i) (toString i)

/-- `repr(value)`. -/
def Value.repr : Value F → Py String
  | .none => .ok "None"
  | .bool b => .ok (reprBool b)
  | .int i => reprInt F i
  | .float x => .ok (PyRuntime.reprFloat x)
  | .str s => .ok (reprStr (PyRuntime.isPrintable F) s)
  | .pair a b => do
      let first ← a.repr
      let second ← b.repr
      pure ("(" ++ first ++ ", " ++ second ++ ")")

/-- `repr` of a tuple of values; a one-element tuple keeps its comma. -/
def reprTuple : List (Value F) → Py String
  | [a] => do
      let text ← a.repr
      pure ("(" ++ text ++ ",)")
  | vs => do
      let texts ← vs.mapM Value.repr
      pure ("(" ++ ", ".intercalate texts ++ ")")

/-- The text of a value at any length. -/
def Value.text : Value F → String
  | .none => "None"
  | .bool b => reprBool b
  | .int i => toString i
  | .float x => PyRuntime.reprFloat x
  | .str s => reprStr (PyRuntime.isPrintable F) s
  | .pair a b => "(" ++ a.text ++ ", " ++ b.text ++ ")"

/-- Whether a value has a text. -/
def Value.prints : Value F → Bool
  | .int i => intPrints F i
  | .pair a b => a.prints && b.prints
  | _ => true

/-- The text of a tuple at any length. -/
def tupleText : List (Value F) → String
  | [a] => "(" ++ a.text ++ ",)"
  | vs => "(" ++ ", ".intercalate (vs.map Value.text) ++ ")"

/-- An integer prints when it is below the power of ten of the limit. -/
theorem intPrints_iff {i : ℤ} :
    intPrints F i = true ↔ ∀ limit ∈ PyRuntime.intMaxStrDigits F, i.natAbs < 10 ^ limit := by
  unfold intPrints
  cases hmax : PyRuntime.intMaxStrDigits F with
  | none => simp
  | some limit =>
      have hpos : 0 < limit := Nat.lt_of_lt_of_le (by decide) (PyRuntime.intMaxStrDigits_ge limit hmax)
      simp only [decide_eq_true_eq, Option.mem_def, Option.some.injEq, forall_eq']
      rw [Nat.toString_eq_repr, Nat.length_repr_le_iff hpos]

/-- Integers of one digit print under every limit. -/
theorem intPrints_of_lt {i : ℤ} (h : i.natAbs < 10) : intPrints F i = true := by
  refine intPrints_iff.mpr (fun limit hlimit => h.trans_le ?_)
  have hge := PyRuntime.intMaxStrDigits_ge limit hlimit
  exact Nat.le_self_pow (by omega) 10

/-- The power of ten of the limit has one digit too many. -/
theorem not_intPrints_pow {limit : ℕ} (hlimit : limit ∈ PyRuntime.intMaxStrDigits F) :
    intPrints F (10 ^ limit) = false := by
  rw [Bool.eq_false_iff]
  intro h
  have hlt := intPrints_iff.mp h limit hlimit
  rw [Int.natAbs_pow] at hlt
  exact Nat.lt_irrefl _ hlt

@[simp] theorem printed_true (text : String) : printed F true text = .ok text := rfl

@[simp] theorem printed_false (text : String) :
    printed F false text = .error (digitLimitError F) := rfl

theorem printed_eq_ok {prints : Bool} {text t : String} :
    printed F prints text = .ok t ↔ prints = true ∧ t = text := by
  cases prints <;> simp [eq_comm]

/-- Two texts in a row print when both do. -/
theorem printed_bind_printed (p q : Bool) (x y : String) (join : String → String → String) :
    (do let a ← printed F p x
        let b ← printed F q y
        pure (join a b)) = printed F (p && q) (join x y) := by
  cases p <;> cases q <;> rfl

theorem printed_bind (p : Bool) (x : String) (wrap : String → String) :
    (do let a ← printed F p x
        pure (wrap a)) = printed F p (wrap x) := by
  cases p <;> rfl

/-- A list of texts prints when all of them do. -/
theorem mapM_printed {α : Type} (prints : α → Bool) (text : α → String) (join : List String → String)
    (xs : List α) : (do
      let texts ← xs.mapM (fun x => printed F (prints x) (text x))
      pure (join texts)) = printed F (xs.all prints) (join (xs.map text)) := by
  induction xs generalizing join with
  | nil => rfl
  | cons x xs ih =>
      have := ih (fun texts => join (text x :: texts))
      cases hx : prints x with
      | false => simp [List.mapM_cons, hx, ExceptList.bind_error]
      | true => simpa [List.mapM_cons, hx] using this

/-- A value prints its text or exceeds the limit. -/
theorem Value.repr_eq (v : Value F) : v.repr = printed F v.prints v.text := by
  induction v with
  | pair a b iha ihb =>
      rw [Value.repr, iha, ihb]
      exact printed_bind_printed _ _ _ _ (fun x y => "(" ++ x ++ ", " ++ y ++ ")")
  | _ => rfl

theorem reprTuple_eq (vs : List (Value F)) :
    reprTuple vs = printed F (vs.all Value.prints) (tupleText vs) := by
  match vs with
  | [a] =>
      rw [reprTuple, Value.repr_eq, List.all_cons, List.all_nil, Bool.and_true]
      exact printed_bind _ _ (fun t => "(" ++ t ++ ",)")
  | [] => rfl
  | a :: b :: vs =>
      have h : (a :: b :: vs).mapM Value.repr =
          (a :: b :: vs).mapM (fun v => printed F v.prints v.text) :=
        congrArg (fun f => (a :: b :: vs).mapM f) (funext Value.repr_eq)
      rw [reprTuple, h]
      · exact mapM_printed Value.prints Value.text (fun ts => "(" ++ ", ".intercalate ts ++ ")") _
      · simp

end Values

/-- An integer of one digit more than the interpreter prints by default. -/
@[irreducible] def longInt : ℤ := 10 ^ 4300

theorem longInt_not_prints : intPrints ℚ longInt = false := by
  rw [longInt]
  exact not_intPrints_pow rfl

/-- `repr` of a list of names. -/
def reprNames (isPrintable : Char → Bool) (names : List String) : String :=
  "[" ++ ", ".intercalate (names.map (reprStr isPrintable)) ++ "]"

example : reprStr isPrintableLatin "it's\n" = "\"it's\\n\"" := by decide

end MiniSpark
